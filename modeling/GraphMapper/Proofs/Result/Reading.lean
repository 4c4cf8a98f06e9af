import GraphMapper.Proofs.Codec.Stored
import GraphMapper.Proofs.Compile.Binder
import GraphMapper.Proofs.Plan.Names
import GraphMapper.Proofs.Registry.Built
import GraphMapper.Compile.Merge
import GraphMapper.Result.Entity

/-!
# Stored properties, read back

Of the declared properties some are given a value, the one supplied or else a
default (`givenValues`), and these are what is stored.  Reading them needs a
declaration for each that is stored under its storage name and is the only one
there (`Property.ReadBy`); then every given value is decoded under its own name,
unless it is JSON that nests too deeply.
-/

namespace GraphMapper

/-! ## Entries with distinct keys -/

namespace Dict

variable {α : Type} {k : String} {v : α}

theorem get?_foldl_insert_of_notMem {es : List (String × α)} (h : k ∉ es.map Prod.fst)
    (d : Dict α) : (es.foldl (fun d e => d.insert e.1 e.2) d).get? k = d.get? k := by
  induction es generalizing d with
  | nil => rfl
  | cons e rest ih =>
    simp only [List.map_cons, List.mem_cons, not_or] at h
    rw [List.foldl_cons, ih h.2, get?_insert, if_neg (Ne.symm h.1)]

/-- Of entries with distinct keys none is overwritten. -/
theorem get?_foldl_insert_of_mem {es : List (String × α)} (hnodup : (es.map Prod.fst).Nodup)
    (hmem : (k, v) ∈ es) (d : Dict α) :
    (es.foldl (fun d e => d.insert e.1 e.2) d).get? k = some v := by
  induction es generalizing d with
  | nil => cases hmem
  | cons e rest ih =>
    obtain ⟨hfresh, hrest⟩ := List.nodup_cons.1 hnodup
    rcases List.mem_cons.1 hmem with rfl | hmem
    · rw [List.foldl_cons, get?_foldl_insert_of_notMem hfresh, get?_insert_self]
    · exact ih hrest hmem _

theorem mem_of_mem_ofList {es : List (String × α)} {e : String × α} (h : e ∈ ofList es) : e ∈ es := by
  have hfold (d : Dict α) (h : e ∈ es.foldl (fun d e => d.insert e.1 e.2) d) : e ∈ d ∨ e ∈ es := by
    clear * - h
    induction es generalizing d with
    | nil => exact .inl h
    | cons e' rest ih =>
      rcases ih _ h with h | h
      · rcases mem_insert h with rfl | h
        · exact .inr List.mem_cons_self
        · exact .inl h
      · exact .inr (List.mem_cons_of_mem e' h)
  exact (hfold [] h).resolve_left nofun

end Dict

/-! ## Given values -/

/-- The value that a property is given: the one supplied, or else a default. -/
def Property.given? (p : Property) (supplied : Properties) (fresh : String) : Option Value :=
  supplied? supplied p <|> p.defaultValue? fresh

/-- The properties from some position on that are given a value, each with its value. -/
def givenValues (supplied : Properties) (ids : Identifiers) (position : Nat) :
    List Property → List (Property × Value)
  | [] => []
  | p :: rest =>
    ((p.given? supplied (ids position)).map (p, ·)).toList ++
      givenValues supplied ids (position + 1) rest

theorem givenValues_sublist (supplied : Properties) (ids : Identifiers) (position : Nat)
    (ps : List Property) : ((givenValues supplied ids position ps).map Prod.fst).Sublist ps := by
  induction ps generalizing position with
  | nil => exact List.Sublist.refl _
  | cons p rest ih =>
    rw [givenValues]
    cases p.given? supplied (ids position) with
    | none => exact (ih _).cons p
    | some v => exact (ih _).cons_cons p

/-- A supplied value is given to its property. -/
theorem mem_givenValues {supplied : Properties} {ids : Identifiers} {position : Nat}
    {ps : List Property} {p : Property} {v : Value} (hp : p ∈ ps)
    (hv : supplied.get? p.name = some v) (hnull : v.isNull = false) :
    (p, v) ∈ givenValues supplied ids position ps := by
  induction ps generalizing position with
  | nil => cases hp
  | cons q rest ih =>
    rw [givenValues, List.mem_append]
    rcases List.mem_cons.1 hp with rfl | hp
    · have hgiven : p.given? supplied (ids position) = some v := by
        simp [Property.given?, supplied?, hv, hnull]
      exact .inl (by simp [hgiven])
    · exact .inr (ih hp)

/-! ## Stored values -/

/-- What a given value is stored as. -/
def StoredAs (g : Property × Value) (e : String × Value) : Prop :=
  e.1 = g.1.storageName ∧ g.1.codec.encode g.2 = .ok e.2

/-- A property is created with what its given value is stored as. -/
theorem Property.createdValue?_eq_ok {p : Property} {supplied : Properties} {fresh : String}
    {w? : Option Value} (h : p.createdValue? supplied fresh = .ok w?) :
    (p.given? supplied fresh = none ∧ w? = none) ∨
      ∃ v w, p.given? supplied fresh = some v ∧ p.codec.encode v = .ok w ∧ w? = some w := by
  have hvalue : (supplied? supplied p <|> p.defaultValue? fresh) = p.given? supplied fresh := rfl
  unfold createdValue? at h
  rw [hvalue] at h
  cases hgiven : p.given? supplied fresh with
  | none =>
    rw [hgiven] at h
    dsimp only at h
    split at h
    · cases h
    · exact .inl ⟨rfl, (pure_eq_ok.1 h).symm⟩
  | some v =>
    rw [hgiven] at h
    obtain ⟨w, hw, hsome⟩ := bind_eq_ok.1 h
    exact .inr ⟨v, w, rfl, mapError_eq_ok.1 hw, (pure_eq_ok.1 hsome).symm⟩

/-- Among some declarations one alone is stored under a property's storage name, and it has the
property's name and codec. -/
def Property.ReadBy (p : Property) (declared : List Property) : Prop :=
  ∃ q ∈ declared, q.name = p.name ∧ q.codec = p.codec ∧
    ∀ q' ∈ declared, q'.storageName = p.storageName ↔ q' = q

/-- A property fails to be read where what is stored of it fails to be decoded. -/
theorem Property.read_eq_error {q : Property} {raw : Dict Value} {e : Error}
    (h : q.read raw = .error e) :
    ∃ w e', raw.get? q.storageName = some w ∧ q.codec.decode w = .error e' ∧
      e = .decode q.name e' := by
  unfold Property.read at h
  cases hw : raw.get? q.storageName with
  | none =>
    rw [hw] at h
    cases h
  | some w =>
    rw [hw] at h
    dsimp only at h
    cases hdecode : q.codec.decode w with
    | ok u =>
      rw [hdecode] at h
      cases h
    | error e' =>
      rw [hdecode] at h
      cases h
      exact ⟨w, e', rfl, hdecode, rfl⟩

/-- Given values come back under the names of their properties, each decoded from what it was
stored as. -/
def ReadBack (given : List (Property × Value)) (raw read : Dict Value) : Prop :=
  ∀ p v, (p, v) ∈ given → ∃ w u, p.codec.encode v = .ok w ∧ raw.get? p.storageName = some w ∧
    p.codec.decode w = .ok u ∧ read.get? p.name = some u

/-- Properties that meet in storage come back only where their values are stored alike. -/
theorem ReadBack.encode_eq {given : List (Property × Value)} {raw read : Dict Value}
    (h : ReadBack given raw read) {p q : Property} {v u : Value} (hv : (p, v) ∈ given)
    (hu : (q, u) ∈ given) (hmeet : p.storageName = q.storageName) :
    p.codec.encode v = q.codec.encode u := by
  obtain ⟨w, _, hencode, hw, -⟩ := h p v hv
  obtain ⟨w', _, hencode', hw', -⟩ := h q u hu
  rw [hmeet, hw'] at hw
  rw [hencode, hencode', Option.some.inj hw]

section

variable {given : List (Property × Value)} {stored : List (String × Value)}
  {declared : List Property} {raw : Dict Value}

/-- Properties that are read apart are stored apart. -/
theorem nodup_stored (hgiven : Property.Distinct (given.map Prod.fst))
    (hread : ∀ g ∈ given, g.1.ReadBy declared) (hstored : List.Forall₂ StoredAs given stored) :
    (stored.map Prod.fst).Nodup := by
  have hkeys : stored.map Prod.fst = given.map fun g => g.1.storageName := by
    clear hgiven hread
    induction hstored with
    | nil => rfl
    | cons h _ ih => rw [List.map_cons, List.map_cons, ih, h.1]
  rw [hkeys, List.Nodup, List.pairwise_map]
  rw [Property.Distinct, List.Nodup, List.pairwise_map, List.pairwise_map] at hgiven
  refine hgiven.imp_of_mem fun {g g'} hg hg' hname hstorage => hname ?_
  obtain ⟨q, hq, hqname, -, honly⟩ := hread g hg
  obtain ⟨q', hq', hqname', -, honly'⟩ := hread g' hg'
  have hsame : q = q' := (honly' q hq).1 (((honly q hq).2 rfl).trans hstorage)
  rw [← hqname, ← hqname', hsame]

/-- What is read is what the declared properties read as, each under its name, and over that
everything stored that no declaration is about. -/
theorem readProperties_eq_ok {read : Dict Value} (h : readProperties declared raw = .ok read) :
    ∃ decoded : List (String × Value), decoded.map Prod.fst = declared.map Property.name ∧
      (∀ q ∈ declared, ∃ u, q.read raw = .ok u ∧ (q.name, u) ∈ decoded) ∧
      read = .ofList
        (decoded ++ raw.filter fun e => (Property.findStored? declared e.1).isNone) := by
  obtain ⟨decoded, hdecoded, hread⟩ := bind_eq_ok.1 h
  have hpairs := forall₂_of_mapM hdecoded
  refine ⟨decoded, ?_, fun q hq => ?_, (pure_eq_ok.1 hread).symm⟩
  · clear * - hpairs
    induction hpairs with
    | nil => rfl
    | cons h _ ih =>
      obtain ⟨u, -, hu⟩ := bind_eq_ok.1 h
      rw [List.map_cons, List.map_cons, ih, ← pure_eq_ok.1 hu]
  · obtain ⟨b, hb, hqb⟩ := exists_of_mem_forall₂ hpairs.flip hq
    obtain ⟨u, hu, hpair⟩ := bind_eq_ok.1 hqb
    exact ⟨u, hu, pure_eq_ok.1 hpair ▸ hb⟩

/-- Where nothing is stored that is not declared, every declared property is read, under its own
name, or reading fails as one of them does. -/
theorem readProperties_cases (hnames : Property.Distinct declared)
    (hothers : raw.filter (fun e => (Property.findStored? declared e.1).isNone) = []) :
    (∃ read, readProperties declared raw = .ok read ∧
      ∀ q ∈ declared, ∃ u, q.read raw = .ok u ∧ read.get? q.name = some u) ∨
      ∃ q ∈ declared, ∃ e, q.read raw = .error e ∧ readProperties declared raw = .error e := by
  rcases mapM_ok_or_error (fun p : Property => (do return (p.name, ← p.read raw) : Except Error _))
    declared with ⟨decoded, hdecoded⟩ | ⟨q, hq, e, herror, hfails⟩
  · obtain ⟨read, hok⟩ : ∃ read, readProperties declared raw = .ok read :=
      ⟨_, bind_eq_ok.2 ⟨decoded, hdecoded, rfl⟩⟩
    obtain ⟨decoded', hkeys, hread, hall⟩ := readProperties_eq_ok hok
    rw [hothers, List.append_nil] at hall
    refine .inl ⟨read, hok, fun q hq => ?_⟩
    obtain ⟨u, hu, hmem⟩ := hread q hq
    exact ⟨u, hu, hall ▸ Dict.get?_foldl_insert_of_mem (hkeys ▸ hnames) hmem []⟩
  · have hfailed : q.read raw = .error e := by
      cases hread : q.read raw with
      | error e' =>
        rw [hread] at herror
        cases herror
        rfl
      | ok u =>
        rw [hread] at herror
        cases herror
    exact .inr ⟨q, hq, e, hfailed, by rw [readProperties, hfails]; rfl⟩

/-- What is stored of properties that are declared is stored under a declared name. -/
theorem filter_findStored?_eq_nil (hread : ∀ g ∈ given, g.1.ReadBy declared)
    (hstored : List.Forall₂ StoredAs given stored) (hraw : ∀ e ∈ raw, e ∈ stored) :
    raw.filter (fun e => (Property.findStored? declared e.1).isNone) = [] := by
  refine List.filter_eq_nil_iff.2 fun e he => ?_
  obtain ⟨g, hg, hge⟩ := exists_of_mem_forall₂ hstored (hraw e he)
  obtain ⟨q, hq, -, -, honly⟩ := hread g hg
  have hfound : (Property.findStored? declared e.1).isSome := by
    rw [Property.findStored?, List.find?_isSome]
    exact ⟨q, hq, by rw [hge.1, (honly q hq).2 rfl, beq_self_eq_true]⟩
  simp [Option.isSome_iff_ne_none.1 hfound]

/-- What is stored of some given values, and nothing besides, is read back, unless one of them is
JSON that nests too deeply. -/
theorem readProperties_given (hnames : Property.Distinct declared)
    (hread : ∀ g ∈ given, g.1.ReadBy declared) (hstored : List.Forall₂ StoredAs given stored)
    (hraw : ∀ e ∈ raw, e ∈ stored) (hget : ∀ e ∈ stored, raw.get? e.1 = some e.2) :
    (∃ read, readProperties declared raw = .ok read ∧ ReadBack given raw read) ∨
      ∃ p v, (p, v) ∈ given ∧ Json.maxDepth < p.codec.jsonNesting v ∧
        ∃ e, readProperties declared raw = .error (.decode p.name e) := by
  rcases readProperties_cases hnames (filter_findStored?_eq_nil hread hstored hraw) with
    ⟨read, hok, hdeclared⟩ | ⟨q, hq, e, hfailed, herror⟩
  · refine .inl ⟨read, hok, fun p v hg => ?_⟩
    obtain ⟨entry, hentry, hstorage, hencode⟩ := exists_of_mem_forall₂ hstored.flip hg
    have hw : raw.get? p.storageName = some entry.2 := hstorage ▸ hget entry hentry
    obtain ⟨q, hq, hname, hcodec, honly⟩ := hread _ hg
    obtain ⟨u, hu, hread⟩ := hdeclared q hq
    rw [Property.read, (honly q hq).2 rfl, hw, hcodec, mapError_eq_ok] at hu
    exact ⟨entry.2, u, hencode, hw, hu, hname ▸ hread⟩
  · -- Only what is stored can fail to be decoded, and only where it nests too deeply.
    obtain ⟨w, e', hw, hdecode, rfl⟩ := Property.read_eq_error hfailed
    obtain ⟨⟨p, v⟩, hg, hstorage, hencode⟩ :=
      exists_of_mem_forall₂ hstored (hraw _ (Dict.mem_of_get? hw))
    obtain ⟨q₀, hq₀, hname, hcodec, honly⟩ := hread _ hg
    obtain rfl : q = q₀ := (honly q hq).1 hstorage
    rw [hcodec] at hdecode
    refine .inr ⟨p, v, hg, ?_, e', hname ▸ herror⟩
    by_contra hnesting
    obtain ⟨u, hu⟩ := Codec.exists_decode hencode (Nat.le_of_not_lt hnesting)
    cases hu.symm.trans hdecode

end

/-! ## Assigned values -/

/-- What a statement stores that assigns parameters to storage names. -/
def assigned (assignments : List (String × String)) (params : Params) : Dict Value :=
  .ofList (assignments.filterMap fun a => (params.get? a.2).map (a.1, ·))

/-- A parameter that is assigned to a storage name holds what is stored under it. -/
def Assigns (params : Params) (a : String × String) (e : String × Value) : Prop :=
  a.1 = e.1 ∧ params.get? a.2 = some e.2

section

variable {assignments bound : List (String × String)} {params : Params}
  {given : List (Property × Value)} {stored : List (String × Value)} {declared : List Property}

theorem assigned_eq (h : List.Forall₂ (Assigns params) assignments stored) :
    assigned assignments params = .ofList stored := by
  have hentries :
      (assignments.filterMap fun a => (params.get? a.2).map (a.1, ·)) = stored := by
    induction h with
    | nil => rfl
    | cons hassigns _ ih =>
      rw [List.filterMap_cons, hassigns.2, hassigns.1, ih]
      rfl
  rw [assigned, hentries]

/-- What is assigned of some given values is read back, in whatever order it is assigned, unless
one of them is JSON that nests too deeply. -/
theorem readProperties_assigned (hgiven : Property.Distinct (given.map Prod.fst))
    (hnames : Property.Distinct declared) (hread : ∀ g ∈ given, g.1.ReadBy declared)
    (hstored : List.Forall₂ StoredAs given stored) (hperm : assignments.Perm bound)
    (hassigns : List.Forall₂ (Assigns params) bound stored) :
    (∃ read, readProperties declared (assigned assignments params) = .ok read ∧
      ReadBack given (assigned assignments params) read) ∨
      ∃ p v, (p, v) ∈ given ∧ Json.maxDepth < p.codec.jsonNesting v ∧
        ∃ e, readProperties declared (assigned assignments params) =
          .error (.decode p.name e) := by
  obtain ⟨stored', hassigns', hstored'⟩ := List.perm_comp_forall₂ hperm hassigns
  rw [assigned_eq hassigns']
  have hnodup : (stored'.map Prod.fst).Nodup :=
    (hstored'.map _).nodup_iff.2 (nodup_stored hgiven hread hstored)
  exact readProperties_given hnames hread hstored
    (fun e he => hstored'.mem_iff.1 (Dict.mem_of_mem_ofList he))
    (fun e he => Dict.get?_foldl_insert_of_mem hnodup (hstored'.mem_iff.2 he) [])

end

end GraphMapper
