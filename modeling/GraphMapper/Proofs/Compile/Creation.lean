import GraphMapper.Proofs.Compile.Merge

/-!
# What get-or-create merges

Get-or-create compiles if it can merge every property of the type
(`NodeType.Mergeable`): a key has to be supplied, a default counts for the other
properties only, and a codec takes whatever is used.  The merge then consists of
the keys with their supplied values and of the other given values
(`CompiledMerge.Merges`), in the order of their declarations, and takes no notice
of what a key would be given if nothing were supplied (`Property.MergedAlike`).
-/

namespace GraphMapper

/-! ## Conditions -/

/-- What a merge needs of a property: a supplied value for a key, some value for another one that is
required, and a codec that takes the value. -/
structure Property.Mergeable (p : Property) (supplied : Properties) (fresh : String) : Prop where
  key : p.mergeKey = true → (supplied? supplied p).isSome
  given : p.mergeKey = false → p.required = true →
    (supplied? supplied p).isSome ∨ (p.defaultValue? fresh).isSome
  accepted : ∀ v, p.given? supplied fresh = some v → ∃ w, p.codec.encode v = .ok w

/-- What get-or-create needs: every supplied value belongs to a property, there is a key, and every
property can be merged. -/
structure NodeType.Mergeable (t : NodeType) (ids : Identifiers) (supplied : Properties) : Prop where
  declared : ∀ name ∈ supplied.keys, ∃ p ∈ t.properties, p.name = name
  keyed : ∃ p ∈ t.properties, p.mergeKey = true
  merged : ∀ (i : Nat) (p : Property), t.properties[i]? = some p → p.Mergeable supplied (ids i)

/-! ## Results -/

/-- A property is assigned a parameter with what a value of it is stored as. -/
def Property.Binds (p : Property) (params : Params) (v : Value) (a : String × String) : Prop :=
  a.1 = p.storageName ∧ ∃ w, p.codec.encode v = .ok w ∧ params.get? a.2 = some w

/-- A key is assigned a parameter with what its supplied value is stored as. -/
def Property.BindsKey (params : Params) (supplied : Properties) (p : Property)
    (a : String × String) : Prop :=
  ∃ v, supplied? supplied p = some v ∧ p.Binds params v a

/-- A merge consists of the keys with their supplied values, and of the other given values, which are
set on creation.  Its parameters hold them and nothing else, each its own. -/
structure CompiledMerge.Merges (c : CompiledMerge) (t : NodeType) (ids : Identifiers)
    (supplied : Properties) : Prop where
  keys : List.Forall₂ (Property.BindsKey c.params supplied)
    (t.properties.filter fun p => p.mergeKey) c.statement.keys
  created : List.Forall₂ (fun g a => g.1.Binds c.params g.2 a)
    ((givenValues supplied ids 0 t.properties).filter fun g => !g.1.mergeKey) c.statement.created
  params : c.params.keys.Perm ((c.statement.keys ++ c.statement.created).map Prod.snd)
  distinct : c.params.keys.Nodup

/-- A property that a merge treats like another one: the same one, or a key in place of a key, with
the same names and the same way to store values. -/
structure Property.MergedAlike (p q : Property) : Prop where
  name : q.name = p.name
  storageName : q.storageName = p.storageName
  mergeKey : q.mergeKey = p.mergeKey
  encode : q.codec.encode = p.codec.encode
  other : p.mergeKey = false → q = p

variable {var : String} {supplied : Properties} {ids ids' : Identifiers} {b b' : Binder}

/-! ## One property -/

section Property

variable {p q : Property} {fresh fresh' : String}

theorem Property.given?_isSome :
    (p.given? supplied fresh).isSome ↔
      (supplied? supplied p).isSome ∨ (p.defaultValue? fresh).isSome := by
  unfold given?
  cases supplied? supplied p <;> simp

theorem Property.exists_encode_iff {v : Value} :
    (∃ w?, some <$> p.encode p.name v = .ok w?) ↔ ∃ w, p.codec.encode v = .ok w := by
  constructor
  · rintro ⟨w?, h⟩
    obtain ⟨w, hw, -⟩ := map_eq_ok.1 h
    exact ⟨w, mapError_eq_ok.1 hw⟩
  · rintro ⟨w, hw⟩
    exact ⟨some w, map_eq_ok.2 ⟨w, mapError_eq_ok.2 hw, rfl⟩⟩

section Given

variable {v : Value} (hkey : p.mergeKey = true → (supplied? supplied p).isSome)
include hkey

/-- A given value is stored, of a key only if it is supplied. -/
theorem Property.mergedValue?_of_given (hgiven : p.given? supplied fresh = some v) :
    p.mergedValue? supplied fresh = some <$> p.encode p.name v := by
  unfold mergedValue?
  split
  · next hmerge =>
    obtain ⟨u, hu⟩ := Option.isSome_iff_exists.1 (hkey hmerge)
    rw [given?, hu] at hgiven
    obtain rfl : u = v := Option.some.inj hgiven
    rw [hu]
  · unfold createdValue?
    rw [show (supplied? supplied p <|> p.defaultValue? fresh) = some v from hgiven]
    rfl

theorem Property.mergeable_of_given (hgiven : p.given? supplied fresh = some v) :
    p.Mergeable supplied fresh ↔ ∃ w, p.codec.encode v = .ok w := by
  refine ⟨fun h => h.accepted v hgiven, fun h => ⟨hkey, fun _ _ => ?_, fun u hu => ?_⟩⟩
  · rw [← given?_isSome, hgiven]
    rfl
  · obtain rfl := Option.some.inj (hgiven.symm.trans hu)
    exact h

theorem Property.not_mergeKey_of_none (hnone : p.given? supplied fresh = none) :
    p.mergeKey = false := by
  refine Bool.eq_false_iff.2 fun hmerge => ?_
  have hgiven : (p.given? supplied fresh).isSome := given?_isSome.2 (.inl (hkey hmerge))
  rw [hnone] at hgiven
  cases hgiven

/-- Nothing is stored where nothing is given, unless a value is required. -/
theorem Property.mergedValue?_of_none (hnone : p.given? supplied fresh = none) :
    p.mergedValue? supplied fresh =
      if p.required then throw (.encode p.name .noValue) else pure none := by
  rw [mergedValue?, not_mergeKey_of_none hkey hnone, if_neg Bool.false_ne_true]
  unfold createdValue?
  rw [show (supplied? supplied p <|> p.defaultValue? fresh) = none from hnone]

theorem Property.mergeable_of_none (hnone : p.given? supplied fresh = none) :
    p.Mergeable supplied fresh ↔ p.required = false := by
  have hmerge := not_mergeKey_of_none hkey hnone
  constructor
  · intro h
    refine Bool.eq_false_iff.2 fun hrequired => ?_
    have hgiven := given?_isSome.2 (h.given hmerge hrequired)
    rw [hnone] at hgiven
    cases hgiven
  · intro hfree
    refine ⟨hkey, fun _ hrequired => ?_, fun v hv => ?_⟩
    · cases hfree.symm.trans hrequired
    · cases hnone.symm.trans hv

end Given

/-- A value can be stored of a property, or none, if it can be merged. -/
theorem Property.exists_mergedValue?_iff :
    (∃ w?, p.mergedValue? supplied fresh = .ok w?) ↔ p.Mergeable supplied fresh := by
  by_cases hkey : p.mergeKey = true → (supplied? supplied p).isSome
  · cases hgiven : p.given? supplied fresh with
    | some v =>
      rw [mergedValue?_of_given hkey hgiven, mergeable_of_given hkey hgiven, exists_encode_iff]
    | none =>
      rw [mergedValue?_of_none hkey hgiven, mergeable_of_none hkey hgiven]
      cases p.required with
      | true => exact iff_of_false (fun ⟨_, h⟩ => throw_ne_ok h) nofun
      | false => exact iff_of_true ⟨none, rfl⟩ rfl
  · refine iff_of_false (fun ⟨w?, h⟩ => hkey fun hmerge => ?_) fun h => hkey h.key
    rcases mergedValue?_eq_ok h with ⟨hother, -, -⟩ | ⟨v, w, hsupplied, -⟩
    · cases hother.symm.trans hmerge
    · rw [hsupplied hmerge]
      rfl

/-- Nothing is stored of a property that is treated alike but what is stored of the other. -/
theorem Property.MergedAlike.mergedValue? (h : p.MergedAlike q)
    (hfresh : p.mergeKey = false → fresh' = fresh) :
    q.mergedValue? supplied fresh' = p.mergedValue? supplied fresh := by
  cases hkey : p.mergeKey with
  | false => rw [h.other hkey, hfresh hkey]
  | true =>
    have hsupplied : supplied? supplied q = supplied? supplied p := by
      rw [supplied?, supplied?, h.name]
    have hencode (name : String) (v : Value) : q.encode name v = p.encode name v := by
      rw [Property.encode, Property.encode, h.encode]
    rw [Property.mergedValue?, Property.mergedValue?, h.mergeKey, hkey, if_pos rfl, if_pos rfl,
      hsupplied, h.name]
    simp only [hencode]

theorem Property.MergedAlike.mergeProperty (h : p.MergedAlike q)
    (hfresh : p.mergeKey = false → fresh' = fresh) :
    mergeProperty var supplied fresh' q = mergeProperty var supplied fresh p := by
  funext b
  have hbind (w? : Option Value) : bindMerged var q b w? = bindMerged var p b w? := by
    cases w? with
    | none => rfl
    | some w => rw [bindMerged, bindMerged, h.storageName, h.mergeKey]
  rw [mergeProperty_eq, mergeProperty_eq, h.mergedValue? hfresh, funext hbind]

theorem exists_mergeProperty_iff :
    (∃ r, mergeProperty var supplied fresh p b = .ok r) ↔ p.Mergeable supplied fresh := by
  rw [← Property.exists_mergedValue?_iff, mergeProperty_eq]
  constructor
  · rintro ⟨r, h⟩
    obtain ⟨w?, hw?, -⟩ := map_eq_ok.1 h
    exact ⟨w?, hw?⟩
  · rintro ⟨w?, hw?⟩
    exact ⟨_, map_eq_ok.2 ⟨w?, hw?, rfl⟩⟩

end Property

/-! ## All properties -/

section Properties

variable {position : Nat} {ps qs : List Property} {bound : List (Bool × String × String)}

/-- What holds of every property at its position holds of the first one and of those behind it. -/
theorem forall_getElem?_cons (P : Nat → Property → Prop) {p : Property} :
    (∀ (i : Nat) (q : Property), (p :: ps)[i]? = some q → P (position + i) q) ↔
      P position p ∧ ∀ (i : Nat) (q : Property), ps[i]? = some q → P (position + 1 + i) q := by
  refine ⟨fun h => ⟨h 0 p rfl, fun i q hq => ?_⟩, fun h i q hq => ?_⟩
  · rw [Nat.add_right_comm, Nat.add_assoc]
    exact h (i + 1) q hq
  · cases i with
    | zero => exact Option.some.inj hq ▸ h.1
    | succ i =>
      rw [← Nat.add_assoc, Nat.add_right_comm]
      exact h.2 i q hq

/-- Properties that are treated alike are merged alike, whatever identifiers are at hand for keys. -/
theorem mergeProperties_alike (halike : List.Forall₂ Property.MergedAlike ps qs)
    (hids : ∀ (i : Nat) (p : Property), ps[i]? = some p → p.mergeKey = false →
      ids' (position + i) = ids (position + i)) :
    mergeProperties var supplied ids' position qs = mergeProperties var supplied ids position ps := by
  induction halike generalizing position with
  | nil => rfl
  | @cons p q ps qs hfirst _ ih =>
    obtain ⟨hid, hids⟩ :=
      (forall_getElem?_cons fun i p => p.mergeKey = false → ids' i = ids i).1 hids
    rw [mergeProperties, mergeProperties, hfirst.mergeProperty hid, ih hids]

/-- Properties are merged if each of them can be. -/
theorem exists_mergeProperties_iff :
    (∃ r, mergeProperties var supplied ids position ps b = .ok r) ↔
      ∀ (i : Nat) (p : Property), ps[i]? = some p → p.Mergeable supplied (ids (position + i)) := by
  induction ps generalizing position b with
  | nil => exact iff_of_true ⟨_, rfl⟩ (by simp)
  | cons p rest ih =>
    have hfirst_iff : (∃ r, mergeProperty var supplied (ids position) p b = .ok r) ↔ _ :=
      exists_mergeProperty_iff
    refine .trans ?_ (forall_getElem?_cons fun i p => p.Mergeable supplied (ids i)).symm
    rw [← hfirst_iff]
    constructor
    · rintro ⟨r, h⟩
      obtain ⟨bound?, b₁, hfirst, h⟩ := run_bind_eq_ok.1 h
      obtain ⟨others, b₂, hrest, -⟩ := run_bind_eq_ok.1 h
      exact ⟨⟨_, hfirst⟩, ih.1 ⟨_, hrest⟩⟩
    · rintro ⟨⟨⟨bound?, b₁⟩, hfirst⟩, hrest⟩
      obtain ⟨⟨others, b₂⟩, hothers⟩ := ih (b := b₁).2 hrest
      exact ⟨_, run_bind_eq_ok.2 ⟨bound?, b₁, hfirst,
        run_bind_eq_ok.2 ⟨others, b₂, hothers, rfl⟩⟩⟩

/-- Keys are bound with their supplied values, and other properties with their given values. -/
theorem mergeProperties_run (h : mergeProperties var supplied ids position ps b = .ok (bound, b')) :
    b.Adds (bound.map fun x => x.2.2) b' ∧
      List.Forall₂ (fun p x => p.BindsKey b'.params supplied x.2) (ps.filter fun p => p.mergeKey)
        (bound.filter fun x => x.1) ∧
      List.Forall₂ (fun g x => g.1.Binds b'.params g.2 x.2)
        ((givenValues supplied ids position ps).filter fun g => !g.1.mergeKey)
        (bound.filter fun x => !x.1) := by
  induction ps generalizing position b bound with
  | nil =>
    obtain ⟨rfl, rfl⟩ := run_pure_eq_ok.1 h
    exact ⟨.refl b, .nil, .nil⟩
  | cons p rest ih =>
    obtain ⟨bound?, b₁, hfirst, h⟩ := run_bind_eq_ok.1 h
    obtain ⟨others, b₂, hrest, h⟩ := run_bind_eq_ok.1 h
    obtain ⟨rfl, rfl⟩ := run_pure_eq_ok.1 h
    -- What the first property binds is still bound when all others are.
    obtain ⟨hadds, hkeys, hcreated⟩ := ih hrest
    rw [givenValues]
    rcases mergeProperty_eq_ok hfirst with
      ⟨hkey, hnone, rfl, rfl⟩ | ⟨v, w, param, hsupplied, hgiven, hencode, rfl, hadd, hparam⟩
    · refine ⟨hadds, ?_, ?_⟩
      · rwa [List.filter_cons_of_neg (by simp [hkey])]
      · rwa [hnone]
    · have hbinds : p.Binds b₂.params v (p.storageName, param) :=
        ⟨rfl, w, hencode, hadds.keeps param w hparam⟩
      rw [hgiven]
      show _ ∧ List.Forall₂ _ _ _ ∧
        List.Forall₂ _ (((p, v) :: givenValues supplied ids (position + 1) rest).filter _)
          (((p.mergeKey, p.storageName, param) :: others).filter _)
      refine ⟨hadd.trans hadds, ?_⟩
      -- The property is first on one of the two sides, and left out of the other.
      cases hkey : p.mergeKey with
      | true =>
        refine ⟨?_, ?_⟩
        · rw [List.filter_cons_of_pos hkey]
          exact .cons ⟨v, hsupplied hkey, hbinds⟩ hkeys
        · rwa [List.filter_cons_of_neg (by simp [hkey]), List.filter_cons_of_neg (by simp)]
      | false =>
        refine ⟨?_, ?_⟩
        · rwa [List.filter_cons_of_neg (by simp [hkey])]
        · rw [List.filter_cons_of_pos (by simp [hkey]), List.filter_cons_of_pos (by simp)]
          exact .cons hbinds hcreated

end Properties

/-! ## Types -/

namespace NodeType

variable {t : NodeType} {c : CompiledMerge}

theorem unknownKey?_eq_none_iff {declared : List Property} :
    unknownKey? declared supplied = none ↔
      ∀ name ∈ supplied.keys, ∃ p ∈ declared, p.name = name := by
  simp [unknownKey?, Property.find?]

/-- The merge of some bound properties. -/
def mergeOf (t : NodeType) (bound : List (Bool × String × String)) (binder : Binder) :
    CompiledMerge where
  statement :=
    { var := t.variableName
      labels := t.ancestors ++ [t.label]
      keys := (bound.filter fun x => x.1).map Prod.snd
      created := (bound.filter fun x => !x.1).map Prod.snd }
  params := binder.params
  shape := ⟨some t.variableName, none, [⟨t.variableName, .root⟩]⟩

/-- A merge is compiled by binding the properties, some key among them. -/
theorem compileGetOrCreate_eq_ok_iff :
    t.compileGetOrCreate ids supplied = .ok c ↔
      unknownKey? t.properties supplied = none ∧
        ∃ bound binder,
          mergeProperties t.variableName supplied ids 0 t.properties .empty = .ok (bound, binder) ∧
            (t.mergeOf bound binder).statement.keys ≠ [] ∧ c = t.mergeOf bound binder := by
  unfold compileGetOrCreate
  cases hunknown : unknownKey? t.properties supplied with
  | some name => exact iff_of_false throw_bind_ne_ok fun h => by cases h.1
  | none =>
    constructor
    · intro h
      obtain ⟨⟨bound, binder⟩, hbound, h⟩ := bind_eq_ok.1 h
      obtain ⟨hkeys, h⟩ := check_eq_ok.1 h
      exact ⟨rfl, bound, binder, hbound, hkeys, (pure_eq_ok.1 h).symm⟩
    · rintro ⟨-, bound, binder, hbound, hkeys, rfl⟩
      exact bind_eq_ok.2 ⟨(bound, binder), hbound, check_eq_ok.2 ⟨hkeys, rfl⟩⟩

/-- There are keys in a merge if the type has some. -/
theorem keys_ne_nil_iff {params : Params} {keys : List (String × String)}
    (h : List.Forall₂ (Property.BindsKey params supplied)
      (t.properties.filter fun p => p.mergeKey) keys) :
    keys ≠ [] ↔ ∃ p ∈ t.properties, p.mergeKey = true := by
  rw [← List.length_pos_iff, ← h.length_eq, List.length_filter_pos_iff]

theorem mergeOf_keys {bound : List (Bool × String × String)} {binder : Binder}
    (h : mergeProperties t.variableName supplied ids 0 t.properties .empty = .ok (bound, binder)) :
    List.Forall₂ (Property.BindsKey binder.params supplied)
      (t.properties.filter fun p => p.mergeKey) (t.mergeOf bound binder).statement.keys :=
  List.forall₂_map_right_iff.2 (mergeProperties_run h).2.1

/-- What is compiled is a merge of the given values. -/
theorem merges_of_compile (h : t.compileGetOrCreate ids supplied = .ok c) :
    c.Merges t ids supplied := by
  obtain ⟨-, bound, binder, hbound, -, rfl⟩ := compileGetOrCreate_eq_ok_iff.1 h
  obtain ⟨hadds, -, hcreated⟩ := mergeProperties_run hbound
  refine ⟨mergeOf_keys hbound, List.forall₂_map_right_iff.2 hcreated, ?_,
    hadds.nodup List.nodup_nil⟩
  have hparts : ((t.mergeOf bound binder).statement.keys ++
      (t.mergeOf bound binder).statement.created).Perm (bound.map Prod.snd) := by
    show (List.map _ _ ++ List.map _ _).Perm _
    rw [← List.map_append]
    exact (List.filter_append_perm _ bound).map Prod.snd
  have hnames := (hparts.map Prod.snd).symm
  rw [List.map_map] at hnames
  exact hadds.keys.trans hnames

/-- A merge compiles if every property can be merged, and some are keys. -/
theorem exists_compileGetOrCreate_iff :
    (∃ c, t.compileGetOrCreate ids supplied = .ok c) ↔ t.Mergeable ids supplied := by
  have hproperties :
      (∃ r, mergeProperties t.variableName supplied ids 0 t.properties .empty = .ok r) ↔
        ∀ (i : Nat) (p : Property), t.properties[i]? = some p → p.Mergeable supplied (ids (0 + i)) :=
    exists_mergeProperties_iff
  simp only [Nat.zero_add] at hproperties
  constructor
  · rintro ⟨c, h⟩
    obtain ⟨hdeclared, bound, binder, hbound, hkeys, -⟩ := compileGetOrCreate_eq_ok_iff.1 h
    exact ⟨unknownKey?_eq_none_iff.1 hdeclared, (keys_ne_nil_iff (mergeOf_keys hbound)).1 hkeys,
      hproperties.1 ⟨_, hbound⟩⟩
  · intro h
    obtain ⟨⟨bound, binder⟩, hbound⟩ := hproperties.2 h.merged
    exact ⟨_, compileGetOrCreate_eq_ok_iff.2 ⟨unknownKey?_eq_none_iff.2 h.declared, bound, binder,
      hbound, (keys_ne_nil_iff (mergeOf_keys hbound)).2 h.keyed, rfl⟩⟩

theorem unknownKey?_alike {ps qs : List Property}
    (halike : List.Forall₂ Property.MergedAlike ps qs) :
    unknownKey? qs supplied = unknownKey? ps supplied := by
  have hfind (name : String) : (Property.find? qs name).isNone = (Property.find? ps name).isNone := by
    induction halike with
    | nil => rfl
    | @cons p q ps qs hfirst _ ih =>
      unfold Property.find? at ih ⊢
      rw [List.find?_cons, List.find?_cons, hfirst.name]
      cases p.name == name
      · exact ih
      · rfl
  unfold unknownKey?
  simp only [hfind]

/-- Types whose properties are merged alike have the same merges. -/
theorem compileGetOrCreate_alike {ps : List Property}
    (halike : List.Forall₂ Property.MergedAlike t.properties ps)
    (hids : ∀ (i : Nat) (p : Property), t.properties[i]? = some p → p.mergeKey = false →
      ids' i = ids i) :
    NodeType.compileGetOrCreate { t with properties := ps } ids' supplied =
      t.compileGetOrCreate ids supplied := by
  have hproperties : mergeProperties t.variableName supplied ids' 0 ps =
      mergeProperties t.variableName supplied ids 0 t.properties :=
    mergeProperties_alike halike fun i p => by simpa only [Nat.zero_add] using hids i p
  have hvariable : NodeType.variableName { t with properties := ps } = t.variableName := rfl
  unfold compileGetOrCreate
  simp only [hvariable, hproperties, unknownKey?_alike halike]

/-- Get-or-create of a type.  It compiles exactly if every supplied value belongs to a property, some
property is a key, every key is supplied, every other property that is required has a value or a
default, and a codec takes each value that is used.  What it compiles to merges the keys with their
supplied values and sets the other given values on creation.  What a key would be given if nothing
were supplied changes nothing. -/
theorem get_or_create_merges (t : NodeType) (ids : Identifiers) (supplied : Properties) :
    ((∃ c, t.compileGetOrCreate ids supplied = .ok c) ↔ t.Mergeable ids supplied) ∧
      (∀ c, t.compileGetOrCreate ids supplied = .ok c → c.Merges t ids supplied) ∧
      ∀ (ps : List Property) (ids' : Identifiers),
        List.Forall₂ Property.MergedAlike t.properties ps →
        (∀ (i : Nat) (p : Property), t.properties[i]? = some p → p.mergeKey = false →
          ids' i = ids i) →
        NodeType.compileGetOrCreate { t with properties := ps } ids' supplied =
          t.compileGetOrCreate ids supplied :=
  ⟨exists_compileGetOrCreate_iff, fun _ => merges_of_compile,
    fun _ _ => compileGetOrCreate_alike⟩

end NodeType

end GraphMapper

namespace GraphMapper.Sample

/-- A name to merge on, a code that is made up, and a note. -/
def beanProperties (name? : Option Value) : List Property :=
  [⟨"name", none, .string none, true, name?, .none, true⟩,
    ⟨"code", none, .uniqueId, true, none, .none, false⟩,
    ⟨"note", some "remark", .string none, false, none, .none, false⟩]

/-- Beans with a name to merge on. -/
def bean : NodeType := { NodeType.new "Bean" with properties := beanProperties none }

/-- A bean with a name. -/
def java : Properties := .ofList [("name", .string "Java")]

theorem merged_alike_bean (name? : Option Value) :
    List.Forall₂ Property.MergedAlike bean.properties (beanProperties name?) :=
  .cons ⟨rfl, rfl, rfl, rfl, nofun⟩ (.cons ⟨rfl, rfl, rfl, rfl, fun _ => rfl⟩
    (.cons ⟨rfl, rfl, rfl, rfl, fun _ => rfl⟩ .nil))

end GraphMapper.Sample

namespace GraphMapper.NodeType

open Sample (bean beanProperties java)

/-- A bean is merged on its name, and a default for the name changes nothing. -/
theorem get_or_create_merges_bean :
    bean.Mergeable (fun _ => "fresh") java ∧
      ∃ c, bean.compileGetOrCreate (fun _ => "fresh") java = .ok c ∧
        c.Merges bean (fun _ => "fresh") java ∧
        NodeType.compileGetOrCreate { bean with properties := beanProperties (some (.string "House")) }
          (fun _ => "fresh") java = .ok c := by
  obtain ⟨hmergeable, hmerges, halike⟩ := get_or_create_merges bean (fun _ => "fresh") java
  obtain ⟨c, hc⟩ : ∃ c, bean.compileGetOrCreate (fun _ => "fresh") java = .ok c := ⟨_, rfl⟩
  have hsame := halike (beanProperties (some (.string "House"))) (fun _ => "fresh")
    (Sample.merged_alike_bean _) fun _ _ _ _ => rfl
  exact ⟨hmergeable.1 ⟨c, hc⟩, c, hc, hmerges c hc, hsame.trans hc⟩

end GraphMapper.NodeType
