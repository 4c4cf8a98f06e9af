import GraphMapper.Proofs.Compile.Creation
import GraphMapper.Proofs.Guard.Properties

/-!
# Required properties

A supplied null counts as none, and none of the eight codecs makes null of anything
but null (`Codec.isNull_of_encode`; writing does not look at what a codec has made, so
that this is all there is against it).  So a merge, or an edge, writes some other value
for every required property that is supplied one, or that can fall back on a default,
and get-or-create writes one for every key (`Property.required_written`).

Null is written all the same where it is itself the declared default.  And keys are
a notion of get-or-create, which an edge does without (`Property.required_unwritten`).
-/

namespace GraphMapper

/-! ## Nulls -/

theorem Codec.isNull_checkLength {max : Option Nat} {s : String} {w : Value}
    (h : checkLength max s = .ok w) : w.isNull = false := by
  unfold checkLength at h
  split at h
  · split at h
    · cases h
    · cases h
      rfl
  · cases h
    rfl

/-- A codec stores null for null alone. -/
theorem Codec.isNull_of_encode {c : Codec} {v w : Value} (h : c.encode v = .ok w)
    (hv : v.isNull = false) : w.isNull = false := by
  cases c with
  | string max =>
    cases v with
    | null => cases hv
    | string s => exact isNull_checkLength h
    | _ => cases h
  | integer =>
    cases v with
    | null => cases hv
    | int i =>
      cases h
      rfl
    | float x =>
      simp only [encode] at h
      split at h
      · cases h
        rfl
      · cases h
    | _ => cases h
  | float | boolean | uniqueId =>
    cases v with
    | null => cases hv
    | _ =>
      cases h
      try rfl
  | json =>
    rw [encode] at h
    · cases h
      rfl
    · rintro rfl
      cases hv
  | datetime =>
    rw [encode] at h
    · obtain ⟨t, -, h⟩ := bind_eq_ok.1 h
      cases h
      rfl
    · rintro rfl
      cases hv
  | array item =>
    cases v with
    | null => cases hv
    | list items =>
      obtain ⟨ws, -, h⟩ := bind_eq_ok.1 h
      cases h
      rfl
    | _ => cases h

/-! ## Values that count -/

/-- Something is supplied for a property, or its declared default is not an explicit null. -/
def Property.Valued (p : Property) (supplied : Properties) : Prop :=
  (supplied? supplied p).isSome ∨ ∀ v, p.default? = some v → v.isNull = false

section Given

variable {p : Property} {supplied : Properties} {ids : Identifiers} {fresh : String} {v : Value}

theorem isNull_of_supplied? (h : supplied? supplied p = some v) : v.isNull = false := by
  simpa using (Option.filter_eq_some_iff.1 h).2

theorem Property.Valued.isNull_of_given (h : p.Valued supplied)
    (hgiven : p.given? supplied fresh = some v) : v.isNull = false := by
  unfold given? at hgiven
  cases hsupplied : supplied? supplied p with
  | some u =>
    rw [hsupplied] at hgiven
    obtain rfl : u = v := Option.some.inj hgiven
    exact isNull_of_supplied? hsupplied
  | none =>
    replace hgiven : p.defaultValue? fresh = some v := by rwa [hsupplied] at hgiven
    unfold defaultValue? at hgiven
    rcases h with h | h
    · rw [hsupplied] at h
      cases h
    · cases hdefault : p.default? with
      | some u =>
        rw [hdefault] at hgiven
        obtain rfl : u = v := Option.some.inj hgiven
        exact h u hdefault
      | none =>
        -- What a codec makes up is text.
        replace hgiven : p.codec.generate fresh = some v := by rwa [hdefault] at hgiven
        unfold Codec.generate at hgiven
        split at hgiven
        · cases hgiven
          rfl
        · cases hgiven

/-- A required property is created only with a given value. -/
theorem Property.isSome_given?_of_created {w? : Option Value}
    (h : p.createdValue? supplied fresh = .ok w?) (hrequired : p.required = true) :
    (p.given? supplied fresh).isSome := by
  cases hgiven : p.given? supplied fresh with
  | some v => rfl
  | none =>
    unfold createdValue? at h
    rw [show (supplied? supplied p <|> p.defaultValue? fresh) = none from hgiven] at h
    dsimp only at h
    rw [if_pos hrequired] at h
    exact absurd h throw_ne_ok

end Given

section Lists

variable {supplied : Properties} {ids : Identifiers} {position : Nat} {ps : List Property}

theorem mem_givenValues_of_getElem? : ∀ (i : Nat) (p : Property), ps[i]? = some p →
    ∀ v, p.given? supplied (ids (position + i)) = some v →
      (p, v) ∈ givenValues supplied ids position ps := by
  induction ps generalizing position with
  | nil => exact fun i p hp => by cases hp
  | cons q rest ih =>
    refine (forall_getElem?_cons fun i p => ∀ v, p.given? supplied (ids i) = some v →
      (p, v) ∈ givenValues supplied ids position (q :: rest)).2 ⟨fun v hv => ?_, fun i p hp v hv => ?_⟩
    · rw [givenValues, hv]
      exact List.mem_cons_self
    · rw [givenValues]
      exact List.mem_append_right _ (ih i p hp v hv)

/-- Where properties are created each of them is. -/
theorem Registry.createdValue?_of_createdProperties {stored : List (String × Value)}
    (h : createdProperties supplied ids position ps = .ok stored) :
    ∀ (i : Nat) (p : Property), ps[i]? = some p →
      ∃ w?, p.createdValue? supplied (ids (position + i)) = .ok w? := by
  induction ps generalizing position stored with
  | nil => exact fun i p hp => by cases hp
  | cons q rest ih =>
    obtain ⟨w?, hw, h⟩ := bind_eq_ok.1 h
    obtain ⟨others, hothers, -⟩ := bind_eq_ok.1 h
    exact (forall_getElem?_cons fun i p => ∃ w?, p.createdValue? supplied (ids i) = .ok w?).2
      ⟨⟨w?, hw⟩, ih hothers⟩

end Lists

/-! ## What is written -/

/-- One of some assignments gives a property a parameter that holds a value other than null. -/
def Property.WrittenBy (p : Property) (params : Params) (assignments : List (String × String)) :
    Prop :=
  ∃ param w, (p.storageName, param) ∈ assignments ∧ params.get? param = some w ∧ w.isNull = false

section Written

variable {p : Property} {supplied : Properties} {ids : Identifiers}

theorem Property.Binds.writtenBy {params : Params} {v : Value} {a : String × String}
    {assignments : List (String × String)} (h : p.Binds params v a) (hv : v.isNull = false)
    (ha : a ∈ assignments) : p.WrittenBy params assignments := by
  obtain ⟨hname, w, hencode, hget⟩ := h
  exact ⟨a.2, w, hname ▸ ha, hget, Codec.isNull_of_encode hencode hv⟩

namespace NodeType

variable {t : NodeType} {c : CompiledMerge}

/-- A merge writes every key. -/
theorem writtenBy_keys (h : t.compileGetOrCreate ids supplied = .ok c) (hp : p ∈ t.properties)
    (hkey : p.mergeKey = true) : p.WrittenBy c.params c.statement.keys := by
  obtain ⟨a, ha, v, hsupplied, hbinds⟩ := exists_of_mem_forall₂ (merges_of_compile h).keys.flip
    (List.mem_filter.2 ⟨hp, hkey⟩)
  exact hbinds.writtenBy (isNull_of_supplied? hsupplied) ha

/-- A merge writes every other property that is required, where the value that counts is none. -/
theorem writtenBy_created (h : t.compileGetOrCreate ids supplied = .ok c) (hp : p ∈ t.properties)
    (hkey : p.mergeKey = false) (hrequired : p.required = true) (hvalued : p.Valued supplied) :
    p.WrittenBy c.params c.statement.created := by
  obtain ⟨i, hi⟩ := List.mem_iff_getElem?.1 hp
  have hmergeable := (exists_compileGetOrCreate_iff.1 ⟨c, h⟩).merged i p hi
  obtain ⟨v, hv⟩ := Option.isSome_iff_exists.1
    (Property.given?_isSome.2 (hmergeable.given hkey hrequired))
  have hgiven : (p, v) ∈ givenValues supplied ids 0 t.properties :=
    mem_givenValues_of_getElem? i p hi v (by rwa [Nat.zero_add])
  obtain ⟨a, ha, hbinds⟩ := exists_of_mem_forall₂ (merges_of_compile h).created.flip
    (List.mem_filter.2 ⟨hgiven, by rw [hkey]; rfl⟩)
  exact Property.Binds.writtenBy hbinds (hvalued.isNull_of_given hv) ha

end NodeType

namespace Registry

/-- An edge holds every required property. -/
theorem exists_mem_createdProperties {ps : List Property} {stored : List (String × Value)}
    (h : createdProperties supplied ids 0 ps = .ok stored) (hp : p ∈ ps)
    (hrequired : p.required = true) (hvalued : p.Valued supplied) :
    ∃ w, (p.storageName, w) ∈ stored ∧ w.isNull = false := by
  obtain ⟨i, hi⟩ := List.mem_iff_getElem?.1 hp
  obtain ⟨w?, hw⟩ := createdValue?_of_createdProperties h i p hi
  obtain ⟨v, hv⟩ := Option.isSome_iff_exists.1 (Property.isSome_given?_of_created hw hrequired)
  obtain ⟨e, he, hname, hencode⟩ := exists_of_mem_forall₂ (createdProperties_eq_ok h).flip
    (mem_givenValues_of_getElem? i p hi v hv)
  exact ⟨e.2, hname ▸ he, Codec.isNull_of_encode hencode (hvalued.isNull_of_given hv)⟩

end Registry

end Written

namespace Property

/-- Whatever compiles, or is encoded, writes the required properties with values other than null, if
something is supplied for them or their default is not an explicit null.  Get-or-create writes every
key besides. -/
theorem required_written (supplied : Properties) (ids : Identifiers) :
    (∀ (t : NodeType) (c : CompiledMerge), t.compileGetOrCreate ids supplied = .ok c →
      ∀ p ∈ t.properties,
        (p.mergeKey = true → p.WrittenBy c.params c.statement.keys) ∧
          (p.mergeKey = false → p.required = true → p.Valued supplied →
            p.WrittenBy c.params c.statement.created)) ∧
      ∀ (r : Registry) (rel : Relationship) (name : String) (model : RelationshipType)
        (stored : List (String × Value)), rel.model? = some name →
        r.relationshipType name = .ok model → r.edgeProperties ids rel supplied = .ok stored →
        ∀ p ∈ model.properties, p.required = true → p.Valued supplied →
          ∃ w, (p.storageName, w) ∈ stored ∧ w.isNull = false := by
  refine ⟨fun t c hcompile p hp => ⟨fun hkey => ?_, fun hkey hrequired hvalued => ?_⟩, ?_⟩
  · exact NodeType.writtenBy_keys hcompile hp hkey
  · exact NodeType.writtenBy_created hcompile hp hkey hrequired hvalued
  · intro r rel name model stored hname hmodel hstored p hp hrequired hvalued
    exact Registry.exists_mem_createdProperties
      (Registry.createdProperties_of_edgeProperties hstored hname hmodel) hp hrequired hvalued

end Property

namespace Sample

/-- A required property with some default. -/
def origin (default? : Option Value) : Property :=
  ⟨"origin", none, .string none, true, default?, .none, false⟩

/-- Beans that have to come from somewhere. -/
def originBean (default? : Option Value) : NodeType :=
  { bean with properties := beanProperties none ++ [origin default?] }

/-- A key that need not have a value. -/
def note : Property := ⟨"note", none, .string none, false, none, .none, true⟩

/-- Ownerships with one property. -/
def ownershipOf (p : Property) : RelationshipType :=
  (RelationshipType.new "Ownership" "OWNS").withProperty p

def ownershipRegistry (p : Property) : Registry := .after [.relationship (ownershipOf p)]

theorem relationshipType_ownership {p : Property}
    (hp : (checkRelationshipType (ownershipOf p)).isOk = true) :
    (ownershipRegistry p).relationshipType "Ownership" = .ok (ownershipOf p) := by
  obtain ⟨_, hcheck⟩ := exists_eq_ok hp
  have hregistry : ownershipRegistry p = _ := Registry.after_relationship [] hcheck rfl
  rw [hregistry]
  rfl

theorem edgeProperties_ownership {p : Property} {ids : Identifiers} {w? : Option Value}
    (hp : (checkRelationshipType (ownershipOf p)).isOk = true)
    (hcreated : p.createdValue? [] (ids 0) = .ok w?) :
    (ownershipRegistry p).edgeProperties ids datedPets [] =
      .ok (w?.map (p.storageName, ·)).toList := by
  rw [Registry.edgeProperties]
  show (Registry.relationshipType _ "Ownership" >>= _) = _
  rw [relationshipType_ownership hp]
  show (do
    let v? ← p.createdValue? [] (ids 0)
    return (v?.map (p.storageName, ·)).toList ++ []) = _
  rw [hcreated]
  show Except.ok (_ ++ []) = _
  rw [List.append_nil]

end Sample

namespace Property

open Sample

/-- A bean is merged on its name and created with the default of its origin, which an ownership gets as
well. -/
theorem required_written_origin :
    (∃ c, (originBean (some (.string "Java"))).compileGetOrCreate (fun _ => "fresh") java = .ok c ∧
      (∃ p ∈ bean.properties, p.WrittenBy c.params c.statement.keys) ∧
      (origin (some (.string "Java"))).WrittenBy c.params c.statement.created) ∧
    ∃ stored w, (ownershipRegistry (origin (some (.string "Java")))).edgeProperties
        (fun _ => "fresh") datedPets [] = .ok stored ∧
      ("origin", w) ∈ stored ∧ w.isNull = false := by
  have hvalued (supplied : Properties) : (origin (some (.string "Java"))).Valued supplied :=
    .inr fun v hv => by
      cases hv
      rfl
  constructor
  · obtain ⟨c, hc⟩ : ∃ c, (originBean (some (.string "Java"))).compileGetOrCreate
        (fun _ => "fresh") java = .ok c := ⟨_, rfl⟩
    have hwritten := (required_written java fun _ => "fresh").1 _ c hc
    refine ⟨c, hc, ⟨_, List.mem_cons_self, (hwritten _ List.mem_cons_self).1 rfl⟩, ?_⟩
    exact (hwritten _ (List.mem_append_right _ (List.mem_singleton_self _))).2 rfl rfl (hvalued _)
  · have hchecked : (checkRelationshipType
        (ownershipOf (origin (some (.string "Java"))))).isOk = true := by decide +kernel
    have hstored : (ownershipRegistry (origin (some (.string "Java")))).edgeProperties
        (fun _ => "fresh") datedPets [] = .ok _ := edgeProperties_ownership hchecked rfl
    obtain ⟨w, hw, hnull⟩ := (required_written [] fun _ => "fresh").2 _ datedPets "Ownership" _ _ rfl
      (relationshipType_ownership hchecked) hstored _ (List.mem_singleton_self _) rfl (hvalued _)
    exact ⟨_, w, hstored, hw, hnull⟩

/-- A required property may be written as null, and a key not at all.

* A bean is created with null for its origin, which is what its default says.
* So is an ownership.
* An ownership is created without the property that is a key. -/
theorem required_unwritten :
    (∃ c, (originBean (some .null)).compileGetOrCreate (fun _ => "fresh") java = .ok c ∧
      origin (some .null) ∈ (originBean (some .null)).properties ∧
      ¬ (origin (some .null)).WrittenBy c.params (c.statement.keys ++ c.statement.created)) ∧
    (∃ stored, (ownershipRegistry (origin (some .null))).relationshipType "Ownership" =
        .ok (ownershipOf (origin (some .null))) ∧
      (ownershipRegistry (origin (some .null))).edgeProperties (fun _ => "fresh") datedPets [] =
        .ok stored ∧
      origin (some .null) ∈ (ownershipOf (origin (some .null))).properties ∧
      ¬ ∃ w, ("origin", w) ∈ stored ∧ w.isNull = false) ∧
    ∃ stored, (ownershipRegistry note).relationshipType "Ownership" = .ok (ownershipOf note) ∧
      (ownershipRegistry note).edgeProperties (fun _ => "fresh") datedPets [] = .ok stored ∧
      note ∈ (ownershipOf note).properties ∧ note.mergeKey = true ∧
      ¬ ∃ w, ("note", w) ∈ stored := by
  refine ⟨⟨_, rfl, ?_, ?_⟩, ⟨_, relationshipType_ownership (by decide +kernel),
    edgeProperties_ownership (by decide +kernel) rfl, List.mem_singleton_self _, ?_⟩,
    ⟨_, relationshipType_ownership (by decide +kernel),
      edgeProperties_ownership (by decide +kernel) rfl, List.mem_singleton_self _, rfl, ?_⟩⟩
  · exact List.mem_append_right _ (List.mem_singleton_self _)
  · rintro ⟨param, w, hmem, hget, hnull⟩
    -- The origin is assigned one parameter, and that is bound to null.
    have hbound : ∀ c, (originBean (some .null)).compileGetOrCreate (fun _ => "fresh") java = .ok c →
        ∀ a ∈ c.statement.keys ++ c.statement.created, a.1 = "origin" →
          (c.params.get? a.2).all Value.isNull = true := by
      rintro c ⟨⟩
      decide +kernel
    have hall := hbound _ rfl _ hmem rfl
    rw [hget] at hall
    cases hnull.symm.trans hall
  · rintro ⟨w, hw, hnull⟩
    obtain ⟨-, rfl⟩ := Prod.mk.inj (List.mem_singleton.1 hw)
    cases hnull
  · rintro ⟨w, hw⟩
    cases hw

end Property

end GraphMapper
