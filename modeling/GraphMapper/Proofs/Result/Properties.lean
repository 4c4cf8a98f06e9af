import GraphMapper.Proofs.Registry.Resolution
import GraphMapper.Proofs.Result.Reading

/-!
# Declared properties, and what is stored besides

Storage names and declared names need not be the same, and everything stored
that no declaration is about is read as well, under its own name.  So the two
can meet: a property that is stored under another name is covered up where
something is stored under its own (`Property.CoveredUp`).  `ReadAs` says what is
read in every other case, and that nothing else is.
-/

namespace GraphMapper

/-! ## Entries behind others -/

namespace Dict

variable {α : Type} {as bs : List (String × α)} {k : String} {v : α}

/-- Entries under other keys leave those before them alone. -/
theorem get?_ofList_append_of_notMem (h : k ∉ bs.map Prod.fst) :
    (ofList (as ++ bs)).get? k = (ofList as).get? k := by
  rw [ofList, List.foldl_append, get?_foldl_insert_of_notMem h]
  rfl

/-- The later entries win. -/
theorem get?_ofList_append_of_mem (hnodup : (bs.map Prod.fst).Nodup) (hmem : (k, v) ∈ bs) :
    (ofList (as ++ bs)).get? k = some v := by
  rw [ofList, List.foldl_append, get?_foldl_insert_of_mem hnodup hmem]

theorem IsSorted.nodup {d : Dict α} (h : d.IsSorted) : (d.map Prod.fst).Nodup := by
  refine List.Pairwise.imp (fun {k k'} hlt => ?_) h
  rintro rfl
  exact String.lt_irrefl k hlt

end Dict

/-! ## What is read -/

/-- A property is covered up where something is stored under its name that no declaration is
about.  It is itself stored under another name then. -/
def Property.CoveredUp (p : Property) (declared : List Property) (raw : Dict Value) : Prop :=
  (∃ v, raw.get? p.name = some v) ∧ ∀ q ∈ declared, q.storageName ≠ p.name

/-- What some stored properties read as, for some declarations. -/
structure ReadAs (declared : List Property) (raw read : Dict Value) : Prop where
  /-- A declared property is decoded from what is stored under its storage name. -/
  stored : ∀ p ∈ declared, ¬ p.CoveredUp declared raw → ∀ w, raw.get? p.storageName = some w →
    ∃ v, p.codec.decode w = .ok v ∧ read.get? p.name = some v
  /-- Where nothing is stored there, it has its static default, or else null. -/
  missing : ∀ p ∈ declared, ¬ p.CoveredUp declared raw → raw.get? p.storageName = none →
    read.get? p.name = some (p.default?.getD .null)
  /-- What is stored under no declared storage name keeps its name. -/
  passed : ∀ key v, raw.get? key = some v → (∀ p ∈ declared, p.storageName ≠ key) →
    read.get? key = some v
  /-- Nothing else is read. -/
  only : ∀ key v, read.get? key = some v → (∃ p ∈ declared, p.name = key) ∨
    raw.get? key = some v ∧ ∀ p ∈ declared, p.storageName ≠ key

namespace ReadAs

variable {declared : List Property} {raw read : Dict Value}

theorem findStored?_isNone {key : String} :
    (Property.findStored? declared key).isNone = true ↔ ∀ p ∈ declared, p.storageName ≠ key := by
  rw [Option.isNone_iff_eq_none, Property.findStored?, List.find?_eq_none]
  simp

/-- What is stored besides the declared properties, entry by entry. -/
theorem mem_others {key : String} {v : Value} (hsorted : raw.IsSorted) :
    (key, v) ∈ raw.filter (fun e => (Property.findStored? declared e.1).isNone) ↔
      raw.get? key = some v ∧ ∀ p ∈ declared, p.storageName ≠ key := by
  rw [List.mem_filter, findStored?_isNone]
  exact and_congr_left fun _ => ⟨hsorted.get?_of_mem, Dict.mem_of_get?⟩

/-- A property that is not covered up has no rival among what is stored besides. -/
theorem notMem_others {p : Property} (h : ¬ p.CoveredUp declared raw) (hsorted : raw.IsSorted) :
    p.name ∉ (raw.filter fun e => (Property.findStored? declared e.1).isNone).map Prod.fst := by
  intro hmem
  obtain ⟨⟨key, v⟩, hothers, rfl⟩ := List.mem_map.1 hmem
  obtain ⟨hv, hfree⟩ := (mem_others hsorted).1 hothers
  exact h ⟨⟨v, hv⟩, hfree⟩

theorem of_readProperties (hnames : Property.Distinct declared) (hsorted : raw.IsSorted)
    (h : readProperties declared raw = .ok read) : ReadAs declared raw read := by
  obtain ⟨decoded, hkeys, hdecoded, rfl⟩ := readProperties_eq_ok h
  have hread {p : Property} (hp : p ∈ declared) (hfree : ¬ p.CoveredUp declared raw) :
      ∃ u, p.read raw = .ok u ∧ (Dict.ofList (decoded ++ raw.filter fun e =>
        (Property.findStored? declared e.1).isNone)).get? p.name = some u := by
    obtain ⟨u, hu, hmem⟩ := hdecoded p hp
    refine ⟨u, hu, ?_⟩
    rw [Dict.get?_ofList_append_of_notMem (notMem_others hfree hsorted)]
    exact Dict.get?_foldl_insert_of_mem (hkeys ▸ hnames) hmem []
  constructor
  case stored =>
    intro p hp hfree w hw
    obtain ⟨u, hu, hget⟩ := hread hp hfree
    rw [Property.read, hw] at hu
    exact ⟨u, mapError_eq_ok.1 hu, hget⟩
  case missing =>
    intro p hp hfree hnone
    obtain ⟨u, hu, hget⟩ := hread hp hfree
    rw [Property.read, hnone] at hu
    rw [hget, Except.ok.inj hu]
  case passed =>
    intro key v hv hfree
    have hnodup : ((raw.filter fun e =>
        (Property.findStored? declared e.1).isNone).map Prod.fst).Nodup :=
      hsorted.nodup.sublist (List.filter_sublist.map _)
    exact Dict.get?_ofList_append_of_mem hnodup ((mem_others hsorted).2 ⟨hv, hfree⟩)
  case only =>
    intro key v hv
    rcases List.mem_append.1 (Dict.mem_of_mem_ofList (Dict.mem_of_get? hv)) with hmem | hmem
    · have hkey : key ∈ declared.map Property.name :=
        hkeys ▸ List.mem_map.2 ⟨(key, v), hmem, rfl⟩
      exact .inl (List.mem_map.1 hkey)
    · exact .inr ((mem_others hsorted).1 hmem)

end ReadAs

/-! ## Through a registry -/

namespace Registry

/-- The type that some labels belong to is built. -/
theorem built_of_resolve {calls : List RegistryCall} (hcalls : ∀ c ∈ calls, c.Built)
    {labels : LabelSet} {t : NodeType} (h : (after calls).resolve labels = .ok t) : t.Built := by
  have hholds := holds_after calls
  have hanswer := answers_resolve (after calls) labels hholds.distinct hholds.oneEach
  rw [h] at hanswer
  obtain ⟨s, hfits, -⟩ := (LabelTable.answers_ok_iff hholds.oneEach).1 hanswer
  exact built_of_mem_taken hcalls t (mem_of_latest? ((hholds.table s t).1 hfits.1).1)

theorem entity_eq_ok {r : Registry} {raw : RawNode} {e : Entity} (h : r.entity raw = .ok e) :
    r.resolve (.ofList raw.labels) = .ok e.nodeType ∧
      readProperties e.nodeType.properties raw.properties = .ok e.properties := by
  unfold entity at h
  dsimp only at h
  split at h
  · next t ht =>
    obtain ⟨properties, hproperties, h⟩ := bind_eq_ok.1 h
    obtain rfl := pure_eq_ok.1 h
    exact ⟨ht, hproperties⟩
  · exact absurd h throw_ne_ok
  · exact absurd h throw_ne_ok

theorem edge_eq_ok {r : Registry} {raw : RawEdge} {d : Edge} (h : r.edge raw = .ok d) :
    d.model? = r.activeFor? raw.relType ∧
      match d.model? with
      | some model => readProperties model.properties raw.properties = .ok d.properties
      | none => d.properties = raw.properties := by
  unfold edge at h
  dsimp only at h
  split at h
  · next model hmodel =>
    obtain ⟨properties, hproperties, h⟩ := bind_eq_ok.1 h
    obtain rfl := pure_eq_ok.1 h
    exact ⟨rfl, by rw [hmodel]; exact hproperties⟩
  · next hmodel =>
    obtain rfl := pure_eq_ok.1 h
    exact ⟨rfl, by rw [hmodel]⟩

/-- Whatever types are registered, the properties of a node are read as its type declares them, and
those of an edge as the active relationship type of its label does; those of an edge whose label has
none are left as they are. -/
theorem properties_as_declared {calls : List RegistryCall} (hcalls : ∀ c ∈ calls, c.Built) :
    (∀ (raw : RawNode) (e : Entity), raw.properties.IsSorted →
      (after calls).entity raw = .ok e →
      ReadAs e.nodeType.properties raw.properties e.properties) ∧
    ∀ (raw : RawEdge) (d : Edge), raw.properties.IsSorted → (after calls).edge raw = .ok d →
      match d.model? with
      | some model => ReadAs model.properties raw.properties d.properties
      | none => d.properties = raw.properties := by
  constructor
  · intro raw e hsorted he
    obtain ⟨htype, hread⟩ := entity_eq_ok he
    exact .of_readProperties (built_of_resolve hcalls htype).distinct hsorted hread
  · intro raw d hsorted hd
    obtain ⟨hactive, hread⟩ := edge_eq_ok hd
    cases hmodel : d.model? with
    | some model =>
      rw [hmodel] at hactive hread
      have hbuilt := (holdsBuilt_after hcalls).active hactive.symm
      exact .of_readProperties hbuilt.distinct hsorted hread
    | none =>
      rw [hmodel] at hread
      exact hread

end Registry

namespace Sample

/-- An age, stored in years. -/
def aged : Property := ⟨"age", some "years", .integer, false, none, .none, false⟩

/-- Persons with an age, and supplies with one. -/
def agedTypes : List RegistryCall :=
  [.node ((NodeType.new "Person").withProperty aged),
    .relationship ((RelationshipType.new "Supply" "SUPPLIED_BY").withProperty aged)]

theorem agedTypes_built : ∀ c ∈ agedTypes, c.Built :=
  List.forall_mem_cons.2 ⟨(NodeType.Built.new _).withProperty _,
    List.forall_mem_singleton.2 ((RelationshipType.Built.new _ _).withProperty _)⟩

/-- A stored person. -/
def storedPerson (properties : Dict Value) : RawNode := ⟨"p", ["Person"], properties⟩

/-- A stored supply. -/
def storedSupply (properties : Dict Value) : RawEdge := ⟨"s", "SUPPLIED_BY", "p", "q", properties⟩

/-- What reading a property depends on, if it has no default. -/
def outline (p : Property) : String × String × Codec := (p.name, p.storageName, p.codec)

theorem outline_eq {p : Property} (h : outline p = outline aged) :
    p.name = "age" ∧ p.storageName = "years" ∧ p.codec = .integer := by
  simpa [outline, aged, Property.storageName] using h

theorem entity_aged (properties : Dict Value)
    (h : (((Registry.after agedTypes).entity (storedPerson properties)).toOption.map fun e =>
      e.nodeType.properties.map outline) = some [outline aged]) :
    ∃ e p, (Registry.after agedTypes).entity (storedPerson properties) = .ok e ∧
      e.nodeType.properties = [p] ∧ outline p = outline aged := by
  obtain ⟨e, he, houtline⟩ := Option.map_eq_some_iff.1 h
  obtain ⟨p, hp, hpaged⟩ := List.map_eq_singleton_iff.1 houtline
  exact ⟨e, p, eq_ok_of_toOption he, hp, hpaged⟩

theorem edge_aged (properties : Dict Value)
    (h : (((Registry.after agedTypes).edge (storedSupply properties)).toOption.bind fun d =>
      d.model?.map fun model => model.properties.map outline) = some [outline aged]) :
    ∃ d model p, (Registry.after agedTypes).edge (storedSupply properties) = .ok d ∧
      d.model? = some model ∧ model.properties = [p] ∧ outline p = outline aged := by
  obtain ⟨d, hd, hmodel⟩ := Option.bind_eq_some_iff.1 h
  obtain ⟨model, hmodel, houtline⟩ := Option.map_eq_some_iff.1 hmodel
  obtain ⟨p, hp, hpaged⟩ := List.map_eq_singleton_iff.1 houtline
  exact ⟨d, model, p, eq_ok_of_toOption hd, hmodel, hp, hpaged⟩

theorem years_of_readAs {p : Property} {raw read : Dict Value} (h : ReadAs [p] raw read)
    (hp : outline p = outline aged) (hfree : raw.get? "age" = none) {i : Int64}
    (hyears : raw.get? "years" = some (.int i)) : read.get? "age" = some (.int i) := by
  obtain ⟨hname, hstorage, hcodec⟩ := outline_eq hp
  have hopen : ¬ p.CoveredUp [p] raw := by
    rintro ⟨⟨v, hv⟩, -⟩
    rw [hname, hfree] at hv
    cases hv
  obtain ⟨v, hv, hread⟩ := h.stored p List.mem_cons_self hopen _ (hstorage ▸ hyears)
  rw [hcodec] at hv
  obtain rfl := Except.ok.inj hv
  exact hname ▸ hread

end Sample

namespace Registry

theorem properties_as_declared_aged : ∃ e d,
    (after Sample.agedTypes).entity
        (Sample.storedPerson [("legacy", .bool true), ("years", .int 36)]) = .ok e ∧
      e.properties.get? "age" = some (.int 36) ∧ e.properties.get? "legacy" = some (.bool true) ∧
    (after Sample.agedTypes).edge (Sample.storedSupply [("years", .int 1)]) = .ok d ∧
      d.properties.get? "age" = some (.int 1) := by
  obtain ⟨hnodes, hedges⟩ := properties_as_declared Sample.agedTypes_built
  obtain ⟨e, p, he, hp, hpaged⟩ := Sample.entity_aged
    [("legacy", .bool true), ("years", .int 36)] (by decide +kernel)
  obtain ⟨d, model, q, hd, hmodel, hq, hqaged⟩ := Sample.edge_aged
    [("years", .int 1)] (by decide +kernel)
  have hsorted : Dict.IsSorted [("legacy", Value.bool true), ("years", .int 36)] :=
    (by decide : List.Pairwise (· < ·) ["legacy", "years"])
  have hread := hnodes _ e hsorted he
  rw [hp] at hread
  have hread' := hedges (Sample.storedSupply [("years", .int 1)]) d
    (List.pairwise_singleton _ "years") hd
  rw [hmodel] at hread'
  dsimp only at hread'
  rw [hq] at hread'
  refine ⟨e, d, he, Sample.years_of_readAs hread hpaged rfl rfl, ?_, hd,
    Sample.years_of_readAs hread' hqaged rfl rfl⟩
  refine hread.passed "legacy" _ rfl fun p' hp' => ?_
  rw [List.mem_singleton.1 hp', (Sample.outline_eq hpaged).2.1]
  decide

/-- What is stored under the name of a property that is stored under another comes in the place of
what is stored of the property itself. -/
theorem declared_property_covered_up : ∃ e p,
    (after Sample.agedTypes).entity
        (Sample.storedPerson [("age", .string "old"), ("years", .int 36)]) = .ok e ∧
      p ∈ e.nodeType.properties ∧ p.name = "age" ∧
      p.read [("age", .string "old"), ("years", .int 36)] = .ok (.int 36) ∧
      e.properties.get? p.name = some (.string "old") := by
  obtain ⟨e, p, he, hp, hpaged⟩ := Sample.entity_aged
    [("age", .string "old"), ("years", .int 36)] (by decide +kernel)
  obtain ⟨htype, hread⟩ := entity_eq_ok he
  have hbuilt := built_of_resolve Sample.agedTypes_built htype
  have hsorted : Dict.IsSorted [("age", Value.string "old"), ("years", .int 36)] :=
    (by decide : List.Pairwise (· < ·) ["age", "years"])
  have hread := ReadAs.of_readProperties hbuilt.distinct hsorted hread
  rw [hp] at hread
  obtain ⟨hname, hstorage, hcodec⟩ := Sample.outline_eq hpaged
  refine ⟨e, p, he, by simp [hp], hname, ?_, ?_⟩
  · rw [Property.read, hstorage, hcodec]
    rfl
  · rw [hname]
    refine hread.passed "age" _ rfl fun p' hp' => ?_
    rw [List.mem_singleton.1 hp', hstorage]
    decide

end Registry

end GraphMapper
