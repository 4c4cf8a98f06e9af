import GraphMapper.Proofs.Compile.Run
import GraphMapper.Proofs.Result.Reading
import GraphMapper.Proofs.Schema.Combinations

/-!
# Created nodes, read back

A node that get-or-create creates has the labels of its type, and with these it
belongs to that type whatever else is registered.  What was given to its
properties comes back as long as no two of them meet in storage
(`NodeType.created_node_reads_back`).

Two properties may be stored under one name, and then one may come back as the
other (`NodeType.created_node_lost`).
-/

namespace GraphMapper

/-! ## What is stored -/

section Merge

variable {var : String} {supplied : Properties} {fresh : String} {p : Property} {b b' : Binder}

/-- What a merge stores of a property: what is supplied for a key, and what another one is created
with. -/
def Property.mergedValue? (p : Property) (supplied : Properties) (fresh : String) :
    Except Error (Option Value) :=
  if p.mergeKey then
    match supplied? supplied p with
    | none => throw (.encode p.name .noMergeValue)
    | some v => some <$> p.encode p.name v
  else p.createdValue? supplied fresh

/-- Binds what a merge stores of a property. -/
def bindMerged (var : String) (p : Property) (b : Binder) :
    Option Value → Option (Bool × String × String) × Binder
  | none => (none, b)
  | some w =>
    let (param, b) := b.bind (paramHint "" ⟨var, p.storageName⟩) w
    (some (p.mergeKey, p.storageName, param), b)

/-- A property is merged by working out what is stored and binding it. -/
theorem mergeProperty_eq (var : String) (supplied : Properties) (fresh : String) (p : Property)
    (b : Binder) :
    mergeProperty var supplied fresh p b = bindMerged var p b <$> p.mergedValue? supplied fresh := by
  unfold mergeProperty Property.mergedValue?
  by_cases hkey : p.mergeKey
  · rw [if_pos hkey, if_pos hkey]
    cases supplied? supplied p with
    | none => rfl
    | some v =>
      dsimp only
      generalize p.encode p.name v = w
      cases w with
      | error e => rfl
      | ok w =>
        show _ = Except.ok (some (p.mergeKey, p.storageName, _), _)
        rw [hkey]
        rfl
  · rw [if_neg hkey, if_neg hkey]
    generalize p.createdValue? supplied fresh = w?
    cases w? with
    | error e => rfl
    | ok w? =>
      cases w? with
      | none => rfl
      | some w =>
        show _ = Except.ok (some (p.mergeKey, p.storageName, _), _)
        rw [Bool.eq_false_iff.2 hkey]
        rfl

/-- A value is stored of every property that can be merged, unless none is given to it. -/
theorem Property.mergedValue?_eq_ok {w? : Option Value}
    (h : p.mergedValue? supplied fresh = .ok w?) :
    (p.mergeKey = false ∧ p.given? supplied fresh = none ∧ w? = none) ∨
      ∃ v w, (p.mergeKey = true → supplied? supplied p = some v) ∧
        p.given? supplied fresh = some v ∧ p.codec.encode v = .ok w ∧ w? = some w := by
  unfold mergedValue? at h
  split at h
  · next hkey =>
    cases hsupplied : supplied? supplied p with
    | none =>
      rw [hsupplied] at h
      exact absurd h throw_ne_ok
    | some v =>
      rw [hsupplied] at h
      obtain ⟨w, hw, hsome⟩ := map_eq_ok.1 h
      have hgiven : p.given? supplied fresh = some v := by
        rw [given?, hsupplied]
        rfl
      exact .inr ⟨v, w, fun _ => rfl, hgiven, mapError_eq_ok.1 hw, hsome.symm⟩
  · next hkey =>
    rcases createdValue?_eq_ok h with ⟨hnone, rfl⟩ | ⟨v, w, hgiven, hencode, rfl⟩
    · exact .inl ⟨Bool.eq_false_iff.2 hkey, hnone, rfl⟩
    · exact .inr ⟨v, w, fun h => absurd h hkey, hgiven, hencode, rfl⟩

/-- A property is merged with a parameter that holds what its given value is stored as, and a key is
given what is supplied. -/
theorem mergeProperty_eq_ok {bound? : Option (Bool × String × String)}
    (h : mergeProperty var supplied fresh p b = .ok (bound?, b')) :
    (p.mergeKey = false ∧ p.given? supplied fresh = none ∧ bound? = none ∧ b = b') ∨
      ∃ v w param, (p.mergeKey = true → supplied? supplied p = some v) ∧
        p.given? supplied fresh = some v ∧ p.codec.encode v = .ok w ∧
        bound? = some (p.mergeKey, p.storageName, param) ∧ b.Adds [param] b' ∧
        b'.params.get? param = some w := by
  rw [mergeProperty_eq] at h
  obtain ⟨w?, hw?, hbound⟩ := map_eq_ok.1 h
  rcases Property.mergedValue?_eq_ok hw? with
    ⟨hkey, hnone, rfl⟩ | ⟨v, w, hkey, hgiven, hencode, rfl⟩
  · obtain ⟨rfl, rfl⟩ := Prod.mk.inj hbound
    exact .inl ⟨hkey, hnone, rfl, rfl⟩
  · obtain ⟨rfl, rfl⟩ := Prod.mk.inj hbound
    obtain ⟨hadds, hparam⟩ := b.adds_bind (paramHint "" ⟨var, p.storageName⟩) w
    exact .inr ⟨v, w, _, hkey, hgiven, hencode, rfl, hadds, hparam⟩

/-- Properties are merged with parameters that hold what their given values are stored as. -/
theorem mergeProperties_eq_ok {ids : Identifiers} {position : Nat} {ps : List Property}
    {bound : List (Bool × String × String)}
    (h : mergeProperties var supplied ids position ps b = .ok (bound, b')) :
    ∃ params stored, b.Adds params b' ∧
      List.Forall₂ StoredAs (givenValues supplied ids position ps) stored ∧
      List.Forall₂ (Assigns b'.params) (bound.map Prod.snd) stored := by
  induction ps generalizing position b bound with
  | nil =>
    obtain ⟨rfl, rfl⟩ := run_pure_eq_ok.1 h
    exact ⟨[], [], .refl b, .nil, .nil⟩
  | cons p rest ih =>
    obtain ⟨bound?, b₁, hfirst, h⟩ := run_bind_eq_ok.1 h
    obtain ⟨others, b₂, hrest, h⟩ := run_bind_eq_ok.1 h
    obtain ⟨rfl, rfl⟩ := run_pure_eq_ok.1 h
    obtain ⟨params, stored, hadds, hstored, hassigns⟩ := ih hrest
    rw [givenValues]
    rcases mergeProperty_eq_ok hfirst with
      ⟨-, hnone, rfl, rfl⟩ | ⟨v, w, param, -, hsome, hencode, rfl, hadd, hparam⟩
    · rw [hnone]
      exact ⟨params, stored, hadds, hstored, hassigns⟩
    · rw [hsome]
      exact ⟨[param] ++ params, (p.storageName, w) :: stored, hadd.trans hadds,
        .cons ⟨rfl, hencode⟩ hstored, .cons ⟨rfl, hadds.keeps param w hparam⟩ hassigns⟩

end Merge

namespace NodeType

variable {t : NodeType} {ids : Identifiers} {supplied : Properties} {c : CompiledMerge}

/-- A merge has the labels of its type, and assigns a parameter to each of its given properties. -/
theorem compileGetOrCreate_eq_ok (h : t.compileGetOrCreate ids supplied = .ok c) :
    c.statement.labels = t.ancestors ++ [t.label] ∧
      ∃ bound binder, mergeProperties t.variableName supplied ids 0 t.properties .empty =
          .ok (bound, binder) ∧
        c.params = binder.params ∧
        (c.statement.keys ++ c.statement.created).Perm (bound.map Prod.snd) := by
  unfold compileGetOrCreate at h
  split at h
  · exact absurd h throw_bind_ne_ok
  obtain ⟨⟨bound, binder⟩, hbound, h⟩ := bind_eq_ok.1 h
  obtain ⟨_, h⟩ := check_eq_ok.1 h
  obtain rfl := pure_eq_ok.1 h
  refine ⟨rfl, bound, binder, hbound, rfl, ?_⟩
  show (List.map _ _ ++ List.map _ _).Perm _
  rw [← List.map_append]
  exact (List.filter_append_perm _ bound).map Prod.snd

end NodeType

/-! ## What is read -/

namespace Registry

/-- Nodes with the labels of a registered type belong to it. -/
theorem resolve_labels {calls : List RegistryCall} {name : String} {t : NodeType}
    (h : (after calls).nodeType name = .ok t) : (after calls).resolve t.labels = .ok t := by
  have hholds := holds_after calls
  have hlatest := hholds.nodeType_eq_ok_iff.1 h
  have hentry : (t.labels, t) ∈ (after calls).table :=
    (hholds.table _ _).2 ⟨(name_of_latest? hlatest).symm ▸ hlatest, t.labels_mem_labelSets⟩
  rw [resolve, (LabelTable.get?_eq_some_iff hholds.distinct).2 hentry]

end Registry

/-- The node that a merge creates. -/
def CompiledMerge.created (c : CompiledMerge) (id : String) : RawNode :=
  ⟨id, c.statement.labels, assigned (c.statement.keys ++ c.statement.created) c.params⟩

namespace NodeType

variable {t : NodeType} {ids : Identifiers} {supplied : Properties} {c : CompiledMerge}

/-- A node that a merge creates belongs to the type of the merge.  It is read back, if nothing else
that the type declares is stored under the storage name of a property that was given a value, unless
one of the values is JSON that nests too deeply. -/
theorem created_node_reads_back {calls : List RegistryCall} (hcalls : ∀ call ∈ calls, call.Built)
    {name : String} (ht : (Registry.after calls).nodeType name = .ok t)
    (hcompiled : t.compileGetOrCreate ids supplied = .ok c) (id : String) :
    (Registry.after calls).resolve (.ofList (c.created id).labels) = .ok t ∧
      ((∀ e ∈ givenValues supplied ids 0 t.properties, ∀ q ∈ t.properties,
          q.storageName = e.1.storageName → q = e.1) →
        (∃ e, (Registry.after calls).entity (c.created id) = .ok e ∧ e.nodeType = t ∧
          ReadBack (givenValues supplied ids 0 t.properties) (c.created id).properties
            e.properties) ∨
        ∃ p v, (p, v) ∈ givenValues supplied ids 0 t.properties ∧
          Json.maxDepth < p.codec.jsonNesting v ∧
          ∃ e, (Registry.after calls).entity (c.created id) = .error (.decode p.name e)) := by
  obtain ⟨hlabels, bound, binder, hbound, hparams, hperm⟩ := compileGetOrCreate_eq_ok hcompiled
  have hresolve : (Registry.after calls).resolve (.ofList (c.created id).labels) = .ok t := by
    rw [CompiledMerge.created, hlabels]
    exact Registry.resolve_labels ht
  refine ⟨hresolve, fun halone => ?_⟩
  obtain ⟨_, stored, _, hstored, hassigns⟩ := mergeProperties_eq_ok hbound
  rw [← hparams] at hassigns
  have hsublist := givenValues_sublist supplied ids 0 t.properties
  have hnames := (Registry.built_of_nodeType hcalls ht).distinct
  have hread : ∀ e ∈ givenValues supplied ids 0 t.properties, e.1.ReadBy t.properties :=
    fun e he => ⟨e.1, hsublist.subset (List.mem_map_of_mem he), rfl, rfl, fun q hq =>
      ⟨halone e he q hq, fun hsame => hsame ▸ rfl⟩⟩
  have hproperties : (c.created id).properties =
      assigned (c.statement.keys ++ c.statement.created) c.params := rfl
  unfold Registry.entity
  simp only [hresolve, hproperties]
  rcases readProperties_assigned (hnames.sublist (hsublist.map _)) hnames hread hstored hperm
    hassigns with ⟨read, hok, hback⟩ | ⟨p, v, hgiven, hdeep, e, herror⟩
  · rw [hok]
    exact .inl ⟨_, rfl, rfl, hback⟩
  · rw [herror]
    exact .inr ⟨p, v, hgiven, hdeep, e, rfl⟩

/-- Every node that a merge creates is read back, if some condition holds of the values that were
given and of the type. -/
def ReadsMerged (P : List (Property × Value) → NodeType → Prop) : Prop :=
  ∀ {calls : List RegistryCall} {name : String} {t : NodeType} {ids : Identifiers}
    {supplied : Properties} {c : CompiledMerge} (id : String), (∀ call ∈ calls, call.Built) →
    (Registry.after calls).nodeType name = .ok t → t.compileGetOrCreate ids supplied = .ok c →
    P (givenValues supplied ids 0 t.properties) t →
    ∃ e, (Registry.after calls).entity (c.created id) = .ok e ∧
      ReadBack (givenValues supplied ids 0 t.properties) (c.created id).properties e.properties

end NodeType

namespace Sample

/-- What a person is known by. -/
def called : Property := ⟨"name", none, .string none, true, none, .unique, true⟩

/-- A property that is stored as an alias. -/
def aliased (name : String) : Property :=
  ⟨name, some "alias", .string none, false, none, .none, false⟩

/-- A remark of any form. -/
def remark : Property := ⟨"remark", none, .json, false, none, .none, false⟩

/-- Persons with a nickname and a title, which are stored as one. -/
def titled : NodeType :=
  (((NodeType.new "Person").withProperty called).withProperty (aliased "nick")).withProperty
    (aliased "title")

/-- Persons with a remark. -/
def remarked : NodeType := ((NodeType.new "Person").withProperty called).withProperty remark

theorem titled_built : ∀ call ∈ [RegistryCall.node titled], call.Built :=
  List.forall_mem_singleton.2 ((((NodeType.Built.new _).withProperty _).withProperty _).withProperty _)

theorem remarked_built : ∀ call ∈ [RegistryCall.node remarked], call.Built :=
  List.forall_mem_singleton.2 (((NodeType.Built.new _).withProperty _).withProperty _)

theorem titled_properties : titled.properties = [called, aliased "nick", aliased "title"] := rfl

theorem remarked_properties : remarked.properties = [called, remark] := rfl

/-- What is supplied for a person with a nickname and a title. -/
def entitled : Properties :=
  [("name", .string "Ada"), ("nick", .string "Countess"), ("title", .string "Lady")]

theorem nodeType_registered {t : NodeType} (h : (Registry.empty.admits t).isOk = true) :
    (Registry.after [.node t]).nodeType t.name = .ok t := by
  obtain ⟨_, hadmits⟩ := exists_eq_ok h
  exact Registry.nodeType_concat [] hadmits

/-- Remarks and names are stored apart. -/
theorem remarked_apart {p q : Property} (hp : p ∈ remarked.properties)
    (hq : q ∈ remarked.properties) (hmeet : q.storageName = p.storageName) : q = p := by
  rw [remarked_properties] at hp hq
  exact List.inj_on_of_nodup_map (by decide) hq hp hmeet

/-- What is supplied for a person with a remark. -/
def remarking (remark : Value) : Properties := [("name", .string "Ada"), ("remark", remark)]

theorem mem_remarking {v : Value} (hv : v.isNull = false) (ids : Identifiers) :
    (remark, v) ∈ givenValues (remarking v) ids 0 remarked.properties :=
  mem_givenValues (by simp [remarked_properties]) rfl hv

end Sample

namespace NodeType

theorem created_node_reads_back_remarked : ∃ (c : CompiledMerge) (e : Entity),
    Sample.remarked.compileGetOrCreate (fun _ => "") (Sample.remarking (Sample.nested 1)) = .ok c ∧
    (Registry.after [.node Sample.remarked]).entity (c.created "n") = .ok e ∧
    e.typeName = "Person" ∧ e.properties.get? "remark" = some (Sample.nested 1) := by
  obtain ⟨c, hc⟩ : ∃ c, Sample.remarked.compileGetOrCreate (fun _ => "")
      (Sample.remarking (Sample.nested 1)) = .ok c := exists_eq_ok (by decide +kernel)
  obtain ⟨-, hread⟩ := created_node_reads_back Sample.remarked_built
    (Sample.nodeType_registered (by decide +kernel)) hc "n"
  have hshallow : ∀ e ∈ givenValues (Sample.remarking (Sample.nested 1)) (fun _ => "") 0
      Sample.remarked.properties, e.1.codec.jsonNesting e.2 ≤ Json.maxDepth := by
    decide +kernel
  rcases hread fun e he q hq => Sample.remarked_apart
      ((givenValues_sublist ..).subset (List.mem_map_of_mem he)) hq with
    ⟨e, he, htype, hback⟩ | ⟨p, v, hmem, hdeep, -⟩
  · obtain ⟨w, u, hw, -, hu, hget⟩ := hback _ _ (Sample.mem_remarking rfl _)
    cases hw
    obtain rfl := Except.ok.inj (Sample.decode_shallow.symm.trans hu)
    exact ⟨c, e, hc, he, congrArg NodeType.name htype, hget⟩
  · exact absurd hdeep (Nat.not_lt.2 (hshallow _ hmem))

/-- A merge may create a node that is not read back.

* Two properties may be stored under one name, and then one comes back as the other.
* Where each is stored under a name of its own, JSON may nest too deeply. -/
theorem created_node_lost :
    ¬ ReadsMerged (fun given _ => ∀ e ∈ given, e.1.codec.jsonNesting e.2 ≤ Json.maxDepth) ∧
      ¬ ReadsMerged fun given t =>
        ∀ e ∈ given, ∀ q ∈ t.properties, q.storageName = e.1.storageName → q = e.1 := by
  constructor
  · intro hreads
    obtain ⟨c, hc⟩ : ∃ c, Sample.titled.compileGetOrCreate (fun _ => "") Sample.entitled = .ok c :=
      exists_eq_ok (by decide +kernel)
    obtain ⟨e, -, hback⟩ := hreads "n" Sample.titled_built
      (Sample.nodeType_registered (by decide +kernel)) hc (by decide +kernel)
    have hnick : Sample.aliased "nick" ∈ Sample.titled.properties := by
      simp [Sample.titled_properties]
    have htitle : Sample.aliased "title" ∈ Sample.titled.properties := by
      simp [Sample.titled_properties]
    have hsame := hback.encode_eq (mem_givenValues hnick (v := .string "Countess") rfl rfl)
      (mem_givenValues htitle (v := .string "Lady") rfl rfl) rfl
    simp [Sample.aliased, Codec.encode, Codec.checkLength] at hsame
  · intro hreads
    obtain ⟨c, hc⟩ : ∃ c, Sample.remarked.compileGetOrCreate (fun _ => "")
        (Sample.remarking (Sample.nested 127)) = .ok c := exists_eq_ok (by decide +kernel)
    obtain ⟨e, -, hback⟩ := hreads "n" Sample.remarked_built
      (Sample.nodeType_registered (by decide +kernel)) hc fun e he q hq =>
        Sample.remarked_apart ((givenValues_sublist ..).subset (List.mem_map_of_mem he)) hq
    obtain ⟨w, u, hw, -, hu, -⟩ := hback _ _ (Sample.mem_remarking rfl _)
    cases hw
    obtain ⟨e', he'⟩ := Sample.decode_nested
    cases he'.symm.trans hu

end NodeType

end GraphMapper
