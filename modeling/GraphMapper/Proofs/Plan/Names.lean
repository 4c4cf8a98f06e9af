import GraphMapper.Proofs.Plan.Walks
import GraphMapper.Proofs.Registry.Registration
import GraphMapper.Proofs.Text.Word

/-!
# Names in plans

Whatever a plan writes into a statement without quotes is a name: the names of
registered types and the storage names of their properties, hops, aliases, and
the names of projections, of transform variables and of what subqueries see and
hand out.  Registration checks the first two, the calls on a plan the others.
-/

namespace GraphMapper

theorem Dict.mem_of_get? {α : Type} {d : Dict α} {k : String} {v : α} (h : d.get? k = some v) :
    (k, v) ∈ d := by
  induction d with
  | nil => cases h
  | cons e rest ih =>
    obtain ⟨key, value⟩ := e
    rw [get?] at h
    by_cases hkey : key = k
    · rw [if_pos hkey] at h
      cases h
      rw [hkey]
      exact List.mem_cons_self
    · rw [if_neg hkey] at h
      exact List.mem_cons_of_mem _ (ih h)

theorem Dict.mem_insert {α : Type} {d : Dict α} {k : String} {v : α} {e : String × α}
    (h : e ∈ d.insert k v) : e = (k, v) ∨ e ∈ d := by
  induction d with
  | nil => exact .inl (List.mem_singleton.1 h)
  | cons e' rest ih =>
    obtain ⟨key, value⟩ := e'
    rw [insert] at h
    split at h
    · exact (List.mem_cons.1 h).imp_right id
    · split at h
      · exact (List.mem_cons.1 h).imp_right (List.mem_cons_of_mem _)
      · rcases List.mem_cons.1 h with rfl | h
        · exact .inr List.mem_cons_self
        · exact (ih h).imp_right (List.mem_cons_of_mem _)

/-! ## Registered types -/

/-- A registry that registrations make. -/
inductive Registry.Reachable : Registry → Prop where
  | empty : Reachable Registry.empty
  | register {r r' : Registry} {t : NodeType} (hr : Reachable r) (h : r.register t = .ok r') :
    Reachable r'
  | registerRelationship {r r' : Registry} {t : RelationshipType} (hr : Reachable r)
    (h : r.registerRelationship t = .ok r') : Reachable r'

/-- A node type whose name and storage names may stand in a statement as they are. -/
structure NodeType.Named (t : NodeType) : Prop where
  name : IsName t.name
  storage : ∀ p ∈ t.properties, IsName p.storageName

/-- A relationship type whose storage names may stand in a statement as they are. -/
structure RelationshipType.Named (t : RelationshipType) : Prop where
  storage : ∀ p ∈ t.properties, IsName p.storageName

/-- A registry of well-named types. -/
structure Registry.Named (r : Registry) : Prop where
  types : ∀ e ∈ r.table, e.2.Named
  models : ∀ e ∈ r.models, e.2.Named

theorem checkProperties_eq_ok {ps : List Property} {u : Unit} (h : checkProperties ps = .ok u) :
    ∀ p ∈ ps, IsName p.storageName := by
  intro p hp
  obtain ⟨_, _, hstorage⟩ := bind_eq_ok.1 (forM_eq_ok h p hp)
  exact IsName.of_requireIdentifier hstorage

theorem checkNodeType_eq_ok {t : NodeType} {u : Unit} (h : checkNodeType t = .ok u) :
    requireIdentifier t.name = .ok () ∧ checkProperties t.properties = .ok () ∧
      t.relationships.forM (checkRelationship t.name) = .ok () := by
  obtain ⟨_, hname, h⟩ := bind_eq_ok.1 h
  obtain ⟨_, _, h⟩ := bind_eq_ok.1 h
  obtain ⟨_, _, h⟩ := bind_eq_ok.1 h
  obtain ⟨_, _, h⟩ := bind_eq_ok.1 h
  obtain ⟨_, hproperties, hrelationships⟩ := bind_eq_ok.1 h
  exact ⟨hname, hproperties, hrelationships⟩

theorem named_of_checkNodeType {t : NodeType} {u : Unit} (h : checkNodeType t = .ok u) :
    t.Named := by
  obtain ⟨hname, hproperties, _⟩ := checkNodeType_eq_ok h
  exact ⟨IsName.of_requireIdentifier hname, checkProperties_eq_ok hproperties⟩

theorem named_of_checkRelationshipType {t : RelationshipType} {u : Unit}
    (h : checkRelationshipType t = .ok u) : t.Named := by
  obtain ⟨_, _, h⟩ := bind_eq_ok.1 h
  obtain ⟨_, _, h⟩ := bind_eq_ok.1 h
  exact ⟨checkProperties_eq_ok h⟩

theorem Registry.registerRelationship_eq_ok {r r' : Registry} {t : RelationshipType}
    (h : r.registerRelationship t = .ok r') :
    checkRelationshipType t = .ok () ∧ r'.table = r.table ∧ r'.names = r.names ∧
      r'.models = r.models.insert t.name t := by
  simp only [Registry.registerRelationship] at h
  obtain ⟨_, hcheck, h⟩ := bind_eq_ok.1 h
  refine ⟨hcheck, ?_⟩
  cases htakeover : takeover (r.activeFor? t.relType) t with
  | replace =>
    rw [htakeover] at h
    obtain rfl := pure_eq_ok.1 h
    exact ⟨rfl, rfl, rfl⟩
  | keep =>
    rw [htakeover] at h
    obtain rfl := pure_eq_ok.1 h
    exact ⟨rfl, rfl, rfl⟩
  | conflict bound =>
    rw [htakeover] at h
    exact absurd h throw_ne_ok

/-- Registration only lets types in that pass their checks. -/
theorem Registry.Reachable.checks {r : Registry} (h : r.Reachable) :
    (∀ e ∈ r.table, checkNodeType e.2 = .ok ()) ∧
      ∀ e ∈ r.models, checkRelationshipType e.2 = .ok () := by
  induction h with
  | empty => exact ⟨by simp [Registry.empty], by simp [Registry.empty]⟩
  | register _ h ih =>
    obtain ⟨hadmits, rfl⟩ := register_eq_ok h
    refine ⟨fun e he => ?_, ih.2⟩
    rcases LabelTable.mem_give.1 he with ⟨rfl, _⟩ | ⟨he, _⟩
    · exact (admits_eq_ok hadmits).1
    · exact ih.1 e he
  | registerRelationship _ h ih =>
    obtain ⟨hcheck, htable, _, hmodels⟩ := registerRelationship_eq_ok h
    refine ⟨fun e he => ih.1 e (htable ▸ he), fun e he => ?_⟩
    rw [hmodels] at he
    rcases Dict.mem_insert he with rfl | he
    · exact hcheck
    · exact ih.2 e he

theorem Registry.Reachable.named {r : Registry} (h : r.Reachable) : r.Named :=
  ⟨fun e he => named_of_checkNodeType (h.checks.1 e he),
    fun e he => named_of_checkRelationshipType (h.checks.2 e he)⟩

theorem NodeType.Named.variableName {t : NodeType} (h : t.Named) : IsName t.variableName :=
  h.name.lowerCase

theorem Property.mem_of_find? {ps : List Property} {name : String} {p : Property}
    (h : Property.find? ps name = some p) : p ∈ ps := List.mem_of_find?_eq_some h

theorem Registry.mem_table_of_nodeType {r : Registry} {name : String} {t : NodeType}
    (h : r.nodeType name = .ok t) : ∃ labels, (labels, t) ∈ r.table := by
  unfold Registry.nodeType at h
  cases hget : r.nodeType? name with
  | none =>
    rw [hget] at h
    cases h
  | some t' =>
    rw [hget] at h
    cases h
    obtain ⟨labels, _, hlabels⟩ := Option.bind_eq_some_iff.1 hget
    exact ⟨labels, LabelTable.mem_of_get? hlabels⟩

theorem Registry.Named.nodeType {r : Registry} (hr : r.Named) {name : String} {t : NodeType}
    (h : r.nodeType name = .ok t) : t.Named := by
  obtain ⟨labels, hmem⟩ := Registry.mem_table_of_nodeType h
  exact hr.types (labels, t) hmem

theorem Registry.Named.relationshipType {r : Registry} (hr : r.Named) {name : String}
    {t : RelationshipType} (h : r.relationshipType name = .ok t) : t.Named := by
  unfold Registry.relationshipType at h
  cases hget : r.models.get? name with
  | none =>
    rw [hget] at h
    cases h
  | some t' =>
    rw [hget] at h
    cases h
    exact hr.models _ (Dict.mem_of_get? hget)

/-! ## Paths -/

/-- A hop between well-named types. -/
structure Hop.Named (h : Hop) : Prop where
  targets : ∀ t ∈ h.targets, t.Named
  model : ∀ m, h.model? = some m → m.Named

/-- A step over a well-named hop, reached by words and with a name for an alias. -/
structure PathStep.Named (s : PathStep) : Prop where
  hop : s.hop.Named
  hops : ∀ name ∈ s.hops, IsWord name
  aliased : ∀ name, s.alias? = some name → IsName name

/-- A path of well-named steps. -/
def PathSpec.Named (p : PathSpec) : Prop := ∀ step ∈ p.steps, step.Named

theorem PathStep.Named.chain {s : PathStep} (h : s.Named) : IsWord s.chain :=
  IsWord.joinDouble h.hops

theorem Hop.named_ofRelationship {r : Registry} (hr : r.Named) {rel : Relationship} {hop : Hop}
    (h : Hop.ofRelationship r rel = .ok hop) : hop.Named := by
  obtain ⟨_, htargets, hmodel⟩ := Hop.ofRelationship_eq_ok h
  refine ⟨fun t ht => ?_, fun m hm => ?_⟩
  · obtain ⟨_, _, hname⟩ := exists_of_mem_forall₂ htargets ht
    exact hr.nodeType hname
  · obtain ⟨_, hname⟩ := hmodel m hm
    exact hr.relationshipType hname

theorem named_walkFrom {r : Registry} (hr : r.Named) {current : List NodeType}
    {names : List String} {hops : List Hop} (h : walkFrom r current names = .ok hops) :
    ∀ hop ∈ hops, hop.Named := by
  induction names generalizing current hops with
  | nil =>
    cases h
    intro hop hhop
    cases hhop
  | cons name rest ih =>
    obtain ⟨_, first, _, _, hfirst, hrest, rfl⟩ := walkFrom_cons.1 h
    intro hop hmem
    rcases List.mem_cons.1 hmem with rfl | hmem
    · exact Hop.named_ofRelationship hr hfirst
    · exact ih hrest hop hmem

theorem isWord_parseHops {text : List Char} {hops : List String} (h : parseHops text = .ok hops) :
    ∀ name ∈ hops, IsWord name := by
  obtain ⟨_, _, h⟩ := bind_eq_ok.1 h
  obtain ⟨_, hnames, h⟩ := bind_eq_ok.1 h
  obtain rfl := pure_eq_ok.1 h
  intro name hname
  exact (IsName.of_requireIdentifier (forM_eq_ok hnames name hname)).word

namespace PathSpec

variable {r : Registry} {root : NodeType} {spec : PathSpec}

theorem named_stepsOf {options : TraverseOptions} {mode : PathMode} {done : List String}
    {hops : List (String × Hop)} (halias : ∀ name, options.alias? = some name → IsName name)
    (hdone : ∀ name ∈ done, IsWord name) (hhops : ∀ h ∈ hops, IsWord h.1 ∧ h.2.Named) :
    ∀ step ∈ stepsOf options mode done hops, step.Named := by
  induction hops generalizing done with
  | nil =>
    intro step hstep
    cases hstep
  | cons hop rest ih =>
    obtain ⟨hname, hhop⟩ := hhops hop List.mem_cons_self
    have hdone' : ∀ name ∈ done ++ [hop.1], IsWord name := by
      intro name hmem
      rcases List.mem_append.1 hmem with hmem | hmem
      · exact hdone name hmem
      · rw [List.mem_singleton.1 hmem]
        exact hname
    intro step hstep
    rcases List.mem_cons.1 hstep with rfl | hstep
    · refine ⟨hhop, hdone', fun name hname' => halias name ?_⟩
      by_cases hlast : rest.isEmpty = true
      · simpa [hlast] using hname'
      · simp [hlast] at hname'
    · exact ih hdone' (fun h hh => hhops h (List.mem_cons_of_mem hop hh)) step hstep

theorem named_of_resolve (hr : r.Named) {expr : String} {options : TraverseOptions}
    {mode : PathMode} (h : resolve r root expr options mode = .ok spec) : spec.Named := by
  obtain ⟨hops, resolved, halias, hhops, hresolved, rfl⟩ := resolve_eq_ok h
  refine named_stepsOf (fun name hname => ?_) (fun name hname => by cases hname) fun h hh => ?_
  · rw [hname] at halias
    exact IsName.of_requireIdentifier halias
  · obtain ⟨hfirst, hsecond⟩ := List.of_mem_zip hh
    exact ⟨isWord_parseHops hhops _ hfirst, named_walkFrom hr hresolved _ hsecond⟩

end PathSpec

/-- The hidden paths of a filter are well named, whatever the filter. -/
theorem Selection.named_filterPaths {r : Registry} {s : Selection} {hidden : List PathSpec}
    (hr : r.Named) (h : s.filterPaths r = .ok hidden) : ∀ p ∈ hidden, p.Named := by
  refine filterPaths_forall (fun hops p hp => ?_) h
  obtain ⟨visible, hvisible, rfl⟩ := PathSpec.forFilter_eq_ok hp
  have hnamed : visible.Named := PathSpec.named_of_resolve hr hvisible
  exact hnamed

/-! ## Plans -/

/-- A selection whose names may stand in a statement as they are. -/
structure Selection.Named (s : Selection) : Prop where
  root : s.root.Named
  paths : ∀ path ∈ s.paths, path.Named
  annotations : ∀ a ∈ s.annotations, IsName a.name
  transforms : ∀ t ∈ s.transforms, ∀ v ∈ t.vars, IsName v.name

namespace Selection

theorem named_of_new {r : Registry} {root : String} {p : QueryPlan} (hr : r.Named)
    (h : QueryPlan.new r root = .ok p) : p.selection.Named := by
  obtain ⟨t, ht, rfl⟩ := QueryPlan.new_eq_ok h
  exact ⟨hr.nodeType ht, by simp [QueryPlan.forType, QueryPlan.selection],
    by simp [QueryPlan.forType, QueryPlan.selection],
    by simp [QueryPlan.forType, QueryPlan.selection]⟩

/-- A call keeps a selection well named, whatever it splices in. -/
theorem Named.call {r : Registry} {p q : QueryPlan} {c : PlanCall} (hs : p.selection.Named)
    (hr : r.Named) (h : p.call r c = .ok q) : q.selection.Named := by
  cases QueryPlan.does_of_call h with
  | filter | exclude | has | share | orderBy | skip | limit | subquery =>
    exact ⟨hs.root, hs.paths, hs.annotations, hs.transforms⟩
  | traverse _ _ hspec =>
    refine ⟨hs.root, fun path hpath => ?_, hs.annotations, hs.transforms⟩
    rcases List.mem_append.1 hpath with hpath | hpath
    · exact hs.paths path hpath
    · rw [List.mem_singleton.1 hpath]
      exact PathSpec.named_of_resolve hr hspec
  | annotate hname =>
    refine ⟨hs.root, hs.paths, fun a ha => ?_, hs.transforms⟩
    rcases List.mem_append.1 ha with ha | ha
    · exact hs.annotations a ha
    · rw [List.mem_singleton.1 ha]
      exact IsName.of_requireIdentifier hname
  | transform _ hnames =>
    refine ⟨hs.root, hs.paths, hs.annotations, fun t ht => ?_⟩
    rcases List.mem_append.1 ht with ht | ht
    · exact hs.transforms t ht
    · rw [List.mem_singleton.1 ht]
      exact fun v hv => IsName.of_requireIdentifier (forM_eq_ok hnames v hv)

/-- Calls that are made against registries of well-named types keep it so. -/
theorem Named.calls {p q : QueryPlan} {history : List (Registry × PlanCall)}
    (hs : p.selection.Named) (hall : ∀ c ∈ history, c.1.Named) (h : p.calls history = .ok q) :
    q.selection.Named :=
  foldlM_invariant (P := fun p : QueryPlan => p.selection.Named) hs
    (fun c hc _ _ hp hcall => hp.call (hall c hc) hcall) h

end Selection

namespace QueryPlan

mutual

/-- A well-named plan, with well-named subqueries. -/
def Named : QueryPlan → Prop
  | mk s qs => s.Named ∧ AllNamed qs

/-- Some well-named subqueries. -/
def AllNamed : List (Subquery QueryPlan) → Prop
  | [] => True
  | ⟨plan, returns, imports⟩ :: qs =>
    plan.Named ∧ (∀ name ∈ returns ++ imports, IsName name) ∧ AllNamed qs

end

theorem allNamed_append {qs qs' : List (Subquery QueryPlan)} :
    AllNamed (qs ++ qs') ↔ AllNamed qs ∧ AllNamed qs' := by
  induction qs with
  | nil => simp [AllNamed]
  | cons q rest ih => simp [AllNamed, ih, and_assoc]

theorem Named.selection {p : QueryPlan} (h : p.Named) : p.selection.Named := by
  obtain ⟨s, qs⟩ := p
  exact h.1

/-- A plan written at a registered root by calls, each against a registry that registrations
make; so are the plans spliced into it. -/
inductive Written : QueryPlan → Prop where
  | new {r : Registry} {root : String} {p : QueryPlan} (hr : r.Reachable)
    (h : QueryPlan.new r root = .ok p) : Written p
  | call {r : Registry} {p q : QueryPlan} {c : PlanCall} (hr : r.Reachable) (hp : Written p)
    (hinner : ∀ inner returns imports, c = .subquery inner returns imports → Written inner)
    (h : p.call r c = .ok q) : Written q

/-- A written plan stays one under calls, if the plans spliced in are written too. -/
theorem Written.calls {p q : QueryPlan} {history : List (Registry × PlanCall)} (hp : p.Written)
    (hall : ∀ c ∈ history, c.1.Reachable ∧
      ∀ inner returns imports, c.2 = .subquery inner returns imports → inner.Written)
    (h : p.calls history = .ok q) : q.Written :=
  foldlM_invariant hp (fun c hc _ _ hp hcall => .call (hall c hc).1 hp (hall c hc).2 hcall) h

/-- A written plan is well named. -/
theorem Written.named {p : QueryPlan} (h : p.Written) : p.Named := by
  induction h with
  | new hr h =>
    obtain ⟨t, ht, rfl⟩ := new_eq_ok h
    exact ⟨Selection.named_of_new hr.named h, trivial⟩
  | @call r p q c hr _ _ h ihp ihinner =>
    have hselection := ihp.selection.call hr.named h
    cases does_of_call h with
    | subquery _ hnames =>
      refine ⟨hselection, allNamed_append.2 ⟨ihp.2, ihinner _ _ _ rfl, fun name hname => ?_,
        trivial⟩⟩
      exact IsName.of_requireIdentifier (forM_eq_ok hnames name hname)
    | _ => exact ⟨hselection, ihp.2⟩

end QueryPlan

namespace Sample

/-- The registry that comes of registering coffees, suppliers and countries. -/
def registered : Except Error Registry := do
  let r ← Registry.empty.register (linked "Coffee" "suppliers" "Supplier" "SUPPLIED_BY")
  let r ← r.register (linked "Supplier" "country" "Country" "IN")
  r.register (linked "Country" "coffees" "Coffee" "GROWS")

theorem reachable_registered {r : Registry} (h : registered = .ok r) : r.Reachable := by
  obtain ⟨r₁, h₁, h⟩ := bind_eq_ok.1 h
  obtain ⟨r₂, h₂, h₃⟩ := bind_eq_ok.1 h
  exact .register (.register (.register .empty h₁) h₂) h₃

end Sample

end GraphMapper
