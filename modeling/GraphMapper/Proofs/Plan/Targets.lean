import GraphMapper.Proofs.Plan.Checked
import GraphMapper.Proofs.Plan.Names

/-!
# Hops without targets

Registration refuses a relationship without targets, so of the types in a plan
only a root that was never registered may declare one
(`NodeType.LacksTargets`).  No hop leads on from such a relationship, as there
is no type to declare the next one: a walk that takes it is that one hop, and a
path over it has that one step (`PathSpec.targets_of_resolve`).
-/

namespace GraphMapper

variable {r : Registry}

/-! ## Types -/

namespace NodeType

/-- A type whose relationships all have a target. -/
def HasTargets (t : NodeType) : Prop := ∀ rel ∈ t.relationships, rel.targets ≠ []

/-- A type that declares a relationship of a name without a target. -/
def LacksTargets (t : NodeType) (name : String) : Prop :=
  ∃ rel, t.relationship? name = some rel ∧ rel.targets = []

theorem mem_of_relationship? {t : NodeType} {name : String} {rel : Relationship}
    (h : t.relationship? name = some rel) : rel ∈ t.relationships ∧ rel.name = name :=
  ⟨List.mem_of_find?_eq_some h, by simpa using List.find?_some h⟩

theorem HasTargets.not_lacksTargets {t : NodeType} (h : t.HasTargets) (name : String) :
    ¬ t.LacksTargets name := by
  rintro ⟨rel, hrel, hnone⟩
  exact h rel (mem_of_relationship? hrel).1 hnone

end NodeType

theorem hasTargets_of_checkNodeType {t : NodeType} {u : Unit} (h : checkNodeType t = .ok u) :
    t.HasTargets := by
  obtain ⟨_, _, hrelationships⟩ := checkNodeType_eq_ok h
  intro rel hrel
  obtain ⟨_, _, h⟩ := bind_eq_ok.1 (forM_eq_ok hrelationships rel hrel)
  obtain ⟨_, _, h⟩ := bind_eq_ok.1 h
  split at h
  · exact absurd h throw_ne_ok
  · next hsome => exact hsome

/-- Registered types have targets. -/
theorem Registry.Reachable.hasTargets_of_nodeType (hr : r.Reachable) {name : String} {t : NodeType}
    (h : r.nodeType name = .ok t) : t.HasTargets := by
  obtain ⟨labels, hmem⟩ := mem_table_of_nodeType h
  exact hasTargets_of_checkNodeType (hr.checks.1 (labels, t) hmem)

/-! ## Walks -/

theorem Hop.targets_eq_nil_iff {rel : Relationship} {hop : Hop}
    (h : Hop.ofRelationship r rel = .ok hop) : hop.targets = [] ↔ rel.targets = [] := by
  rw [← List.length_eq_zero_iff, ← List.length_eq_zero_iff,
    (Hop.ofRelationship_eq_ok h).2.1.length_eq]

/-- The targets of a hop are registered types, which have targets themselves. -/
theorem Hop.hasTargets (hr : r.Reachable) {rel : Relationship} {hop : Hop}
    (h : Hop.ofRelationship r rel = .ok hop) : ∀ t ∈ hop.targets, t.HasTargets := by
  intro t ht
  obtain ⟨name, _, hname⟩ := exists_of_mem_forall₂ (Hop.ofRelationship_eq_ok h).2.1 ht
  exact hr.hasTargets_of_nodeType hname

theorem targets_of_walkFrom (hr : r.Reachable) {current : List NodeType}
    (hcurrent : ∀ t ∈ current, t.HasTargets) {names : List String} {hops : List Hop}
    (h : walkFrom r current names = .ok hops) : ∀ hop ∈ hops, hop.targets ≠ [] := by
  induction names generalizing current hops with
  | nil =>
    cases h
    exact fun hop hhop => absurd hhop List.not_mem_nil
  | cons name rest ih =>
    obtain ⟨rel, first, hops', hrel, hfirst, hrest, rfl⟩ := walkFrom_cons.1 h
    obtain ⟨t, ht, hrel⟩ := List.exists_of_findSome?_eq_some hrel
    intro hop hhop
    rcases List.mem_cons.1 hhop with rfl | hhop
    · intro hnone
      exact hcurrent t ht rel (NodeType.mem_of_relationship? hrel).1
        ((Hop.targets_eq_nil_iff hfirst).1 hnone)
    · exact ih (Hop.hasTargets hr hfirst) hrest hop hhop

/-- A walk over a relationship without targets is one hop. -/
theorem walk_of_lacksTargets {root : NodeType} {name : String} (hroot : root.LacksTargets name)
    {rest : List String} {hops : List Hop} (h : walk r root (name :: rest) = .ok hops) :
    rest = [] ∧ ∃ hop, hops = [hop] ∧ hop.relationship.name = name ∧ hop.targets = [] := by
  obtain ⟨rel, hrel, hnone⟩ := hroot
  obtain ⟨rel', hop, hops', hrel', hhop, hrest, rfl⟩ := walkFrom_cons.1 h
  obtain rfl : rel = rel' := by simpa [hrel] using hrel'
  have htargets := (Hop.targets_eq_nil_iff hhop).2 hnone
  rw [htargets] at hrest
  cases rest with
  | nil =>
    cases hrest
    refine ⟨rfl, hop, rfl, ?_, htargets⟩
    rw [(Hop.ofRelationship_eq_ok hhop).1]
    exact (NodeType.mem_of_relationship? hrel).2
  | cons second rest =>
    obtain ⟨_, _, _, hsecond, _⟩ := walkFrom_cons.1 hrest
    cases hsecond

/-- The hops of a walk have targets, unless its root lacks them. -/
theorem targets_of_walk (hr : r.Reachable) {root : NodeType} {names : List String}
    {hops : List Hop} (h : walk r root names = .ok hops) :
    (∀ hop ∈ hops, hop.targets ≠ []) ∨ ∃ name, names = [name] ∧ root.LacksTargets name := by
  cases names with
  | nil =>
    cases h
    exact .inl fun hop hhop => absurd hhop List.not_mem_nil
  | cons name rest =>
    by_cases hroot : root.LacksTargets name
    · obtain ⟨rfl, _⟩ := walk_of_lacksTargets hroot h
      exact .inr ⟨name, rfl, hroot⟩
    · obtain ⟨rel, first, hops', hrel, hfirst, hrest, rfl⟩ := walkFrom_cons.1 h
      have hrel : root.relationship? name = some rel := by simpa using hrel
      refine .inl fun hop hhop => ?_
      rcases List.mem_cons.1 hhop with rfl | hhop
      · exact fun hnone => hroot ⟨rel, hrel, (Hop.targets_eq_nil_iff hfirst).1 hnone⟩
      · exact targets_of_walkFrom hr (Hop.hasTargets hr hfirst) hrest hop hhop

/-! ## Paths -/

namespace PathSpec

variable {root : NodeType} {expr : String} {options : TraverseOptions} {mode : PathMode}
  {spec : PathSpec}

theorem map_hop_stepsOf {done : List String} {hops : List (String × Hop)} :
    (stepsOf options mode done hops).map PathStep.hop = hops.map Prod.snd := by
  induction hops generalizing done with
  | nil => rfl
  | cons hop rest ih => rw [stepsOf, List.map_cons, List.map_cons, ih]

/-- A path has a step for each of its hops, and there is one at least. -/
theorem walk_of_resolve (h : resolve r root expr options mode = .ok spec) :
    ∃ names hops, parseHops expr.toList = .ok names ∧ walk r root names = .ok hops ∧
      names ≠ [] ∧ hops.length = names.length ∧ spec.steps.map PathStep.hop = hops := by
  obtain ⟨names, hops, _, hnames, hwalk, rfl⟩ := resolve_eq_ok h
  have hlength : hops.length = names.length := length_of_walkFrom hwalk
  refine ⟨names, hops, hnames, hwalk, (legible_of_parseHops hnames).ne_nil, hlength, ?_⟩
  rw [map_hop_stepsOf, List.map_snd_zip (Nat.le_of_eq hlength)]

theorem steps_ne_nil (h : resolve r root expr options mode = .ok spec) : spec.steps ≠ [] := by
  obtain ⟨names, hops, _, _, hne, hlength, hhops⟩ := walk_of_resolve h
  intro hnil
  rw [hnil, List.map_nil] at hhops
  subst hhops
  exact hne (List.length_eq_zero_iff.1 hlength.symm)

/-- The hops of a path have targets, unless it is the one hop over a relationship for which its
root lacks them. -/
theorem targets_of_resolve (hr : r.Reachable) (h : resolve r root expr options mode = .ok spec) :
    (∀ step ∈ spec.steps, step.hop.targets ≠ []) ∨
      ∃ name, parseHops expr.toList = .ok [name] ∧ root.LacksTargets name ∧
        ∃ step, spec.steps = [step] ∧ step.name = name := by
  obtain ⟨names, hops, hnames, hwalk, _, _, hhops⟩ := walk_of_resolve h
  rcases targets_of_walk hr hwalk with htargets | ⟨name, rfl, hroot⟩
  · refine .inl fun step hstep => htargets _ ?_
    rw [← hhops]
    exact List.mem_map_of_mem hstep
  · obtain ⟨_, hop, rfl, hname, _⟩ := walk_of_lacksTargets hroot hwalk
    obtain ⟨step, hstep, rfl⟩ := List.map_eq_singleton_iff.1 hhops
    exact .inr ⟨name, hnames, hroot, step, hstep, hname⟩

end PathSpec

end GraphMapper
