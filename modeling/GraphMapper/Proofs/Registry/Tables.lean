import Mathlib.Data.List.Induction
import GraphMapper.Proofs.Plan.Names
import GraphMapper.Proofs.Schema.Combinations
import GraphMapper.Registry.Call

/-!
# The tables in step

A log of the node types that a registry took, the latest first, says what its
two tables hold: `Registry.Holds`.  A registration that succeeds adds to the log
and one that fails leaves everything alone, so the tables follow the log through
any calls (`holds_after`), and every question about types is answered by it.
-/

namespace GraphMapper

/-- The latest type of a name in a log. -/
def latest? (log : List NodeType) (name : String) : Option NodeType :=
  log.find? fun t => t.name == name

theorem name_of_latest? {log : List NodeType} {name : String} {t : NodeType}
    (h : latest? log name = some t) : t.name = name := by
  simpa using List.find?_some h

theorem mem_of_latest? {log : List NodeType} {name : String} {t : NodeType}
    (h : latest? log name = some t) : t ∈ log := List.mem_of_find?_eq_some h

theorem latest?_cons (t : NodeType) (log : List NodeType) (name : String) :
    latest? (t :: log) name = if t.name = name then some t else latest? log name := by
  rw [latest?, List.find?_cons]
  by_cases h : t.name = name
  · simp [h]
  · rw [if_neg h, beq_false_of_ne h]
    rfl

namespace Registry

/-- The tables of a registry hold what a log says.  A name keeps the labels of every descriptor that
it ever had; the label sets in the table are those of the latest one. -/
structure Holds (r : Registry) (log : List NodeType) : Prop where
  names : ∀ name, r.names.get? name = (latest? log name).map NodeType.labels
  labels : ∀ t ∈ log, r.names.get? t.name = some t.labels
  table : ∀ s t, (s, t) ∈ r.table ↔ latest? log t.name = some t ∧ s ∈ t.labelSets
  distinct : r.table.Distinct
  sorted : r.names.IsSorted

theorem holds_empty : Registry.empty.Holds [] where
  names _ := rfl
  labels := by simp
  table s t := by simp [Registry.empty, latest?]
  distinct := List.nodup_nil
  sorted := Dict.isSorted_nil

theorem checkSteady_eq_ok {r : Registry} {t : NodeType} {u : Unit} (h : r.checkSteady t = .ok u) :
    ∀ labels, r.names.get? t.name = some labels → labels = t.labels := by
  intro labels hget
  simp only [checkSteady, hget] at h
  split at h
  · next hsame => exact hsame
  · cases h

theorem checkOwner_eq_ok {r : Registry} {name : String} {s : LabelSet} {u : Unit}
    (h : r.checkOwner name s = .ok u) : ∀ owner, r.table.get? s = some owner → owner.name = name := by
  intro owner hget
  simp only [checkOwner, hget] at h
  split at h
  · next hsame => exact hsame
  · cases h

namespace Holds

variable {r : Registry} {log : List NodeType}

/-- A name leads to its latest type. -/
theorem nodeType? (h : r.Holds log) (name : String) : r.nodeType? name = latest? log name := by
  unfold Registry.nodeType?
  rw [h.names]
  cases hlatest : latest? log name with
  | none => rfl
  | some t =>
    obtain rfl := name_of_latest? hlatest
    exact (LabelTable.get?_eq_some_iff h.distinct).2
      ((h.table _ _).2 ⟨hlatest, t.labels_mem_labelSets⟩)

/-- What a log says is said of the two tables alone. -/
theorem of_tables {r' : Registry} (h : r.Holds log) (htable : r'.table = r.table)
    (hnames : r'.names = r.names) : r'.Holds log := by
  obtain ⟨table, names, _, _⟩ := r'
  obtain rfl : table = r.table := htable
  obtain rfl : names = r.names := hnames
  exact ⟨h.names, h.labels, h.table, h.distinct, h.sorted⟩

/-- A type that passes the checks of its labels goes on top of the log. -/
theorem withNode {t : NodeType} (h : r.Holds log) (hlabels : r.checkLabels t = .ok ()) :
    (r.withNode t).Holds (t :: log) := by
  obtain ⟨_, hsteady, howner⟩ := bind_eq_ok.1 hlabels
  have hown : ∀ s u, (s, u) ∈ r.table → s ∈ t.labelSets → u.name = t.name := fun s u hentry hs =>
    checkOwner_eq_ok (forM_eq_ok howner s hs) u ((LabelTable.get?_eq_some_iff h.distinct).2 hentry)
  refine ⟨fun name => ?_, fun u hu => ?_, fun s u => ?_, h.distinct.give t,
    h.sorted.insert t.name t.labels⟩
  · rw [Registry.withNode, Dict.get?_insert, latest?_cons, h.names]
    split <;> rfl
  · rw [Registry.withNode, Dict.get?_insert]
    rcases List.mem_cons.1 hu with rfl | hu
    · rw [if_pos rfl]
    · split
      · next hname =>
        have hget := h.labels u hu
        rw [← hname] at hget
        rw [checkSteady_eq_ok hsteady u.labels hget]
      · exact h.labels u hu
  · rw [Registry.withNode, LabelTable.mem_give, latest?_cons, h.table]
    by_cases hname : t.name = u.name
    · -- Of the label sets of this name only those of the new type are left.
      simp only [hname, if_true, Option.some.injEq]
      grind
    · -- The label sets of other names were free of the new ones.
      have hfree : (s, u) ∈ r.table → s ∉ t.labelSets := fun hentry hs =>
        hname (hown s u hentry hs).symm
      rw [h.table] at hfree
      grind

theorem nodeType (h : r.Holds log) (name : String) :
    r.nodeType name =
      match latest? log name with
      | some t => .ok t
      | none => .error (.unknownTypeName name) := by
  have hnode := h.nodeType? name
  unfold Registry.nodeType
  cases hlatest : latest? log name with
  | none => rw [hnode, hlatest]
  | some t => rw [hnode, hlatest]

theorem nodeType_eq_ok_iff (h : r.Holds log) {name : String} {t : NodeType} :
    r.nodeType name = .ok t ↔ latest? log name = some t := by
  rw [h.nodeType]
  cases latest? log name <;> simp

/-- Every registered name has its own type under its labels. -/
theorem get?_of_mem_names (h : r.Holds log) {e : String × LabelSet} (he : e ∈ r.names) :
    ∃ t, r.table.get? e.2 = some t ∧ t.name = e.1 := by
  have hget := h.sorted.get?_of_mem he
  have hnode := h.nodeType? e.1
  rw [Registry.nodeType?, hget] at hnode
  rw [h.names] at hget
  obtain ⟨t, hlatest, _⟩ := Option.map_eq_some_iff.1 hget
  exact ⟨t, hnode.trans hlatest, name_of_latest? hlatest⟩

theorem names_nodeTypes (h : r.Holds log) : r.nodeTypes.map NodeType.name = r.names.keys := by
  have hnames (names : Dict LabelSet) (hnames : ∀ e ∈ names, e ∈ r.names) :
      ((names.filterMap fun e => (r.table.get? e.2).map fun t => (e.1, t)).map Prod.snd).map
        NodeType.name = names.keys := by
    induction names with
    | nil => rfl
    | cons e rest ih =>
      obtain ⟨t, ht, hname⟩ := h.get?_of_mem_names (hnames e List.mem_cons_self)
      have hrest := ih fun e' he' => hnames e' (List.mem_cons_of_mem e he')
      simp only [List.filterMap_cons, ht, Option.map_some, List.map_cons, hrest, hname]
      rfl
  exact hnames r.names fun e he => he

theorem mem_nodeTypes (h : r.Holds log) {t : NodeType} :
    t ∈ r.nodeTypes ↔ r.nodeType? t.name = some t := by
  constructor
  · intro ht
    obtain ⟨e', he', rfl⟩ := List.mem_map.1 ht
    obtain ⟨e, he, hsome⟩ := List.mem_filterMap.1 he'
    obtain ⟨t, htable, rfl⟩ := Option.map_eq_some_iff.1 hsome
    obtain ⟨t', htable', hname⟩ := h.get?_of_mem_names he
    obtain rfl : t = t' := Option.some.inj (htable.symm.trans htable')
    rw [hname, Registry.nodeType?, h.sorted.get?_of_mem he]
    exact htable
  · intro ht
    obtain ⟨labels, hget, htable⟩ := Option.bind_eq_some_iff.1 ht
    refine List.mem_map.2 ⟨(t.name, t), List.mem_filterMap.2 ⟨_, Dict.mem_of_get? hget, ?_⟩, rfl⟩
    exact congrArg (Option.map _) htable

end Holds

/-! ## Calls -/

theorem run_relationship (r : Registry) (t : RelationshipType) :
    (RegistryCall.relationship t).task.run.run r =
      match r.registerRelationship t with
      | .ok r' => (.ok (), r')
      | .error e => (.error e, r) := by
  have hget : (get : Task Registry Registry).run.run r = (.ok r, r) := rfl
  have hlift := Task.run_lift (r.registerRelationship t) r
  rw [RegistryCall.task, Task.run_bind_ok hget]
  cases hregister : r.registerRelationship t with
  | error e =>
    rw [hregister] at hlift
    exact Task.run_bind_error hlift
  | ok r' =>
    rw [hregister] at hlift
    exact Task.run_bind_ok hlift

/-- A call registers a node type or a relationship type, or it fails and changes nothing. -/
theorem run_task_cases (r : Registry) (c : RegistryCall) :
    (∃ t, c = .node t ∧ r.admits t = .ok () ∧ c.task.run.run r = (.ok (), r.withNode t)) ∨
      (∃ t r', c = .relationship t ∧ r.registerRelationship t = .ok r' ∧
        c.task.run.run r = (.ok (), r')) ∨
      ∃ e, c.task.run.run r = (.error e, r) := by
  cases c with
  | node t =>
    have hrun := run_registerNode r t
    cases hadmits : r.admits t with
    | ok _ =>
      rw [hadmits] at hrun
      exact .inl ⟨t, rfl, hadmits, hrun⟩
    | error e =>
      rw [hadmits] at hrun
      exact .inr (.inr ⟨e, hrun⟩)
  | relationship t =>
    have hrun := run_relationship r t
    cases hregister : r.registerRelationship t with
    | ok r' =>
      rw [hregister] at hrun
      exact .inr (.inl ⟨t, r', rfl, hregister, hrun⟩)
    | error e =>
      rw [hregister] at hrun
      exact .inr (.inr ⟨e, hrun⟩)

/-- A call that fails leaves the registry as it was. -/
theorem run_task_error {r r' : Registry} {c : RegistryCall} {e : Error}
    (h : c.task.run.run r = (.error e, r')) : r' = r := by
  rcases run_task_cases r c with ⟨t, _, _, hrun⟩ | ⟨t, r', _, _, hrun⟩ | ⟨e, hrun⟩
  · cases hrun.symm.trans h
  · cases hrun.symm.trans h
  · exact (Prod.mk.inj (hrun.symm.trans h)).2.symm

theorem Holds.step {state : Registry × List NodeType} (h : state.1.Holds state.2)
    (c : RegistryCall) : (c.step state).1.Holds (c.step state).2 := by
  unfold RegistryCall.step
  rcases run_task_cases state.1 c with
    ⟨t, rfl, hadmits, hrun⟩ | ⟨t, r', rfl, hregister, hrun⟩ | ⟨e, hrun⟩
  · rw [hrun]
    exact h.withNode (admits_eq_ok hadmits).2
  · obtain ⟨_, htable, hnames, _⟩ := registerRelationship_eq_ok hregister
    rw [hrun]
    exact h.of_tables htable hnames
  · rw [hrun]
    exact h

theorem Holds.foldl_step {state : Registry × List NodeType} (h : state.1.Holds state.2)
    (calls : List RegistryCall) :
    (calls.foldl RegistryCall.step state).1.Holds (calls.foldl RegistryCall.step state).2 := by
  induction calls generalizing state with
  | nil => exact h
  | cons c rest ih => exact ih (h.step c)

theorem holds_after (calls : List RegistryCall) : (after calls).Holds (taken calls) :=
  Holds.foldl_step holds_empty calls

/-- What a registry has taken stays taken. -/
theorem taken_suffix_append (calls later : List RegistryCall) :
    taken calls <:+ taken (calls ++ later) := by
  have hfold (state : Registry × List NodeType) :
      state.2 <:+ (later.foldl RegistryCall.step state).2 := by
    induction later generalizing state with
    | nil => exact List.suffix_refl _
    | cons c rest ih =>
      refine .trans ?_ (ih (c.step state))
      unfold RegistryCall.step
      split
      · exact List.suffix_append _ _
      · exact List.suffix_refl _
  rw [taken, taken, RegistryCall.steps, RegistryCall.steps, List.foldl_append]
  exact hfold _

theorem after_concat (calls : List RegistryCall) (c : RegistryCall) :
    after (calls ++ [c]) = (c.task.run.run (after calls)).2 := by
  have hstep (state : Registry × List NodeType) : (c.step state).1 = (c.task.run.run state.1).2 := by
    unfold RegistryCall.step
    split <;> next hrun => rw [hrun]
  rw [after, RegistryCall.steps, List.foldl_append, List.foldl_cons, List.foldl_nil, hstep]
  rfl

/-- A relationship type that takes over its label is active for it. -/
theorem after_relationship (calls : List RegistryCall) {t : RelationshipType}
    (ht : checkRelationshipType t = .ok ())
    (htakeover : takeover ((after calls).activeFor? t.relType) t = .replace) :
    after (calls ++ [.relationship t]) =
      { after calls with
        active := (after calls).active.insert t.relType t
        models := (after calls).models.insert t.name t } := by
  rw [after_concat, run_relationship, registerRelationship, ht, htakeover]
  rfl

/-- A type that was registered last is found by its name. -/
theorem nodeType_concat (calls : List RegistryCall) {t : NodeType}
    (h : (after calls).admits t = .ok ()) :
    (after (calls ++ [.node t])).nodeType t.name = .ok t := by
  have hrun := run_registerNode (after calls) t
  rw [h] at hrun
  rw [after_concat, show RegistryCall.task (.node t) = registerNode t from rfl, hrun]
  refine ((holds_after calls).withNode (admits_eq_ok h).2).nodeType_eq_ok_iff.2 ?_
  rw [latest?_cons, if_pos rfl]

/-- Whether a call succeeds or fails, what it leaves is reached by calls that succeed. -/
theorem Reachable.run_task {r : Registry} (h : r.Reachable) (c : RegistryCall) :
    (c.task.run.run r).2.Reachable := by
  rcases run_task_cases r c with ⟨t, rfl, hadmits, hrun⟩ | ⟨t, r', rfl, hregister, hrun⟩ | ⟨e, hrun⟩
  · have hregister : r.register t = .ok (r.withNode t) := by
      rw [register_eq, hadmits]
      rfl
    rw [hrun]
    exact h.register hregister
  · rw [hrun]
    exact h.registerRelationship hregister
  · rw [hrun]
    exact h

/-- The registries that calls lead to, failing ones included, are those that calls reach by
succeeding. -/
theorem reachable_iff {r : Registry} : r.Reachable ↔ ∃ calls, r = after calls := by
  constructor
  · intro h
    induction h with
    | empty => exact ⟨[], rfl⟩
    | @register r r' t _ hregister ih =>
      obtain ⟨calls, rfl⟩ := ih
      refine ⟨calls ++ [.node t], ?_⟩
      obtain ⟨hadmits, rfl⟩ := register_eq_ok hregister
      rw [after_concat, RegistryCall.task, run_registerNode, hadmits]
    | @registerRelationship r r' t _ hregister ih =>
      obtain ⟨calls, rfl⟩ := ih
      refine ⟨calls ++ [.relationship t], ?_⟩
      rw [after_concat, run_relationship, hregister]
  · rintro ⟨calls, rfl⟩
    induction calls using List.reverseRecOn with
    | nil => exact .empty
    | append_singleton calls c ih =>
      rw [after_concat]
      exact ih.run_task c

/-- Whatever calls are made on a registry, and whether they succeed or fail, a name has the latest
type that was registered for it, with all the labels it had from the first.  The label sets of a
type are its labels united with some of its optional ones, and are no other type's; all the types
are listed once, by name; and a call that fails changes nothing. -/
theorem tables_in_step (calls : List RegistryCall) :
    (∀ name, (after calls).nodeType name =
      match latest? (taken calls) name with
      | some t => .ok t
      | none => .error (.unknownTypeName name)) ∧
    (∀ s t, (s, t) ∈ (after calls).table ↔
      (after calls).nodeType t.name = .ok t ∧
        ∃ chosen : LabelSet, (∀ l ∈ chosen, l ∈ t.optionalLabels) ∧ s = t.labels.union chosen) ∧
    (∀ s t u, (s, t) ∈ (after calls).table → (s, u) ∈ (after calls).table → t = u) ∧
    (∀ name t, (after calls).nodeType name = .ok t →
      (after calls).names.get? name = some t.labels ∧
        ∀ later, ∃ u, (after (calls ++ later)).nodeType name = .ok u ∧ u.labels = t.labels) ∧
    ((after calls).nodeTypes.map NodeType.name).Pairwise (· < ·) ∧
    (∀ t, t ∈ (after calls).nodeTypes ↔ (after calls).nodeType t.name = .ok t) ∧
    ∀ (c : RegistryCall) (e : Error) (r' : Registry),
      c.task.run.run (after calls) = (.error e, r') → r' = after calls := by
  have hholds := holds_after calls
  refine ⟨hholds.nodeType, fun s t => ?_, fun s t u ht hu => ?_, fun name t ht => ⟨?_, fun later => ?_⟩,
    ?_, fun t => ?_, fun c e r' => run_task_error⟩
  · rw [hholds.table, hholds.nodeType_eq_ok_iff]
    exact and_congr_right fun _ => LabelSet.mem_combinations
  · rw [← LabelTable.get?_eq_some_iff hholds.distinct] at ht hu
    exact Option.some.inj (ht.symm.trans hu)
  · rw [hholds.names, hholds.nodeType_eq_ok_iff.1 ht]
    rfl
  · have hlatest := hholds.nodeType_eq_ok_iff.1 ht
    have hlater := holds_after (calls ++ later)
    have hlabels := hlater.labels t
      ((taken_suffix_append calls later).subset (mem_of_latest? hlatest))
    rw [name_of_latest? hlatest, hlater.names] at hlabels
    obtain ⟨u, hu, hsame⟩ := Option.map_eq_some_iff.1 hlabels
    exact ⟨u, hlater.nodeType_eq_ok_iff.2 hu, hsame⟩
  · rw [hholds.names_nodeTypes]
    exact hholds.sorted
  · rw [hholds.mem_nodeTypes, hholds.nodeType_eq_ok_iff, hholds.nodeType?]

end Registry

namespace Sample

/-- Persons, first with two optional labels and then with one of them, so that the other is free for
students; a type that would take the persons' labels comes between. -/
def enrolling : List RegistryCall :=
  [.node (((NodeType.new "Person").withOptionalLabel "Student").withOptionalLabel "Teacher"),
    .node ((NodeType.new "Human").withLabel "Person"),
    .node ((NodeType.new "Person").withOptionalLabel "Teacher"),
    .node ((NodeType.new "Student").extend (.new "Person"))]

/-- Persons by another label. -/
def relabelled : NodeType := (NodeType.new "Person").withLabel "Human"

end Sample

theorem Registry.tables_in_step_enrolling :
    ∃ (t : NodeType) (e : Error) (r' : Registry),
      (after Sample.enrolling).table.get? (.ofList ["Student", "Person"]) = some t ∧
      t.name = "Student" ∧
      (RegistryCall.node Sample.relabelled).task.run.run (after Sample.enrolling) = (.error e, r') ∧
      (after Sample.enrolling).nodeType t.name = .ok t ∧ r' = after Sample.enrolling := by
  have hstudent : ((after Sample.enrolling).table.get? (.ofList ["Student", "Person"])).map
      NodeType.name = some "Student" := by
    decide +kernel
  have hfails : ((RegistryCall.node Sample.relabelled).task.run.run
      (after Sample.enrolling)).1.isOk = false := by
    decide +kernel
  obtain ⟨t, ht, hname⟩ := Option.map_eq_some_iff.1 hstudent
  obtain ⟨_, htable, _, _, _, _, hfailed⟩ := tables_in_step Sample.enrolling
  cases hrun : (RegistryCall.node Sample.relabelled).task.run.run (after Sample.enrolling) with
  | mk result r' =>
    rw [hrun] at hfails
    cases result with
    | ok _ => cases hfails
    | error e =>
      exact ⟨t, e, r', ht, hname, rfl, ((htable _ t).1 (LabelTable.mem_of_get? ht)).1,
        hfailed _ e r' hrun⟩

end GraphMapper
