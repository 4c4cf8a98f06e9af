import GraphMapper.Proofs.Steps
import GraphMapper.Registry.Register

/-!
# Registration, run

Registering a node type checks first and writes last: `run_registerNode` says
what a run leaves, whether it succeeds or not.
-/

namespace GraphMapper

namespace Task

variable {σ α : Type}

theorem run_lift (x : Except Error α) (s : σ) : (liftM x : Task σ α).run.run s = (x, s) := by
  cases x <;> rfl

/-- Changes made one after the other are made of a state in turn. -/
theorem run_forM_modify {f : α → σ → σ} (as : List α) (s : σ) :
    (as.forM fun a => (modify (f a) : Task σ Unit)).run.run s =
      (.ok (), as.foldl (fun s a => f a s) s) := by
  induction as generalizing s with
  | nil => rfl
  | cons a rest ih =>
    have hfirst : (modify (f a) : Task σ Unit).run.run s = (.ok (), f a s) := rfl
    exact (run_bind_ok hfirst).trans (ih (f a s))

end Task

/-- A table in which the label sets of a type are its own, and no others of its name are left. -/
def LabelTable.give (table : LabelTable) (t : NodeType) : LabelTable :=
  t.labelSets.foldl (fun table s => table.insert s t) (table.without t.name)

namespace LabelTable

variable {table : LabelTable}

theorem mem_foldl_insert {t : NodeType} {sets : List LabelSet} {e : LabelSet × NodeType} :
    e ∈ sets.foldl (fun table s => table.insert s t) table ↔
      (e.2 = t ∧ e.1 ∈ sets) ∨ (e ∈ table ∧ e.1 ∉ sets) := by
  induction sets generalizing table with
  | nil => simp
  | cons s rest ih =>
    obtain ⟨s', u⟩ := e
    rw [List.foldl_cons, ih, mem_insert, Prod.mk.injEq, List.mem_cons]
    grind

theorem mem_give {t : NodeType} {e : LabelSet × NodeType} :
    e ∈ table.give t ↔
      (e.2 = t ∧ e.1 ∈ t.labelSets) ∨ (e ∈ table ∧ e.2.name ≠ t.name ∧ e.1 ∉ t.labelSets) := by
  rw [give, mem_foldl_insert, mem_without, and_assoc]

theorem Distinct.give (h : table.Distinct) (t : NodeType) : (table.give t).Distinct := by
  have hinsert (sets : List LabelSet) {table : LabelTable} (h : table.Distinct) :
      (sets.foldl (fun table s => table.insert s t) table).Distinct := by
    induction sets generalizing table with
    | nil => exact h
    | cons s rest ih => exact ih (h.insert s t)
  exact hinsert t.labelSets (h.without t.name)

end LabelTable

namespace Registry

/-- A registry with a node type in both tables. -/
def withNode (r : Registry) (t : NodeType) : Registry :=
  { r with table := r.table.give t, names := r.names.insert t.name t.labels }

/-- What a node type has to pass to be registered. -/
def admits (r : Registry) (t : NodeType) : Except Error Unit := do
  checkNodeType t
  r.checkLabels t

/-- The label sets that are put in the table one by one are all in it in the end. -/
theorem run_insert (r : Registry) (t : NodeType) (sets : List LabelSet) :
    (sets.forM fun s => (modify fun r => { r with table := r.table.insert s t } :
        Task Registry Unit)).run.run r =
      (.ok (), { r with table := sets.foldl (fun table s => table.insert s t) r.table }) := by
  rw [Task.run_forM_modify]
  congr 1
  induction sets generalizing r with
  | nil => rfl
  | cons s rest ih => exact ih { r with table := r.table.insert s t }

/-- Every check comes before the first write, so a node type is refused before anything changes. -/
theorem run_registerNode (r : Registry) (t : NodeType) :
    (registerNode t).run.run r =
      match r.admits t with
      | .ok _ => (.ok (), r.withNode t)
      | .error e => (.error e, r) := by
  unfold registerNode admits
  have hnode := Task.run_lift (checkNodeType t) r
  have hlabels := Task.run_lift (r.checkLabels t) r
  cases hcheck : checkNodeType t with
  | error e =>
    rw [hcheck] at hnode
    exact Task.run_bind_error hnode
  | ok _ =>
    rw [hcheck] at hnode
    have hget : (get : Task Registry Registry).run.run r = (.ok r, r) := rfl
    rw [Task.run_bind_ok hnode, Task.run_bind_ok hget]
    cases hown : r.checkLabels t with
    | error e =>
      rw [hown] at hlabels
      exact Task.run_bind_error hlabels
    | ok _ =>
      rw [hown] at hlabels
      have hdrops : (modify fun r => { r with table := r.table.without t.name } :
          Task Registry Unit).run.run r = (.ok (), { r with table := r.table.without t.name }) := rfl
      have hinserts := run_insert { r with table := r.table.without t.name } t t.labelSets
      rw [Task.run_bind_ok hlabels, Task.run_bind_ok hdrops, Task.run_bind_ok hinserts]
      rfl

theorem register_eq (r : Registry) (t : NodeType) :
    r.register t = (r.admits t).map fun _ => r.withNode t := by
  rw [register, run_registerNode]
  cases r.admits t <;> rfl

theorem register_eq_ok {r r' : Registry} {t : NodeType} (h : r.register t = .ok r') :
    r.admits t = .ok () ∧ r' = r.withNode t := by
  rw [register_eq] at h
  obtain ⟨_, hadmits, rfl⟩ := map_eq_ok.1 h
  exact ⟨hadmits, rfl⟩

theorem admits_eq_ok {r : Registry} {t : NodeType} {u : Unit} (h : r.admits t = .ok u) :
    checkNodeType t = .ok () ∧ r.checkLabels t = .ok () := by
  obtain ⟨_, hnode, hlabels⟩ := bind_eq_ok.1 h
  exact ⟨hnode, hlabels⟩

end Registry

end GraphMapper
