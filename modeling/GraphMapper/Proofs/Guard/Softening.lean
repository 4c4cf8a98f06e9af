import GraphMapper.Guard.Change
import GraphMapper.Proofs.Steps

/-!
# Soft enforcement only downgrades errors

A guard that only reports what it finds at the other end does what a strict
guard does, except where the strict one refuses; what it was refused for is then
among the warnings (`Change.run_softened`).

The two runs ask the same until the strict one stops.  `Downgrades` relates
them; it goes through binds, as long as the soft run returns every warning that
it has gathered (`Returns`).
-/

namespace GraphMapper

variable {σ τ α β : Type}

/-! ## Two runs -/

/-- The outcome of a strict run, and that of the soft run from the same state: the same, or
refused for one of the soft run's warnings, or both failed. -/
inductive Downgraded (warnings : α → List Breach) :
    Except Error α × σ → Except Error α × σ → Prop
  | same (a : α) (s : σ) : Downgraded warnings (.ok a, s) (.ok a, s)
  | warned (name : String) {b : Breach} {a : α} (s s' : σ) (hb : b ∈ warnings a) :
    Downgraded warnings (.error (.attemptedViolation name b), s) (.ok a, s')
  | failed (e e' : Error) (s s' : σ) : Downgraded warnings (.error e, s) (.error e', s')

namespace Downgraded

theorem refl (warnings : α → List Breach) : (r : Except Error α × σ) → Downgraded warnings r r
  | (.ok a, s) => same a s
  | (.error e, s) => failed e e s s

end Downgraded

/-- A task that only warns of what another refuses, from every state. -/
structure Downgrades (warnings : α → List Breach) (strict soft : Task σ α) : Prop where
  run : ∀ s, Downgraded warnings (strict.run.run s) (soft.run.run s)

/-- What a task returns where it succeeds. -/
structure Returns (P : α → Prop) (t : Task σ α) : Prop where
  run : ∀ {s a s'}, t.run.run s = (.ok a, s') → P a

namespace Returns

variable {P : α → Prop} {Q : β → Prop} {t : Task σ α} {k : α → Task σ β}

theorem pure {a : α} (h : P a) : Returns P (Pure.pure a : Task σ α) :=
  ⟨fun hrun => (Task.run_pure_eq_ok hrun).1 ▸ h⟩

theorem mono {P' : α → Prop} (ht : Returns P t) (h : ∀ a, P a → P' a) : Returns P' t :=
  ⟨fun hrun => h _ (ht.run hrun)⟩

/-- What is returned is returned by the last of the steps. -/
theorem bind (hk : ∀ a, Returns Q (k a)) : Returns Q (t >>= k) :=
  ⟨fun hrun => by
    obtain ⟨a, s₁, -, hrun⟩ := Task.run_bind_eq_ok hrun
    exact (hk a).run hrun⟩

end Returns

/-- What becomes of a transaction whose steps fail. -/
def Driver.giveUp (d : Driver σ τ) (tx : τ) (e : Error) : Task σ α := do
  tryCatch (d.rollback tx) fun _ => pure ()
  throw e

/-- The error of the steps is reported, whatever the rollback does. -/
theorem Driver.run_giveUp (α : Type) (d : Driver σ τ) (tx : τ) (e : Error) (s : σ) :
    ∃ s', (d.giveUp tx e : Task σ α).run.run s = (.error e, s') := by
  cases hrollback : (d.rollback tx).run.run s with
  | mk result s' =>
    have hcaught : (tryCatch (d.rollback tx) fun _ => pure ()).run.run s = (.ok (), s') := by
      rw [ExceptT.run_tryCatch, StateT.run_bind, hrollback]
      cases result <;> rfl
    exact ⟨s', Task.run_bind_ok hcaught⟩

namespace Downgrades

variable {V : α → List Breach} {W : β → List Breach} {t t' : Task σ α} {k k' : α → Task σ β}

theorem refl (t : Task σ α) : Downgrades V t t := ⟨fun s => .refl V (t.run.run s)⟩

theorem lift {x y : Except Error α} (h : ∀ s : σ, Downgraded V (x, s) (y, s)) :
    Downgrades V (liftM x : Task σ α) (liftM y) := by
  constructor
  intro s
  have hrun (z : Except Error α) : (liftM z : Task σ α).run.run s = (z, s) := by cases z <;> rfl
  rw [hrun, hrun]
  exact h s

/-- The runs go on together, or the soft one goes on alone and keeps the warning. -/
theorem bind (ht : Downgrades V t t') (hk : ∀ a, Downgrades W (k a) (k' a))
    (hkept : ∀ a, Returns (fun b => V a ⊆ W b) (k' a)) :
    Downgrades W (t >>= k) (t' >>= k') := by
  constructor
  intro s
  have hboth := ht.run s
  generalize hstrict : t.run.run s = strict at hboth
  generalize hsoft : t'.run.run s = soft at hboth
  cases hboth with
  | same a s₁ =>
    rw [Task.run_bind_ok hstrict, Task.run_bind_ok hsoft]
    exact (hk a).run s₁
  | failed e e' s₁ s₂ =>
    rw [Task.run_bind_error hstrict, Task.run_bind_error hsoft]
    exact .failed e e' s₁ s₂
  | @warned name b a s₁ s₂ hb =>
    rw [Task.run_bind_error hstrict, Task.run_bind_ok hsoft]
    cases hrest : (k' a).run.run s₂ with
    | mk result s₃ =>
      cases result with
      | error e => exact .failed _ e s₁ s₃
      | ok c => exact .warned name s₁ s₃ ((hkept a).run hrest hb)

/-- What both runs do alike needs to keep nothing. -/
theorem bind_same (t : Task σ α) (hk : ∀ a, Downgrades W (k a) (k' a)) :
    Downgrades W (t >>= k) (t >>= k') :=
  bind (V := fun _ => []) (refl t) hk fun _ => ⟨fun _ => List.nil_subset _⟩

/-- What follows on two checks returns the warnings of both. -/
theorem gather {t t' u u' : Task σ (List Breach)} (ht : Downgrades id t t')
    (hu : Downgrades id u u') {k : List Breach → Task σ (List Breach)}
    (hk : ∀ warnings, Returns (warnings ⊆ ·) (k warnings)) :
    Downgrades id (t >>= fun own => u >>= fun other => k (own ++ other))
      (t' >>= fun own => u' >>= fun other => k (own ++ other)) := by
  refine ht.bind (fun own => hu.bind (fun other => refl _) fun other => ?_) fun own => ?_
  · exact (hk (own ++ other)).mono fun _ => List.Subset.trans (List.subset_append_right own other)
  · exact .bind fun other =>
      (hk (own ++ other)).mono fun _ => List.Subset.trans (List.subset_append_left own other)

/-- The warnings of a pass over a list are those of all of its items. -/
theorem mapM (hk : ∀ a, Downgrades W (k a) (k' a)) (l : List α) :
    Downgrades (List.flatMap W) (l.mapM k) (l.mapM k') := by
  induction l with
  | nil =>
    rw [List.mapM_nil, List.mapM_nil]
    exact refl _
  | cons a l ih =>
    rw [List.mapM_cons, List.mapM_cons]
    refine (hk a).bind (fun b => ih.bind (fun bs => refl _) fun bs => ?_) fun b => ?_
    · refine .pure ?_
      rw [List.flatMap_cons]
      exact List.subset_append_right ..
    · refine .bind fun bs => .pure ?_
      rw [List.flatMap_cons]
      exact List.subset_append_left ..

/-- A transaction that is committed in the soft run alone was refused in the strict one. -/
theorem inTransaction {steps steps' : Task (τ × σ) α} (d : Driver σ τ)
    (h : Downgrades V steps steps') :
    Downgrades V (d.inTransaction steps) (d.inTransaction steps') := by
  refine bind_same d.begin fun tx => bind_same get fun s => ?_
  have hboth := h.run (tx, s)
  generalize steps.run.run (tx, s) = strict at hboth
  generalize steps'.run.run (tx, s) = soft at hboth
  constructor
  intro s₀
  cases hboth with
  | same a s₁ => exact .refl V _
  | failed e e' s₁ s₂ =>
    obtain ⟨s₃, hstrict⟩ := d.run_giveUp α s₁.1 e s₁.2
    obtain ⟨s₄, hsoft⟩ := d.run_giveUp α s₂.1 e' s₂.2
    show Downgraded V ((d.giveUp s₁.1 e).run.run s₁.2) ((d.giveUp s₂.1 e').run.run s₂.2)
    rw [hstrict, hsoft]
    exact .failed e e' s₃ s₄
  | @warned name b a s₁ s₂ hb =>
    obtain ⟨s₃, hstrict⟩ := d.run_giveUp α s₁.1 (.attemptedViolation name b) s₁.2
    show Downgraded V ((d.giveUp s₁.1 (.attemptedViolation name b)).run.run s₁.2)
      ((do
        d.commit s₂.1
        return a : Task σ α).run.run s₂.2)
    rw [hstrict]
    cases hcommit : (d.commit s₂.1).run.run s₂.2 with
    | mk result s₄ =>
      cases result with
      | error e =>
        rw [Task.run_bind_error hcommit]
        exact .failed _ e s₃ s₄
      | ok u =>
        rw [Task.run_bind_ok hcommit]
        exact .warned name s₃ s₄ hb

end Downgrades

/-! ## Breaches -/

section Breaches

variable {strict soft : Bool}

/-- A breach that is reported is one that the strict check refuses. -/
theorem Downgraded.reject (hsoft : strict → soft) (declared : Relationship) (b : Breach) (s : σ) :
    Downgraded id (reject strict declared b, s) (reject soft declared b, s) := by
  cases strict with
  | true =>
    rw [hsoft rfl]
    exact .refl id _
  | false =>
    cases soft with
    | false => exact .refl id _
    | true => exact .warned declared.name s s List.mem_cons_self

/-- Reporting goes on to the neighbours after the first. -/
theorem Guard.rejectLacking_soft (inverse : Relationship) (type : String)
    (found : List (String × Nat)) :
    rejectLacking true inverse type found =
      .ok (found.map fun (id, remaining) =>
        .tooFew inverse.name type id remaining inverse.cardinality) := by
  have hreported : ∀ found : List (String × Nat),
      (found.mapM fun (id, remaining) =>
        reject true inverse (.tooFew inverse.name type id remaining inverse.cardinality)) =
      .ok (found.map fun (id, remaining) =>
        [.tooFew inverse.name type id remaining inverse.cardinality]) := by
    intro found
    induction found with
    | nil => rfl
    | cons first rest ih =>
      rw [List.mapM_cons, ih]
      rfl
  rw [rejectLacking, hreported]
  show Except.ok (List.flatten _) = _
  rw [← List.flatMap_def, List.map_eq_flatMap]

theorem Guard.rejectLacking_strict (inverse : Relationship) (type id : String) (remaining : Nat)
    (found : List (String × Nat)) :
    rejectLacking false inverse type ((id, remaining) :: found) =
      .error (.attemptedViolation inverse.name
        (.tooFew inverse.name type id remaining inverse.cardinality)) := by
  rw [rejectLacking, List.mapM_cons]
  rfl

/-- The first of the neighbours found is the one that the strict check refuses. -/
theorem Downgraded.rejectLacking (hsoft : strict → soft) (inverse : Relationship) (type : String)
    (found : List (String × Nat)) (s : σ) :
    Downgraded id (Guard.rejectLacking strict inverse type found, s)
      (Guard.rejectLacking soft inverse type found, s) := by
  cases strict with
  | true =>
    rw [hsoft rfl]
    exact .refl id _
  | false =>
    cases soft with
    | false => exact .refl id _
    | true =>
      cases found with
      | nil => exact .refl id _
      | cons first rest =>
        rw [Guard.rejectLacking_soft, Guard.rejectLacking_strict]
        exact .warned inverse.name s s List.mem_cons_self

end Breaches

/-! ## The checks of a guard -/

namespace Guard

/-- A guard with soft enforcement at the other end switched on or off. -/
def withSoftInverse (g : Guard) (on : Bool) : Guard :=
  { g with settings := { g.settings with softInverse := on } }

variable (g : Guard) (d : Driver σ τ)

/-- The strict guard and the soft one do a check so that it only warns in the soft one. -/
def Softens (W : α → List Breach) (t : Guard → Task σ α) : Prop :=
  Downgrades W (t (g.withSoftInverse false)) (t (g.withSoftInverse true))

theorem softens_checkRoom {strict soft : Bool} (hsoft : strict → soft) (e : EdgeEnd)
    (leaving : Nat) :
    Downgrades id ((g.withSoftInverse false).checkRoom d strict e leaving)
      ((g.withSoftInverse true).checkRoom d soft e leaving) := by
  unfold checkRoom
  split
  · refine .bind_same ((g.withSoftInverse false).countAt d e) fun count => ?_
    dsimp only
    split
    · exact .lift (.reject hsoft e.declared _)
    · exact .refl _
  · exact .refl _

theorem softens_checkRemaining {strict soft : Bool} (hsoft : strict → soft) (e : EdgeEnd)
    (leaving : Nat) :
    Downgrades id ((g.withSoftInverse false).checkRemaining d strict e leaving)
      ((g.withSoftInverse true).checkRemaining d soft e leaving) := by
  unfold checkRemaining
  split
  · refine .bind_same ((g.withSoftInverse false).countAt d e) fun count => ?_
    dsimp only
    split
    · exact .lift (.reject hsoft e.declared _)
    · exact .refl _
  · exact .refl _

theorem softens_checkInverseRoom (rel : Relationship) (source target : Entity) (leaving : Nat) :
    g.Softens id fun g => g.checkInverseRoom d rel source target leaving := by
  unfold Softens checkInverseRoom
  dsimp only [withSoftInverse]
  cases g.registry.inverse? rel source.nodeType target.nodeType with
  | none => exact .refl _
  | some inverse => exact g.softens_checkRoom d (fun _ => rfl) (target.edgeEnd inverse) leaving

theorem softens_checkInverseRemaining (rel : Relationship) (source target : Entity)
    (leaving : Nat) :
    g.Softens id fun g => g.checkInverseRemaining d rel source target leaving := by
  unfold Softens checkInverseRemaining
  dsimp only [withSoftInverse]
  cases g.registry.inverse? rel source.nodeType target.nodeType with
  | none => exact .refl _
  | some inverse =>
    exact g.softens_checkRemaining d (fun _ => rfl) (target.edgeEnd inverse) leaving

theorem softens_checkNeighborsOf (rel : Relationship) (source : Entity) (kept? : Option String)
    (target : String) :
    g.Softens id fun g => g.checkNeighborsOf d rel source kept? target := by
  refine .bind_same (liftM (g.registry.nodeType target)) fun type => ?_
  dsimp only [withSoftInverse]
  cases g.registry.inverse? rel source.nodeType type with
  | none => exact .refl _
  | some inverse =>
    dsimp only
    split
    · refine .bind_same ((g.withSoftInverse false).ask d _) fun output => ?_
      exact .lift (.rejectLacking (fun _ => rfl) inverse type.name _)
    · exact .refl _

theorem softens_checkNeighbors (rel : Relationship) (source : Entity) (kept? : Option String) :
    g.Softens id fun g => g.checkNeighbors d rel source kept? := by
  refine (Downgrades.mapM (g.softens_checkNeighborsOf d rel source kept?) rel.targets).bind
    (fun found => .refl _) fun found => .pure ?_
  rw [List.flatMap_id]
  exact List.Subset.refl found.flatten

/-! ## Changes -/

/-- Writing drops no warning. -/
theorem returns_write (g : Guard) (r : EdgeRequest) (warnings : List Breach) :
    Returns (warnings ⊆ ·) (do
      g.write d r
      return warnings) :=
  .bind fun _ => .pure (List.Subset.refl warnings)

/-- Every change is refused, where soft enforcement would let it through, for what that would
warn of. -/
theorem softens_steps (c : Change) (rel : Relationship) (properties : List (String × Value)) :
    g.Softens id fun g => c.steps g d rel properties := by
  cases c with
  | connect source name target supplied =>
    exact .gather (.refl ((g.withSoftInverse false).checkRoom d false (source.edgeEnd rel) 0))
      (g.softens_checkInverseRoom d rel source target 0) (returns_write d _ _)
  | disconnect source name target =>
    refine .bind_same ((g.withSoftInverse false).requireConnected d rel source target)
      fun between => ?_
    exact .gather
      (.refl ((g.withSoftInverse false).checkRemaining d (rel.enforcement == .soft)
        (source.edgeEnd rel) between))
      (g.softens_checkInverseRemaining d rel source target between) (returns_write d _ _)
  | reconnect source name old target supplied =>
    refine .bind_same ((g.withSoftInverse false).requireConnected d rel source old)
      fun between => ?_
    dsimp only
    split
    · exact .refl _
    · exact .gather (g.softens_checkInverseRemaining d rel source old between)
        (g.softens_checkInverseRoom d rel source target 0)
        (k := fun moved => do
          (g.withSoftInverse false).write d (.delete rel.edges source.id old.id)
          (g.withSoftInverse false).write d (.create rel.edges source.id target.id properties)
          return moved)
        fun moved => .bind fun _ => returns_write d _ _ moved
  | disconnectAll source name =>
    refine .gather (.refl ((g.withSoftInverse false).checkNoneLeft d rel source))
      (g.softens_checkNeighbors d rel source none) (returns_write d _ _)
  | replace source name target supplied =>
    refine .bind_same ((g.withSoftInverse false).countBetween d rel source target)
      fun kept => ?_
    exact .gather (g.softens_checkNeighbors d rel source (some target.id))
      (g.softens_checkInverseRoom d rel source target kept)
      fun warnings => .bind fun _ => returns_write d _ _ warnings

end Guard

/-- Soft enforcement at the other end succeeds wherever strict enforcement does, with the same
warnings and the same database; where it succeeds alone, strict enforcement refuses the change
for one of its warnings. -/
theorem Change.run_softened (g : Guard) (d : Driver σ τ) (ids : Identifiers) (c : Change) (s : σ) :
    match (c.run (g.withSoftInverse false) d ids).run.run s,
      (c.run (g.withSoftInverse true) d ids).run.run s with
    | (.ok warnings, s₁), (.ok warnings', s₂) => warnings' = warnings ∧ s₂ = s₁
    | (.ok _, _), (.error _, _) => False
    | (.error e, _), (.ok warnings, _) =>
      ∃ name, ∃ b ∈ warnings, e = .attemptedViolation name b
    | (.error _, _), (.error _, _) => True := by
  have hboth : Downgrades id (c.run (g.withSoftInverse false) d ids)
      (c.run (g.withSoftInverse true) d ids) := by
    rw [run_eq, run_eq]
    refine .bind_same (liftM (c.prepared (g.withSoftInverse false) ids)) fun prepared => ?_
    exact .inTransaction d (g.softens_steps d c prepared.1 prepared.2)
  have hruns := hboth.run s
  generalize (c.run (g.withSoftInverse false) d ids).run.run s = strict at hruns
  generalize (c.run (g.withSoftInverse true) d ids).run.run s = soft at hruns
  cases hruns with
  | same warnings s' => exact ⟨rfl, rfl⟩
  | warned name s₁ s₂ hb => exact ⟨name, _, hb, rfl⟩
  | failed e e' s₁ s₂ => trivial

end GraphMapper
