import GraphMapper.Error

/-!
# Tasks

Steps on a state that may fail, and leave the state as it is when they do.
-/

namespace GraphMapper

/-- A computation on a state that may fail, and keeps the state when it does. -/
abbrev Task (σ : Type) : Type → Type := ExceptT Error (StateM σ)

/-- A task that compiles a plan, which may panic. -/
abbrev PlanTask (σ : Type) : Type → Type := ExceptT Halt (StateM σ)

instance {σ : Type} : MonadLift (Task σ) (PlanTask σ) := ⟨fun t => t.adapt .error⟩

end GraphMapper
