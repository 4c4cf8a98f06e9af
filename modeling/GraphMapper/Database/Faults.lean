import GraphMapper.Database.Driver

/-!
# Failing transactions

A driver whose transactions can be made to fail: where they begin, or where
they end.  A transaction keeps the faults with which it began, and a faulty end
never reaches the database.
-/

namespace GraphMapper

/-- Which steps of a transaction fail. -/
structure Faults where
  begin : Bool
  commit : Bool
  rollback : Bool
deriving DecidableEq

/-- The faults of a driver that works. -/
def Faults.none : Faults := ⟨false, false, false⟩

/-- Fails a step of a transaction. -/
def failStep {σ : Type} (step : String) : Task σ Unit := throw (.driver (step ++ " failed"))

/-- A driver with faults. -/
def Driver.withFaults {σ τ : Type} (d : Driver σ τ) (faults : Faults) : Driver σ (Faults × τ) where
  execute := d.execute
  begin := do
    if faults.begin then failStep "begin"
    return (faults, ← d.begin)
  executeIn r := do
    let ((faults, tx), s) ← get
    let (result, tx, s) := (d.executeIn r).run.run (tx, s)
    set ((faults, tx), s)
    result
  commit tx := if tx.1.commit then failStep "commit" else d.commit tx.2
  rollback tx := if tx.1.rollback then failStep "rollback" else d.rollback tx.2

end GraphMapper
