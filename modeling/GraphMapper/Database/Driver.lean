import GraphMapper.Database.Request
import GraphMapper.Result.Cell
import GraphMapper.Task

/-!
# Drivers

A driver runs requests, alone or in transactions.  It is a record of operations
on a state of its own; an operation that fails may have changed the state.
-/

namespace GraphMapper

/-- Access to a database with states in `σ` and open transactions in `τ`. -/
structure Driver (σ τ : Type) where
  /-- Runs a request outside any transaction. -/
  execute : Request → Task σ QueryOutput
  begin : Task σ τ
  /-- Runs a request in a transaction. -/
  executeIn : Request → Task (τ × σ) QueryOutput
  commit : τ → Task σ Unit
  rollback : τ → Task σ Unit

namespace Driver

variable {σ τ α : Type}

/-- Runs steps in a transaction: committed when they succeed, and else rolled back.  The error
of the steps is the one that is reported, also where the rollback fails. -/
def inTransaction (d : Driver σ τ) (steps : Task (τ × σ) α) : Task σ α := do
  let tx ← d.begin
  let (result, tx, s) := steps.run.run (tx, ← get)
  set s
  match result with
  | .ok a =>
    d.commit tx
    return a
  | .error e =>
    tryCatch (d.rollback tx) fun _ => pure ()
    throw e

end Driver

end GraphMapper
