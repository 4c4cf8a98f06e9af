import GraphMapper.Database.Driver
import GraphMapper.Result.Subgraph

/-!
# Running plans

A plan is compiled, run and read back: as rows, as subgraphs or as a count.
Get-or-create runs a merge and reads back the one entity.
-/

namespace GraphMapper.Driver

variable {σ τ : Type}

/-- Runs a plan and reads its rows. -/
def fetch (d : Driver σ τ) (r : Registry) (p : QueryPlan) : PlanTask σ (List Row) := do
  let c ← p.compile r
  r.rows (← d.execute (.query c)) c.shape

/-- Runs a plan and reads one graph for each root. -/
def fetchSubgraphs (d : Driver σ τ) (r : Registry) (p : QueryPlan) :
    PlanTask σ (List Subgraph) := do
  let c ← p.compile r
  r.subgraphs (← d.execute (.query c)) c.shape

/-- A count as it is read: none counts as zero, and a negative one is refused. -/
def readCount (output : QueryOutput) : Except Error Nat :=
  let count := ((output.firstInteger? "count").getD 0).toInt
  if 0 ≤ count then .ok count.toNat else .error (.resolution (.negativeCount count))

/-- Counts the root's matches of a plan. -/
def count (d : Driver σ τ) (r : Registry) (p : QueryPlan) : PlanTask σ Nat := do
  let c ← p.compileCount r
  readCount (← d.execute (.query c))

/-- The one entity that a merge returns. -/
def readMerged (r : Registry) (t : NodeType) (name : String) (shape : ResultShape)
    (output : QueryOutput) : Except Error Entity := do
  let row? ← single (← r.rows output shape)
  match row?.bind (·.takeEntity? t.variableName) with
  | some e => return e
  | none => throw (.resolution (.notCreated name))

/-- Finds the node of a type with the supplied merge keys, or creates it. -/
def getOrCreate (d : Driver σ τ) (r : Registry) (ids : Identifiers) (name : String)
    (supplied : Properties) : Task σ Entity := do
  let t ← r.nodeType name
  let c ← t.compileGetOrCreate ids supplied
  readMerged r t name c.shape (← d.execute (.merge c))

end GraphMapper.Driver
