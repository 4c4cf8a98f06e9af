import GraphMapper.Database.Driver
import GraphMapper.Guard.Declaration

/-!
# Checks of bounds

A check counts edges and compares the count with a declared bound.  A bound
that would be broken is an error under strict enforcement, and under soft
enforcement a warning, which the check returns.
-/

namespace GraphMapper

/-- The identity that a value gives. -/
def Value.identity : Value → String
  | string s => s
  | v => v.text

namespace QueryOutput

/-- A number of edges as it is read: none, and a negative one, count as zero. -/
def edgeCount (o : QueryOutput) : Nat := ((o.firstInteger? "count").getD 0).toInt.toNat

/-- The identities in a result, each with the number in some column. -/
def tally (o : QueryOutput) (column : String) : List (String × Nat) :=
  match o.columnIndex? "id", o.columnIndex? column with
  | some i, some j =>
    o.rows.filterMap fun row => do
      let v ← row[i]?.bind Cell.value?
      let n? := (row[j]?.bind Cell.value?).bind Value.int?
      return (v.identity, (n?.getD 0).toInt.toNat)
  | _, _ => []

end QueryOutput

/-- What guards the writing of edges. -/
structure Guard where
  registry : Registry
  settings : Settings

/-- One end of an edge: a node, and the declaration that covers the edge there. -/
structure EdgeEnd where
  /-- The name of the node's type. -/
  type : String
  id : String
  declared : Relationship

/-- The end of an edge at a node. -/
def Entity.edgeEnd (e : Entity) (declared : Relationship) : EdgeEnd := ⟨e.typeName, e.id, declared⟩

/-- A broken bound: refused, or reported under soft enforcement. -/
def reject (soft : Bool) (declared : Relationship) (b : Breach) : Except Error (List Breach) :=
  if soft then .ok [b] else .error (.attemptedViolation declared.name b)

namespace Guard

variable {σ τ : Type}

/-- Runs a request about edges in a transaction. -/
def ask (g : Guard) (d : Driver σ τ) (r : EdgeRequest) : Task (τ × σ) QueryOutput :=
  d.executeIn (.edges g.settings.idFunction r)

/-- The number of edges at a node. -/
def countAt (g : Guard) (d : Driver σ τ) (e : EdgeEnd) : Task (τ × σ) Nat := do
  return (← g.ask d (.countAt e.declared.edges e.id)).edgeCount

/-- The number of edges between two nodes. -/
def countBetween (g : Guard) (d : Driver σ τ) (rel : Relationship) (source target : Entity) :
    Task (τ × σ) Nat := do
  return (← g.ask d (.countBetween rel.edges source.id target.id)).edgeCount

/-- Whether a broken bound at the other end is only reported. -/
def isSoft (g : Guard) (inverse : Relationship) : Bool :=
  g.settings.softInverse || inverse.enforcement == .soft

/-- Checks that an end has room for an edge once some of its edges are gone. -/
def checkRoom (g : Guard) (d : Driver σ τ) (soft : Bool) (e : EdgeEnd) (leaving : Nat) :
    Task (τ × σ) (List Breach) := do
  if e.declared.cardinality.most? = some 1 then
    let existing := (← g.countAt d e) - leaving
    if 0 < existing then
      reject soft e.declared
        (.tooMany e.type e.id existing e.declared.name e.declared.cardinality)
    else return []
  else return []

/-- Checks that an end keeps enough edges once some are gone. -/
def checkRemaining (g : Guard) (d : Driver σ τ) (soft : Bool) (e : EdgeEnd) (leaving : Nat) :
    Task (τ × σ) (List Breach) := do
  if 0 < e.declared.cardinality.least then
    let remaining := (← g.countAt d e) - leaving
    if remaining < e.declared.cardinality.least then
      reject soft e.declared
        (.tooFew e.declared.name e.type e.id remaining e.declared.cardinality)
    else return []
  else return []

/-- Checks the room at the other end, where a declaration covers it. -/
def checkInverseRoom (g : Guard) (d : Driver σ τ) (rel : Relationship) (source target : Entity)
    (leaving : Nat) : Task (τ × σ) (List Breach) :=
  match g.registry.inverse? rel source.nodeType target.nodeType with
  | none => return []
  | some inverse => g.checkRoom d (g.isSoft inverse) (target.edgeEnd inverse) leaving

/-- Checks what the other end keeps, where a declaration covers it. -/
def checkInverseRemaining (g : Guard) (d : Driver σ τ) (rel : Relationship)
    (source target : Entity) (leaving : Nat) : Task (τ × σ) (List Breach) :=
  match g.registry.inverse? rel source.nodeType target.nodeType with
  | none => return []
  | some inverse => g.checkRemaining d (g.isSoft inverse) (target.edgeEnd inverse) leaving

/-- Checks that a node may lose all of its edges. -/
def checkNoneLeft (g : Guard) (d : Driver σ τ) (rel : Relationship) (source : Entity) :
    Task (τ × σ) (List Breach) := do
  if 0 < rel.cardinality.least then
    if 0 < (← g.countAt d (source.edgeEnd rel)) then
      reject (rel.enforcement == .soft) rel
        (.noneLeft rel.name source.typeName source.id rel.cardinality)
    else return []
  else return []

/-- The broken bounds of the neighbours that a search found. -/
def rejectLacking (soft : Bool) (inverse : Relationship) (type : String)
    (found : List (String × Nat)) : Except Error (List Breach) := do
  let breaches ← found.mapM fun (id, remaining) =>
    reject soft inverse (.tooFew inverse.name type id remaining inverse.cardinality)
  return breaches.flatten

/-- Checks what the neighbours of one target type keep when a node loses all of its edges, where
a declaration covers them. -/
def checkNeighborsOf (g : Guard) (d : Driver σ τ) (rel : Relationship) (source : Entity)
    (kept? : Option String) (target : String) : Task (τ × σ) (List Breach) := do
  let type ← g.registry.nodeType target
  match g.registry.inverse? rel source.nodeType type with
  | none => return []
  | some inverse =>
    let least := inverse.cardinality.least
    if 0 < least then
      let output ← g.ask d (.lacking rel.edges type.label inverse.edges least source.id kept?)
      rejectLacking (g.isSoft inverse) inverse type.name (output.tally "remaining")
    else return []

/-- Checks what the neighbours keep when a node loses all of its edges. -/
def checkNeighbors (g : Guard) (d : Driver σ τ) (rel : Relationship) (source : Entity)
    (kept? : Option String) : Task (τ × σ) (List Breach) := do
  return (← rel.targets.mapM (g.checkNeighborsOf d rel source kept?)).flatten

end Guard

end GraphMapper
