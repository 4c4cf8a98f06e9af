import GraphMapper.Guard.Check

/-!
# Guarded changes

Edges are written and removed in one transaction with the checks that allow it;
every check comes before the first write.  A change that is refused leaves no
trace.  What a change returns are the warnings of soft enforcement.

* connecting needs room at both ends;
* disconnecting needs enough edges left at both ends;
* reconnecting moves an edge, so that only the targets are checked;
* disconnecting all checks every neighbour;
* replacing is disconnecting all and connecting, with the new target's edges
  taken out of the checks.
-/

namespace GraphMapper.Guard

variable {σ τ : Type}

/-- Runs a request that changes edges. -/
def write (g : Guard) (d : Driver σ τ) (r : EdgeRequest) : Task (τ × σ) Unit := do
  let _ ← g.ask d r

/-- The number of edges between two nodes, of which there has to be one. -/
def requireConnected (g : Guard) (d : Driver σ τ) (rel : Relationship) (source target : Entity) :
    Task (τ × σ) Nat := do
  let between ← g.countBetween d rel source target
  if between = 0 then throw (.notConnected source.id target.id rel.name)
  return between

/-- The steps of connecting two nodes. -/
def connectSteps (g : Guard) (d : Driver σ τ) (rel : Relationship) (source target : Entity)
    (properties : List (String × Value)) : Task (τ × σ) (List Breach) := do
  let own ← g.checkRoom d false (source.edgeEnd rel) 0
  let other ← g.checkInverseRoom d rel source target 0
  g.write d (.create rel.edges source.id target.id properties)
  return own ++ other

/-- The steps of disconnecting two nodes. -/
def disconnectSteps (g : Guard) (d : Driver σ τ) (rel : Relationship) (source target : Entity) :
    Task (τ × σ) (List Breach) := do
  let between ← g.requireConnected d rel source target
  let own ← g.checkRemaining d (rel.enforcement == .soft) (source.edgeEnd rel) between
  let other ← g.checkInverseRemaining d rel source target between
  g.write d (.delete rel.edges source.id target.id)
  return own ++ other

/-- The steps of moving an edge from one target to another. -/
def reconnectSteps (g : Guard) (d : Driver σ τ) (rel : Relationship) (source old target : Entity)
    (properties : List (String × Value)) : Task (τ × σ) (List Breach) := do
  let between ← g.requireConnected d rel source old
  let moved ←
    if old.id = target.id then pure []
    else do
      let lost ← g.checkInverseRemaining d rel source old between
      let gained ← g.checkInverseRoom d rel source target 0
      pure (lost ++ gained)
  g.write d (.delete rel.edges source.id old.id)
  g.write d (.create rel.edges source.id target.id properties)
  return moved

/-- The steps of removing every edge of a node. -/
def disconnectAllSteps (g : Guard) (d : Driver σ τ) (rel : Relationship) (source : Entity) :
    Task (τ × σ) (List Breach) := do
  let own ← g.checkNoneLeft d rel source
  let others ← g.checkNeighbors d rel source none
  g.write d (.deleteAll rel.edges source.id)
  return own ++ others

/-- The steps of removing every edge of a node and connecting it to a target. -/
def replaceSteps (g : Guard) (d : Driver σ τ) (rel : Relationship) (source target : Entity)
    (properties : List (String × Value)) : Task (τ × σ) (List Breach) := do
  let kept ← g.countBetween d rel source target
  let others ← g.checkNeighbors d rel source (some target.id)
  let gained ← g.checkInverseRoom d rel source target kept
  g.write d (.deleteAll rel.edges source.id)
  g.write d (.create rel.edges source.id target.id properties)
  return others ++ gained

/-- What has to hold before a relationship is written: it is declared, the target is accepted,
and the properties can be stored. -/
def prepare (g : Guard) (ids : Identifiers) (source : Entity) (name : String) (target : Entity)
    (supplied : Properties) : Except Error (Relationship × List (String × Value)) := do
  let rel ← source.declaration name
  g.registry.checkTarget rel target
  return (rel, ← g.registry.edgeProperties ids rel supplied)

/-- Connects two nodes. -/
def connect (g : Guard) (d : Driver σ τ) (ids : Identifiers) (source : Entity) (name : String)
    (target : Entity) (supplied : Properties) : Task σ (List Breach) := do
  let (rel, properties) ← g.prepare ids source name target supplied
  d.inTransaction (g.connectSteps d rel source target properties)

/-- Removes every edge between two nodes. -/
def disconnect (g : Guard) (d : Driver σ τ) (source : Entity) (name : String) (target : Entity) :
    Task σ (List Breach) := do
  let rel ← source.declaration name
  d.inTransaction (g.disconnectSteps d rel source target)

/-- Moves an edge from one target to another. -/
def reconnect (g : Guard) (d : Driver σ τ) (ids : Identifiers) (source : Entity) (name : String)
    (old target : Entity) (supplied : Properties) : Task σ (List Breach) := do
  let (rel, properties) ← g.prepare ids source name target supplied
  d.inTransaction (g.reconnectSteps d rel source old target properties)

/-- Removes every edge of a node. -/
def disconnectAll (g : Guard) (d : Driver σ τ) (source : Entity) (name : String) :
    Task σ (List Breach) := do
  let rel ← source.declaration name
  d.inTransaction (g.disconnectAllSteps d rel source)

/-- Removes every edge of a node and connects it to a target. -/
def replace (g : Guard) (d : Driver σ τ) (ids : Identifiers) (source : Entity) (name : String)
    (target : Entity) (supplied : Properties) : Task σ (List Breach) := do
  let (rel, properties) ← g.prepare ids source name target supplied
  d.inTransaction (g.replaceSteps d rel source target properties)

/-- Whether an edge connects two nodes. -/
def isConnected (g : Guard) (d : Driver σ τ) (source : Entity) (name : String) (target : Entity) :
    Task σ Bool := do
  let rel ← source.declaration name
  let request := EdgeRequest.countBetween rel.edges source.id target.id
  return decide (0 < (← d.execute (.edges g.settings.idFunction request)).edgeCount)

end GraphMapper.Guard
