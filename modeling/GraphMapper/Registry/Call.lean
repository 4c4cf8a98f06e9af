import GraphMapper.Registry.Register

/-!
# Calls on a registry

A registry comes of calls, made one after the other.  A call that fails is made
all the same, and the next one goes on from what it left.
-/

namespace GraphMapper

/-- A call on a registry. -/
inductive RegistryCall where
  | node (t : NodeType)
  | relationship (t : RelationshipType)

namespace RegistryCall

/-- What a call does. -/
def task : RegistryCall → Task Registry Unit
  | node t => Registry.registerNode t
  | relationship t => do set (← (← get).registerRelationship t)

/-- The node type that a call is about. -/
def node? : RegistryCall → Option NodeType
  | node t => some t
  | relationship _ => none

/-- A registry after a call, with the node types that it has taken, the latest first. -/
def step (state : Registry × List NodeType) (c : RegistryCall) : Registry × List NodeType :=
  match c.task.run.run state.1 with
  | (.ok _, r) => (r, c.node?.toList ++ state.2)
  | (.error _, r) => (r, state.2)

/-- What some calls make of a registry that has taken nothing yet. -/
def steps (calls : List RegistryCall) : Registry × List NodeType := calls.foldl step (.empty, [])

end RegistryCall

namespace Registry

/-- The registry that some calls make. -/
def after (calls : List RegistryCall) : Registry := (RegistryCall.steps calls).1

/-- The node types that a registry took in the course of some calls, the latest first. -/
def taken (calls : List RegistryCall) : List NodeType := (RegistryCall.steps calls).2

end Registry

end GraphMapper
