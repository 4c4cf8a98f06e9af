import GraphMapper.Error
import GraphMapper.Registry.Table

/-!
# The registry

Two tables hold the node types: one gives every registered label set its type,
the other every registered name its labels.  A name leads to its type by way of
these labels, so the two have to be kept in step.

Two more hold the relationship types: the one that is active for each
relationship label, and every registered one by name.
-/

namespace GraphMapper

/-- The registered types. -/
structure Registry where
  /-- The type of every registered label set. -/
  table : LabelTable
  /-- The labels that every node of a type carries, by the name of the type. -/
  names : Dict LabelSet
  /-- The active relationship type of each relationship label. -/
  active : Dict RelationshipType
  /-- Relationship types by name. -/
  models : Dict RelationshipType

namespace Registry

/-- The registry without any types. -/
def empty : Registry := ⟨[], [], [], []⟩

/-- The node types by name. -/
def types (r : Registry) : Dict NodeType :=
  r.names.filterMap fun e => (r.table.get? e.2).map fun t => (e.1, t)

/-- The node types, in order of their names. -/
def nodeTypes (r : Registry) : List NodeType := r.types.map Prod.snd

/-- The node type of a name, if there is one. -/
def nodeType? (r : Registry) (name : String) : Option NodeType :=
  (r.names.get? name).bind r.table.get?

/-- The node type of a name. -/
def nodeType (r : Registry) (name : String) : Except Error NodeType :=
  match r.nodeType? name with
  | some t => .ok t
  | none => .error (.unknownTypeName name)

/-- The relationship type of a name. -/
def relationshipType (r : Registry) (name : String) : Except Error RelationshipType :=
  match r.models.get? name with
  | some t => .ok t
  | none => .error (.unknownTypeName name)

/-- The relationship type that is active for a label. -/
def activeFor? (r : Registry) (relType : String) : Option RelationshipType :=
  r.active.get? relType

/-- Every registered label set with the name of its type, a line each, in order. -/
def snapshot (r : Registry) : String :=
  let lines := r.table.map fun (s, t) => s.text ++ " --> " ++ t.name
  "\n".intercalate (lines.mergeSort fun a b => decide (a ≤ b))

end Registry

end GraphMapper
