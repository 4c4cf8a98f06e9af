import GraphMapper.Registry.Resolve
import GraphMapper.Result.Cell

/-!
# Entities and edges

A stored node becomes an entity of the type that its labels give it, with every
property decoded under its declared name; a stored edge becomes one of the
relationship type that is active for its label.

A declared property that is not stored takes its static default.  A stored
property that is not declared keeps its own name, and then wins over a declared
one of that name.
-/

namespace GraphMapper

/-- A typed node. -/
structure Entity where
  id : String
  labels : LabelSet
  nodeType : NodeType
  properties : Dict Value

/-- A property that is present and not null. -/
def presentProperty? (properties : Dict Value) (name : String) : Option Value :=
  (properties.get? name).filter fun v => !v.isNull

namespace Entity

/-- The name of an entity's type. -/
def typeName (e : Entity) : String := e.nodeType.name

/-- A property that is present and not null. -/
def get? (e : Entity) (name : String) : Option Value := presentProperty? e.properties name

/-- Equality of entities as data. -/
def same (a b : Entity) : Bool :=
  a.id == b.id && a.labels == b.labels && a.typeName == b.typeName &&
    Value.sameEntries a.properties b.properties

end Entity

/-- An edge, typed where its label has an active relationship type. -/
structure Edge where
  id : String
  relType : String
  start : String
  finish : String
  model? : Option RelationshipType
  properties : Dict Value

namespace Edge

/-- A property that is present and not null. -/
def get? (e : Edge) (name : String) : Option Value := presentProperty? e.properties name

/-- Equality of edges as data. -/
def same (a b : Edge) : Bool :=
  a.id == b.id && a.relType == b.relType && a.start == b.start && a.finish == b.finish &&
    Value.sameEntries a.properties b.properties

end Edge

/-- A declared property read from what is stored. -/
def Property.read (p : Property) (raw : Dict Value) : Except Error Value :=
  match raw.get? p.storageName with
  | some stored => (p.codec.decode stored).mapError (.decode p.name)
  | none => .ok (p.default?.getD .null)

/-- The declared properties read from what is stored, then everything else that is stored. -/
def readProperties (declared : List Property) (raw : Dict Value) : Except Error (Dict Value) := do
  let decoded ← declared.mapM fun p => return (p.name, ← p.read raw)
  let others := raw.filter fun e => (Property.findStored? declared e.1).isNone
  return (decoded ++ others).foldl (fun d e => d.insert e.1 e.2) []

namespace Registry

/-- A stored node as an entity. -/
def entity (r : Registry) (raw : RawNode) : Except Error Entity := do
  let labels := LabelSet.ofList raw.labels
  match r.resolve labels with
  | .ok t => return ⟨raw.id, labels, t, ← readProperties t.properties raw.properties⟩
  | .error (.unknownType labels) => throw (.unresolvedEntity labels r.snapshot)
  | .error e => throw e

/-- A stored edge, typed where possible. -/
def edge (r : Registry) (raw : RawEdge) : Except Error Edge := do
  let model? := r.activeFor? raw.relType
  let properties ←
    match model? with
    | some model => readProperties model.properties raw.properties
    | none => pure raw.properties
  return ⟨raw.id, raw.relType, raw.start, raw.finish, model?, properties⟩

end Registry

end GraphMapper
