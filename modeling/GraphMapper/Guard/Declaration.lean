import GraphMapper.Compile.Merge
import GraphMapper.Result.Entity

/-!
# Declarations at both ends

A relationship that a node declares may be declared at the other end as well:
for the same label, the other way round, and with the node's type among its
targets.
-/

namespace GraphMapper

/-- The declaration of a name at a node. -/
def Entity.declaration (e : Entity) (name : String) : Except Error Relationship :=
  match e.nodeType.relationship? name with
  | some r => .ok r
  | none => .error (.unknownRelation e.typeName name)

namespace Registry

/-- Whether a type is the type of a name, or carries its label. -/
def isA (r : Registry) (t : NodeType) (name : String) : Bool :=
  t.name == name ||
    match r.nodeType? name with
    | some other => t.hasLabel other.label
    | none => false

/-- Whether a declaration covers the edges of another from their other end. -/
def isInverse (r : Registry) (rel : Relationship) (source : NodeType) (candidate : Relationship) :
    Bool :=
  candidate.relType == rel.relType && candidate.direction == rel.direction.reversed &&
    candidate.targets.any (r.isA source)

/-- The declaration at the other end, if there is one. -/
def inverse? (r : Registry) (rel : Relationship) (source target : NodeType) :
    Option Relationship :=
  target.relationships.find? (r.isInverse rel source)

/-- Checks that a relationship may lead to a node. -/
def checkTarget (r : Registry) (rel : Relationship) (target : Entity) : Except Error Unit :=
  if rel.targets.any (r.isA target.nodeType) then .ok ()
  else .error (.targetTypeMismatch rel.name ("|".intercalate rel.targets) target.typeName)

/-- The values that some properties are created with, from some position on. -/
def createdProperties (supplied : Properties) (ids : Identifiers) (position : Nat) :
    List Property → Except Error (List (String × Value))
  | [] => .ok []
  | p :: rest => do
    let v? ← p.createdValue? supplied (ids position)
    let others ← createdProperties supplied ids (position + 1) rest
    return (v?.map fun v => (p.storageName, v)).toList ++ others

/-- The supplied properties of an edge as they are stored, with the defaults. -/
def edgeProperties (r : Registry) (ids : Identifiers) (rel : Relationship)
    (supplied : Properties) : Except Error (List (String × Value)) :=
  match rel.model? with
  | none =>
    match supplied.keys.head? with
    | some key => .error (.unknownProperty rel.relType key)
    | none => .ok []
  | some name => do
    let model ← r.relationshipType name
    match unknownKey? model.properties supplied with
    | some key => throw (.unknownProperty model.name key)
    | none => createdProperties supplied ids 0 model.properties

end Registry

end GraphMapper
