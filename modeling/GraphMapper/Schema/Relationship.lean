import GraphMapper.Schema.Cardinality
import GraphMapper.Schema.Property

/-!
# Declared relationships

A node type declares named relationships to target types; a relationship type
describes the properties stored on the edges of one label.
-/

namespace GraphMapper

/-- A named relationship that a node type declares. -/
structure Relationship where
  name : String
  /-- The names of the accepted target types. -/
  targets : List String
  /-- The label of the edges. -/
  relType : String
  direction : Direction
  cardinality : Cardinality
  enforcement : Enforcement
  /-- The relationship type that describes the edges' properties, if any. -/
  model? : Option String
deriving DecidableEq

namespace Relationship

/-- The relationship of a name in a list of declarations. -/
def find? (rs : List Relationship) (name : String) : Option Relationship :=
  List.find? (fun r => r.name == name) rs

/-- The declarations with one put last, in place of an earlier one of its name. -/
def declare (rs : List Relationship) (r : Relationship) : List Relationship :=
  rs.filter (fun q => q.name != r.name) ++ [r]

/-- The declarations with those of a parent added where no name is taken. -/
def inherit (rs parent : List Relationship) : List Relationship :=
  parent.foldl (fun own r => if (find? own r.name).isSome then own else own ++ [r]) rs

end Relationship

/-- A relationship type, bound to one label. -/
structure RelationshipType where
  name : String
  relType : String
  /-- The names of the types it extends, the nearest last. -/
  ancestors : List String
  properties : List Property

namespace RelationshipType

/-- A relationship type without properties. -/
def new (name relType : String) : RelationshipType := ⟨name, relType, [], []⟩

/-- A subtype of a parent, bound to the parent's label. -/
def extend (t parent : RelationshipType) : RelationshipType :=
  { t with
    relType := parent.relType
    ancestors := parent.ancestors ++ [parent.name]
    properties := Property.inherit t.properties parent.properties }

/-- A type with a property declared. -/
def withProperty (t : RelationshipType) (p : Property) : RelationshipType :=
  { t with properties := Property.declare t.properties p }

/-- Whether a type extends the type of a name. -/
def isSubtypeOf (t : RelationshipType) (name : String) : Bool := t.ancestors.contains name

/-- The property of a name. -/
def property? (t : RelationshipType) (name : String) : Option Property :=
  Property.find? t.properties name

end RelationshipType

end GraphMapper
