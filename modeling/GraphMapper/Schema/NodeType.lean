import GraphMapper.LabelSet
import GraphMapper.Schema.Relationship
import GraphMapper.Text.LowerCase

/-!
# Node types

A node type has a label of its own, the labels of its ancestors, labels that
its nodes may carry besides, and declarations of properties and relationships.
Extending a parent copies the parent's declarations; the type's own win,
whether they come before or after.
-/

namespace GraphMapper

/-- A node type. -/
structure NodeType where
  name : String
  label : String
  ancestors : List String
  optionalLabels : List String
  properties : List Property
  relationships : List Relationship

namespace NodeType

/-- A type without declarations, labelled with its name. -/
def new (name : String) : NodeType := ⟨name, name, [], [], [], []⟩

/-- A type with another label. -/
def withLabel (t : NodeType) (label : String) : NodeType := { t with label }

/-- A type with one more optional label. -/
def withOptionalLabel (t : NodeType) (label : String) : NodeType :=
  { t with optionalLabels := t.optionalLabels ++ [label] }

/-- A type with a property declared. -/
def withProperty (t : NodeType) (p : Property) : NodeType :=
  { t with properties := Property.declare t.properties p }

/-- A type with a relationship declared. -/
def withRelationship (t : NodeType) (r : Relationship) : NodeType :=
  { t with relationships := Relationship.declare t.relationships r }

/-- A type with the labels and the declarations of a parent. -/
def extend (t parent : NodeType) : NodeType :=
  { t with
    ancestors := t.ancestors ++
      (parent.ancestors ++ [parent.label]).filter fun l => !t.ancestors.contains l
    properties := Property.inherit t.properties parent.properties
    relationships := Relationship.inherit t.relationships parent.relationships }

/-- The labels that every node of a type carries. -/
def labels (t : NodeType) : LabelSet := LabelSet.ofList (t.ancestors ++ [t.label])

/-- Whether every node of a type carries a label. -/
def hasLabel (t : NodeType) (label : String) : Bool :=
  t.label == label || t.ancestors.contains label

/-- The property of a name. -/
def property? (t : NodeType) (name : String) : Option Property :=
  Property.find? t.properties name

/-- The relationship of a name. -/
def relationship? (t : NodeType) (name : String) : Option Relationship :=
  Relationship.find? t.relationships name

/-- The variable that stands for a node of a type. -/
def variableName (t : NodeType) : String := Text.lowerCase t.name

end NodeType

end GraphMapper
