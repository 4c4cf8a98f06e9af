import GraphMapper.FieldPath
import GraphMapper.Registry.Basic
import GraphMapper.Task

/-!
# Registration

A type is registered under its name and its label sets.  A name keeps its
labels, and no label set belongs to two names; apart from that a later
descriptor of a name replaces an earlier one.

A relationship label has one active type.  A subtype takes over from the type
it extends, which may be registered again without undoing that.
-/

namespace GraphMapper

/-- Checks that a text may be a label. -/
def requireLabel (label : String) : Except Error Unit :=
  liftLimit (Limits.checkLabel label)

/-- Checks the names of some properties. -/
def checkProperties (ps : List Property) : Except Error Unit :=
  ps.forM fun p => do
    requireIdentifier p.name
    requireIdentifier p.storageName

/-- Checks a declared relationship of the type of a name. -/
def checkRelationship (type : String) (r : Relationship) : Except Error Unit := do
  requireIdentifier r.name
  requireLabel r.relType
  if r.targets = [] then throw (.compile (.noTarget r.name type))

/-- Checks the names and counts of a node type. -/
def checkNodeType (t : NodeType) : Except Error Unit := do
  requireIdentifier t.name
  requireLabel t.label
  (t.ancestors ++ t.optionalLabels).forM requireLabel
  liftLimit (Limits.checkLabelCount (t.ancestors.length + 1) t.optionalLabels.length)
  checkProperties t.properties
  t.relationships.forM (checkRelationship t.name)

/-- Checks the names of a relationship type. -/
def checkRelationshipType (t : RelationshipType) : Except Error Unit := do
  requireIdentifier t.name
  requireLabel t.relType
  checkProperties t.properties

namespace Registry

/-- Checks that a label set is free, or belongs to a name already. -/
def checkOwner (r : Registry) (name : String) (s : LabelSet) : Except Error Unit :=
  match r.table.get? s with
  | some owner => if owner.name = name then .ok () else .error (.duplicateType name s owner.name)
  | none => .ok ()

/-- Checks that a type has the labels that its name had before. -/
def checkSteady (r : Registry) (t : NodeType) : Except Error Unit :=
  match r.names.get? t.name with
  | some previous =>
    if previous = t.labels then .ok () else .error (.relabelConflict t.name previous t.labels)
  | none => .ok ()

/-- Checks that a type keeps the labels of its name, and that its label sets are its own. -/
def checkLabels (r : Registry) (t : NodeType) : Except Error Unit := do
  r.checkSteady t
  t.labelSets.forM (r.checkOwner t.name)

/-- Registers a node type.  Only after every check do the label sets of an earlier descriptor make
way for those of the new one. -/
def registerNode (t : NodeType) : Task Registry Unit := do
  checkNodeType t
  (← get).checkLabels t
  modify fun r => { r with table := r.table.without t.name }
  t.labelSets.forM fun s => modify fun r => { r with table := r.table.insert s t }
  modify fun r => { r with names := r.names.insert t.name t.labels }

/-- A registry with a node type registered. -/
def register (r : Registry) (t : NodeType) : Except Error Registry :=
  match (registerNode t).run.run r with
  | (.ok _, r') => .ok r'
  | (.error e, _) => .error e

/-- What becomes of a label when a type for it is registered. -/
inductive Takeover where
  /-- The new type becomes active. -/
  | replace
  /-- The active type stays. -/
  | keep
  /-- Neither extends the other. -/
  | conflict (bound : String)

/-- Compares a relationship type with the active one of its label. -/
def takeover (bound? : Option RelationshipType) (t : RelationshipType) : Takeover :=
  match bound? with
  | none => .replace
  | some bound =>
    if bound.name = t.name then .replace
    else if t.isSubtypeOf bound.name then .replace
    else if bound.isSubtypeOf t.name then .keep
    else .conflict bound.name

/-- Registers a relationship type. -/
def registerRelationship (r : Registry) (t : RelationshipType) : Except Error Registry := do
  checkRelationshipType t
  let models := r.models.insert t.name t
  match takeover (r.activeFor? t.relType) t with
  | .replace => return { r with active := r.active.insert t.relType t, models }
  | .keep => return { r with models }
  | .conflict bound => throw (.relationshipRedefined t.relType bound t.name)

end Registry

end GraphMapper
