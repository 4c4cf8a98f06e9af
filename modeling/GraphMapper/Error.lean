import GraphMapper.Codec
import GraphMapper.LabelSet
import GraphMapper.Limits
import GraphMapper.Operator
import GraphMapper.PathMode
import GraphMapper.Schema.Cardinality

/-!
# Errors

Everything that registration, planning, compilation, resolution and the guard
refuse, each with its cause, and the wording of all of them in `Error.message`.
A panic is no error: it refuses nothing, and ends a computation for good
(`Halt`).
-/

namespace GraphMapper

/-- Why a filter is refused. -/
inductive FilterFault where
  /-- A relationship property is named without a hop before it. -/
  | noHop
  /-- The operand has the wrong shape for the operator. -/
  | operand (op : Operator) (wanted got : String)
  /-- The last hop's relationship describes no properties. -/
  | noModel (relationship : String)
  /-- A pattern operator meets a property that does not store text. -/
  | notText (op : Operator) (property got : String)
deriving DecidableEq

/-- The wording of a filter's fault. -/
def FilterFault.message : FilterFault → String
  | noHop => "relationship properties need a hop before '|'"
  | operand op wanted got => op.suffix ++ " expects a " ++ wanted ++ ", got " ++ got
  | noModel relationship => "relationship " ++ relationship ++ " declares no model"
  | notText op property got =>
    op.suffix ++ " needs a string property, " ++ property ++ " stores " ++ got

/-- The place where a name is used. -/
inductive UseSite where
  | filters
  | ordering
  | aggregatedOrdering
  | projections
  | transforms
  | transformOrdering
deriving DecidableEq

/-- The wording of a place. -/
def UseSite.text : UseSite → String
  | filters => "filters"
  | ordering => "ordering"
  | aggregatedOrdering => "ordering of an aggregated result"
  | projections => "projections"
  | transforms => "transforms"
  | transformOrdering => "transform ordering"

/-- Why a plan is no statement. -/
inductive CompileFault where
  | noTarget (relationship type : String)
  | emptyTransform
  | emptySubquery
  | boundTwice (name : String)
  | unknownShared (name : String)
  | unboundImport (name : String)
  | countTransformed
  | unknownReturn (name : String)
  | emptyReturn
  | boundTooLarge (keyword : String) (bound : Nat)
  | noMergeKey (type : String)
deriving DecidableEq

/-- The wording of a compilation's fault. -/
def CompileFault.message : CompileFault → String
  | noTarget relationship type =>
    "relationship " ++ relationship ++ " on " ++ type ++ " declares no target type"
  | emptyTransform => "transform declares no variables"
  | emptySubquery => "subquery returns nothing"
  | boundTwice name => "variable " ++ name ++ " is bound twice"
  | unknownShared name => "unique variable " ++ name ++ " was never declared by a traversal"
  | unboundImport name =>
    "subquery imports " ++ name ++ " which is not bound in the enclosing query"
  | countTransformed => "cannot count a transformed plan"
  | unknownReturn name => "subquery return " ++ name ++ " is not produced by the subquery"
  | emptyReturn => "query returns nothing"
  | boundTooLarge keyword bound => s!"{keyword} {bound} is out of range"
  | noMergeKey type => type ++ " declares no merge key"

/-- Why a result cannot be read. -/
inductive ResolutionFault where
  | rowLength (cells columns : Nat)
  | notAnEntity (column kind : String)
  | noRoot
  | noEntity (column : String)
  | filterOnly
  | noColumn (column : String)
  | noTraversal
  | badRoot (column kind : String)
  | negativeCount (count : Int)
  | notCreated (type : String)
  /-- The application's own reading of an entity failed. -/
  | application (reason : String)
deriving DecidableEq

/-- The wording of a resolution's fault. -/
def ResolutionFault.message : ResolutionFault → String
  | rowLength cells columns => s!"row has {cells} cells for {columns} columns"
  | notAnEntity column kind =>
    "column " ++ column ++ " holds a " ++ kind ++ " where an entity or relationship was expected"
  | noRoot => "result has no root column"
  | noEntity column => "row has no entity in column " ++ column
  | filterOnly => "filter-only traversals return no subgraph"
  | noColumn column => "result has no column " ++ column
  | noTraversal => "result has no traversal columns"
  | badRoot column kind => "root column " ++ column ++ " holds a " ++ kind
  | negativeCount count => s!"negative count {count}"
  | notCreated type => "get-or-create of " ++ type ++ " returned no entity"
  | application reason => reason

/-- Why a property cannot be written. -/
inductive EncodeFault where
  | codec (error : CodecError)
  | noMergeValue
  | noValue

/-- The wording of a property's fault. -/
def EncodeFault.message : EncodeFault → String
  | codec error => error.message
  | noMergeValue => "merge key value must be supplied"
  | noValue => "required property has no value"

/-- A write that would break a declared bound. -/
inductive Breach where
  | tooMany (type id : String) (existing : Nat) (relationship : String) (declared : Cardinality)
  | tooFew (relationship type id : String) (remaining : Nat) (declared : Cardinality)
  | noneLeft (relationship type id : String) (declared : Cardinality)
deriving DecidableEq

/-- A breach in words. -/
def Breach.message : Breach → String
  | tooMany type id existing relationship declared =>
    s!"{type} {id} already has {existing} {relationship} relationship(s), declared " ++
      declared.text
  | tooFew relationship type id remaining declared =>
    s!"removing {relationship} from {type} {id} leaves {remaining}, declared " ++ declared.text
  | noneLeft relationship type id declared =>
    s!"removing all {relationship} from {type} {id} leaves 0, declared " ++ declared.text

/-- A stored count outside a declared bound. -/
structure Violation where
  elementId : String
  typeName : String
  relationship : String
  expected : Cardinality
  actual : Nat
deriving DecidableEq

/-- A violation in words. -/
def Violation.message (v : Violation) : String :=
  s!"{v.typeName} {v.elementId} has {v.actual} {v.relationship} relationship(s), expected " ++
    v.expected.text

/-- Why an operation is refused. -/
inductive Error where
  | duplicateType (name : String) (labels : LabelSet) (existing : String)
  | relabelConflict (name : String) (previous requested : LabelSet)
  | relationshipRedefined (relType bound requested : String)
  | unknownType (labels : LabelSet)
  | unknownTypeName (name : String)
  | ambiguousType (labels : LabelSet) (candidates : List String)
  | unknownRelation (typeName hop : String)
  | unknownProperty (typeName property : String)
  | incompatibleMode (committed requested : PathMode)
  | duplicateAlias (name : String)
  | invalidFilter (field : String) (fault : FilterFault)
  | limit (error : LimitError)
  | unboundFieldPath (path : String) (site : UseSite)
  | duplicateProjection (name : String)
  | compile (fault : CompileFault)
  | unresolvedEntity (labels : LabelSet) (registry : String)
  | resolution (fault : ResolutionFault)
  | multipleResults (count : Nat)
  | encode (property : String) (fault : EncodeFault)
  | decode (property : String) (error : CodecError)
  | attemptedViolation (relationship : String) (breach : Breach)
  | violation (v : Violation)
  | targetTypeMismatch (relationship expected actual : String)
  | notConnected (source target relationship : String)
  | driver (message : String)
  | serialization (message : String)

/-- The name of an error's kind, for programs to tell errors apart. -/
def Error.kind : Error → String
  | duplicateType .. => "DuplicateType"
  | relabelConflict .. => "RelabelConflict"
  | relationshipRedefined .. => "RelationshipRedefined"
  | unknownType .. => "UnknownType"
  | unknownTypeName .. => "UnknownTypeName"
  | ambiguousType .. => "AmbiguousType"
  | unknownRelation .. => "UnknownRelation"
  | unknownProperty .. => "UnknownProperty"
  | incompatibleMode .. => "IncompatibleMode"
  | duplicateAlias .. => "DuplicateAlias"
  | invalidFilter .. => "InvalidFilter"
  | limit .. => "Validation"
  | unboundFieldPath .. => "UnboundFieldPath"
  | duplicateProjection .. => "DuplicateProjection"
  | compile .. => "Compile"
  | unresolvedEntity .. => "UnresolvedEntity"
  | resolution .. => "Resolution"
  | multipleResults .. => "MultipleResults"
  | encode .. => "Encode"
  | decode .. => "Decode"
  | attemptedViolation .. => "AttemptedCardinalityViolation"
  | violation .. => "CardinalityViolation"
  | targetTypeMismatch .. => "TargetTypeMismatch"
  | notConnected .. => "NotConnected"
  | driver .. => "Driver"
  | serialization .. => "Serialization"

/-- An error in words. -/
def Error.message : Error → String
  | duplicateType name labels existing =>
    "Label set " ++ labels.text ++ " is already registered to " ++ existing ++
      ", cannot register " ++ name
  | relabelConflict name previous requested =>
    "Type " ++ name ++ " is registered with labels " ++ previous.text ++
      ", cannot re-register it with " ++ requested.text
  | relationshipRedefined relType bound requested =>
    "Relationship label " ++ relType ++ " is bound to " ++ bound ++
      ", cannot rebind it to unrelated " ++ requested
  | unknownType labels => "No registered type matches labels " ++ labels.text
  | unknownTypeName name => "Type not registered: " ++ name
  | ambiguousType labels candidates =>
    "Labels " ++ labels.text ++ " match more than one type equally well: " ++
      Text.escapedList candidates
  | unknownRelation typeName hop => typeName ++ " has no relationship named " ++ hop
  | unknownProperty typeName property => typeName ++ " has no property named " ++ property
  | incompatibleMode committed requested =>
    "Plan already traverses in " ++ committed.text ++ " mode, cannot add a " ++
      requested.text ++ " traversal"
  | duplicateAlias name => "Alias " ++ name ++ " is declared more than once"
  | invalidFilter field fault => "Invalid filter on " ++ field ++ ": " ++ fault.message
  | limit error => "Validation error: " ++ error.message
  | unboundFieldPath path site => "Field path " ++ path ++ " is not bound in " ++ site.text
  | duplicateProjection name => "Projection " ++ name ++ " is declared more than once"
  | compile fault => "Compile error: " ++ fault.message
  | unresolvedEntity labels registry =>
    "No registered type matches labels " ++ labels.text ++ "; registered types:\n" ++ registry
  | resolution fault => "Resolution error: " ++ fault.message
  | multipleResults count => s!"Expected at most one result, got {count}"
  | encode property fault => "Cannot encode " ++ property ++ ": " ++ fault.message
  | decode property error => "Cannot decode " ++ property ++ ": " ++ error.message
  | attemptedViolation relationship breach =>
    "Attempted cardinality violation on " ++ relationship ++ ": " ++ breach.message
  | violation v => v.message
  | targetTypeMismatch relationship expected actual =>
    relationship ++ " cannot point at " ++ actual ++ ", expected " ++ expected
  | notConnected source target relationship =>
    source ++ " is not connected to " ++ target ++ " via " ++ relationship
  | driver message => "Driver error: " ++ message
  | serialization message => "Serialization error: " ++ message

/-- Raises a refused name or count. -/
def liftLimit {α : Type} (check : Except LimitError α) : Except Error α :=
  check.mapError .limit

/-! ## Panics -/

/-- A panic, with what was out of range. -/
inductive Panic where
  /-- The first target of a hop that has none. -/
  | firstTarget (hop : String)
deriving DecidableEq

/-- Why a computation does not come to its result.  An error is handed to the caller, who may go
on; a panic is nobody's to handle, and has neither a kind nor a wording. -/
inductive Halt where
  | error (e : Error)
  | panic (p : Panic)

instance : MonadLift (Except Error) (Except Halt) := ⟨fun x => x.mapError .error⟩

end GraphMapper
