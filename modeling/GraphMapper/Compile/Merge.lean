import GraphMapper.Compile.Query

/-!
# Get or create

The statement that finds the node with some merge-key values, or creates it
with the other properties.  Defaults, made-up identifiers among them, count
only when the node is created; a merge key has to be supplied.
-/

namespace GraphMapper

/-- A supply of made-up identifiers, one for each property position. -/
abbrev Identifiers : Type := Nat → String

/-- The node that is merged, with parameters for its keys and for what is set on creation. -/
structure MergeStatement where
  var : String
  labels : List String
  keys : List (String × String)
  created : List (String × String)
deriving DecidableEq

/-- The text of a merge. -/
def MergeStatement.text (m : MergeStatement) : String :=
  "MERGE (" ++ m.var ++ String.join (m.labels.map fun l => ":" ++ Text.quote l) ++ " " ++
    Cypher.assignments m.keys ++ ")" ++
    (if m.created = [] then ""
      else " ON CREATE SET " ++
        ", ".intercalate (m.created.map fun p => m.var ++ "." ++ p.1 ++ " = $" ++ p.2)) ++
    " RETURN " ++ m.var

/-- A merge with its parameters. -/
structure CompiledMerge where
  statement : MergeStatement
  params : Params
  shape : ResultShape

/-- The first supplied name that no property has. -/
def unknownKey? (declared : List Property) (supplied : Properties) : Option String :=
  supplied.keys.find? fun key => (Property.find? declared key).isNone

/-- The value supplied for a property, where null counts as none. -/
def supplied? (supplied : Properties) (p : Property) : Option Value :=
  (supplied.get? p.name).filter fun v => !v.isNull

/-- The value that a property is created with, if any. -/
def Property.createdValue? (p : Property) (supplied : Properties) (fresh : String) :
    Except Error (Option Value) :=
  match supplied? supplied p <|> p.defaultValue? fresh with
  | some v => return some (← p.encode p.name v)
  | none => if p.required then throw (.encode p.name .noValue) else return none

/-- Binds the value of one property, and says whether it is a key. -/
def mergeProperty (var : String) (supplied : Properties) (fresh : String) (p : Property) :
    BinderM Error (Option (Bool × String × String)) := do
  let hint := paramHint "" ⟨var, p.storageName⟩
  if p.mergeKey then
    match supplied? supplied p with
    | none => throw (.encode p.name .noMergeValue)
    | some v => return some (true, p.storageName, ← bindParam hint (← p.encode p.name v))
  else
    match ← p.createdValue? supplied fresh with
    | none => return none
    | some v => return some (false, p.storageName, ← bindParam hint v)

/-- Binds the values of the properties from some position on. -/
def mergeProperties (var : String) (supplied : Properties) (ids : Identifiers) (position : Nat) :
    List Property → BinderM Error (List (Bool × String × String))
  | [] => return []
  | p :: rest => do
    let bound? ← mergeProperty var supplied (ids position) p
    let others ← mergeProperties var supplied ids (position + 1) rest
    return bound?.toList ++ others

/-- Compiles get-or-create of a node type with some supplied values. -/
def NodeType.compileGetOrCreate (t : NodeType) (ids : Identifiers) (supplied : Properties) :
    Except Error CompiledMerge := do
  match unknownKey? t.properties supplied with
  | some key => throw (.unknownProperty t.name key)
  | none => pure ()
  let var := t.variableName
  let (bound, binder) ← (mergeProperties var supplied ids 0 t.properties).run .empty
  let keys := (bound.filter fun b => b.1).map Prod.snd
  if keys = [] then throw (.compile (.noMergeKey t.name))
  return {
    statement := {
      var
      labels := t.ancestors ++ [t.label]
      keys
      created := (bound.filter fun b => !b.1).map Prod.snd }
    params := binder.params
    shape := ⟨some var, none, [⟨var, .root⟩]⟩ }

end GraphMapper
