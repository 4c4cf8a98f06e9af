import GraphMapper.Text.Integer
import GraphMapper.Value.Basic

/-!
# Settings

How the guard addresses stored nodes, and how strictly it keeps the bounds that
are declared at the other end of a relationship.
-/

namespace GraphMapper

/-- The function that gives a stored node's identity. -/
inductive IdFunction where
  | elementId
  /-- The older one, which gives integers. -/
  | id
deriving DecidableEq, Inhabited

namespace IdFunction

/-- The function applied to a variable. -/
def apply (f : IdFunction) (var : String) : String :=
  match f with
  | elementId => "elementId(" ++ var ++ ")"
  | id => "id(" ++ var ++ ")"

/-- An identity as the value that the function gives. -/
def operand (f : IdFunction) (id : String) : Value :=
  match f with
  | elementId => .string id
  | .id =>
    match Text.integer? id with
    | some i => .int i
    | none => .string id

end IdFunction

/-- The guard's settings. -/
structure Settings where
  /-- Whether a broken bound at the other end is reported instead of refused. -/
  softInverse : Bool
  idFunction : IdFunction
deriving DecidableEq

/-- The settings where nothing is set. -/
def Settings.default : Settings := ⟨false, .elementId⟩

end GraphMapper
