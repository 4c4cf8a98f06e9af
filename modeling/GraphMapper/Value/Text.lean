import GraphMapper.Integer64
import GraphMapper.Json.Reader
import GraphMapper.Value.Basic

/-!
# Values as JSON

A value has a JSON tree and so a JSON text, and a JSON text has a value: whole
numbers of 64 bits are integers and all others floating-point, and of members
with one key the last counts.
-/

namespace GraphMapper.Value

mutual

/-- The JSON tree of a value. -/
def toJson : Value → Json
  | null => .null
  | bool b => .bool b
  | int i => .int i.toInt
  | float x => .real x
  | string s => .string s
  | list items => .array (itemsToJson items)
  | map entries => .object (entriesToJson entries)

/-- The JSON trees of some values. -/
def itemsToJson : List Value → List Json
  | [] => []
  | v :: rest => toJson v :: itemsToJson rest

/-- The JSON members of some entries. -/
def entriesToJson : List (String × Value) → List (String × Json)
  | [] => []
  | (k, v) :: rest => (k, toJson v) :: entriesToJson rest

end

/-- The value of a whole number. -/
def ofInt (i : Int) : Value :=
  match int64? i with
  | some n => int n
  | none => float (Double.ofInt i)

mutual

/-- The value of a JSON tree, unless part of it stands for nothing. -/
def ofJson? : Json → Option Value
  | .null => some null
  | .bool b => some (bool b)
  | .int i => some (ofInt i)
  | .real x => some (float x)
  | .string s => some (string s)
  | .array items => (itemsOfJson? items).map list
  | .object members => (entriesOfJson? members).map fun entries => map (Dict.ofList entries)
  | .unreadable => none

/-- The values of some JSON trees. -/
def itemsOfJson? : List Json → Option (List Value)
  | [] => some []
  | j :: rest => do return (← ofJson? j) :: (← itemsOfJson? rest)

/-- The entries of some JSON members. -/
def entriesOfJson? : List (String × Json) → Option (List (String × Value))
  | [] => some []
  | (k, j) :: rest => do return (k, ← ofJson? j) :: (← entriesOfJson? rest)

end

/-- A value as text. -/
def text (v : Value) : String := v.toJson.text

/-- The value that a text writes, or what is wrong with the text. -/
def parse (s : String) : Except String Value :=
  match Json.readText .strict s.toList with
  | .ok tree => .ok ((ofJson? tree).getD null)
  | .error failure => .error (failure.message s.toList)

end GraphMapper.Value
