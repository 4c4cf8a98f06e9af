import GraphMapper.Dict
import GraphMapper.Double.Basic

/-!
# Values

Property values and bound query parameters.  Integers have 64 bits; a map is a
list of entries in increasing order of the key (`Value.IsCanonical`), spelled
out as a list because it nests the type itself.

`Value.same` is the equality of values as data: an integer never equals a
floating-point number, and numbers of that kind are compared numerically.
-/

namespace GraphMapper

/-- A value. -/
inductive Value where
  | null
  | bool (b : Bool)
  | int (i : Int64)
  | float (x : Double)
  | string (s : String)
  | list (items : List Value)
  | map (entries : List (String × Value))

/-- Values bound to a statement, by parameter name. -/
abbrev Params : Type := Dict Value

namespace Value

instance : Inhabited Value := ⟨null⟩

/-- Whether a value is null. -/
def isNull : Value → Bool
  | null => true
  | _ => false

/-- The text of a string value. -/
def string? : Value → Option String
  | string s => some s
  | _ => none

/-- The number of an integer value. -/
def int? : Value → Option Int64
  | int i => some i
  | _ => none

/-- The number of a numeric value; integers widen. -/
def float? : Value → Option Double
  | float x => some x
  | int i => some (Double.ofInt i.toInt)
  | _ => none

/-- The truth value of a boolean value. -/
def bool? : Value → Option Bool
  | bool b => some b
  | _ => none

/-- The items of a list value. -/
def list? : Value → Option (List Value)
  | list items => some items
  | _ => none

/-- The name of a value's kind, as messages give it. -/
def kind : Value → String
  | null => "null"
  | bool _ => "bool"
  | int _ => "integer"
  | float _ => "float"
  | string _ => "string"
  | list _ => "list"
  | map _ => "map"

mutual

/-- Equality of values as data. -/
def same : Value → Value → Bool
  | null, null => true
  | bool a, bool b => a == b
  | int a, int b => a == b
  | float a, float b => a.same b
  | string a, string b => a == b
  | list a, list b => sameItems a b
  | map a, map b => sameEntries a b
  | _, _ => false

/-- Equality of lists of values. -/
def sameItems : List Value → List Value → Bool
  | [], [] => true
  | a :: as, b :: bs => same a b && sameItems as bs
  | _, _ => false

/-- Equality of maps of values. -/
def sameEntries : List (String × Value) → List (String × Value) → Bool
  | [], [] => true
  | (k, a) :: as, (l, b) :: bs => k == l && same a b && sameEntries as bs
  | _, _ => false

end

mutual

/-- Every map inside has its keys in strictly increasing order. -/
def IsCanonical : Value → Prop
  | list items => AreCanonical items
  | map entries => Dict.IsSorted entries ∧ HasCanonical entries
  | _ => True

/-- Every item is canonical. -/
def AreCanonical : List Value → Prop
  | [] => True
  | v :: rest => IsCanonical v ∧ AreCanonical rest

/-- Every entry's value is canonical. -/
def HasCanonical : List (String × Value) → Prop
  | [] => True
  | (_, v) :: rest => IsCanonical v ∧ HasCanonical rest

end

end Value

end GraphMapper
