import GraphMapper.Double.Text

/-!
# JSON trees

The syntax tree of a JSON text.  Members keep their order and their repetitions;
numbers are already integers or floating-point numbers.

A text may hold tokens that are well formed and yet stand for nothing: a number
beyond the largest, a string with half of a surrogate pair.  A tree that was
read leniently holds `unreadable` in their place, and whoever needs the value
refuses it.
-/

namespace GraphMapper

/-- A JSON tree. -/
inductive Json where
  | null
  | bool (b : Bool)
  | int (i : Int)
  | real (x : Double)
  | string (s : String)
  | array (items : List Json)
  | object (members : List (String × Json))
  | unreadable

namespace Json

instance : Inhabited Json := ⟨null⟩

/-- A character of a string, as it is written between quotes. -/
def writeChar (c : Char) : List Char :=
  match c with
  | '"' => ['\\', '"']
  | '\\' => ['\\', '\\']
  | '\x08' => ['\\', 'b']
  | '\x0c' => ['\\', 'f']
  | '\n' => ['\\', 'n']
  | '\r' => ['\\', 'r']
  | '\t' => ['\\', 't']
  | c =>
    if c.toNat < 0x20 then
      ['\\', 'u', '0', '0', Nat.digitChar (c.toNat / 16), Nat.digitChar (c.toNat % 16)]
    else [c]

/-- A string between quotes. -/
def writeString (s : String) : List Char :=
  '"' :: s.toList.flatMap writeChar ++ ['"']

/-- A floating-point number; one that is infinite or none is written as null. -/
def writeReal (x : Double) : List Char :=
  if x.isFinite then Double.storedLayout.finite x else ['n', 'u', 'l', 'l']

/-- A tree without any space. -/
def compact : Json → List Char
  | null => ['n', 'u', 'l', 'l']
  | bool true => ['t', 'r', 'u', 'e']
  | bool false => ['f', 'a', 'l', 's', 'e']
  | int i => (toString i).toList
  | real x => writeReal x
  | string s => writeString s
  | array items => '[' :: compactItems items ++ [']']
  | object members => '\x7b' :: compactMembers members ++ ['\x7d']
  | unreadable => ['n', 'u', 'l', 'l']
where
  /-- Items with commas between them. -/
  compactItems : List Json → List Char
    | [] => []
    | [item] => compact item
    | item :: rest => compact item ++ ',' :: compactItems rest
  /-- Members with commas between them. -/
  compactMembers : List (String × Json) → List Char
    | [] => []
    | [(key, value)] => writeString key ++ ':' :: compact value
    | (key, value) :: rest => writeString key ++ ':' :: compact value ++ ',' :: compactMembers rest

/-- A new line at a depth of two spaces each. -/
def newLine (depth : Nat) : List Char := '\n' :: List.replicate (2 * depth) ' '

/-- A tree over several lines, one item or member a line. -/
def pretty (depth : Nat) : Json → List Char
  | array [] => ['[', ']']
  | object [] => ['\x7b', '\x7d']
  | array items => '[' :: prettyItems (depth + 1) items ++ newLine depth ++ [']']
  | object members => '\x7b' :: prettyMembers (depth + 1) members ++ newLine depth ++ ['\x7d']
  | null => ['n', 'u', 'l', 'l']
  | bool b => compact (bool b)
  | int i => (toString i).toList
  | real x => writeReal x
  | string s => writeString s
  | unreadable => ['n', 'u', 'l', 'l']
where
  /-- Items, each on a line of its own. -/
  prettyItems (depth : Nat) : List Json → List Char
    | [] => []
    | [item] => newLine depth ++ pretty depth item
    | item :: rest => newLine depth ++ pretty depth item ++ ',' :: prettyItems depth rest
  /-- Members, each on a line of its own. -/
  prettyMembers (depth : Nat) : List (String × Json) → List Char
    | [] => []
    | [(key, value)] => newLine depth ++ writeString key ++ ':' :: ' ' :: pretty depth value
    | (key, value) :: rest =>
      newLine depth ++ writeString key ++ ':' :: ' ' :: pretty depth value ++
        ',' :: prettyMembers depth rest

/-- The compact text of a tree. -/
def text (j : Json) : String := String.ofList j.compact

/-- The text of a tree over several lines. -/
def prettyText (j : Json) : String := String.ofList (j.pretty 0)

end Json

end GraphMapper
