import GraphMapper.Value.Text

/-!
# Formats

A format says how the values of a type are written as JSON and read back.

A record is written as an object with its members in order of declaration.  It
is read from an object, in which members that are not known are passed over and
known ones may not be repeated, or from an array of the members in order.  An
enumeration is written by name, and read from a name or from an object of the
name with null.

Reading counts the brackets that are open, since texts may nest only so far.
A part that is passed over is not looked at.
-/

namespace GraphMapper.Wire

variable {α : Type}

/-- A reading of JSON trees, given how many brackets are open around them. -/
abbrev Decoder (α : Type) : Type := Nat → Json → Option α

/-- How values are written as JSON and read back. -/
structure Format (α : Type) where
  encode : α → Json
  decode : Decoder α

/-- Whether one more bracket may open. -/
def mayOpen (depth : Nat) : Bool := decide (depth < Json.maxDepth)

mutual

/-- Whether a tree nests only so far and stands for something in all of its parts. -/
def isReadable (depth : Nat) : Json → Bool
  | .unreadable => false
  | .array items => mayOpen depth && areReadable (depth + 1) items
  | .object members => mayOpen depth && haveReadable (depth + 1) members
  | _ => true

/-- Whether all items are readable. -/
def areReadable (depth : Nat) : List Json → Bool
  | [] => true
  | j :: rest => isReadable depth j && areReadable depth rest

/-- Whether all members have readable values. -/
def haveReadable (depth : Nat) : List (String × Json) → Bool
  | [] => true
  | (_, j) :: rest => isReadable depth j && haveReadable depth rest

end

/-! ## Single values -/

/-- Reads a string. -/
def string : Decoder String
  | _, .string s => some s
  | _, _ => none

/-- Reads a truth value. -/
def bool : Decoder Bool
  | _, .bool b => some b
  | _, _ => none

/-- Reads a natural number of 64 bits. -/
def natural : Decoder Nat
  | _, .int i => if 0 ≤ i ∧ i < twoPow 64 then some i.toNat else none
  | _, _ => none

/-- Reads null as nothing. -/
def optional (item : Decoder α) : Decoder (Option α)
  | _, .null => some none
  | depth, j => (item depth j).map some

/-- Reads an array. -/
def list (item : Decoder α) : Decoder (List α)
  | depth, .array items => if mayOpen depth then items.mapM (item (depth + 1)) else none
  | _, _ => none

/-- Reads an object as a dictionary, in which of repeated members the last counts. -/
def dict (item : Decoder α) : Decoder (Dict α)
  | depth, .object members =>
    if mayOpen depth then
      (members.mapM fun m => (item (depth + 1) m.2).map fun a => (m.1, a)).map Dict.ofList
    else none
  | _, _ => none

/-- Reads any value. -/
def value : Decoder Value := fun depth j => if isReadable depth j then Value.ofJson? j else none

/-- Writes an array of strings. -/
def strings (items : List String) : Json := .array (items.map .string)

/-- Writes nothing as null. -/
def orNull (item : α → Json) (a? : Option α) : Json := (a?.map item).getD .null

/-- Writes a member only if there is something in it. -/
def memberOf (name : String) (item : α → Json) (a? : Option α) : List (String × Json) :=
  (a?.map fun a => (name, item a)).toList

/-! ## Enumerations -/

/-- The values of an enumeration and their names. -/
structure Names (α : Type) where
  all : List α
  name : α → String

namespace Names

/-- The value of a name. -/
def find? (n : Names α) (s : String) : Option α := n.all.find? fun a => n.name a == s

/-- Reads a name. -/
def decode (n : Names α) : Decoder α
  | _, .string s => n.find? s
  | depth, .object [(s, .null)] => if mayOpen depth then n.find? s else none
  | _, _ => none

/-- The format of an enumeration. -/
def format (n : Names α) : Format α := ⟨fun a => .string (n.name a), n.decode⟩

end Names

/-! ## Records -/

/-- The members of a record as far as they are given. -/
structure Record where
  /-- How many brackets are open around the members. -/
  depth : Nat
  /-- Whether the members stand in an array. -/
  ordered : Bool
  members : List (String × Json)

namespace Record

/-- The members of some names in an array or an object. -/
def ofJson? (names : List String) (depth : Nat) : Json → Option Record
  | .array items =>
    if mayOpen depth ∧ items.length ≤ names.length then some ⟨depth + 1, true, names.zip items⟩
    else none
  | .object members =>
    let known := members.filter fun m => names.contains m.1
    if mayOpen depth ∧ (known.map Prod.fst).Nodup then some ⟨depth + 1, false, known⟩ else none
  | _ => none

/-- A member that is given. -/
def get? (r : Record) (name : String) : Option Json := Dict.get? r.members name

/-- Reads a member that has to be given. -/
def required (r : Record) (name : String) (item : Decoder α) : Option α :=
  (r.get? name).bind (item r.depth)

/-- Reads a member, or takes a default where it is not given. -/
def withDefault (r : Record) (name : String) (item : Decoder α) (default : α) : Option α :=
  match r.get? name with
  | some j => item r.depth j
  | none => some default

/-- Reads a member that may be null, and may be left out in an object. -/
def nullable (r : Record) (name : String) (item : Decoder α) : Option (Option α) :=
  match r.get? name with
  | some j => optional item r.depth j
  | none => if r.ordered then none else some none

end Record

namespace Format

/-- A value as text. -/
def write (f : Format α) (a : α) : String := (f.encode a).text

/-- The value that a text writes. -/
def read? (f : Format α) (text : String) : Option α :=
  match Json.readText .lenient text.toList with
  | .ok tree => f.decode 0 tree
  | .error _ => none

/-- A text read and written again. -/
def normalize? (f : Format α) (text : String) : Option String := (f.read? text).map f.write

end Format

end GraphMapper.Wire
