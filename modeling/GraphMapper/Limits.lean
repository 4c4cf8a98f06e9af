import GraphMapper.Text.Escaped

/-!
# Limits

What a name must look like before it may be written into a statement, and how
many labels and hops are allowed.  Lengths are in bytes.
-/

namespace GraphMapper

/-- A name or a count that is refused. -/
inductive LimitError where
  | emptyIdentifier
  | identifierTooLong (length : Nat)
  | badIdentifier (name : String)
  | emptyLabel
  | labelTooLong (length : Nat)
  | badLabel (label : String)
  | tooManyLabels (count : Nat)
  | tooManyOptionalLabels (count : Nat)
  | emptyPath
  | pathTooLong (hops : Nat)
deriving DecidableEq

namespace Limits

/-- The longest identifier. -/
def maxIdentifier : Nat := 255

/-- The longest label or relationship type. -/
def maxLabel : Nat := 255

/-- The most labels of one type, ancestors included. -/
def maxLabels : Nat := 32

/-- The most optional labels of one type. -/
def maxOptionalLabels : Nat := 8

/-- The most hops of one path. -/
def maxHops : Nat := 16

/-- A character that may start an identifier. -/
def isIdentifierStart (c : Char) : Bool := c.isAlpha || c == '_'

/-- A character that may stand inside an identifier. -/
def isIdentifierPart (c : Char) : Bool := c.isAlphanum || c == '_'

/-- The form of an identifier: ASCII letters, digits and underscores, no digit first. -/
def isIdentifier : List Char → Bool
  | [] => false
  | c :: rest => isIdentifierStart c && rest.all isIdentifierPart

/-- A control character. -/
def isControl (c : Char) : Bool := c.toNat < 0x20 || (0x7F ≤ c.toNat && c.toNat < 0xA0)

/-- Checks a name that is written into a statement as it stands. -/
def checkIdentifier (name : String) : Except LimitError Unit :=
  if name.isEmpty then .error .emptyIdentifier
  else if maxIdentifier < name.utf8ByteSize then .error (.identifierTooLong name.utf8ByteSize)
  else if isIdentifier name.toList then .ok ()
  else .error (.badIdentifier name)

/-- Checks a label or relationship type, which is written in quotes where needed. -/
def checkLabel (label : String) : Except LimitError Unit :=
  if label.isEmpty then .error .emptyLabel
  else if maxLabel < label.utf8ByteSize then .error (.labelTooLong label.utf8ByteSize)
  else if label.toList.any isControl then .error (.badLabel label)
  else .ok ()

/-- Checks the number of labels and of optional labels of a type. -/
def checkLabelCount (count optional : Nat) : Except LimitError Unit :=
  if maxLabels < count then .error (.tooManyLabels count)
  else if maxOptionalLabels < optional then .error (.tooManyOptionalLabels optional)
  else .ok ()

/-- Checks the number of hops of a path. -/
def checkHopCount (hops : Nat) : Except LimitError Unit :=
  if hops = 0 then .error .emptyPath
  else if maxHops < hops then .error (.pathTooLong hops)
  else .ok ()

/-- Whether a name passes as an identifier. -/
def isValidIdentifier (name : String) : Bool := (checkIdentifier name).toBool

theorem checkIdentifier_eq_ok_iff {name : String} :
    checkIdentifier name = .ok () ↔
      isIdentifier name.toList = true ∧ name.utf8ByteSize ≤ maxIdentifier := by
  unfold checkIdentifier
  split
  · next h =>
    have : name = "" := by simpa using h
    subst this
    simp [isIdentifier]
  · split
    · simp; omega
    · split <;> simp_all

end Limits

/-- A refusal in words. -/
def LimitError.message : LimitError → String
  | emptyIdentifier => "Identifier cannot be empty"
  | identifierTooLong length =>
    s!"Identifier too long: {length} chars (max {Limits.maxIdentifier})"
  | badIdentifier name =>
    "Invalid identifier " ++ Text.escaped name ++
      ": expected letters, digits and underscores, not starting with a digit"
  | emptyLabel => "Label cannot be empty"
  | labelTooLong length => s!"Label too long: {length} chars (max {Limits.maxLabel})"
  | badLabel label =>
    "Invalid label " ++ Text.escaped label ++ ": control characters are not allowed"
  | tooManyLabels count => s!"Too many labels: {count} (max {Limits.maxLabels})"
  | tooManyOptionalLabels count =>
    s!"Too many optional labels: {count} (max {Limits.maxOptionalLabels})"
  | emptyPath => "Path expression cannot be empty"
  | pathTooLong hops => s!"Path too long: {hops} hops (max {Limits.maxHops})"

end GraphMapper
