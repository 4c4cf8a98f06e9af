import GraphMapper.Text.Unprintable

/-!
# Escaped text

Text in double quotes as error messages show it: quotes, backslashes and the
usual controls take a backslash, a character without a printed form is given
by its code point.
-/

namespace GraphMapper.Text

/-- A number in lower-case hexadecimal, without leading zeros. -/
def hexText (n : Nat) : List Char := Nat.toDigits 16 n

/-- One character as it stands between quotes. -/
def escapeChar (c : Char) : List Char :=
  match c with
  | '\x00' => ['\\', '0']
  | '\t' => ['\\', 't']
  | '\r' => ['\\', 'r']
  | '\n' => ['\\', 'n']
  | '\\' => ['\\', '\\']
  | '"' => ['\\', '"']
  | c => if isUnprintable c then ['\\', 'u', '\x7b'] ++ hexText c.toNat ++ ['\x7d'] else [c]

/-- A text between double quotes. -/
def escaped (s : String) : String :=
  String.ofList ('"' :: s.toList.flatMap escapeChar ++ ['"'])

/-- A list of texts, each between double quotes. -/
def escapedList (items : List String) : String :=
  "[" ++ ", ".intercalate (items.map escaped) ++ "]"

end GraphMapper.Text
