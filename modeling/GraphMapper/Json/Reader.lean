import GraphMapper.Json.Basic
import GraphMapper.Json.Failure

/-!
# Reading JSON

A reader for JSON texts by recursive descent.  Each function returns what it
read together with the rest of the text, or the failure of the first offending
byte.

The reader has two modes.  The strict one refuses numbers beyond the largest,
half surrogate pairs and more than 127 nested brackets; the lenient one reads
them as `unreadable`, an object with such a key too, and brackets to any depth,
for texts of which only a part is looked at.
-/

namespace GraphMapper.Json

/-- How much a reader accepts. -/
inductive Mode where
  | strict
  | lenient
deriving DecidableEq

/-- A failure at the first byte of the rest. -/
def failAt {α : Type} (reason : Reason) (rest : List Char) : Except Failure (α × List Char) :=
  .error ⟨reason, rest, 1⟩

/-- A failure at the end of the text. -/
def failEnd {α : Type} (reason : Reason) : Except Failure (α × List Char) := .error ⟨reason, [], 0⟩

/-- The four characters that count as blank. -/
def isBlank (c : Char) : Bool := c == ' ' || c == '\t' || c == '\n' || c == '\r'

/-- The text after its leading blanks. -/
def skipBlanks (cs : List Char) : List Char := cs.dropWhile isBlank

/-- Reads the remaining letters of a word. -/
def readWord (value : Json) : List Char → List Char → Except Failure (Json × List Char)
  | [], cs => .ok (value, cs)
  | _ :: _, [] => failEnd .endInValue
  | w :: ws, c :: cs => if c = w then readWord value ws cs else failAt .expectedWord (c :: cs)

/-! ## Numbers -/

/-- The value of a decimal digit. -/
def digitValue (c : Char) : Nat := c.toNat - '0'.toNat

/-- The number that decimal digits write. -/
def digitsValue (cs : List Char) : Nat := cs.foldl (fun n c => 10 * n + digitValue c) 0

/-- Reads at least one digit. -/
def readDigits (cs : List Char) : Except Failure (List Char × List Char) :=
  match cs.takeWhile Char.isDigit, cs with
  | [], [] => failEnd .endInValue
  | [], _ => failAt .badNumber cs
  | digits, _ => .ok (digits, cs.dropWhile Char.isDigit)

/-- Reads the digits before the point: a zero alone, or digits that start with another. -/
def readWhole (cs : List Char) : Except Failure (List Char × List Char) :=
  match cs with
  | '0' :: rest =>
    match rest with
    | c :: _ => if c.isDigit then failAt .badNumber rest else .ok (['0'], rest)
    | [] => .ok (['0'], [])
  | _ => readDigits cs

/-- Reads the digits after a point, if there is one. -/
def readFraction : List Char → Except Failure (Option (List Char) × List Char)
  | '.' :: rest => do
    let (digits, rest) ← readDigits rest
    return (some digits, rest)
  | rest => .ok (none, rest)

/-- Reads an exponent with its sign, if there is one. -/
def readExponent : List Char → Except Failure (Option (Bool × List Char) × List Char)
  | c :: rest =>
    if c = 'e' ∨ c = 'E' then do
      let (negative, rest) :=
        match rest with
        | '-' :: rest => (true, rest)
        | '+' :: rest => (false, rest)
        | rest => (false, rest)
      let (digits, rest) ← readDigits rest
      return (some (negative, digits), rest)
    else .ok (none, c :: rest)
  | [] => .ok (none, [])

/-- How many digits of an exponent are read before it exceeds the 32-bit range, if it does. -/
def exponentOverflow? (digits : List Char) : Option Nat :=
  (List.range digits.length).find? fun n => twoPow 31 ≤ digitsValue (digits.take (n + 1))

/-- The value of a number without fraction and exponent: an integer of 64 bits if it is in
range, and not the negative zero. -/
def wholeNumber (negative : Bool) (n : Nat) : Json :=
  if negative then
    if n = 0 ∨ twoPow 63 < n then .real (Double.ofDecimal true n 0) else .int (-n)
  else if n < twoPow 64 then .int n
  else .real (Double.ofDecimal false n 0)

/-- Whether a tree is a number beyond the largest. -/
def isTooLarge : Json → Bool
  | .real x => x.isInfinite
  | _ => false

/-- Reads a number; its sign or first digit is known to be there. -/
def readNumber (mode : Mode) (cs : List Char) : Except Failure (Json × List Char) := do
  let (negative, cs) :=
    match cs with
    | '-' :: cs => (true, cs)
    | cs => (false, cs)
  let (whole, cs) ← readWhole cs
  let (fraction, cs) ← readFraction cs
  let (exponent, rest) ← readExponent cs
  let digits := digitsValue (whole ++ fraction.getD [])
  let shift : Int :=
    match exponent with
    | some (true, e) => -digitsValue e
    | some (false, e) => digitsValue e
    | none => 0
  let value :=
    if fraction.isNone && exponent.isNone then wholeNumber negative digits
    else .real (Double.ofDecimal negative digits (shift - (fraction.getD []).length))
  if !isTooLarge value then return (value, rest)
  match mode, exponent with
  | .lenient, _ => return (.unreadable, rest)
  | .strict, some (false, e) =>
    match exponentOverflow? e with
    | some n => failAt .numberTooLarge (e.drop n ++ rest)
    | none => .error ⟨.numberTooLarge, rest, 0⟩
  | .strict, _ => .error ⟨.numberTooLarge, rest, 0⟩

/-! ## Strings -/

/-- The value of a hexadecimal digit. -/
def hexDigit? (c : Char) : Option Nat :=
  if c.isDigit then some (c.toNat - '0'.toNat)
  else if 'a' ≤ c ∧ c ≤ 'f' then some (c.toNat - 'a'.toNat + 10)
  else if 'A' ≤ c ∧ c ≤ 'F' then some (c.toNat - 'A'.toNat + 10)
  else none

/-- The value of four hexadecimal digits. -/
def hexFour? (a b c d : Char) : Option Nat := do
  return (((← hexDigit? a) * 16 + (← hexDigit? b)) * 16 + (← hexDigit? c)) * 16 + (← hexDigit? d)

/-- The failure of an escape whose four bytes are not four digits. -/
def failHex {α : Type} (cs : List Char) : Except Failure (α × List Char) :=
  if (bytes cs).length < 4 then failEnd .endInString else .error ⟨.badEscape, cs, 4⟩

/-- The character of an escape of one letter. -/
def letterEscape? : Char → Option Char
  | '"' => some '"'
  | '\\' => some '\\'
  | '/' => some '/'
  | 'b' => some '\x08'
  | 'f' => some '\x0c'
  | 'n' => some '\n'
  | 'r' => some '\r'
  | 't' => some '\t'
  | _ => none

/-- The first half of a surrogate pair. -/
def isLeading (n : Nat) : Bool := decide (0xD800 ≤ n) && decide (n < 0xDC00)

/-- The second half of a surrogate pair. -/
def isTrailing (n : Nat) : Bool := decide (0xDC00 ≤ n) && decide (n < 0xE000)

/-- The character of a surrogate pair. -/
def pairChar (hi lo : Nat) : Char := Char.ofNat (0x10000 + (hi - 0xD800) * 0x400 + (lo - 0xDC00))

/-- Puts a character before a string; a string that stands for nothing stays so. -/
def consChar (c : Char) (r : Option (List Char) × List Char) : Option (List Char) × List Char :=
  (r.1.map (c :: ·), r.2)

/-- The failure of a first half that no escape of four digits follows. -/
def failPair {α : Type} (cs : List Char) : Except Failure (α × List Char) :=
  match cs with
  | [] | ['\\'] => failEnd .endInString
  | '\\' :: 'u' :: rest => failHex rest
  | '\\' :: rest => failAt .unfinishedSurrogate rest
  | rest => failAt .unfinishedSurrogate rest

/-- Reads the rest of a string after its opening quote.  Half a surrogate pair is a failure in
strict mode, and makes the whole string stand for nothing in lenient mode. -/
def readChars (mode : Mode) : List Char → Except Failure (Option (List Char) × List Char)
  | [] => failEnd .endInString
  | c :: cs =>
    if c = '"' then .ok (some [], cs)
    else if c ≠ '\\' then
      if c.toNat < 0x20 then failAt .controlCharacter (c :: cs)
      else (consChar c) <$> readChars mode cs
    else match cs with
      | [] => failEnd .endInString
      | e :: cs =>
        if e ≠ 'u' then
          match letterEscape? e with
          | some c => (consChar c) <$> readChars mode cs
          | none => failAt .badEscape (e :: cs)
        else match cs with
          | h1 :: h2 :: h3 :: h4 :: cs =>
            match hexFour? h1 h2 h3 h4 with
            | none => failHex (h1 :: h2 :: h3 :: h4 :: cs)
            | some n =>
              if isLeading n then
                match cs with
                | '\\' :: 'u' :: l1 :: l2 :: l3 :: l4 :: cs' =>
                  match hexFour? l1 l2 l3 l4 with
                  | none => failHex (l1 :: l2 :: l3 :: l4 :: cs')
                  | some n' =>
                    if isTrailing n' then (consChar (pairChar n n')) <$> readChars mode cs'
                    else if mode = .strict then .error ⟨.loneSurrogate, cs', 0⟩
                    else (fun r => (none, r.2)) <$> readChars mode cs'
                | cs =>
                  if mode = .lenient then (fun r => (none, r.2)) <$> readChars mode cs
                  else failPair cs
              else if isTrailing n then
                if mode = .strict then .error ⟨.loneSurrogate, cs, 0⟩
                else (fun r => (none, r.2)) <$> readChars mode cs
              else (consChar (Char.ofNat n)) <$> readChars mode cs
          | cs => failHex cs

/-- Puts a member before others; one whose key stands for nothing makes all of them do so. -/
def consMember (key? : Option (List Char)) (value : Json) (members? : Option (List (String × Json))) :
    Option (List (String × Json)) :=
  match key?, members? with
  | some key, some members => some ((String.ofList key, value) :: members)
  | _, _ => none

/-! ## Values -/

/-- The greatest number of nested brackets that the strict reader accepts. -/
def maxDepth : Nat := 127

mutual

/-- Reads a value; `depth` brackets are open. -/
def readValue (mode : Mode) : Nat → Nat → List Char → Except Failure (Json × List Char)
  | 0, _, _ => failEnd .endInValue
  | fuel + 1, depth, cs =>
    match skipBlanks cs with
    | [] => failEnd .endInValue
    | 'n' :: cs => readWord .null ['u', 'l', 'l'] cs
    | 't' :: cs => readWord (.bool true) ['r', 'u', 'e'] cs
    | 'f' :: cs => readWord (.bool false) ['a', 'l', 's', 'e'] cs
    | '"' :: cs => do
      let (chars, rest) ← readChars mode cs
      return (match chars with
        | some chars => .string (String.ofList chars)
        | none => .unreadable, rest)
    | '[' :: cs =>
      if mode = .strict ∧ maxDepth ≤ depth then failAt .tooDeep ('[' :: cs)
      else do
        let (items, rest) ← readItems mode fuel (depth + 1) true cs
        return (.array items, rest)
    | '\x7b' :: cs =>
      if mode = .strict ∧ maxDepth ≤ depth then failAt .tooDeep ('\x7b' :: cs)
      else do
        let (members, rest) ← readMembers mode fuel (depth + 1) true cs
        return (match members with
          | some members => .object members
          | none => .unreadable, rest)
    | c :: cs =>
      if c = '-' ∨ c.isDigit then readNumber mode (c :: cs) else failAt .expectedValue (c :: cs)

/-- Reads the items of an array up to its closing bracket. -/
def readItems (mode : Mode) :
    Nat → Nat → Bool → List Char → Except Failure (List Json × List Char)
  | 0, _, _, _ => failEnd .endInArray
  | fuel + 1, depth, first, cs =>
    match skipBlanks cs with
    | [] => failEnd .endInArray
    | ']' :: rest => .ok ([], rest)
    | c :: rest => do
      let cs ←
        if first then .ok (c :: rest)
        else if c ≠ ',' then .error ⟨.expectedCommaOrBracket, c :: rest, 1⟩
        else match skipBlanks rest with
          | [] => .error ⟨.endInValue, [], 0⟩
          | ']' :: rest => .error ⟨.trailingComma, ']' :: rest, 1⟩
          | rest => .ok rest
      let (item, cs) ← readValue mode fuel depth cs
      let (items, cs) ← readItems mode fuel depth false cs
      return (item :: items, cs)

/-- Reads the members of an object up to its closing brace. -/
def readMembers (mode : Mode) :
    Nat → Nat → Bool → List Char → Except Failure (Option (List (String × Json)) × List Char)
  | 0, _, _, _ => failEnd .endInObject
  | fuel + 1, depth, first, cs =>
    match skipBlanks cs with
    | [] => failEnd .endInObject
    | '\x7d' :: rest => .ok (some [], rest)
    | c :: rest => do
      let cs ←
        if first then .ok (c :: rest)
        else if c ≠ ',' then .error ⟨.expectedCommaOrBrace, c :: rest, 1⟩
        else match skipBlanks rest with
          | [] => .error ⟨.endInValue, [], 0⟩
          | '\x7d' :: rest => .error ⟨.trailingComma, '\x7d' :: rest, 1⟩
          | rest => .ok rest
      match cs with
      | '"' :: cs =>
        let (key, cs) ← readChars mode cs
        match skipBlanks cs with
        | [] => failEnd .endInObject
        | ':' :: cs =>
          let (value, cs) ← readValue mode fuel depth cs
          let (members, cs) ← readMembers mode fuel depth false cs
          return (consMember key value members, cs)
        | cs => failAt .expectedColon cs
      | cs => failAt .expectedKey cs

end

/-- Reads a text that is one value and blanks around it. -/
def readText (mode : Mode) (cs : List Char) : Except Failure Json := do
  let (value, rest) ← readValue mode (2 * cs.length + 2) 0 cs
  match skipBlanks rest with
  | [] => return value
  | rest => .error ⟨.trailingCharacters, rest, 1⟩

end GraphMapper.Json
