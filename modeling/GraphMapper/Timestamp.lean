import GraphMapper.Calendar
import GraphMapper.Json.Failure

/-!
# Timestamps

Points in universal time, read from and written as internet timestamps such as
`2024-03-01T12:00:00+00:00`.

A leap second is the second 59 of its minute with a billion nanoseconds and
more; it is accepted at any minute and written as second 60.
-/

namespace GraphMapper

/-- A point in time. -/
structure Timestamp where
  /-- Whole seconds since the start of 1970. -/
  seconds : Int
  /-- Nanoseconds on top of them, a billion and more within a leap second. -/
  nanos : Nat
deriving DecidableEq

namespace Timestamp

/-- Why a text is not a timestamp. -/
inductive Fault where
  | premature
  | invalid
  | outOfRange
  | trailing
deriving DecidableEq

/-- The wording of a fault. -/
def Fault.text : Fault → String
  | premature => "premature end of input"
  | invalid => "input contains invalid characters"
  | outOfRange => "input is out of range"
  | trailing => "trailing input"

/-- The value of a decimal digit. -/
def digit? (c : Char) : Option Nat := if c.isDigit then some (c.toNat - '0'.toNat) else none

/-- The number written by digits of a fixed count. -/
def digits? (cs : List Char) : Option Nat :=
  cs.foldlM (fun n c => (digit? c).map (10 * n + ·)) 0

/-- Reads `YYYY-MM-DD`. -/
def readDate : List Char → Except Fault (Calendar.Date × List Char)
  | y1 :: y2 :: y3 :: y4 :: '-' :: m1 :: m2 :: '-' :: d1 :: d2 :: rest =>
    match digits? [y1, y2, y3, y4], digits? [m1, m2], digits? [d1, d2] with
    | some year, some month, some day =>
      let date : Calendar.Date := ⟨year, month, day⟩
      if date.isValid then .ok (date, rest) else .error .outOfRange
    | _, _, _ => .error .invalid
  | _ => .error .invalid

/-- Reads `HH:MM:SS` after its separator. -/
def readClock : List Char → Except Fault ((Nat × Nat × Nat) × List Char)
  | t :: h1 :: h2 :: ':' :: m1 :: m2 :: ':' :: s1 :: s2 :: rest =>
    if t = 'T' ∨ t = 't' ∨ t = ' ' then
      match digits? [h1, h2], digits? [m1, m2], digits? [s1, s2] with
      | some hour, some minute, some second => .ok ((hour, minute, second), rest)
      | _, _, _ => .error .invalid
    else .error .invalid
  | _ => .error .invalid

/-- Reads the nanoseconds after a point, if there is one; digits past the ninth are dropped. -/
def readNanos : List Char → Except Fault (Nat × List Char)
  | '.' :: rest =>
    let digits := rest.takeWhile Char.isDigit
    match digits, rest with
    | [], [] => .error .premature
    | [], _ => .error .invalid
    | _, _ =>
      let nine := (digits ++ List.replicate 9 '0').take 9
      .ok ((digits? nine).getD 0, rest.dropWhile Char.isDigit)
  | rest => .ok (0, rest)

/-- Reads two digits. -/
def readPair : List Char → Except Fault (Nat × List Char)
  | [] => .error .premature
  | [c] => .error (if c.toNat < 0x80 then .premature else .invalid)
  | a :: b :: rest =>
    match digits? [a, b] with
    | some n => .ok (n, rest)
    | none => .error .invalid

/-- Reads the hours and minutes of an offset, in seconds; any number of hours up to 99. -/
def readOffsetClock (cs : List Char) : Except Fault (Nat × List Char) := do
  let (hours, cs) ← readPair cs
  match cs with
  | [] => .error .premature
  | ':' :: cs =>
    let (minutes, rest) ← readPair cs
    if 60 ≤ minutes then .error .outOfRange
    else return (hours * 3600 + minutes * 60, rest)
  | _ => .error .invalid

/-- Reads an offset from universal time, in seconds. -/
def readOffset : List Char → Except Fault (Int × List Char)
  | [] => .error .premature
  | c :: rest => do
    if c = 'Z' ∨ c = 'z' then return (0, rest)
    else if c = '+' then
      let (seconds, rest) ← readOffsetClock rest
      return (seconds, rest)
    else if c = '-' ∨ c = '−' then
      let (seconds, rest) ← readOffsetClock rest
      return (-seconds, rest)
    else .error .invalid

/-- The seconds of a day, which an offset stays below. -/
def daySeconds : Nat := 86400

/-- Reads a timestamp. -/
def parse (text : String) : Except Fault Timestamp := do
  let cs := text.toList
  if text.utf8ByteSize < 19 then throw .premature
  let (date, cs) ← readDate cs
  let ((hour, minute, second), cs) ← readClock cs
  let (nanos, cs) ← readNanos cs
  if 23 < hour ∨ 59 < minute ∨ 60 < second then throw .outOfRange
  let (offset, cs) ← readOffset cs
  if cs ≠ [] then throw .trailing
  if daySeconds ≤ offset.natAbs then throw .outOfRange
  let clock : Nat := hour * 3600 + minute * 60 + min second 59
  return ⟨date.days * 86400 + clock - offset, if second = 60 then nanos + 1000000000 else nanos⟩

/-- The first second of the first year that a timestamp may lie in. -/
def firstSecond : Int := (Calendar.Date.mk (-262143) 1 1).days * 86400

/-- The first second after the last year that a timestamp may lie in. -/
def endSecond : Int := (Calendar.Date.mk 262143 1 1).days * 86400

/-- The point in time some milliseconds after the start of 1970, within the years covered. -/
def ofMillis? (millis : Int) : Option Timestamp :=
  let seconds := millis / 1000
  if firstSecond ≤ seconds ∧ seconds < endSecond then
    some ⟨seconds, (millis % 1000).toNat * 1000000⟩
  else none

/-- Whole milliseconds since the start of 1970. -/
def millis (t : Timestamp) : Int := t.seconds * 1000 + (t.nanos / 1000000 : Nat)

/-- A number with at least `width` digits. -/
def padded (width n : Nat) : List Char :=
  let digits := Nat.toDigits 10 n
  List.replicate (width - digits.length) '0' ++ digits

/-- A year: four digits, and a sign outside the first ten thousand years. -/
def yearText (year : Int) : List Char :=
  if year < 0 then '-' :: padded 4 year.natAbs
  else if 9999 < year then '+' :: padded 4 year.natAbs
  else padded 4 year.natAbs

/-- A fraction of a second with the fewest of three, six or nine digits, or none. -/
def fractionText (nanos : Nat) : List Char :=
  if nanos = 0 then []
  else if nanos % 1000000 = 0 then '.' :: padded 3 (nanos / 1000000)
  else if nanos % 1000 = 0 then '.' :: padded 6 (nanos / 1000)
  else '.' :: padded 9 nanos

/-- A timestamp as text, in universal time. -/
def text (t : Timestamp) : String :=
  let date := Calendar.Date.ofDays (t.seconds / 86400)
  let clock := (t.seconds % 86400).toNat
  let leap := t.nanos / 1000000000
  String.ofList <|
    yearText date.year ++ '-' :: padded 2 date.month ++ '-' :: padded 2 date.day ++
    'T' :: padded 2 (clock / 3600) ++ ':' :: padded 2 (clock / 60 % 60) ++
    ':' :: padded 2 (clock % 60 + leap) ++ fractionText (t.nanos % 1000000000) ++
    ['+', '0', '0', ':', '0', '0']

end Timestamp

end GraphMapper
