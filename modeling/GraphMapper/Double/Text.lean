import GraphMapper.Double.Shortest

/-!
# Written numbers

How the shortest decimal of a number is laid out: which exponents are written
positionally, what marks a whole number, and which of two equally near decimals
is written.
-/

namespace GraphMapper.Double

/-- The decisions of a number format. -/
structure Layout where
  /-- Whether a number with this exponent of the first digit is written positionally. -/
  positional : Int → Bool
  /-- What follows a number that has no fraction. -/
  wholeMark : List Char
  /-- Which of two equally near decimals is written. -/
  tie : Tie

/-- Stored numbers: positional from five leading zeros to sixteen digits, whole numbers with
one zero after the point, ties to the even digit. -/
def storedLayout : Layout := ⟨fun e => decide (-5 ≤ e) && decide (e < 16), ['.', '0'], .even⟩

/-- Numbers in messages: always positional, whole numbers without a point, ties away from
zero. -/
def plainLayout : Layout := ⟨fun _ => true, [], .up⟩

/-- Digits with the point placed after the digit of exponent zero. -/
def Layout.place (l : Layout) (digits : List Char) (first : Int) : List Char :=
  if first < 0 then
    ['0', '.'] ++ List.replicate (-first - 1).toNat '0' ++ digits
  else
    let whole := first.toNat + 1
    let fraction := digits.drop whole
    digits.take whole ++ List.replicate (whole - digits.length) '0' ++
      (if fraction = [] then l.wholeMark else '.' :: fraction)

/-- One digit before the point, and a signed exponent. -/
def scientific (digits : List Char) (first : Int) : List Char :=
  digits.take 1 ++ (if digits.length ≤ 1 then [] else '.' :: digits.drop 1) ++
    ['e', if first < 0 then '-' else '+'] ++ Nat.toDigits 10 first.natAbs

/-- A finite number in a layout. -/
def Layout.finite (l : Layout) (x : Double) : List Char :=
  let d := if x.isZero then ⟨0, 0⟩ else x.shortest l.tie
  let digits := Nat.toDigits 10 d.digits
  let first := d.exponent + digits.length - 1
  (if x.negative then ['-'] else []) ++
    (if l.positional first then l.place digits first else scientific digits first)

/-- A number as it stands in a message. -/
def plainText (x : Double) : String :=
  if x.isNaN then "NaN"
  else if x.isInfinite then (if x.negative then "-inf" else "inf")
  else String.ofList (plainLayout.finite x)

end GraphMapper.Double
