import GraphMapper.Power

/-!
# Floating-point numbers

Binary floating-point numbers of 64 bits, kept as their bits and read exactly:
a finite number is `significand · 2 ^ scale` with a sign, and every operation is
done on that pair in integer arithmetic.

* `Double.ofRatio` rounds a quotient of naturals to the nearest number, a tie
  going to the even significand; all other ways to make a number go through it.
* `Double.whole?` is the integer that a number is, if it is one.
* `Double.same` is numeric equality: the two zeros are equal, and a number that
  is none differs from everything.
-/

namespace GraphMapper

/-- A floating-point number, by its 64 bits. -/
structure Double where
  bits : UInt64
deriving DecidableEq

namespace Double

/-- Whether the sign bit is set. -/
def negative (x : Double) : Bool := decide (twoPow 63 ≤ x.bits.toNat)

/-- The eleven exponent bits. -/
def exponentField (x : Double) : Nat := x.bits.toNat / twoPow 52 % twoPow 11

/-- The fifty-two fraction bits. -/
def fraction (x : Double) : Nat := x.bits.toNat % twoPow 52

/-- Neither infinite nor a number that is none. -/
def isFinite (x : Double) : Bool := x.exponentField != 2047

/-- Not a number. -/
def isNaN (x : Double) : Bool := x.exponentField == 2047 && x.fraction != 0

/-- One of the two infinities. -/
def isInfinite (x : Double) : Bool := x.exponentField == 2047 && x.fraction == 0

/-- One of the two zeros. -/
def isZero (x : Double) : Bool := x.exponentField == 0 && x.fraction == 0

/-- The integer factor of a finite number's magnitude. -/
def significand (x : Double) : Nat :=
  if x.exponentField = 0 then x.fraction else twoPow 52 + x.fraction

/-- The power of two in a finite number's magnitude. -/
def scale (x : Double) : Int :=
  if x.exponentField = 0 then -1074 else x.exponentField - 1075

/-- The magnitude's numerator, over `denominator`. -/
def numerator (x : Double) : Nat := x.significand * twoPow x.scale.toNat

/-- The magnitude's denominator, a power of two. -/
def denominator (x : Double) : Nat := twoPow (-x.scale).toNat

/-- Numeric equality. -/
def same (x y : Double) : Bool :=
  !x.isNaN && !y.isNaN && (x.bits == y.bits || (x.isZero && y.isZero))

/-- The number with the given sign and the remaining bits of a magnitude. -/
def ofSigned (negative : Bool) (magnitude : Nat) : Double :=
  ⟨UInt64.ofNat (if negative then twoPow 63 + magnitude else magnitude)⟩

/-- The bits of positive infinity, which follow those of the largest number. -/
def infinityBits : Nat := 2047 * twoPow 52

/-- A quotient rounded to the nearest natural, a tie to the even one. -/
def roundQuotient (num den : Nat) : Nat :=
  let down := num / den
  let rest := num % den
  if 2 * rest < den then down
  else if den < 2 * rest then down + 1
  else down + down % 2

/-- The quotient `num / (den · 2 ^ e)` as a numerator and a denominator. -/
def scaled (num den : Nat) (e : Int) : Nat × Nat :=
  (num * twoPow (-e).toNat, den * twoPow e.toNat)

/-- The power of two at which a positive quotient is rounded: the one that leaves fifty-three
bits, or the least there is. -/
def roundingScale (num den : Nat) : Int :=
  let guess := max ((num.log2 : Int) - den.log2 - 53) (-1074)
  let (n, d) := scaled num den guess
  if n / d < twoPow 53 then guess else guess + 1

/-- The number nearest to a signed quotient of naturals. -/
def ofRatio (negative : Bool) (num den : Nat) : Double :=
  if num = 0 then ofSigned negative 0
  else
    let e := roundingScale num den
    let (n, d) := scaled num den e
    let m := roundQuotient n d
    let magnitude := if m < twoPow 52 then m else (e + 1074).toNat * twoPow 52 + m
    ofSigned negative (min magnitude infinityBits)

/-- The number nearest to an integer. -/
def ofInt (i : Int) : Double := ofRatio (decide (i < 0)) i.natAbs 1

/-- The number nearest to `digits · 10 ^ exponent`, with a sign. -/
def ofDecimal (negative : Bool) (digits : Nat) (exponent : Int) : Double :=
  if digits = 0 then ofSigned negative 0
  else
    let top := exponent + (digits.log2 : Int)
    if 2000 < exponent then ofSigned negative infinityBits
    else if top < -2000 then ofSigned negative 0
    else ofRatio negative (digits * tenPow exponent.toNat) (tenPow (-exponent).toNat)

/-- The number times an integer factor, rounded. -/
def scaleBy (x : Double) (factor : Nat) : Double :=
  if x.isFinite then ofRatio x.negative (x.numerator * factor) x.denominator else x

/-- The integer that a finite number is, if it is one. -/
def whole? (x : Double) : Option Int :=
  if x.isFinite ∧ x.numerator % x.denominator = 0 then
    let n : Int := x.numerator / x.denominator
    some (if x.negative then -n else n)
  else none

/-- The integer nearest to a finite number, a tie going away from zero. -/
def nearest (x : Double) : Int :=
  let n : Int := (2 * x.numerator + x.denominator) / (2 * x.denominator)
  if x.negative then -n else n

end Double

end GraphMapper
