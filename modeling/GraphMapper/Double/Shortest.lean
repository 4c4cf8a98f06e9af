import GraphMapper.Double.Basic

/-!
# The shortest decimal of a number

Of all decimals that read back as a given positive number, the one with the
fewest digits, and of those the nearest.  The decimals that read back fill the
interval from halfway to the number below to halfway to the number above, ends
included when the significand is even.  Two decimals may be equally near; which
of them is taken is left to the format.
-/

namespace GraphMapper

/-- A positive decimal, `digits · 10 ^ exponent`. -/
structure Decimal where
  digits : Nat
  exponent : Int
deriving DecidableEq

/-- Which of two equally near decimals is taken. -/
inductive Tie where
  /-- The one with an even last digit. -/
  | even
  /-- The greater one. -/
  | up
deriving DecidableEq

/-- Whether the lesser of two neighbours is taken on a tie. -/
def Tie.takesLower (t : Tie) (lower : Nat) : Bool :=
  match t with
  | even => lower % 2 == 0
  | up => false

namespace Double

/-- The interval of the reals that round to a number, over one denominator. -/
structure Interval where
  low : Nat
  value : Nat
  high : Nat
  unit : Nat
  closed : Bool

/-- The interval of a finite number's magnitude, in quarters of its last binary place. -/
def interval (x : Double) : Interval :=
  let m := x.significand
  let up := twoPow (x.scale - 2).toNat
  let below := if x.fraction = 0 ∧ 1 < x.exponentField then 1 else 2
  ⟨(4 * m - below) * up, 4 * m * up, (4 * m + 2) * up, twoPow (2 - x.scale).toNat, m % 2 == 0⟩

/-- Whether `c / den`, over the interval's unit, lies in the interval. -/
def Interval.holds (i : Interval) (c den : Nat) : Bool :=
  if i.closed then decide (i.low * den ≤ c) && decide (c ≤ i.high * den)
  else decide (i.low * den < c) && decide (c < i.high * den)

/-- The decimal on the grid of `10 ^ k` that reads back, if one of the two next to the value
does; of two the nearer. -/
def Interval.onGrid? (i : Interval) (tie : Tie) (k : Int) : Option Decimal :=
  let step := i.unit * tenPow k.toNat
  let den := tenPow (-k).toNat
  let down := i.value * den / step
  let fits := fun c => i.holds (c * step) den
  match fits down && down != 0, fits (down + 1) with
  | true, true =>
    let twice := 2 * (i.value * den)
    let middle := (2 * down + 1) * step
    some ⟨if twice < middle ∨ (twice = middle ∧ tie.takesLower down) then down else down + 1, k⟩
  | true, false => some ⟨down, k⟩
  | false, true => some ⟨down + 1, k⟩
  | false, false => none

/-- The exponent of the first digit of `num / den`, both positive. -/
def leadingExponent (num den : Nat) : Int :=
  if den ≤ num then (Nat.toDigits 10 (num / den)).length - 1
  else -(((List.range 400).find? fun j => den ≤ num * tenPow (j + 1)).getD 400 + 1 : Nat)

/-- A decimal without the zeros at its end. -/
def stripZeros : Nat → Decimal → Decimal
  | 0, d => d
  | fuel + 1, d =>
    if d.digits % 10 = 0 ∧ d.digits ≠ 0 then stripZeros fuel ⟨d.digits / 10, d.exponent + 1⟩ else d

/-- The shortest decimal that reads back as a finite, non-zero number's magnitude; seventeen
digits always suffice. -/
def shortest (x : Double) (tie : Tie) : Decimal :=
  let i := x.interval
  let top := leadingExponent i.value i.unit
  let found := (List.range 17).findSome? fun n : Nat => i.onGrid? tie (top - n)
  stripZeros 20 (found.getD ⟨i.value * tenPow 1100 / i.unit, -1100⟩)

end Double

end GraphMapper
