import GraphMapper.Integer64

/-!
# Whole numbers in text

A text is a whole number of 64 bits when it has a sign or none, then at least
one decimal digit and nothing else, and the number fits.
-/

namespace GraphMapper.Text

/-- The number that decimal digits write, after `before`. -/
def digitsFrom? (before : Nat) : List Char → Option Nat
  | [] => some before
  | c :: rest =>
    if '0' ≤ c ∧ c ≤ '9' then digitsFrom? (10 * before + (c.toNat - '0'.toNat)) rest else none

/-- The number that one or more decimal digits write. -/
def digits? : List Char → Option Nat
  | [] => none
  | cs => digitsFrom? 0 cs

/-- The whole number that a text writes, with or without a sign. -/
def signed? : List Char → Option Int
  | '-' :: rest => (digits? rest).map fun n => -(n : Int)
  | '+' :: rest => (digits? rest).map fun n => (n : Int)
  | cs => (digits? cs).map fun n => (n : Int)

/-- The whole number of 64 bits that a text writes. -/
def integer? (s : String) : Option Int64 :=
  (signed? s.toList).bind int64?

end GraphMapper.Text
