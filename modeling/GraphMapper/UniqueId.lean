/-!
# Unique identifiers

A number of 128 bits as 26 lower-case digits to the base 32.  The digits leave
out the letters that are easily misread: i, l, o and u.
-/

namespace GraphMapper.UniqueId

/-- The digits of identifiers, from the least. -/
def digits : List Char := "0123456789abcdefghjkmnpqrstvwxyz".toList

/-- The digit of a remainder. -/
def digit (n : Nat) : Char := digits.getD (n % 32) '0'

/-- The number of digits of an identifier. -/
def size : Nat := 26

/-- The last `count` digits of a number before some others. -/
def write : Nat → Nat → List Char → List Char
  | 0, _, tail => tail
  | count + 1, n, tail => write count (n / 32) (digit n :: tail)

/-- A number as an identifier. -/
def text (n : Nat) : String := String.ofList (write size n [])

/-- The identifiers from some number on. -/
def supply (first : Nat) (position : Nat) : String := text (first + position)

/-- Whether a text has the form of an identifier. -/
def isWellFormed (s : String) : Bool := s.length == size && s.toList.all digits.contains

theorem length_write (count n : Nat) (tail : List Char) :
    (write count n tail).length = count + tail.length := by
  induction count generalizing n tail with
  | zero => simp [write]
  | succ count ih => simp [write, ih]; omega

theorem length_text (n : Nat) : (text n).length = size := by
  simp [text, length_write]

end GraphMapper.UniqueId
