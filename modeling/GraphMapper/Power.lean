/-!
# Powers of two and ten

The powers that the formats of numbers are made of.
-/

namespace GraphMapper

/-- A power of two. -/
def twoPow (n : Nat) : Nat := Nat.pow 2 n

/-- A power of ten. -/
def tenPow (n : Nat) : Nat := Nat.pow 10 n

end GraphMapper
