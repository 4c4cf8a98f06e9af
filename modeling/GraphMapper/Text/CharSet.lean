/-!
# Sets of characters

A set of code points as its inversion list: the code points, in increasing
order, at which membership changes.
-/

namespace GraphMapper.Text

/-- A set of code points, given by the boundaries at which membership changes. -/
abbrev CharSet : Type := List Nat

/-- Whether a character lies in the set: an odd number of boundaries lie at or below it. -/
def CharSet.contains (s : CharSet) (c : Char) : Bool :=
  (s.takeWhile (· ≤ c.toNat)).length % 2 == 1

end GraphMapper.Text
