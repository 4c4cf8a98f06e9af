import GraphMapper.Power

/-!
# Integers of 64 bits

Which integers have 64 bits, and the nearest one that has.
-/

namespace GraphMapper

/-- The least integer of 64 bits. -/
def leastInt64 : Int := -twoPow 63

/-- The greatest integer of 64 bits. -/
def greatestInt64 : Int := twoPow 63 - 1

/-- An integer as one of 64 bits, if it has no more. -/
def int64? (i : Int) : Option Int64 :=
  if leastInt64 ≤ i ∧ i ≤ greatestInt64 then some (Int64.ofInt i) else none

/-- An integer of 64 bits has the value of the integer it is made of. -/
theorem toInt_of_int64? {i : Int} {j : Int64} (h : int64? i = some j) : j.toInt = i := by
  unfold int64? at h
  split at h
  · next hrange =>
    cases h
    have hleast : -2 ^ 63 ≤ i := hrange.1
    have hgreatest : i ≤ 2 ^ 63 - 1 := hrange.2
    exact Int64.toInt_ofInt_of_le (by omega) (by omega)
  · cases h

/-- An integer of 64 bits has no more. -/
@[simp] theorem int64?_toInt (j : Int64) : int64? j.toInt = some j := by
  have hleast : leastInt64 ≤ j.toInt := j.le_toInt
  have hgreatest : j.toInt < 2 ^ 63 := j.toInt_lt
  have hrange : j.toInt ≤ greatestInt64 := Int.le_sub_one_of_lt hgreatest
  rw [int64?, if_pos ⟨hleast, hrange⟩, Int64.ofInt_toInt]

/-- The integer of 64 bits nearest to an integer. -/
def saturate (i : Int) : Int64 := Int64.ofInt (max leastInt64 (min greatestInt64 i))

/-- Integers outside the range become its ends. -/
theorem toInt_saturate (i : Int) : (saturate i).toInt = max leastInt64 (min greatestInt64 i) := by
  have hleast : leastInt64 = -2 ^ 63 := rfl
  have hgreatest : greatestInt64 = 2 ^ 63 - 1 := rfl
  exact Int64.toInt_ofInt_of_le (by omega) (by omega)

/-- Integers of 64 bits, and no others, stay as they are. -/
theorem toInt_saturate_eq_self_iff {i : Int} :
    (saturate i).toInt = i ↔ leastInt64 ≤ i ∧ i ≤ greatestInt64 := by
  have hleast : leastInt64 = -2 ^ 63 := rfl
  have hgreatest : greatestInt64 = 2 ^ 63 - 1 := rfl
  rw [toInt_saturate]
  omega

end GraphMapper
