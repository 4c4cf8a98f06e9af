import GraphMapper.Proofs.Codec.Faithful

/-!
# Stored numbers

What becomes of floating-point numbers on their way through the codecs
(`Codec.numbers_stored`).  The integer codec takes those that are integers, and
stores the nearest one of 64 bits.  JSON text keeps finite numbers as finite ones,
and infinities and what is no number as null, wherever they stand in a value.
-/

namespace GraphMapper

namespace Double

variable {x : Double} {i : ℤ}

/-- The number that the bits of a finite number stand for. -/
def value (x : Double) : ℚ := (if x.negative then -1 else 1) * (x.significand * 2 ^ x.scale)

theorem value_eq (x : Double) :
    x.value = (if x.negative then -1 else 1) * (x.numerator / x.denominator : ℚ) := by
  rw [value, cast_ratio]

/-- The whole magnitude of a number that stands for an integer is that of the integer. -/
theorem numerator_eq (h : x.value = i) : x.numerator = i.natAbs * x.denominator := by
  have hden : (x.denominator : ℚ) ≠ 0 := by exact_mod_cast x.denominator_ne_zero
  have habs : (x.numerator / x.denominator : ℚ) = i.natAbs := by
    have hsign : |(if x.negative then -1 else 1 : ℚ)| = 1 := by split <;> simp
    rw [Nat.cast_natAbs, Int.cast_abs, ← h, value_eq, abs_mul, hsign, one_mul, abs_of_nonneg]
    positivity
  exact_mod_cast (div_eq_iff hden).1 habs

theorem value_of_numerator {q : ℕ} (h : x.numerator = q * x.denominator) :
    x.value = ((if x.negative then -(q : ℤ) else q : ℤ) : ℚ) := by
  have hden : (x.denominator : ℚ) ≠ 0 := by exact_mod_cast x.denominator_ne_zero
  rw [value_eq, h, Nat.cast_mul, mul_div_cancel_right₀ _ hden]
  split <;> simp

/-- The numbers that are whole are the finite ones that stand for an integer. -/
theorem whole?_eq_some_iff : x.whole? = some i ↔ x.isFinite ∧ x.value = i := by
  unfold whole?
  split
  · next hwhole =>
    obtain ⟨q, hq⟩ := Nat.dvd_of_mod_eq_zero hwhole.2
    rw [Nat.mul_comm] at hq
    have hquotient : x.numerator / x.denominator = q := by
      rw [hq, Nat.mul_div_cancel _ (Nat.pos_of_ne_zero x.denominator_ne_zero)]
    rw [value_of_numerator hq, Int.cast_inj, ← Int.natCast_ediv, hquotient]
    simp [hwhole.1]
  · next hwhole =>
    refine iff_of_false nofun fun ⟨hfinite, hi⟩ => hwhole ⟨hfinite, ?_⟩
    rw [numerator_eq hi, Nat.mul_mod_left]

end Double

namespace Codec

/-- The integer codec takes the finite numbers that stand for an integer. -/
theorem encode_integer_float {x : Double} {w : Value} :
    integer.encode (.float x) = .ok w ↔
      x.isFinite ∧ ∃ i : ℤ, x.value = i ∧ w = .int (saturate i) := by
  cases hwhole : x.whole? with
  | some i =>
    obtain ⟨hfinite, hvalue⟩ := Double.whole?_eq_some_iff.1 hwhole
    simp [encode, hwhole, hfinite, hvalue, eq_comm]
  | none =>
    have hmismatch : integer.encode (.float x) = mismatch "integer" (.float x) := by
      rw [encode, hwhole]
    rw [hmismatch]
    constructor
    · intro h
      cases h
    · rintro ⟨hfinite, i, hvalue, -⟩
      cases hwhole.symm.trans (Double.whole?_eq_some_iff.2 ⟨hfinite, hvalue⟩)

/-- What the integer codec stores is the number itself where that has 64 bits, and only there. -/
theorem stored_eq_value_iff {x : Double} {j : Int64}
    (h : integer.encode (.float x) = .ok (.int j)) :
    x.value = j.toInt ↔ (leastInt64 : ℚ) ≤ x.value ∧ x.value ≤ greatestInt64 := by
  obtain ⟨-, i, hvalue, hj⟩ := encode_integer_float.1 h
  obtain rfl := Value.int.inj hj
  rw [hvalue, Int.cast_inj, Int.cast_le, Int.cast_le, eq_comm, toInt_saturate_eq_self_iff]

theorem reread_ne_null_iff {xs : List Double} :
    (∀ x ∈ xs, x.reread ≠ .null) ↔ ∀ x ∈ xs, x.isFinite :=
  forall₂_congr fun x _ => by rw [Ne, Double.reread_eq_null_iff, not_not]

/-- What the codecs make of floating-point numbers.

* The integer codec takes the finite ones that stand for an integer.  It stores that integer if it
  has 64 bits, and else the nearest one that has.
* JSON text is read back, unless it is nested too deeply, as the value with its numbers reread.  None
  of them comes back as null if all are finite, and only then; the finite ones come back finite. -/
theorem numbers_stored (x : Double) {v w : Value} (hv : v.IsCanonical)
    (hstored : json.encode v = .ok w) :
    (∀ u, integer.encode (.float x) = .ok u ↔
      x.isFinite ∧ ∃ i : ℤ, x.value = i ∧ u = .int (saturate i)) ∧
    (∀ j : Int64, integer.encode (.float x) = .ok (.int j) →
      (x.value = j.toInt ↔ (leastInt64 : ℚ) ≤ x.value ∧ x.value ≤ greatestInt64)) ∧
    Json.SucceedsWhen (v.toJson.nesting ≤ Json.maxDepth) (json.decode w)
      (v.replaceFloats Double.reread) ∧
    ((∀ y ∈ v.floats, y.reread ≠ .null) ↔ ∀ y ∈ v.floats, y.isFinite) ∧
    ∀ y ∈ v.floats, y.isFinite → ∃ z : Double, z.isFinite ∧ y.reread = .float z :=
  ⟨fun _ => encode_integer_float, fun _ => stored_eq_value_iff, succeedsWhen_decode_json hv hstored,
    reread_ne_null_iff, fun _ _ => Double.exists_reread_eq_float⟩

end Codec

end GraphMapper

namespace GraphMapper.Sample

/-- The number four. -/
def four : Double := ⟨0x4010000000000000⟩

/-- The least power of two that is no integer of 64 bits. -/
def pow63 : Double := ⟨0x43E0000000000000⟩

/-- Positive infinity. -/
def infinity : Double := ⟨0x7FF0000000000000⟩

end GraphMapper.Sample

namespace GraphMapper.Codec

open Sample (four pow63 infinity)

/-- Four is stored as an integer, and comes back from JSON text as a finite number. -/
theorem numbers_stored_four :
    integer.encode (.float four) = .ok (.int 4) ∧ four.value = 4 ∧
      json.encode (.list [.float four]) = .ok (.string "[4.0]") ∧
      ∃ y : Double, y.isFinite ∧ json.decode (.string "[4.0]") = .ok (.list [.float y]) := by
  have hfour : four.isFinite ∧ four.value = (4 : ℤ) := Double.whole?_eq_some_iff.1 rfl
  have hcanonical : (Value.list [.float four]).IsCanonical := ⟨trivial, trivial⟩
  have hstored : json.encode (.list [.float four]) = .ok (.string "[4.0]") := rfl
  obtain ⟨hinteger, -, hjson, -, hfinite⟩ := numbers_stored four hcanonical hstored
  obtain ⟨y, hy, hfloat⟩ := hfinite four List.mem_cons_self hfour.1
  refine ⟨(hinteger _).2 ⟨hfour.1, 4, hfour.2, rfl⟩, hfour.2, hstored, y, hy, ?_⟩
  rw [hjson.ok (by decide)]
  simp only [Value.replaceFloats, Value.replaceItemFloats, hfloat]

/-- A power of two that is no integer of 64 bits is stored as the one before it, and infinity comes
back as null. -/
theorem number_clamped :
    (pow63.isFinite ∧ pow63.value = (2 ^ 63 : ℤ) ∧
      integer.encode (.float pow63) = .ok (.int Int64.maxValue) ∧
      Int64.maxValue.toInt = 2 ^ 63 - 1) ∧
    json.encode (.list [.float infinity]) = .ok (.string "[null]") ∧
      json.decode (.string "[null]") = .ok (.list [.null]) := by
  have hvalue : pow63.isFinite ∧ pow63.value = (2 ^ 63 : ℤ) := Double.whole?_eq_some_iff.1 rfl
  exact ⟨⟨hvalue.1, hvalue.2, rfl, rfl⟩, rfl, rfl⟩

end GraphMapper.Codec
