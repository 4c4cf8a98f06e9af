import Mathlib.Data.Nat.Cast.Order.Field
import GraphMapper.Double.Shortest
import GraphMapper.Proofs.Double.Rounding

/-!
# Decimals of finite numbers

The shortest decimal of a finite number lies within the interval of what is
rounded to the number, and so below everything that is rounded to infinity
(`value_shortest_lt`).  A decimal below that bound is read as a finite number
(`isFinite_ofDecimal`), so what is written of a finite number can be read.
-/

namespace GraphMapper

/-- What a decimal stands for. -/
def Decimal.value (d : Decimal) : ℚ := d.digits * 10 ^ d.exponent

namespace Double

/-- The least quotient that is rounded to infinity. -/
def overflow : ℚ := (2 ^ 53 - 1 / 2) * 2 ^ (971 : ℤ)

/-! ## From decimals to numbers -/

theorem cast_tenPow (e : ℤ) : (tenPow e.toNat / tenPow (-e).toNat : ℚ) = 10 ^ e := by
  simp only [tenPow, Nat.pow_eq]
  push_cast
  exact pow_toNat_div 10 e

theorem natCast_tenPow (n : Nat) : (tenPow n : ℚ) = 10 ^ (n : ℤ) := by simp [tenPow]

theorem tenPow_ne_zero (n : Nat) : tenPow n ≠ 0 := (Nat.pow_pos (by decide)).ne'

theorem overflow_lt : overflow < 10 ^ (2000 : ℤ) := by
  have hpos : (0 : ℚ) < 2 ^ (971 : ℤ) := by positivity
  calc overflow < 2 ^ (53 : ℤ) * 2 ^ (971 : ℤ) := by
        unfold overflow
        gcongr
        norm_num
    _ = 2 ^ (1024 : ℕ) := by
      rw [← zpow_add₀ two_ne_zero, ← zpow_natCast]
      rfl
    _ ≤ 10 ^ (1024 : ℕ) := by gcongr; norm_num
    _ ≤ 10 ^ (2000 : ℤ) := by
      rw [← zpow_natCast]
      exact zpow_le_zpow_right₀ (by norm_num) (by norm_num)

theorem isFinite_ofDecimal (negative : Bool) {digits : Nat} {exponent : ℤ}
    (h : (digits * 10 ^ exponent : ℚ) < overflow) :
    (ofDecimal negative digits exponent).isFinite := by
  have hinfinity : infinityBits = 2047 * 4503599627370496 := rfl
  have hzero : (ofSigned negative 0).isFinite := (isFinite_ofSigned (Nat.zero_le _)).2 (by decide)
  unfold ofDecimal
  split
  · exact hzero
  · next hdigits =>
    dsimp only
    have hone : (1 : ℚ) ≤ digits := by exact_mod_cast Nat.one_le_iff_ne_zero.2 hdigits
    have hexponent : ¬ 2000 < exponent := by
      intro hlt
      have hpower : (10 : ℚ) ^ (2000 : ℤ) ≤ 10 ^ exponent :=
        zpow_le_zpow_right₀ (by norm_num) hlt.le
      have hscaled : (10 : ℚ) ^ exponent ≤ digits * 10 ^ exponent :=
        le_mul_of_one_le_left (by positivity) hone
      exact absurd (hpower.trans (hscaled.trans h.le)) (not_le.2 overflow_lt)
    rw [if_neg hexponent]
    split
    · exact hzero
    · refine (isFinite_ofRatio (tenPow_ne_zero _)).2 (roundedBits_lt (tenPow_ne_zero _) ?_)
      unfold overflow at h
      generalize (2 : ℚ) ^ (971 : ℤ) = top at h ⊢
      push_cast
      rw [mul_div_assoc, cast_tenPow]
      linarith

/-! ## From numbers to decimals -/

theorem cast_high (x : Double) :
    (x.interval.high / x.interval.unit : ℚ) = (x.significand + 1 / 2) * 2 ^ x.scale := by
  have hscale : -(x.scale - 2) = 2 - x.scale := by ring
  simp only [interval, twoPow, Nat.pow_eq]
  push_cast
  rw [← hscale, mul_div_assoc, pow_toNat_div, zpow_sub₀ two_ne_zero]
  ring

theorem cast_value (x : Double) :
    (x.interval.value / x.interval.unit : ℚ) = x.significand * 2 ^ x.scale := by
  have hscale : -(x.scale - 2) = 2 - x.scale := by ring
  simp only [interval, twoPow, Nat.pow_eq]
  push_cast
  rw [← hscale, mul_div_assoc, pow_toNat_div, zpow_sub₀ two_ne_zero]
  ring

theorem significand_le (x : Double) : x.significand ≤ 2 ^ 53 - 1 := by
  have hfraction : x.fraction < twoPow 52 := Nat.mod_lt _ (Nat.two_pow_pos 52)
  rw [twoPow_52] at hfraction
  unfold significand
  rw [twoPow_52]
  split <;> omega

theorem scale_le {x : Double} (hfinite : x.isFinite) : x.scale ≤ 971 := by
  have hfield : x.exponentField < 2048 := Nat.mod_lt _ (Nat.two_pow_pos 11)
  simp only [isFinite, bne_iff_ne] at hfinite
  unfold scale
  split <;> omega

/-- The interval of a finite number ends where infinity's begins or below, and where it ends there it
is open, because the largest number is odd. -/
theorem lt_overflow_of_le_high {x : Double} (hfinite : x.isFinite) {v : ℚ}
    (hle : v ≤ x.interval.high / x.interval.unit)
    (hlt : x.significand % 2 = 1 → v < x.interval.high / x.interval.unit) : v < overflow := by
  rw [cast_high] at hle hlt
  have hscale : (2 : ℚ) ^ x.scale ≤ 2 ^ (971 : ℤ) :=
    zpow_le_zpow_right₀ (by norm_num) (scale_le hfinite)
  have hpos : (0 : ℚ) < 2 ^ (971 : ℤ) := by positivity
  have hsignificand := x.significand_le
  unfold overflow
  generalize (2 : ℚ) ^ (971 : ℤ) = top at *
  rcases Nat.mod_two_eq_zero_or_one x.significand with heven | hodd
  · have hbelow : (x.significand : ℚ) ≤ 2 ^ 53 - 2 := by
      have hnat : x.significand + 2 ≤ 2 ^ 53 := by omega
      have hcast : ((x.significand + 2 : ℕ) : ℚ) ≤ 2 ^ 53 := by exact_mod_cast hnat
      push_cast at hcast
      linarith
    calc v ≤ (x.significand + 1 / 2) * 2 ^ x.scale := hle
      _ ≤ (2 ^ 53 - 2 + 1 / 2) * top := by gcongr
      _ < (2 ^ 53 - 1 / 2) * top := by gcongr; norm_num
  · have hbelow : (x.significand : ℚ) ≤ 2 ^ 53 - 1 := by
      have hcast : ((x.significand + 1 : ℕ) : ℚ) ≤ 2 ^ 53 := by
        exact_mod_cast (by omega : x.significand + 1 ≤ 2 ^ 53)
      push_cast at hcast
      linarith
    calc v < (x.significand + 1 / 2) * 2 ^ x.scale := hlt hodd
      _ ≤ (2 ^ 53 - 1 + 1 / 2) * top := by gcongr
      _ = (2 ^ 53 - 1 / 2) * top := by ring

end Double

/-- A positive decimal below what is rounded to infinity. -/
structure Decimal.Readable (d : Decimal) : Prop where
  ne_zero : d.digits ≠ 0
  lt : d.value < Double.overflow

namespace Double

open Decimal

theorem readable_of_holds {x : Double} (hfinite : x.isFinite) {c : Nat} {k : ℤ} (hc : c ≠ 0)
    (h : x.interval.holds (c * (x.interval.unit * tenPow k.toNat)) (tenPow (-k).toNat)) :
    Decimal.Readable ⟨c, k⟩ := by
  have hunit : (0 : ℚ) < x.interval.unit := by exact_mod_cast Nat.two_pow_pos _
  have hden : (0 : ℚ) < tenPow (-k).toNat := by
    exact_mod_cast Nat.pos_of_ne_zero (tenPow_ne_zero _)
  have hvalue : (c * 10 ^ k : ℚ) =
      (c * (x.interval.unit * tenPow k.toNat) : ℕ) / tenPow (-k).toNat / x.interval.unit := by
    rw [← cast_tenPow]
    push_cast
    field_simp
  have hle : c * (x.interval.unit * tenPow k.toNat) ≤ x.interval.high * tenPow (-k).toNat ∧
      (x.significand % 2 = 1 →
        c * (x.interval.unit * tenPow k.toNat) < x.interval.high * tenPow (-k).toNat) := by
    unfold Interval.holds at h
    split at h
    · next hclosed =>
      have heven : x.significand % 2 = 0 := by simpa [interval] using hclosed
      simp only [Bool.and_eq_true, decide_eq_true_eq] at h
      exact ⟨h.2, by omega⟩
    · simp only [Bool.and_eq_true, decide_eq_true_eq] at h
      exact ⟨h.2.le, fun _ => h.2⟩
  refine ⟨hc, lt_overflow_of_le_high hfinite ?_ fun hodd => ?_⟩
  · rw [Decimal.value, hvalue]
    gcongr
    rw [div_le_iff₀ hden]
    exact_mod_cast hle.1
  · rw [Decimal.value, hvalue]
    gcongr
    rw [div_lt_iff₀ hden]
    exact_mod_cast hle.2 hodd

theorem readable_of_onGrid? {x : Double} (hfinite : x.isFinite) {tie : Tie} {k : ℤ} {d : Decimal}
    (h : x.interval.onGrid? tie k = some d) : d.Readable := by
  unfold Interval.onGrid? at h
  dsimp only at h
  split at h
  · next hdown hup =>
    simp only [Bool.and_eq_true, bne_iff_ne] at hdown
    cases h
    split
    · exact readable_of_holds hfinite hdown.2 hdown.1
    · exact readable_of_holds hfinite (Nat.succ_ne_zero _) hup
  · next hdown hup =>
    simp only [Bool.and_eq_true, bne_iff_ne] at hdown
    cases h
    exact readable_of_holds hfinite hdown.2 hdown.1
  · next hdown hup =>
    cases h
    exact readable_of_holds hfinite (Nat.succ_ne_zero _) hup
  · cases h

theorem le_scale (x : Double) : -1074 ≤ x.scale := by
  unfold scale
  split <;> omega

/-- The digits of a number down to a place below its last binary one. -/
theorem readable_fallback {x : Double} (hfinite : x.isFinite) (hzero : x.significand ≠ 0) :
    Decimal.Readable ⟨x.interval.value * tenPow 1100 / x.interval.unit, -1100⟩ := by
  have hunit : (0 : ℚ) < x.interval.unit := by exact_mod_cast Nat.two_pow_pos _
  have hpos : (0 : ℚ) < 2 ^ x.scale := by positivity
  have hpower : (tenPow 1100 : ℚ) = 10 ^ (1100 : ℤ) := natCast_tenPow 1100
  have hvalue : ((x.interval.value * tenPow 1100 : ℕ) / x.interval.unit : ℚ) =
      x.significand * 2 ^ x.scale * 10 ^ (1100 : ℤ) := by
    rw [Nat.cast_mul, hpower, ← cast_value, mul_div_right_comm]
  refine ⟨?_, ?_⟩
  · have hone : (1 : ℚ) ≤ 2 ^ x.scale * 10 ^ (1100 : ℤ) := by
      calc (1 : ℚ) ≤ 2 ^ (x.scale + 1100) := one_le_zpow₀ (by norm_num) (by have := x.le_scale; omega)
        _ = 2 ^ x.scale * 2 ^ (1100 : ℤ) := zpow_add₀ two_ne_zero _ _
        _ ≤ 2 ^ x.scale * 10 ^ (1100 : ℤ) :=
          mul_le_mul_of_nonneg_left
            (zpow_le_zpow_left₀ (by norm_num) (by norm_num) (by norm_num)) hpos.le
    have hsignificand : (1 : ℚ) ≤ x.significand := by
      exact_mod_cast Nat.one_le_iff_ne_zero.2 hzero
    have hle : (1 : ℚ) ≤ (x.interval.value * tenPow 1100 : ℕ) / x.interval.unit := by
      rw [hvalue, mul_assoc]
      exact one_le_mul_of_one_le_of_one_le hsignificand hone
    rw [le_div_iff₀ hunit, one_mul] at hle
    exact (Nat.div_pos (by exact_mod_cast hle) (Nat.two_pow_pos _)).ne'
  · have hbelow : Decimal.value ⟨x.interval.value * tenPow 1100 / x.interval.unit, -1100⟩ <
        x.interval.high / x.interval.unit := by
      calc Decimal.value ⟨x.interval.value * tenPow 1100 / x.interval.unit, -1100⟩
          ≤ (x.interval.value * tenPow 1100 : ℕ) / x.interval.unit * 10 ^ (-1100 : ℤ) := by
            unfold Decimal.value
            gcongr
            exact Nat.cast_div_le
        _ = x.significand * 2 ^ x.scale := by
          rw [hvalue, mul_assoc, ← zpow_add₀ (by norm_num)]
          norm_num
        _ < (x.significand + 1 / 2) * 2 ^ x.scale := by gcongr; linarith
        _ = x.interval.high / x.interval.unit := (cast_high x).symm
    exact lt_overflow_of_le_high hfinite hbelow.le fun _ => hbelow

theorem readable_stripZeros {d : Decimal} (h : d.Readable) (fuel : Nat) :
    (stripZeros fuel d).Readable := by
  induction fuel generalizing d with
  | zero => exact h
  | succ fuel ih =>
    unfold stripZeros
    split
    · next hten =>
      refine ih ⟨?_, ?_⟩
      · show d.digits / 10 ≠ 0
        omega
      · have hlt := h.lt
        unfold value at hlt ⊢
        have hdigits : (d.digits : ℚ) = (d.digits / 10 : ℕ) * 10 := by
          exact_mod_cast (Nat.div_mul_cancel (Nat.dvd_of_mod_eq_zero hten.1)).symm
        rw [hdigits] at hlt
        rw [zpow_add₀ (by norm_num)]
        linarith
    · exact h

theorem readable_shortest {x : Double} (hfinite : x.isFinite) (hzero : x.significand ≠ 0)
    (tie : Tie) : (x.shortest tie).Readable := by
  unfold shortest
  refine readable_stripZeros ?_ 20
  cases hfound : (List.range 17).findSome? _ with
  | none => exact readable_fallback hfinite hzero
  | some d =>
    obtain ⟨n, -, hgrid⟩ := List.exists_of_findSome?_eq_some hfound
    exact readable_of_onGrid? hfinite hgrid

end Double

end GraphMapper
