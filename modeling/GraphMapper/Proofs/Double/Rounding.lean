import Mathlib.Algebra.Order.Field.Power
import Mathlib.Data.Rat.Cast.Order
import Mathlib.Tactic.FieldSimp
import Mathlib.Tactic.Linarith
import Mathlib.Tactic.Positivity
import Mathlib.Tactic.Ring
import GraphMapper.Double.Basic

/-!
# Rounding keeps the order

A quotient is rounded at one power of two (`FitsScale`), and a greater quotient
at no lesser one, so that the bits of the rounded numbers are ordered like the
quotients (`roundedBits_mono`).  The numbers that bits stand for are ordered like
the bits in turn (`ratio_mono`).  What holds of the ends of a range of quotients
can then be computed, and holds of everything between them.
-/

namespace GraphMapper.Double

/-! ## Rounding a quotient -/

/-- A number is exceeded by a rounded quotient when the quotient lies beyond the middle to the next
number, or at the middle and the number is odd. -/
theorem lt_roundQuotient_iff {n d k : Nat} (hd : 0 < d) :
    k < roundQuotient n d ↔ (2 * k + 1) * d < 2 * n ∨ (2 * k + 1) * d = 2 * n ∧ k % 2 = 1 := by
  have hrest := Nat.mod_lt n hd
  have hn := Nat.div_add_mod n d
  unfold roundQuotient
  dsimp only
  generalize n / d = q at *
  generalize n % d = r at *
  subst hn
  rcases lt_trichotomy k q with hk | rfl | hk
  · have hbelow : (2 * k + 1) * d < 2 * (d * q + r) := by nlinarith
    simp only [hbelow, true_or, iff_true]
    split_ifs <;> omega
  · have hmiddle : (2 * k + 1) * d = 2 * (d * k) + d := by ring
    rw [hmiddle]
    split_ifs <;> omega
  · have hbeyond : 2 * (d * q + r) < (2 * k + 1) * d := by nlinarith
    split_ifs <;> omega

theorem roundQuotient_mono {n d n' d' : Nat} (hd : 0 < d) (hd' : 0 < d')
    (h : n * d' ≤ n' * d) : roundQuotient n d ≤ roundQuotient n' d' := by
  refine Nat.le_of_not_lt fun hlt => ?_
  have hself := mt (lt_roundQuotient_iff hd' (k := roundQuotient n' d')).2 (Nat.lt_irrefl _)
  have hexceeds := (lt_roundQuotient_iff hd).1 hlt
  generalize roundQuotient n' d' = k at hself hexceeds
  -- Both quotients are compared with the same middle.
  have hcompare : (2 * k + 1) * d * d' ≤ 2 * n * d' := by
    refine Nat.mul_le_mul_right d' ?_
    omega
  have hcross : 2 * n * d' ≤ 2 * n' * d := by linarith
  rcases hexceeds with hlt | ⟨heq, hodd⟩
  · have hlt' : (2 * k + 1) * d * d' < 2 * n * d' := Nat.mul_lt_mul_of_pos_right hlt hd'
    refine hself (.inl (lt_of_mul_lt_mul_right ?_ d.zero_le))
    linarith
  · have hle : (2 * k + 1) * d' ≤ 2 * n' := by
      refine le_of_mul_le_mul_right ?_ hd
      linarith
    rcases Nat.lt_or_eq_of_le hle with hlt | heq'
    · exact hself (.inl hlt)
    · exact hself (.inr ⟨heq', hodd⟩)

theorem roundQuotient_le {n d k : Nat} (hd : 0 < d) (h : 2 * n < (2 * k + 1) * d) :
    roundQuotient n d ≤ k := by
  refine Nat.le_of_not_lt fun hlt => ?_
  rcases (lt_roundQuotient_iff hd).1 hlt with hlt | ⟨heq, _⟩ <;> omega

theorem le_roundQuotient {n d k : Nat} (hd : 0 < d) (h : k * d ≤ n) : k ≤ roundQuotient n d := by
  have hexact : roundQuotient (k * d) d = k := by
    simp [roundQuotient, Nat.mul_div_cancel _ hd, hd]
  rw [← hexact]
  exact roundQuotient_mono hd hd (Nat.mul_le_mul_right d h)

/-! ## The scale of a quotient -/

/-- The power of two at which a number is rounded: above the least one, it leaves fifty-three
bits. -/
structure FitsScale (v : ℚ) (e : ℤ) : Prop where
  least : -1074 ≤ e
  below : v < 2 ^ (e + 53)
  above : e = -1074 ∨ 2 ^ (e + 52) ≤ v

theorem FitsScale.mono {v v' : ℚ} {e e' : ℤ} (h : FitsScale v e) (h' : FitsScale v' e')
    (hv : v ≤ v') : e ≤ e' := by
  by_contra hlt
  have hleast := h'.least
  have habove : (2 : ℚ) ^ (e + 52) ≤ v := h.above.resolve_left (by omega)
  have hscales : (2 : ℚ) ^ (e' + 53) ≤ 2 ^ (e + 52) := zpow_le_zpow_right₀ (by norm_num) (by omega)
  exact absurd (h'.below.trans_le (hscales.trans (habove.trans hv))) (lt_irrefl _)

theorem scaled_pos {num den : Nat} {e : ℤ} (hden : 0 < den) : 0 < (scaled num den e).2 :=
  Nat.mul_pos hden (Nat.two_pow_pos _)

/-- A power to an integer, from powers to naturals. -/
theorem pow_toNat_div (base : ℚ) (e : ℤ) : base ^ e.toNat / base ^ (-e).toNat = base ^ e := by
  rcases le_total 0 e with he | he
  · lift e to ℕ using he
    simp
  · obtain ⟨k, rfl⟩ : ∃ k : ℕ, e = -k := ⟨e.natAbs, by omega⟩
    simp

theorem cast_scaled (num den : Nat) (e : ℤ) :
    ((scaled num den e).1 : ℚ) / (scaled num den e).2 = num / den / 2 ^ e := by
  simp only [scaled, twoPow, Nat.pow_eq]
  push_cast
  rw [mul_div_mul_comm, ← inv_div (2 ^ e.toNat), pow_toNat_div, div_eq_mul_inv _ ((2 : ℚ) ^ e)]

/-- A quotient at a scale is compared with a number as the quotient is with the number scaled. -/
theorem scaled_lt_iff {num den k : Nat} {e : ℤ} (hden : den ≠ 0) :
    (scaled num den e).1 < k * (scaled num den e).2 ↔ (num / den : ℚ) < k * 2 ^ e := by
  have hpos : (0 : ℚ) < (scaled num den e).2 := by
    exact_mod_cast scaled_pos (Nat.pos_of_ne_zero hden)
  rw [← div_lt_iff₀ (by positivity), ← cast_scaled, div_lt_iff₀ hpos]
  exact_mod_cast Iff.rfl

theorem fitsScale_roundingScale {num den : Nat} (hnum : num ≠ 0) (hden : den ≠ 0) :
    FitsScale (num / den : ℚ) (roundingScale num den) := by
  have hden' : (0 : ℚ) < den := by positivity
  -- The logarithms tell the quotient up to a factor of four.
  have hlow : (2 : ℚ) ^ ((num.log2 : ℤ) - den.log2 - 1) ≤ num / den := by
    have hn : (2 : ℚ) ^ (num.log2 : ℤ) ≤ num := by exact_mod_cast Nat.log2_self_le hnum
    have hd : (den : ℚ) ≤ 2 ^ ((den.log2 : ℤ) + 1) := by
      exact_mod_cast (Nat.lt_log2_self (n := den)).le
    rw [le_div_iff₀ hden']
    calc (2 : ℚ) ^ ((num.log2 : ℤ) - den.log2 - 1) * den
        ≤ 2 ^ ((num.log2 : ℤ) - den.log2 - 1) * 2 ^ ((den.log2 : ℤ) + 1) := by gcongr
      _ = 2 ^ (num.log2 : ℤ) := by rw [← zpow_add₀ (by norm_num)]; congr 1; ring
      _ ≤ num := hn
  have hhigh : (num / den : ℚ) < 2 ^ ((num.log2 : ℤ) - den.log2 + 1) := by
    have hn : (num : ℚ) < 2 ^ ((num.log2 : ℤ) + 1) := by exact_mod_cast Nat.lt_log2_self (n := num)
    have hd : (2 : ℚ) ^ (den.log2 : ℤ) ≤ den := by exact_mod_cast Nat.log2_self_le hden
    rw [div_lt_iff₀ hden']
    calc (num : ℚ) < 2 ^ ((num.log2 : ℤ) + 1) := hn
      _ = 2 ^ ((num.log2 : ℤ) - den.log2 + 1) * 2 ^ (den.log2 : ℤ) := by
        rw [← zpow_add₀ (by norm_num)]; congr 1; ring
      _ ≤ 2 ^ ((num.log2 : ℤ) - den.log2 + 1) * den := by gcongr
  simp only [roundingScale]
  generalize hguess : max ((num.log2 : ℤ) - den.log2 - 53) (-1074) = guess
  -- The guess is right or one too low, and the quotient at its scale tells which.
  have hfits : (scaled num den guess).1 / (scaled num den guess).2 < twoPow 53 ↔
      (num / den : ℚ) < 2 ^ (guess + 53) := by
    rw [Nat.div_lt_iff_lt_mul (scaled_pos (Nat.pos_of_ne_zero hden)), scaled_lt_iff hden,
      zpow_add₀ (by norm_num), mul_comm]
    exact_mod_cast Iff.rfl
  have hle : (2 : ℚ) ^ ((num.log2 : ℤ) - den.log2 + 1) ≤ 2 ^ (guess + 1 + 53) :=
    zpow_le_zpow_right₀ (by norm_num) (by omega)
  split
  · next h =>
    refine ⟨by omega, hfits.1 h, ?_⟩
    refine or_iff_not_imp_left.2 fun hleast => ?_
    have hexponent : guess + 52 = (num.log2 : ℤ) - den.log2 - 1 := by omega
    rwa [hexponent]
  · next h =>
    refine ⟨by omega, hhigh.trans_le hle, .inr ?_⟩
    have hexponent : guess + 1 + 52 = guess + 53 := by ring
    rw [hexponent]
    exact not_lt.1 (mt hfits.2 h)

/-! ## The bits of a rounded quotient -/

/-- A quotient rounded at its scale. -/
def roundedSignificand (num den : Nat) : Nat :=
  let q := scaled num den (roundingScale num den)
  roundQuotient q.1 q.2

/-- The bits of the magnitude nearest to a quotient, were there no largest one. -/
def roundedBits (num den : Nat) : Nat :=
  if num = 0 then 0
  else (roundingScale num den + 1074).toNat * twoPow 52 + roundedSignificand num den

variable {num den num' den' : Nat}

theorem roundedSignificand_le (hnum : num ≠ 0) (hden : den ≠ 0) :
    roundedSignificand num den ≤ twoPow 53 := by
  unfold roundedSignificand
  refine roundQuotient_le (scaled_pos (Nat.pos_of_ne_zero hden)) ?_
  have hfits := (fitsScale_roundingScale hnum hden).below
  rw [add_comm, zpow_add₀ (by norm_num)] at hfits
  have hbelow := (scaled_lt_iff (k := twoPow 53) hden).2 (by exact_mod_cast hfits)
  linarith

/-- Above the least scale a rounded quotient has fifty-three bits. -/
theorem le_roundedSignificand (hnum : num ≠ 0) (hden : den ≠ 0)
    (hscale : roundingScale num den ≠ -1074) : twoPow 52 ≤ roundedSignificand num den := by
  unfold roundedSignificand
  refine le_roundQuotient (scaled_pos (Nat.pos_of_ne_zero hden)) ?_
  have hfits := (fitsScale_roundingScale hnum hden).above.resolve_left hscale
  rw [add_comm, zpow_add₀ (by norm_num)] at hfits
  exact not_lt.1 (mt (scaled_lt_iff hden).1 (not_lt.2 (by exact_mod_cast hfits)))

theorem ofRatio_eq (negative : Bool) (hden : den ≠ 0) :
    ofRatio negative num den = ofSigned negative (min (roundedBits num den) infinityBits) := by
  unfold ofRatio roundedBits
  split
  · rfl
  · next hnum =>
    have hbits : (if roundedSignificand num den < twoPow 52 then roundedSignificand num den
        else (roundingScale num den + 1074).toNat * twoPow 52 + roundedSignificand num den) =
        (roundingScale num den + 1074).toNat * twoPow 52 + roundedSignificand num den := by
      split
      · next hsmall =>
        -- Fewer bits are left at the least scale alone.
        have hscale : roundingScale num den = -1074 := by
          by_contra hscale
          exact absurd (le_roundedSignificand hnum hden hscale) (by omega)
        simp [hscale]
      · rfl
    rw [← hbits]
    rfl

theorem roundedBits_mono (hden : den ≠ 0) (hden' : den' ≠ 0) (h : num * den' ≤ num' * den) :
    roundedBits num den ≤ roundedBits num' den' := by
  rcases Nat.eq_zero_or_pos num with rfl | hnum
  · exact Nat.zero_le _
  have hpos := Nat.mul_pos hnum (Nat.pos_of_ne_zero hden')
  have hnum' : num' ≠ 0 := by
    rintro rfl
    omega
  have hnum := hnum.ne'
  have hv : (num / den : ℚ) ≤ num' / den' := by
    rw [div_le_div_iff₀ (by positivity) (by positivity)]
    exact_mod_cast h
  have hfits := fitsScale_roundingScale hnum hden
  have hscales := hfits.mono (fitsScale_roundingScale hnum' hden') hv
  have hleast := hfits.least
  have hpowers : twoPow 53 = 2 * twoPow 52 := rfl
  rw [roundedBits, roundedBits, if_neg hnum, if_neg hnum']
  rcases hscales.lt_or_eq with hlt | heq
  · -- The rounded quotient of a lesser scale reaches the next one at most.
    have hle := roundedSignificand_le hnum hden
    have hge := le_roundedSignificand hnum' hden' (by omega)
    have hnext : (roundingScale num den + 1074).toNat + 1 ≤
        (roundingScale num' den' + 1074).toNat := by omega
    have hscaled := Nat.mul_le_mul_right (twoPow 52) hnext
    rw [Nat.add_mul, one_mul] at hscaled
    omega
  · rw [heq]
    refine Nat.add_le_add_left ?_ _
    unfold roundedSignificand
    rw [heq]
    refine roundQuotient_mono (scaled_pos (Nat.pos_of_ne_zero hden))
      (scaled_pos (Nat.pos_of_ne_zero hden')) ?_
    simp only [scaled]
    generalize twoPow (-roundingScale num' den').toNat = up
    generalize twoPow (roundingScale num' den').toNat = down
    calc num * up * (den' * down) = num * den' * (up * down) := by ring
      _ ≤ num' * den * (up * down) := Nat.mul_le_mul_right _ h
      _ = num' * up * (den * down) := by ring

/-! ## The number that bits stand for -/

theorem twoPow_52 : twoPow 52 = 4503599627370496 := rfl

theorem infinityBits_eq : infinityBits = 2047 * 4503599627370496 := rfl

section Bits

variable {negative : Bool} {b : Nat}

theorem toNat_bits_ofSigned (hb : b ≤ infinityBits) :
    (ofSigned negative b).bits.toNat = if negative then 2 ^ 63 + b else b := by
  refine UInt64.toNat_ofNat_of_lt' ?_
  rw [infinityBits_eq] at hb
  simp only [twoPow, Nat.pow_eq, UInt64.size]
  split <;> omega

theorem negative_ofSigned (hb : b ≤ infinityBits) : (ofSigned negative b).negative = negative := by
  rw [infinityBits_eq] at hb
  rw [Double.negative, toNat_bits_ofSigned hb]
  simp only [twoPow, Nat.pow_eq]
  cases negative <;> simp
  omega

theorem exponentField_ofSigned (hb : b ≤ infinityBits) :
    (ofSigned negative b).exponentField = b / twoPow 52 := by
  rw [exponentField, toNat_bits_ofSigned hb]
  rw [infinityBits_eq] at hb
  simp only [twoPow, Nat.pow_eq]
  split <;> omega

theorem fraction_ofSigned (hb : b ≤ infinityBits) :
    (ofSigned negative b).fraction = b % twoPow 52 := by
  rw [fraction, toNat_bits_ofSigned hb]
  simp only [twoPow, Nat.pow_eq]
  split <;> omega

theorem isFinite_ofSigned (hb : b ≤ infinityBits) :
    (ofSigned negative b).isFinite = true ↔ b < infinityBits := by
  rw [isFinite, exponentField_ofSigned hb, bne_iff_ne]
  rw [infinityBits_eq] at hb ⊢
  rw [twoPow_52]
  omega

theorem cast_ratio (x : Double) :
    (x.numerator / x.denominator : ℚ) = x.significand * 2 ^ x.scale := by
  simp only [numerator, denominator, twoPow, Nat.pow_eq]
  push_cast
  rw [mul_div_assoc, pow_toNat_div]

theorem denominator_ne_zero (x : Double) : x.denominator ≠ 0 := (Nat.two_pow_pos _).ne'

/-- What bits stand for is less than the next power of two. -/
theorem ratio_lt (hb : b ≤ infinityBits) :
    ((ofSigned negative b).numerator / (ofSigned negative b).denominator : ℚ) <
      2 ^ ((b / twoPow 52 : Nat) - 1022 : ℤ) := by
  rw [cast_ratio, significand, scale, exponentField_ofSigned hb, fraction_ofSigned hb]
  have hfraction := Nat.mod_lt b (Nat.two_pow_pos 52)
  split
  · next h =>
    have hlt : ((b % twoPow 52 : Nat) : ℚ) < 2 ^ (52 : ℤ) := by exact_mod_cast hfraction
    calc ((b % twoPow 52 : Nat) : ℚ) * 2 ^ (-1074 : ℤ) < 2 ^ (52 : ℤ) * 2 ^ (-1074 : ℤ) := by
          gcongr
      _ = 2 ^ ((b / twoPow 52 : Nat) - 1022 : ℤ) := by
        rw [← zpow_add₀ two_ne_zero, h]
        congr 1
  · have hlt : ((twoPow 52 + b % twoPow 52 : Nat) : ℚ) < 2 ^ (53 : ℤ) := by
      have hpower : twoPow 52 + twoPow 52 = 2 ^ 53 := rfl
      exact_mod_cast (Nat.add_lt_add_left hfraction (twoPow 52)).trans_eq hpower
    calc ((twoPow 52 + b % twoPow 52 : Nat) : ℚ) * 2 ^ ((b / twoPow 52 : Nat) - 1075 : ℤ)
        < 2 ^ (53 : ℤ) * 2 ^ ((b / twoPow 52 : Nat) - 1075 : ℤ) := by gcongr
      _ = 2 ^ ((b / twoPow 52 : Nat) - 1022 : ℤ) := by
        rw [← zpow_add₀ two_ne_zero]
        congr 1
        ring

/-- Bits with a leading one stand for the power of two of their exponent at least. -/
theorem le_ratio (hb : b ≤ infinityBits) (hnormal : b / twoPow 52 ≠ 0) :
    (2 : ℚ) ^ ((b / twoPow 52 : Nat) - 1023 : ℤ) ≤
      (ofSigned negative b).numerator / (ofSigned negative b).denominator := by
  rw [cast_ratio, significand, scale, exponentField_ofSigned hb, fraction_ofSigned hb,
    if_neg hnormal, if_neg hnormal]
  have hle : (2 : ℚ) ^ (52 : ℤ) ≤ (twoPow 52 + b % twoPow 52 : Nat) := by
    exact_mod_cast Nat.le_add_right (2 ^ 52) (b % twoPow 52)
  calc (2 : ℚ) ^ ((b / twoPow 52 : Nat) - 1023 : ℤ)
      = 2 ^ (52 : ℤ) * 2 ^ ((b / twoPow 52 : Nat) - 1075 : ℤ) := by
        rw [← zpow_add₀ two_ne_zero]
        congr 1
        ring
    _ ≤ (twoPow 52 + b % twoPow 52 : Nat) * 2 ^ ((b / twoPow 52 : Nat) - 1075 : ℤ) := by gcongr

theorem ratio_mono (negative negative' : Bool) {b' : Nat} (hb' : b' ≤ infinityBits) (h : b ≤ b') :
    ((ofSigned negative b).numerator / (ofSigned negative b).denominator : ℚ) ≤
      (ofSigned negative' b').numerator / (ofSigned negative' b').denominator := by
  have hb := h.trans hb'
  rcases (Nat.div_le_div_right (c := twoPow 52) h).lt_or_eq with hlt | heq
  · refine (ratio_lt hb).le.trans (.trans ?_ (le_ratio hb' (Nat.zero_lt_of_lt hlt).ne'))
    exact zpow_le_zpow_right₀ (by norm_num) (by omega)
  · rw [cast_ratio, cast_ratio, significand, significand, scale, scale, exponentField_ofSigned hb,
      exponentField_ofSigned hb', fraction_ofSigned hb, fraction_ofSigned hb', heq]
    have hfraction : b % twoPow 52 ≤ b' % twoPow 52 := by
      rw [twoPow_52] at heq ⊢
      omega
    split <;> gcongr

end Bits

/-! ## Numbers that do not overflow -/

/-- A quotient below the middle between the largest number and the next power of two is rounded to a
finite one. -/
theorem roundedBits_lt (hden : den ≠ 0)
    (h : 2 * (num / den : ℚ) < (2 * (2 ^ 53 - 1) + 1) * 2 ^ (971 : ℤ)) :
    roundedBits num den < infinityBits := by
  rcases Nat.eq_zero_or_pos num with rfl | hnum
  · exact Nat.mul_pos (by decide) (Nat.two_pow_pos 52)
  have hnum := hnum.ne'
  have hfits := fitsScale_roundingScale hnum hden
  have hscale : roundingScale num den ≤ 971 := by
    by_contra hlt
    have habove := hfits.above.resolve_left (by omega)
    have hpower : (2 : ℚ) ^ (53 : ℤ) * 2 ^ (971 : ℤ) ≤ 2 ^ (roundingScale num den + 52) := by
      rw [← zpow_add₀ two_ne_zero]
      exact zpow_le_zpow_right₀ (by norm_num) (by omega)
    have hpos : (0 : ℚ) < 2 ^ (971 : ℤ) := by positivity
    generalize (2 : ℚ) ^ (971 : ℤ) = top at *
    have hle : (2 : ℚ) ^ (53 : ℤ) * top ≤ num / den := hpower.trans habove
    norm_num at h hle
    linarith
  rw [roundedBits, if_neg hnum, infinityBits_eq, twoPow_52]
  have hleast := hfits.least
  have hlast := roundedSignificand_le hnum hden
  have hpower : twoPow 53 = 9007199254740992 := rfl
  rcases hscale.lt_or_eq with hlt | heq
  · omega
  · -- At the last scale the quotient is rounded down from the middle.
    have hle : roundedSignificand num den ≤ twoPow 53 - 1 := by
      unfold roundedSignificand
      refine roundQuotient_le (scaled_pos (Nat.pos_of_ne_zero hden)) ?_
      have hdouble : (scaled (2 * num) den (roundingScale num den)).1 <
          (2 * (twoPow 53 - 1) + 1) * (scaled (2 * num) den (roundingScale num den)).2 := by
        rw [scaled_lt_iff hden, heq]
        generalize (2 : ℚ) ^ (971 : ℤ) = top at h ⊢
        push_cast [hpower]
        norm_num [mul_div_assoc] at h ⊢
        exact h
      simp only [scaled] at hdouble ⊢
      linarith
    omega

/-! ## Numbers within bounds -/

/-- A finite number whose magnitude is no greater than another one's. -/
structure Within (x bound : Double) : Prop where
  finite : x.isFinite
  le : x.numerator * bound.denominator ≤ bound.numerator * x.denominator

variable {negative negative' : Bool}

theorem negative_ofRatio (hden : den ≠ 0) : (ofRatio negative num den).negative = negative := by
  rw [ofRatio_eq negative hden]
  exact negative_ofSigned (Nat.min_le_right _ _)

theorem isFinite_ofRatio (hden : den ≠ 0) :
    (ofRatio negative num den).isFinite = true ↔ roundedBits num den < infinityBits := by
  rw [ofRatio_eq negative hden, isFinite_ofSigned (Nat.min_le_right _ _)]
  omega

/-- Between zero and a quotient that is rounded to a finite number all others are, and to no greater
ones. -/
theorem within_ofRatio (hden : den ≠ 0) (hden' : den' ≠ 0) (h : num * den' ≤ num' * den)
    (hfinite : (ofRatio negative' num' den').isFinite) :
    (ofRatio negative num den).Within (ofRatio negative' num' den') := by
  have hbits := roundedBits_mono hden hden' h
  rw [isFinite_ofRatio hden'] at hfinite
  refine ⟨(isFinite_ofRatio hden).2 (hbits.trans_lt hfinite), ?_⟩
  rw [ofRatio_eq negative hden, ofRatio_eq negative' hden']
  have hle := ratio_mono negative negative'
    (Nat.min_le_right (roundedBits num' den') infinityBits) (min_le_min_right infinityBits hbits)
  rw [div_le_div_iff₀ (by exact_mod_cast Nat.two_pow_pos _)
    (by exact_mod_cast Nat.two_pow_pos _)] at hle
  exact_mod_cast hle

/-- The nearest integer has the sign of the number. -/
theorem nearest_eq (x : Double) :
    x.nearest = if x.negative then -(x.nearest.natAbs : Int) else x.nearest.natAbs := by
  have hnonneg : (0 : Int) ≤ (2 * x.numerator + x.denominator) / (2 * x.denominator) :=
    Int.ediv_nonneg (by positivity) (by positivity)
  unfold nearest
  split <;> simp [abs_of_nonneg hnonneg]

namespace Within

variable {x bound : Double}

theorem scaleBy (h : x.Within bound) (factor : Nat) (hbound : bound.isFinite)
    (hfinite : (bound.scaleBy factor).isFinite) :
    (x.scaleBy factor).Within (bound.scaleBy factor) := by
  rw [Double.scaleBy, if_pos h.finite, Double.scaleBy, if_pos hbound]
  rw [Double.scaleBy, if_pos hbound] at hfinite
  refine within_ofRatio x.denominator_ne_zero bound.denominator_ne_zero ?_ hfinite
  have hscaled := Nat.mul_le_mul_right factor h.le
  linarith

theorem natAbs_nearest (h : x.Within bound) : x.nearest.natAbs ≤ bound.nearest.natAbs := by
  have hnatAbs (y : Double) :
      y.nearest.natAbs = (2 * y.numerator + y.denominator) / (2 * y.denominator) := by
    unfold nearest
    split <;> simp <;> rfl
  rw [hnatAbs, hnatAbs, Nat.le_div_iff_mul_le (by have := bound.denominator_ne_zero; omega)]
  have hfloor := Nat.div_mul_le_self (2 * x.numerator + x.denominator) (2 * x.denominator)
  have hpos := Nat.pos_of_ne_zero x.denominator_ne_zero
  generalize (2 * x.numerator + x.denominator) / (2 * x.denominator) = q at hfloor ⊢
  refine le_of_mul_le_mul_right ?_ hpos
  have hscaled := Nat.mul_le_mul_right bound.denominator hfloor
  have hle := h.le
  linarith

end Within

end GraphMapper.Double
