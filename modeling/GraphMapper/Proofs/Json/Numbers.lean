import Mathlib.Tactic.IntervalCases
import GraphMapper.Json.Reader
import GraphMapper.Proofs.Double.Decimals
import GraphMapper.Proofs.Steps

/-!
# Numbers, written and read

A number is written as digits with a fraction or an exponent or both
(`NumberText`), and such a text is read to its end, unless the number overflows.
The layouts of a finite number are texts of that kind, and what they write is
below the overflow, as it was before.
-/

namespace GraphMapper.Json

/-- A value is followed by nothing, a comma or a closing bracket. -/
def Ends (rest : List Char) : Prop := ∀ c ∈ rest.head?, c = ',' ∨ c = ']' ∨ c = '\x7d'

/-! ## Digits -/

/-- At least one digit, and nothing else. -/
structure AreDigits (ds : List Char) : Prop where
  ne_nil : ds ≠ []
  isDigit : ∀ c ∈ ds, c.isDigit

/-- A text that does not go on with a digit. -/
def StopsDigits (rest : List Char) : Prop := ∀ c ∈ rest.head?, c.isDigit = false

theorem Ends.stopsDigits {rest : List Char} (h : Ends rest) : StopsDigits rest := by
  intro c hc
  rcases h c hc with rfl | rfl | rfl <;> rfl

variable {ds rest : List Char}

theorem takeWhile_digits (h : ∀ c ∈ ds, c.isDigit) (hrest : StopsDigits rest) :
    (ds ++ rest).takeWhile Char.isDigit = ds ∧ (ds ++ rest).dropWhile Char.isDigit = rest := by
  rw [List.takeWhile_append_of_pos h, List.dropWhile_append_of_pos h]
  cases rest with
  | nil => simp
  | cons c rest =>
    have hc := hrest c rfl
    simp [hc]

theorem readDigits_append (h : AreDigits ds) (hrest : StopsDigits rest) :
    readDigits (ds ++ rest) = .ok (ds, rest) := by
  obtain ⟨htake, hdrop⟩ := takeWhile_digits h.isDigit hrest
  unfold readDigits
  rw [htake, hdrop]
  obtain ⟨c, cs, rfl⟩ := List.exists_cons_of_ne_nil h.ne_nil
  rfl

/-- The digits before a point: a zero alone, or digits that start with another. -/
def IsWhole (ds : List Char) : Prop := AreDigits ds ∧ (ds.head? = some '0' → ds = ['0'])

theorem readWhole_append (h : IsWhole ds) (hrest : StopsDigits rest) :
    readWhole (ds ++ rest) = .ok (ds, rest) := by
  obtain ⟨hdigits, hzero⟩ := h
  obtain ⟨c, cs, rfl⟩ := List.exists_cons_of_ne_nil hdigits.ne_nil
  by_cases hc : c = '0'
  · subst hc
    obtain rfl : cs = [] := by simpa using hzero rfl
    cases rest with
    | nil => rfl
    | cons c rest =>
      have hstop := hrest c rfl
      simp [readWhole, hstop]
  · rw [← readDigits_append hdigits hrest]
    unfold readWhole
    split
    · next heq => exact absurd (List.cons.inj heq).1 hc
    · rfl

/-! ## Texts of numbers -/

/-- A number as it is written. -/
structure NumberText where
  negative : Bool
  whole : List Char
  /-- The digits after a point. -/
  fraction? : Option (List Char)
  /-- Whether an exponent is negative, and its digits. -/
  exponent? : Option (Bool × List Char)

namespace NumberText

/-- A point with the digits after it. -/
def fractionChars (t : NumberText) : List Char :=
  match t.fraction? with
  | some digits => '.' :: digits
  | none => []

/-- An exponent with its sign. -/
def exponentChars (t : NumberText) : List Char :=
  match t.exponent? with
  | some (negative, digits) => 'e' :: (if negative then '-' else '+') :: digits
  | none => []

/-- The characters of a number. -/
def chars (t : NumberText) : List Char :=
  (if t.negative then ['-'] else []) ++ (t.whole ++ (t.fractionChars ++ t.exponentChars))

/-- The number that all digits write, without the point. -/
def digits (t : NumberText) : Nat := digitsValue (t.whole ++ t.fraction?.getD [])

/-- The exponent, as it is written. -/
def shift (t : NumberText) : Int :=
  match t.exponent? with
  | some (true, e) => -digitsValue e
  | some (false, e) => digitsValue e
  | none => 0

/-- Whether a number is written with a fraction or an exponent. -/
def isReal (t : NumberText) : Bool := t.fraction?.isSome || t.exponent?.isSome

/-- What a number is read as. -/
def json (t : NumberText) : Json :=
  if t.fraction?.isNone && t.exponent?.isNone then wholeNumber t.negative t.digits
  else .real (Double.ofDecimal t.negative t.digits (t.shift - (t.fraction?.getD []).length))

/-- Digits stand wherever they have to. -/
structure WellFormed (t : NumberText) : Prop where
  whole : IsWhole t.whole
  fraction : ∀ digits ∈ t.fraction?, AreDigits digits
  exponent : ∀ e ∈ t.exponent?, AreDigits e.2

variable {t : NumberText}

theorem readExponent_append (h : t.WellFormed) (hrest : Ends rest) :
    readExponent (t.exponentChars ++ rest) = .ok (t.exponent?, rest) := by
  have hexponent := h.exponent
  unfold exponentChars
  cases he : t.exponent? with
  | none =>
    cases rest with
    | nil => rfl
    | cons c rest =>
      have hc : ¬ (c = 'e' ∨ c = 'E') := by
        rcases hrest c rfl with rfl | rfl | rfl <;> decide
      simp [readExponent, hc]
  | some e =>
    obtain ⟨negative, digits⟩ := e
    have hread := readDigits_append (hexponent _ he) hrest.stopsDigits
    cases negative <;> simp [readExponent, hread, bind, Except.bind, pure, Except.pure]

theorem head_exponentChars (hrest : Ends rest) :
    ∀ c ∈ (t.exponentChars ++ rest).head?, c.isDigit = false ∧ c ≠ '.' := by
  unfold exponentChars
  split
  · simp
  · intro c hc
    rcases hrest c hc with rfl | rfl | rfl <;> decide

theorem readFraction_append (h : t.WellFormed) (hrest : Ends rest) :
    readFraction (t.fractionChars ++ (t.exponentChars ++ rest)) =
      .ok (t.fraction?, t.exponentChars ++ rest) := by
  have hfraction := h.fraction
  have hhead := head_exponentChars (t := t) hrest
  generalize t.exponentChars ++ rest = tail at hhead ⊢
  unfold fractionChars
  cases hf : t.fraction? with
  | none =>
    cases tail with
    | nil => rfl
    | cons c tail =>
      have hpoint := (hhead c rfl).2
      simp [readFraction, hpoint]
  | some digits =>
    have hread := readDigits_append (hfraction _ hf) fun c hc => (hhead c hc).1
    simp [readFraction, hread, bind, Except.bind, pure, Except.pure]

theorem readNumber_append (h : t.WellFormed) (hsize : isTooLarge t.json = false)
    (hrest : Ends rest) : readNumber .strict (t.chars ++ rest) = .ok (t.json, rest) := by
  have hstop : StopsDigits (t.fractionChars ++ (t.exponentChars ++ rest)) := by
    unfold fractionChars
    split
    · simp [StopsDigits]
    · exact fun c hc => (head_exponentChars hrest c hc).1
  obtain ⟨c, cs, hcs⟩ := List.exists_cons_of_ne_nil h.whole.1.ne_nil
  have hsign : c ≠ '-' := by
    rintro rfl
    cases h.whole.1.isDigit '-' (by simp [hcs])
  have hfraction := readFraction_append h hrest
  have hexponent := readExponent_append h hrest
  have hwhole := readWhole_append h.whole hstop
  rw [hcs, List.cons_append, ← hcs] at hwhole
  have hchars : t.chars ++ rest = (if t.negative then ['-'] else []) ++
      c :: (cs ++ (t.fractionChars ++ (t.exponentChars ++ rest))) := by
    simp [chars, hcs]
  -- The text begins with the sign, or with a digit where there is none.
  rw [hchars]
  unfold readNumber
  cases hnegative : t.negative <;>
    simp only [hsign, hwhole, hfraction, hexponent, bind, Except.bind, pure, Except.pure, json,
      digits, shift, hnegative, Bool.and_eq_true, Option.isNone_iff_eq_none, Bool.false_eq_true,
      ↓reduceIte, List.nil_append, List.cons_append, List.cons.injEq, ↓Char.isValue, false_and,
      imp_self, implies_true, Bool.not_eq_eq_eq_not, Bool.not_true] at hsize ⊢ <;>
    exact if_pos hsize

/-! ## Numbers below the overflow -/

/-- What a number stands for, apart from the sign. -/
def value (t : NumberText) : ℚ := t.digits * 10 ^ (t.shift - (t.fraction?.getD []).length)

theorem isTooLarge_ofDecimal (negative : Bool) {digits : Nat} {exponent : ℤ}
    (h : (digits * 10 ^ exponent : ℚ) < Double.overflow) :
    isTooLarge (.real (Double.ofDecimal negative digits exponent)) = false := by
  have hfinite := Double.isFinite_ofDecimal negative h
  simp only [Double.isFinite, bne_iff_ne] at hfinite
  simp [isTooLarge, Double.isInfinite, hfinite]

theorem isTooLarge_json (h : t.value < Double.overflow) : isTooLarge t.json = false := by
  unfold json
  split
  · next hwhole =>
    simp only [Bool.and_eq_true, Option.isNone_iff_eq_none] at hwhole
    have hdigits : (t.digits * 10 ^ (0 : ℤ) : ℚ) < Double.overflow := by
      simpa [value, shift, hwhole.1, hwhole.2] using h
    unfold wholeNumber
    split_ifs
    · exact isTooLarge_ofDecimal true hdigits
    · rfl
    · rfl
    · exact isTooLarge_ofDecimal false hdigits
  · exact isTooLarge_ofDecimal t.negative h

/-- A number with a fraction or an exponent is read as a finite floating-point one. -/
theorem exists_json_eq_real (hreal : t.isReal = true) (hvalue : t.value < Double.overflow) :
    ∃ x : Double, x.isFinite ∧ t.json = .real x := by
  have hwhole : (t.fraction?.isNone && t.exponent?.isNone) = false := by
    rw [← Option.not_isSome, ← Option.not_isSome, ← Bool.not_or]
    exact congrArg not hreal
  refine ⟨_, Double.isFinite_ofDecimal t.negative hvalue, ?_⟩
  rw [json, hwhole]
  rfl

end NumberText

/-! ## Decimals, laid out -/

theorem digitsValue_append (as bs : List Char) :
    digitsValue (as ++ bs) = digitsValue as * 10 ^ bs.length + digitsValue bs := by
  have hof (cs : List Char) : digitsValue cs = Nat.ofDigitChars 10 cs 0 := rfl
  rw [hof, hof, hof, Nat.ofDigitChars_append, Nat.ofDigitChars_eq_ofDigitChars_zero, Nat.mul_comm]

theorem digitsValue_replicate_zero (n : Nat) : digitsValue (List.replicate n '0') = 0 :=
  Nat.ofDigitChars_replicate_zero

theorem digitsValue_toDigits (n : Nat) : digitsValue (Nat.toDigits 10 n) = n :=
  Nat.ofDigitChars_ten_toDigits

theorem areDigits_toDigits (n : Nat) : AreDigits (Nat.toDigits 10 n) :=
  ⟨Nat.toDigits_ne_nil, fun _ hc => Nat.isDigit_of_mem_toDigits (by decide) (by decide) hc⟩

theorem head?_toDigits {n : Nat} (hn : n ≠ 0) : (Nat.toDigits 10 n).head? ≠ some '0' := by
  induction n using Nat.strongRecOn with
  | ind n ih =>
    rcases Nat.lt_or_ge n 10 with hlt | hge
    · rw [Nat.toDigits_of_lt_base hlt]
      interval_cases n <;> simp_all
    · rw [Nat.toDigits_of_base_le (by decide) hge,
        List.head?_append_of_ne_nil _ Nat.toDigits_ne_nil]
      exact ih (n / 10) (by omega) (by omega)

theorem isWhole_toDigits (n : Nat) : IsWhole (Nat.toDigits 10 n) := by
  refine ⟨areDigits_toDigits n, fun hhead => ?_⟩
  by_cases hn : n = 0
  · subst hn
    rfl
  · exact absurd hhead (head?_toDigits hn)

/-- Some characters, after a sign, are a text with a fraction or an exponent that stands for a
number. -/
def Writes (cs : List Char) (v : ℚ) : Prop :=
  ∀ negative : Bool, ∃ t : NumberText, t.WellFormed ∧ t.isReal = true ∧ t.value = v ∧
    (if negative then ['-'] else []) ++ cs = t.chars

variable {n : Nat}

theorem isWhole_singleton {c : Char} (h : c.isDigit) : IsWhole [c] :=
  ⟨⟨List.cons_ne_nil c [], by simpa using h⟩, fun hzero => by simpa using hzero⟩

/-- The digits after the first one, where there are any. -/
def later? (cs : List Char) : Option (List Char) := if cs = [] then none else some cs

theorem getD_later? (cs : List Char) : (later? cs).getD [] = cs := by
  unfold later?
  split
  · next h => rw [h]; rfl
  · rfl

theorem writes_scientific (first : ℤ) :
    Writes (Double.scientific (Nat.toDigits 10 n) first)
      (n * 10 ^ (first + 1 - (Nat.toDigits 10 n).length)) := by
  intro negative
  have hdigits := areDigits_toDigits n
  have hvalue := digitsValue_toDigits n
  obtain ⟨c, cs, hcs⟩ := List.exists_cons_of_ne_nil hdigits.ne_nil
  rw [hcs] at hdigits hvalue ⊢
  let t : NumberText :=
    ⟨negative, [c], later? cs, some (decide (first < 0), Nat.toDigits 10 first.natAbs)⟩
  have hreal : t.isReal = true := Bool.or_true _
  refine ⟨t, ⟨isWhole_singleton (hdigits.isDigit c List.mem_cons_self), ?_, ?_⟩, hreal, ?_, ?_⟩
  · intro ds hds
    simp only [t, later?, Option.mem_def, Option.ite_none_left_eq_some, Option.some.injEq] at hds
    obtain ⟨hne, rfl⟩ := hds
    exact ⟨hne, fun c' hc' => hdigits.isDigit c' (List.mem_cons_of_mem c hc')⟩
  · rintro e he
    cases he
    exact areDigits_toDigits _
  · have hshift : t.shift = first := by
      rcases lt_or_ge first 0 with hfirst | hfirst
      · simp [t, NumberText.shift, hfirst, digitsValue_toDigits, abs_of_neg hfirst]
      · simp [t, NumberText.shift, hfirst.not_gt, digitsValue_toDigits, abs_of_nonneg hfirst]
    have htext : t.digits = n := by
      rw [NumberText.digits, getD_later?]
      exact hvalue
    rw [NumberText.value, hshift, htext, getD_later?]
    congr 2
    simp
  · by_cases hnil : cs = [] <;> by_cases hfirst : first < 0 <;>
      simp [t, Double.scientific, NumberText.chars, NumberText.fractionChars,
        NumberText.exponentChars, later?, hnil, hfirst]

theorem areDigits_append_replicate {ds : List Char} (h : AreDigits ds) (k : Nat) :
    AreDigits (ds ++ List.replicate k '0') ∧ AreDigits (List.replicate k '0' ++ ds) := by
  have hzeros : ∀ c ∈ List.replicate k '0', c.isDigit := by
    intro c hc
    rw [List.eq_of_mem_replicate hc]
    rfl
  refine ⟨⟨by simp [h.ne_nil], ?_⟩, ⟨by simp [h.ne_nil], ?_⟩⟩ <;>
    simp only [List.mem_append, or_imp, forall_and]
  · exact ⟨h.isDigit, hzeros⟩
  · exact ⟨hzeros, h.isDigit⟩

variable {ds : List Char} {first : ℤ}

/-- Digits after a point and zeros. -/
theorem writes_place_neg (hdigits : AreDigits ds) (hfirst : first < 0) :
    Writes (Double.storedLayout.place ds first)
      (digitsValue ds * 10 ^ (first + 1 - ds.length)) := by
  intro negative
  rw [Double.Layout.place, if_pos hfirst]
  generalize hk : (-first - 1).toNat = k
  have hzeros : ['0'] ++ (List.replicate k '0' ++ ds) = List.replicate (k + 1) '0' ++ ds := rfl
  refine ⟨⟨negative, ['0'], some (List.replicate k '0' ++ ds), none⟩,
    ⟨isWhole_singleton rfl, fun _ h => ?_, nofun⟩, rfl, ?_, ?_⟩
  · cases h
    exact (areDigits_append_replicate hdigits k).2
  · simp only [NumberText.value, NumberText.digits, NumberText.shift, Option.getD_some, hzeros,
      digitsValue_append, digitsValue_replicate_zero]
    rw [Nat.zero_mul, Nat.zero_add, List.length_append, List.length_replicate]
    congr 2
    omega
  · simp [NumberText.chars, NumberText.fractionChars, NumberText.exponentChars]

/-- Digits around a point, with zeros before it where there are too few. -/
theorem writes_place_nonneg (hdigits : AreDigits ds) (hhead : ds.head? ≠ some '0')
    (hfirst : ¬ first < 0) :
    Writes (Double.storedLayout.place ds first)
      (digitsValue ds * 10 ^ (first + 1 - ds.length)) := by
  intro negative
  rw [Double.Layout.place, if_neg hfirst]
  dsimp only
  generalize hw : first.toNat + 1 = w
  have hwhole : IsWhole (ds.take w ++ List.replicate (w - ds.length) '0') := by
    have htake : AreDigits (ds.take w) :=
      ⟨by simp [hdigits.ne_nil]; omega, fun c hc => hdigits.isDigit c (List.mem_of_mem_take hc)⟩
    refine ⟨(areDigits_append_replicate htake _).1, fun h => absurd ?_ hhead⟩
    rw [List.head?_append_of_ne_nil _ htake.ne_nil] at h
    rw [← h, List.head?_take, if_neg (by omega)]
  by_cases hdrop : ds.drop w = []
  · have hlength : ds.length ≤ w := List.drop_eq_nil_iff.1 hdrop
    refine ⟨⟨negative, ds.take w ++ List.replicate (w - ds.length) '0', some ['0'], none⟩,
      ⟨hwhole, fun _ h => ?_, nofun⟩, rfl, ?_, ?_⟩
    · cases h
      exact (isWhole_singleton rfl).1
    · have hexponent : first + 1 - (ds.length : ℤ) = ((w - ds.length : ℕ) : ℤ) := by omega
      simp only [NumberText.value, NumberText.digits, NumberText.shift, Option.getD_some,
        List.take_of_length_le hlength, digitsValue_append, digitsValue_replicate_zero, hexponent]
      push_cast
      simp [digitsValue, digitValue]
    · simp [NumberText.chars, NumberText.fractionChars, NumberText.exponentChars, hlength,
        Double.storedLayout]
  · have hlength : w < ds.length := by simpa [List.drop_eq_nil_iff] using hdrop
    refine ⟨⟨negative, ds.take w ++ List.replicate (w - ds.length) '0', some (ds.drop w), none⟩,
      ⟨hwhole, fun _ h => ?_, nofun⟩, rfl, ?_, ?_⟩
    · cases h
      exact ⟨hdrop, fun c hc => hdigits.isDigit c (List.mem_of_mem_drop hc)⟩
    · have hnone : w - ds.length = 0 := by omega
      simp only [NumberText.value, NumberText.digits, NumberText.shift, Option.getD_some, hnone,
        List.replicate_zero, List.append_nil, List.take_append_drop, List.length_drop]
      congr 2
      omega
    · simp [NumberText.chars, NumberText.fractionChars, NumberText.exponentChars, hdrop]

theorem significand_ne_zero {x : Double} (h : x.isZero = false) : x.significand ≠ 0 := by
  have hpower := Nat.two_pow_pos 52
  unfold Double.significand
  simp only [Double.isZero, Bool.and_eq_false_iff, beq_eq_false_iff_ne] at h
  split
  · next hfield => exact h.resolve_left (fun hne => hne hfield)
  · simp only [twoPow, Nat.pow_eq]
    omega

/-- A decimal as stored numbers are laid out, without a sign. -/
def laidOut (d : Decimal) : List Char :=
  let digits := Nat.toDigits 10 d.digits
  let first := d.exponent + digits.length - 1
  if Double.storedLayout.positional first then Double.storedLayout.place digits first
  else Double.scientific digits first

theorem finite_eq (x : Double) :
    Double.storedLayout.finite x = (if x.negative then ['-'] else []) ++
      laidOut (if x.isZero then ⟨0, 0⟩ else x.shortest Double.storedLayout.tie) := rfl

theorem writes_zero : Writes (laidOut ⟨0, 0⟩) 0 := by
  intro negative
  refine ⟨⟨negative, ['0'], some ['0'], none⟩, ⟨isWhole_singleton rfl, fun _ h => ?_, nofun⟩, rfl, ?_,
    rfl⟩
  · cases h
    exact (isWhole_singleton rfl).1
  · simp [NumberText.value, NumberText.digits, digitsValue, digitValue]

theorem writes_laidOut {d : Decimal} (hn : d.digits ≠ 0) : Writes (laidOut d) d.value := by
  unfold laidOut
  dsimp only
  generalize hfirst : d.exponent + ((Nat.toDigits 10 d.digits).length : ℤ) - 1 = first
  have hvalue : d.value =
      d.digits * 10 ^ (first + 1 - ((Nat.toDigits 10 d.digits).length : ℤ)) := by
    unfold Decimal.value
    congr 2
    omega
  rw [hvalue]
  split
  · have hdigits := areDigits_toDigits d.digits
    conv in (d.digits : ℚ) => rw [← digitsValue_toDigits d.digits]
    by_cases hneg : first < 0
    · exact writes_place_neg hdigits hneg
    · exact writes_place_nonneg hdigits (head?_toDigits hn) hneg
  · exact writes_scientific first

theorem overflow_pos : 0 < Double.overflow := by
  have hpos : (0 : ℚ) < 2 ^ (971 : ℤ) := by positivity
  exact mul_pos (by norm_num) hpos

/-- A finite number is written with a fraction or an exponent, as a text that stands for less than
what overflows. -/
theorem exists_text_finite {x : Double} (hfinite : x.isFinite) :
    ∃ t : NumberText, t.WellFormed ∧ t.isReal = true ∧ t.value < Double.overflow ∧
      Double.storedLayout.finite x = t.chars := by
  rw [finite_eq]
  by_cases hzero : x.isZero = true
  · obtain ⟨t, hwf, hreal, hvalue, hchars⟩ := writes_zero x.negative
    rw [if_pos hzero]
    exact ⟨t, hwf, hreal, hvalue ▸ overflow_pos, hchars⟩
  · have hreadable := Double.readable_shortest hfinite
      (significand_ne_zero (Bool.eq_false_iff.2 hzero)) Double.storedLayout.tie
    obtain ⟨t, hwf, hreal, hvalue, hchars⟩ := writes_laidOut hreadable.ne_zero x.negative
    rw [if_neg hzero]
    exact ⟨t, hwf, hreal, hvalue ▸ hreadable.lt, hchars⟩

/-- An integer of 64 bits is written as digits, which are read as that integer. -/
theorem exists_text_int (i : Int64) :
    ∃ t : NumberText, t.WellFormed ∧ t.json = .int i.toInt ∧
      (toString i.toInt).toList = t.chars := by
  have hleast := i.le_toInt
  have hgreatest := i.toInt_lt
  generalize i.toInt = i at hleast hgreatest
  refine ⟨⟨decide (i < 0), Nat.toDigits 10 i.natAbs, none, none⟩,
    ⟨isWhole_toDigits _, nofun, nofun⟩, ?_, ?_⟩
  · have hjson : NumberText.json ⟨decide (i < 0), Nat.toDigits 10 i.natAbs, none, none⟩ =
        wholeNumber (decide (i < 0)) i.natAbs := by
      simp [NumberText.json, NumberText.digits, digitsValue_toDigits]
    rw [hjson]
    by_cases hneg : i < 0
    · have hsmall : ¬ (i.natAbs = 0 ∨ twoPow 63 < i.natAbs) := by
        simp only [twoPow, Nat.pow_eq]
        omega
      rw [decide_eq_true hneg, wholeNumber, if_pos rfl, if_neg hsmall]
      congr 1
      omega
    · have hsmall : i.natAbs < twoPow 64 := by
        simp only [twoPow, Nat.pow_eq]
        omega
      rw [decide_eq_false hneg, wholeNumber, if_neg Bool.false_ne_true, if_pos hsmall]
      congr 1
      omega
  · rw [Int.toString_eq_repr]
    cases i <;>
      simp [Int.repr, NumberText.chars, NumberText.fractionChars, NumberText.exponentChars]

end GraphMapper.Json
