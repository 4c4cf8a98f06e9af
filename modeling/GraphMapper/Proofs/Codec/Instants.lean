import GraphMapper.Codec
import GraphMapper.Proofs.Double.Rounding
import GraphMapper.Proofs.Steps

/-!
# Instants, stored and read

An instant lies within the years that timestamps cover, whether it was read from
text or from a number.  It is stored as seconds in a floating-point number, and
reading these rounds twice.  Rounding keeps the order, so that an instant read
back lies between the first and the last one read back, which are covered.
-/

namespace GraphMapper

namespace Timestamp

/-- Some milliseconds after the start of 1970 lie in the years covered. -/
def Covered (millis : Int) : Prop := firstSecond * 1000 ≤ millis ∧ millis < endSecond * 1000

theorem covered_of_ofMillis? {m : Int} {t : Timestamp} (h : ofMillis? m = some t) :
    Covered t.millis := by
  simp only [ofMillis?, Option.ite_none_right_eq_some, Option.some.injEq] at h
  obtain ⟨hcovered, rfl⟩ := h
  simp only [millis, Covered]
  omega

theorem exists_ofMillis? {m : Int} (h : Covered m) : ∃ t, ofMillis? m = some t := by
  obtain ⟨hfirst, hend⟩ := h
  simp only [ofMillis?]
  rw [if_pos (by omega)]
  exact ⟨_, rfl⟩

/-! ## Timestamps in text -/

theorem digit?_lt {c : Char} {n : Nat} (h : digit? c = some n) : n < 10 := by
  simp only [digit?, Option.ite_none_right_eq_some, Option.some.injEq] at h
  obtain ⟨hdigit, rfl⟩ := h
  have hle : c.toNat ≤ 57 := (Char.isDigit_iff_toNat.1 hdigit).2
  simp
  omega

theorem foldlM_digit?_lt {cs : List Char} {read n : Nat}
    (h : cs.foldlM (fun n c => (digit? c).map (10 * n + ·)) read = some n) :
    n < (read + 1) * 10 ^ cs.length := by
  induction cs generalizing read with
  | nil =>
    cases h
    simp
  | cons c rest ih =>
    obtain ⟨read', hfirst, hrest⟩ := Option.bind_eq_some_iff.1 h
    obtain ⟨d, hd, rfl⟩ := Option.map_eq_some_iff.1 hfirst
    have hlt := digit?_lt hd
    have hnext : 10 * read + d + 1 ≤ 10 * (read + 1) := by omega
    calc n < (10 * read + d + 1) * 10 ^ rest.length := ih hrest
      _ ≤ 10 * (read + 1) * 10 ^ rest.length := Nat.mul_le_mul_right _ hnext
      _ = (read + 1) * 10 ^ (rest.length + 1) := by ring

theorem digits?_lt {cs : List Char} {n : Nat} (h : digits? cs = some n) : n < 10 ^ cs.length := by
  simpa using foldlM_digit?_lt h

theorem days_bounds {date : Calendar.Date} (hvalid : date.isValid = true) (hfirst : 0 ≤ date.year)
    (hlast : date.year ≤ 9999) : -800000 ≤ date.days ∧ date.days ≤ 3000000 := by
  obtain ⟨hmonth, hmonth', hday, hday'⟩ := of_decide_eq_true hvalid
  have hlength : Calendar.monthLength date.year date.month ≤ 31 := by
    unfold Calendar.monthLength
    split_ifs <;> omega
  simp only [Calendar.Date.days]
  split <;> omega

theorem readDate_bounds {cs rest : List Char} {date : Calendar.Date}
    (h : readDate cs = .ok (date, rest)) : -800000 ≤ date.days ∧ date.days ≤ 3000000 := by
  unfold readDate at h
  split at h
  · split at h
    · next hyear _ _ =>
      have hlt := digits?_lt hyear
      dsimp only at h
      split at h
      · next hvalid =>
        cases h
        refine days_bounds hvalid (Int.natCast_nonneg _) ?_
        simp at hlt ⊢
        omega
      · cases h
    · cases h
  · cases h

theorem readNanos_lt {cs rest : List Char} {nanos : Nat} (h : readNanos cs = .ok (nanos, rest)) :
    nanos < 1000000000 := by
  unfold readNanos at h
  split at h
  · dsimp only at h
    split at h
    · cases h
    · cases h
    · cases h
      cases hdigits : digits? _ with
      | none => simp
      | some n =>
        have hlt := digits?_lt hdigits
        exact hlt.trans_le (Nat.pow_le_pow_right (by decide : 0 < 10) (List.length_take_le 9 _))
  · cases h
    omega

theorem covered_of_parse {text : String} {t : Timestamp} (h : parse text = .ok t) :
    Covered t.millis := by
  simp only [parse, check_eq_ok, bind_eq_ok, pure_eq_ok] at h
  obtain ⟨-, ⟨date, _⟩, hdate, ⟨⟨hour, minute, second⟩, _⟩, -, ⟨nanos, _⟩, hnanos, hclock, offset, -, -,
    hoffset, rfl⟩ := h
  have hdays := readDate_bounds hdate
  have hlt := readNanos_lt hnanos
  have hfirst : firstSecond = -8334601228800 := by decide
  have hend : endSecond = 8210266876800 := by decide
  rw [Covered, Timestamp.millis, hfirst, hend]
  simp only [daySeconds] at hclock hoffset ⊢
  split <;> omega

end Timestamp

namespace Codec

theorem covered_of_instant {v : Value} {t : Timestamp} (h : instant v = .ok t) :
    Timestamp.Covered t.millis := by
  unfold instant at h
  split at h
  · split at h
    · next hparse =>
      cases h
      exact Timestamp.covered_of_parse hparse
    · cases h
  · split at h
    · cases h
    · dsimp only at h
      split at h
      · next hinstant =>
        cases h
        split_ifs at hinstant
        · exact Timestamp.covered_of_ofMillis? hinstant
        · exact Timestamp.covered_of_ofMillis? hinstant
      · cases h

/-- The seconds that an instant is stored as. -/
def storedSeconds (millis : Int) : Double :=
  Double.ofRatio (decide (millis < 0)) millis.natAbs 1000

/-- An instant between the start of 1970 and one whose seconds do not overflow is read back as one
between those two read back. -/
theorem within_storedSeconds (m bound : Int) (h : m.natAbs ≤ bound.natAbs)
    (hfinite : (storedSeconds bound).isFinite)
    (hscaled : ((storedSeconds bound).scaleBy 1000).isFinite) :
    ((storedSeconds m).scaleBy 1000).Within ((storedSeconds bound).scaleBy 1000) :=
  (Double.within_ofRatio (by decide) (by decide) (Nat.mul_le_mul_right 1000 h) hfinite).scaleBy 1000
    hfinite hscaled

theorem negative_scaleBy_storedSeconds (m : Int) :
    ((storedSeconds m).scaleBy 1000).negative = decide (m < 0) := by
  have hnegative : (storedSeconds m).negative = decide (m < 0) :=
    Double.negative_ofRatio (by decide)
  unfold Double.scaleBy
  split
  · rw [Double.negative_ofRatio (Double.denominator_ne_zero _), hnegative]
  · exact hnegative

/-- Every instant that is covered is read back as one that is. -/
theorem covered_nearest {m : Int} (h : Timestamp.Covered m) :
    ((storedSeconds m).scaleBy 1000).isFinite ∧
      Timestamp.Covered ((storedSeconds m).scaleBy 1000).nearest := by
  have hfirst : Timestamp.firstSecond = -8334601228800 := by decide
  have hend : Timestamp.endSecond = 8210266876800 := by decide
  simp only [Timestamp.Covered, hfirst, hend] at h ⊢
  have hnearest := Double.nearest_eq ((storedSeconds m).scaleBy 1000)
  rw [negative_scaleBy_storedSeconds] at hnearest
  by_cases hm : m < 0
  · have hwithin := within_storedSeconds m (-8334601228800000) (by omega)
      (by decide +kernel) (by decide +kernel)
    have hle := hwithin.natAbs_nearest
    have hbound : ((storedSeconds (-8334601228800000)).scaleBy 1000).nearest.natAbs =
      8334601228800000 := by decide +kernel
    rw [if_pos (decide_eq_true hm)] at hnearest
    exact ⟨hwithin.finite, by omega⟩
  · have hwithin := within_storedSeconds m 8210266876799999 (by omega)
      (by decide +kernel) (by decide +kernel)
    have hle := hwithin.natAbs_nearest
    have hbound : ((storedSeconds 8210266876799999).scaleBy 1000).nearest.natAbs =
      8210266876799999 := by decide +kernel
    rw [if_neg (by simpa using hm)] at hnearest
    exact ⟨hwithin.finite, by omega⟩

/-- A stored instant can be read. -/
theorem exists_instant_storedSeconds {v : Value} {t : Timestamp} (h : instant v = .ok t) :
    ∃ t', instant (.float (storedSeconds t.millis)) = .ok t' := by
  obtain ⟨hfinite, hcovered⟩ := covered_nearest (covered_of_instant h)
  obtain ⟨t', ht'⟩ := Timestamp.exists_ofMillis? hcovered
  have hnan : ((storedSeconds t.millis).scaleBy 1000).isNaN = false := by
    simp only [Double.isFinite, bne_iff_ne] at hfinite
    simp [Double.isNaN, hfinite]
  have hinfinite : ((storedSeconds t.millis).scaleBy 1000).isInfinite = false := by
    simp only [Double.isFinite, bne_iff_ne] at hfinite
    simp [Double.isInfinite, hfinite]
  refine ⟨t', ?_⟩
  simp [instant, Value.float?, hnan, hinfinite, ht']

end Codec

end GraphMapper
