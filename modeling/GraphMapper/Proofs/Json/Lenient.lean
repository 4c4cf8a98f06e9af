import GraphMapper.Json.Reader
import GraphMapper.Proofs.Steps

/-!
# The lenient reader

The lenient reader accepts more than the strict one and makes the same of what
both accept (`readText_covers`).  So what is known of texts that the strict reader
reads holds of the formats too, which read leniently.
-/

namespace GraphMapper

/-- A computation succeeds wherever another one does, with the same result. -/
def Covers {ε α : Type} (y x : Except ε α) : Prop := ∀ a, x = .ok a → y = .ok a

namespace Covers

variable {ε α β : Type} {x y : Except ε α} {f g : α → Except ε β}

theorem refl (x : Except ε α) : Covers x x := fun _ h => h

theorem of_error {y : Except ε α} (e : ε) : Covers y (.error e) := nofun

theorem bind (h : Covers y x) (hfg : ∀ a, Covers (g a) (f a)) : Covers (y >>= g) (x >>= f) := by
  intro b hb
  obtain ⟨a, ha, hb⟩ := bind_eq_ok.1 hb
  exact bind_eq_ok.2 ⟨a, h a ha, hfg a b hb⟩

theorem map (h : Covers y x) (f : α → β) : Covers (f <$> y) (f <$> x) := by
  intro b hb
  obtain ⟨a, ha, hb⟩ := map_eq_ok.1 hb
  exact map_eq_ok.2 ⟨a, h a ha, hb⟩

end Covers

namespace Json

/-! ## Failures -/

section Failures

variable {α : Type} {y : Except Failure (α × List Char)}

theorem covers_failAt (reason : Reason) (cs : List Char) : Covers y (failAt reason cs) := .of_error _

theorem covers_failEnd (reason : Reason) : Covers y (failEnd reason) := .of_error _

theorem covers_failHex (cs : List Char) : Covers y (failHex cs) := by
  unfold failHex
  split
  · exact covers_failEnd _
  · exact .of_error _

theorem covers_failPair (cs : List Char) : Covers y (failPair cs) := by
  unfold failPair
  split
  · exact covers_failEnd _
  · exact covers_failEnd _
  · exact covers_failHex _
  · exact covers_failAt _ _
  · exact covers_failAt _ _

end Failures

/-! ## Tokens -/

theorem readChars_covers (cs : List Char) :
    Covers (readChars .lenient cs) (readChars .strict cs) := by
  fun_induction readChars Mode.strict cs
  case case2 =>
    rw [readChars.eq_def]
    exact .refl _
  case case4 hquote hslash hplain ih =>
    rw [readChars.eq_def]
    simpa [hquote, hslash, hplain] using ih.map _
  case case6 hquote hslash _ _ hletter _ hescape ih =>
    rw [readChars.eq_def]
    simpa [hquote, hslash, hletter, hescape] using ih.map _
  case case10 hquote hslash _ hu _ _ _ _ _ hfour hleading _ _ _ _ _ _ hfour' htrailing ih =>
    rw [readChars.eq_def]
    simpa [hquote, hslash, hu, hfour, hleading, hfour', htrailing] using ih.map _
  case case17 hquote hslash _ hu _ _ _ _ _ _ hfour hleading htrailing ih =>
    rw [readChars.eq_def]
    simpa [hquote, hslash, hu, hfour, hleading, htrailing] using ih.map _
  -- The strict reader never takes the branches in which half a pair is passed over.
  case case12 hstrict ih => exact absurd rfl hstrict
  case case13 hlenient ih => cases hlenient
  case case16 hstrict ih => exact absurd rfl hstrict
  case case8 | case9 | case18 => exact covers_failHex _
  case case14 => exact covers_failPair _
  all_goals exact .of_error _

theorem readNumber_covers (cs : List Char) :
    Covers (readNumber .lenient cs) (readNumber .strict cs) := by
  unfold readNumber
  dsimp only
  refine .bind (.refl _) fun ⟨whole, cs⟩ => .bind (.refl _) fun ⟨fraction, cs⟩ =>
    .bind (.refl _) fun ⟨exponent, rest⟩ => ?_
  dsimp only
  generalize (if (fraction.isNone && exponent.isNone) = true then _ else _ : Json) = value
  by_cases hlarge : isTooLarge value = true
  · rw [hlarge]
    rw [Bool.not_true, if_neg Bool.false_ne_true, if_neg Bool.false_ne_true]
    split
    · exact .refl _
    · split
      · exact covers_failAt _ _
      · exact .of_error _
    · exact .of_error _
  · rw [Bool.eq_false_iff.2 hlarge]
    exact .refl _

/-! ## Values -/

/-- What the reader makes of a member and of others behind it. -/
def memberThen (mode : Mode) (fuel depth : Nat) :
    List Char → Except Failure (Option (List (String × Json)) × List Char)
  | '"' :: cs => do
    let (key, cs) ← readChars mode cs
    match skipBlanks cs with
    | [] => failEnd .endInObject
    | ':' :: cs =>
      let (value, cs) ← readValue mode fuel depth cs
      let (members, cs) ← readMembers mode fuel depth false cs
      return (consMember key value members, cs)
    | cs => failAt .expectedColon cs
  | cs => failAt .expectedKey cs

theorem memberThen_covers {fuel : Nat}
    (hvalue : ∀ depth cs,
      Covers (readValue .lenient fuel depth cs) (readValue .strict fuel depth cs))
    (hmembers : ∀ depth first cs,
      Covers (readMembers .lenient fuel depth first cs) (readMembers .strict fuel depth first cs))
    (depth : Nat) (cs : List Char) :
    Covers (memberThen .lenient fuel depth cs) (memberThen .strict fuel depth cs) := by
  unfold memberThen
  split
  · refine .bind (readChars_covers _) fun ⟨key, cs⟩ => ?_
    dsimp only
    split
    · exact .refl _
    · exact .bind (hvalue _ _) fun _ => .bind (hmembers _ _ _) fun _ => .refl _
    · exact .refl _
  · exact .refl _

theorem read_covers (fuel : Nat) :
    (∀ depth cs, Covers (readValue .lenient fuel depth cs) (readValue .strict fuel depth cs)) ∧
      (∀ depth first cs,
        Covers (readItems .lenient fuel depth first cs) (readItems .strict fuel depth first cs)) ∧
      ∀ depth first cs,
        Covers (readMembers .lenient fuel depth first cs) (readMembers .strict fuel depth first cs) := by
  induction fuel with
  | zero => exact ⟨fun _ _ => .of_error _, fun _ _ _ => .of_error _, fun _ _ _ => .of_error _⟩
  | succ fuel ih =>
    obtain ⟨hvalue, hitems, hmembers⟩ := ih
    have hopen (depth : Nat) : ¬ (Mode.lenient = .strict ∧ maxDepth ≤ depth) := nofun
    refine ⟨fun depth cs => ?_, fun depth first cs => ?_, fun depth first cs => ?_⟩
    · rw [readValue, readValue]
      split
      · exact .refl _
      · exact .refl _
      · exact .refl _
      · exact .refl _
      · exact .bind (readChars_covers _) fun _ => .refl _
      · rw [if_neg (hopen depth)]
        split
        · exact covers_failAt _ _
        · exact .bind (hitems _ _ _) fun _ => .refl _
      · rw [if_neg (hopen depth)]
        split
        · exact covers_failAt _ _
        · exact .bind (hmembers _ _ _) fun _ => .refl _
      · split
        · exact readNumber_covers _
        · exact covers_failAt _ _
    · rw [readItems, readItems]
      split
      · exact .refl _
      · exact .refl _
      · have hitem (cs : List Char) :=
          (hvalue depth cs).bind fun item => (hitems depth false item.2).bind fun others =>
            .refl (pure (item.1 :: others.1, others.2))
        dsimp only
        split
        · exact hitem _
        · split
          · exact .of_error _
          · split
            · exact .of_error _
            · exact .of_error _
            · exact hitem _
    · rw [readMembers, readMembers]
      split
      · exact .refl _
      · exact .refl _
      · dsimp only
        split
        · exact memberThen_covers hvalue hmembers depth _
        · split
          · exact .of_error _
          · split
            · exact .of_error _
            · exact .of_error _
            · exact memberThen_covers hvalue hmembers depth _

/-- A text that is read strictly is read leniently, as the same tree. -/
theorem readText_covers (cs : List Char) : Covers (readText .lenient cs) (readText .strict cs) :=
  .bind ((read_covers _).1 _ _) fun _ => .refl _

end Json

end GraphMapper
