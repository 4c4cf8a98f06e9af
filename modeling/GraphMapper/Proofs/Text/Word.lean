import GraphMapper.FieldPath
import GraphMapper.Text.LowerCase

/-!
# Words

A word is made of ASCII letters, digits and underscores only, and a name is a
word that is not empty and does not start with a digit: an identifier, but of
any length.  Everything that names are glued together from is a word: small
letters, numbers, and hops with double underscores between them.
-/

namespace GraphMapper

/-- A text made of letters, digits and underscores. -/
def IsWord (s : String) : Prop := ∀ c ∈ s.toList, Limits.isIdentifierPart c = true

/-- A text that may stand in a statement as it is. -/
def IsName (s : String) : Prop := Limits.isIdentifier s.toList = true

theorem isDigit_of_mem_toString {n : Nat} {c : Char} (h : c ∈ (toString n).toList) :
    c.isDigit = true := by
  rw [Nat.toString_eq_repr, Nat.toList_repr] at h
  exact Nat.isDigit_of_mem_toDigits (by decide) (by decide) h

namespace IsWord

variable {s t : String}

theorem append (hs : IsWord s) (ht : IsWord t) : IsWord (s ++ t) := by
  intro c hc
  rw [String.toList_append] at hc
  rcases List.mem_append.1 hc with hc | hc
  · exact hs c hc
  · exact ht c hc

theorem empty : IsWord "" := by
  intro c hc
  cases hc

theorem of_nat (n : Nat) : IsWord (toString n) := by
  intro c hc
  simp [Limits.isIdentifierPart, Char.isAlphanum, isDigit_of_mem_toString hc]

theorem intercalate {sep : String} {parts : List String} (hsep : IsWord sep)
    (h : ∀ p ∈ parts, IsWord p) : IsWord (sep.intercalate parts) := by
  induction parts with
  | nil =>
    rw [String.intercalate_nil]
    exact empty
  | cons p rest ih =>
    have hrest := ih fun q hq => h q (List.mem_cons_of_mem p hq)
    cases rest with
    | nil =>
      rw [String.intercalate_singleton]
      exact h p List.mem_cons_self
    | cons q rest =>
      rw [String.intercalate_cons_cons]
      exact ((h p List.mem_cons_self).append hsep).append hrest

theorem joinDouble {parts : List String} (h : ∀ p ∈ parts, IsWord p) :
    IsWord (Text.joinDouble parts) := by
  refine intercalate ?_ h
  intro c hc
  rcases List.mem_cons.1 hc with rfl | hc
  · rfl
  · rw [List.mem_singleton.1 hc]
    rfl

theorem toNat_lt {c : Char} (h : Limits.isIdentifierPart c = true) : c.toNat < 128 := by
  have hpart : Limits.isIdentifierPart c =
      (decide (65 ≤ c.val ∧ c.val ≤ 90) || decide (97 ≤ c.val) && decide (c.val ≤ 122) ||
        decide (48 ≤ c.val) && decide (c.val ≤ 57) || c == '_') := rfl
  simp only [hpart, Bool.or_eq_true, Bool.and_eq_true, decide_eq_true_eq, beq_iff_eq,
    UInt32.le_iff_toNat_le] at h
  have hnat : c.toNat = c.val.toNat := rfl
  rcases h with ((⟨_, h⟩ | ⟨_, h⟩) | ⟨_, h⟩) | rfl
  · exact hnat ▸ Nat.lt_of_le_of_lt h (by decide)
  · exact hnat ▸ Nat.lt_of_le_of_lt h (by decide)
  · exact hnat ▸ Nat.lt_of_le_of_lt h (by decide)
  · decide

/-- What holds of ASCII letters in any case is kept where they become small. -/
theorem toLower_of_ascii {p : Char → Bool}
    (hp : ∀ n < 128, p (Char.ofNat n) = true → p (Char.ofNat n).toLower = true) {c : Char}
    (hc : c.toNat < 128) (h : p c = true) : p c.toLower = true := by
  have hlower := hp c.toNat hc
  rw [Char.ofNat_toNat] at hlower
  exact hlower h

theorem toLower {c : Char} (h : Limits.isIdentifierPart c = true) :
    Limits.isIdentifierPart c.toLower = true :=
  toLower_of_ascii (by decide +kernel) (toNat_lt h) h

end IsWord

namespace IsName

variable {s t : String}

theorem of_isIdentifier (h : Limits.isIdentifier s.toList = true) : IsName s := h

theorem of_checkIdentifier (h : Limits.checkIdentifier s = .ok ()) : IsName s :=
  (Limits.checkIdentifier_eq_ok_iff.1 h).1

theorem of_requireIdentifier {u : Unit} (h : requireIdentifier s = .ok u) : IsName s := by
  unfold requireIdentifier liftLimit at h
  cases hc : Limits.checkIdentifier s with
  | ok u => exact of_checkIdentifier hc
  | error e =>
    rw [hc] at h
    cases h

theorem of_isValidIdentifier (h : Limits.isValidIdentifier s = true) : IsName s := by
  unfold Limits.isValidIdentifier at h
  cases hc : Limits.checkIdentifier s with
  | ok u => exact of_checkIdentifier hc
  | error e =>
    rw [hc] at h
    cases h

/-- A name starts with a letter or an underscore, and a word follows. -/
theorem exists_cons (h : IsName s) : ∃ c rest, s.toList = c :: rest ∧
    Limits.isIdentifierStart c = true ∧ ∀ d ∈ rest, Limits.isIdentifierPart d = true := by
  unfold IsName at h
  cases hs : s.toList with
  | nil =>
    rw [hs] at h
    cases h
  | cons c rest =>
    rw [hs, Limits.isIdentifier, Bool.and_eq_true, List.all_eq_true] at h
    exact ⟨c, rest, rfl, h⟩

theorem of_cons {c : Char} {rest : List Char} (hs : s.toList = c :: rest)
    (hc : Limits.isIdentifierStart c = true)
    (hrest : ∀ d ∈ rest, Limits.isIdentifierPart d = true) : IsName s := by
  rw [IsName, hs, Limits.isIdentifier, Bool.and_eq_true, List.all_eq_true]
  exact ⟨hc, hrest⟩

theorem isIdentifierPart_of_start {c : Char} (h : Limits.isIdentifierStart c = true) :
    Limits.isIdentifierPart c = true := by
  simp only [Limits.isIdentifierStart, Limits.isIdentifierPart, Char.isAlphanum,
    Bool.or_eq_true] at h ⊢
  rcases h with halpha | hscore
  · exact .inl (.inl halpha)
  · exact .inr hscore

theorem word (h : IsName s) : IsWord s := by
  obtain ⟨c, rest, hs, hstart, hrest⟩ := h.exists_cons
  intro d hd
  rw [hs] at hd
  rcases List.mem_cons.1 hd with rfl | hd
  · exact isIdentifierPart_of_start hstart
  · exact hrest d hd

theorem append (hs : IsName s) (ht : IsWord t) : IsName (s ++ t) := by
  obtain ⟨c, rest, hcons, hstart, hrest⟩ := hs.exists_cons
  have happend : (s ++ t).toList = c :: (rest ++ t.toList) := by
    rw [String.toList_append, hcons, List.cons_append]
  exact of_cons happend hstart fun d hd => (List.mem_append.1 hd).elim (hrest d) (ht d)

theorem toLower_start {c : Char} (h : Limits.isIdentifierStart c = true) :
    Limits.isIdentifierStart c.toLower = true :=
  IsWord.toLower_of_ascii (by decide +kernel) (IsWord.toNat_lt (isIdentifierPart_of_start h)) h

theorem lowerCase (h : IsName s) : IsName (Text.lowerCase s) := by
  obtain ⟨c, rest, hs, hstart, hrest⟩ := h.exists_cons
  have hlower : (Text.lowerCase s).toList = c.toLower :: rest.map Char.toLower := by
    unfold Text.lowerCase
    rw [String.toList_ofList, Text.lowerFrom_ascii _ _ fun d hd => IsWord.toNat_lt (h.word d hd),
      hs, List.map_cons]
  refine of_cons hlower (toLower_start hstart) fun d hd => ?_
  obtain ⟨e, he, rfl⟩ := List.mem_map.1 hd
  exact IsWord.toLower (hrest e he)

end IsName

theorem IsWord.of_isIdentifier {s : String} (h : Limits.isIdentifier s.toList = true) : IsWord s :=
  (IsName.of_isIdentifier h).word

/-- What a name may start with: another name, or nothing. -/
def IsStem (s : String) : Prop := s = "" ∨ IsName s

theorem IsStem.append {s t : String} (hs : IsStem s) (ht : IsName t) : IsName (s ++ t) := by
  rcases hs with rfl | hs
  · rw [String.empty_append]
    exact ht
  · exact hs.append ht.word

end GraphMapper
