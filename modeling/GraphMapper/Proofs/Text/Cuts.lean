import Mathlib.Data.List.Infix
import GraphMapper.Text.Search

/-!
# Where texts are cut

A text is cut at the first of some character, at the last double underscore, or
at double underscores from the left.  Each cut is told by what lies on its two
sides, without reference to how it is found.

* `splitFirst?_eq_some_iff` and `splitLastDouble?_eq_some_iff` say where the one
  cut is made, and `splitFirst?_eq_none_iff` and `splitLastDouble?_eq_none_iff`
  when there is none.
* `splitDouble_eq_iff` says which parts a text is cut into: those that make the
  text when joined, none of them with a double underscore and none but the last
  with an underscore at its end (`IsCut`).

In a run of underscores the last cut leaves the surplus on its left, and a cut
from the left leaves it on its right.
-/

namespace GraphMapper.Text

/-! ## Double underscores -/

/-- A text without a double underscore. -/
def Single (cs : List Char) : Prop := ¬ ['_', '_'] <:+: cs

instance (cs : List Char) : Decidable (Single cs) := inferInstanceAs (Decidable (¬ _))

theorem single_nil : Single [] := by decide

theorem single_cons_iff {c : Char} {cs : List Char} :
    Single (c :: cs) ↔ Single cs ∧ ¬ (c = '_' ∧ cs.head? = some '_') := by
  unfold Single
  have hprefix : ['_', '_'] <+: c :: cs ↔ c = '_' ∧ cs.head? = some '_' := by
    cases cs <;> simp [List.cons_prefix_cons, eq_comm]
  rw [List.infix_cons_iff, hprefix, not_or, and_comm]

theorem single_underscore_cons_iff {cs : List Char} :
    Single ('_' :: cs) ↔ Single cs ∧ cs.head? ≠ some '_' := by
  simp [single_cons_iff]

theorem single_reverse_iff {cs : List Char} : Single cs.reverse ↔ Single cs := by
  have hdouble : ['_', '_'].reverse <:+: cs.reverse ↔ ['_', '_'] <:+: cs := List.reverse_infix
  exact not_congr hdouble

theorem single_concat_underscore_iff {cs : List Char} :
    Single (cs ++ ['_']) ↔ Single cs ∧ cs.getLast? ≠ some '_' := by
  rw [← single_reverse_iff, List.reverse_concat, single_underscore_cons_iff, single_reverse_iff,
    List.head?_reverse]

/-! ## One cut -/

section SplitFirst

variable {sep : Char} {cs a b : List Char}

theorem splitFirst?_eq_none_iff : splitFirst? sep cs = none ↔ sep ∉ cs := by
  induction cs with
  | nil => simp [splitFirst?]
  | cons c rest ih =>
    rw [splitFirst?]
    by_cases hc : c = sep
    · simp [hc]
    · simp [hc, ih, Ne.symm hc]

theorem splitFirst?_append (ha : sep ∉ a) : splitFirst? sep (a ++ sep :: b) = some (a, b) := by
  induction a with
  | nil => simp [splitFirst?]
  | cons c rest ih =>
    rw [List.mem_cons, not_or] at ha
    simp [splitFirst?, Ne.symm ha.1, ih ha.2]

/-- The first of a character has none of it on its left. -/
theorem splitFirst?_eq_some_iff :
    splitFirst? sep cs = some (a, b) ↔ cs = a ++ sep :: b ∧ sep ∉ a := by
  constructor
  · intro h
    have hmem : sep ∈ cs := Decidable.not_not.1 fun hnone => by
      rw [splitFirst?_eq_none_iff.2 hnone] at h
      cases h
    obtain ⟨before, after, rfl, hbefore⟩ := List.eq_append_cons_of_mem hmem
    rw [splitFirst?_append hbefore] at h
    cases h
    exact ⟨rfl, hbefore⟩
  · rintro ⟨rfl, ha⟩
    exact splitFirst?_append ha

end SplitFirst

section SplitLast

variable {cs a b : List Char}

theorem splitLastDouble?_of_single (h : Single cs) : splitLastDouble? cs = none := by
  induction cs with
  | nil => rfl
  | cons c rest ih =>
    obtain ⟨hrest, hc⟩ := single_cons_iff.1 h
    rw [splitLastDouble?.eq_3 c rest fun after hc' hrest' => hc ⟨hc', hrest' ▸ rfl⟩, ih hrest]

theorem splitLastDouble?_cons_of_eq_some {c : Char} (h : splitLastDouble? cs = some (a, b)) :
    splitLastDouble? (c :: cs) = some (c :: a, b) := by
  unfold splitLastDouble?
  rw [h]

theorem splitLastDouble?_append (hb : Single ('_' :: b)) :
    splitLastDouble? (a ++ '_' :: '_' :: b) = some (a, b) := by
  induction a with
  | nil => rw [List.nil_append, splitLastDouble?, splitLastDouble?_of_single hb]
  | cons c rest ih =>
    rw [List.cons_append, splitLastDouble?_cons_of_eq_some ih]

/-- A text with a double underscore has a last one. -/
theorem exists_last_double (h : ¬ Single cs) :
    ∃ a b, cs = a ++ '_' :: '_' :: b ∧ Single ('_' :: b) := by
  induction cs with
  | nil => exact absurd single_nil h
  | cons c rest ih =>
    by_cases hrest : Single rest
    · obtain ⟨rfl, hhead⟩ : c = '_' ∧ rest.head? = some '_' := by
        simpa [single_cons_iff, hrest] using h
      obtain ⟨after, rfl⟩ := List.head?_eq_some_iff.1 hhead
      exact ⟨[], after, rfl, hrest⟩
    · obtain ⟨before, after, rfl, hafter⟩ := ih hrest
      exact ⟨c :: before, after, rfl, hafter⟩

/-- The last double underscore has no other on its right, nor one that it shares. -/
theorem splitLastDouble?_eq_some_iff :
    splitLastDouble? cs = some (a, b) ↔ cs = a ++ '_' :: '_' :: b ∧ Single ('_' :: b) := by
  constructor
  · intro h
    have hdouble : ¬ Single cs := fun hsingle => by
      rw [splitLastDouble?_of_single hsingle] at h
      cases h
    obtain ⟨before, after, rfl, hafter⟩ := exists_last_double hdouble
    rw [splitLastDouble?_append hafter] at h
    cases h
    exact ⟨rfl, hafter⟩
  · rintro ⟨rfl, hb⟩
    exact splitLastDouble?_append hb

theorem splitLastDouble?_eq_none_iff : splitLastDouble? cs = none ↔ Single cs := by
  refine ⟨fun h => Decidable.not_not.1 fun hdouble => ?_, splitLastDouble?_of_single⟩
  obtain ⟨before, after, rfl, hafter⟩ := exists_last_double hdouble
  rw [splitLastDouble?_append hafter] at h
  cases h

end SplitLast

/-! ## Cuts from the left -/

/-- Parts that a text may be cut into from the left: a part ends where the first double underscore
begins. -/
structure IsCut (parts : List (List Char)) : Prop where
  ne_nil : parts ≠ []
  single : ∀ part ∈ parts, Single part
  ends : ∀ part ∈ parts.dropLast, part.getLast? ≠ some '_'

theorem isCut_singleton_iff {part : List Char} : IsCut [part] ↔ Single part := by
  refine ⟨fun h => h.single part List.mem_cons_self, fun h => ⟨List.cons_ne_nil _ _, ?_, ?_⟩⟩
  · simpa using h
  · simp

/-- A part with another behind it ends in no underscore. -/
theorem isCut_cons_cons_iff {part part' : List Char} {parts : List (List Char)} :
    IsCut (part :: part' :: parts) ↔ Single (part ++ ['_']) ∧ IsCut (part' :: parts) := by
  rw [single_concat_underscore_iff]
  constructor
  · rintro ⟨-, hsingle, hends⟩
    simp only [List.dropLast_cons_cons, List.forall_mem_cons] at hsingle hends
    exact ⟨⟨hsingle.1, hends.1⟩, List.cons_ne_nil _ _, by simpa using hsingle.2, hends.2⟩
  · rintro ⟨⟨hpart, hend⟩, -, hsingle, hends⟩
    refine ⟨List.cons_ne_nil _ _, List.forall_mem_cons.2 ⟨hpart, hsingle⟩, ?_⟩
    rw [List.dropLast_cons_cons]
    exact List.forall_mem_cons.2 ⟨hend, hends⟩

theorem IsCut.of_prefix {parts parts' : List (List Char)} (h : IsCut parts)
    (hbegins : parts' <+: parts) (hne : parts' ≠ []) : IsCut parts' where
  ne_nil := hne
  single part hpart := h.single part (hbegins.subset hpart)
  ends part hpart := by
    obtain ⟨rest, rfl⟩ := hbegins
    cases rest with
    | nil => exact h.ends part (by rwa [List.append_nil])
    | cons next rest =>
      refine h.ends part ?_
      rw [List.dropLast_append_cons]
      exact List.mem_append_left _ (List.mem_of_mem_dropLast hpart)

theorem splitDouble_of_single {cs : List Char} (h : Single cs) : splitDouble cs = [cs] := by
  induction cs with
  | nil => rfl
  | cons c rest ih =>
    obtain ⟨hrest, hc⟩ := single_cons_iff.1 h
    rw [splitDouble.eq_3 c rest fun rest' hc' hrest' => hc ⟨hc', hrest' ▸ rfl⟩, ih hrest]

/-- A part is cut off where it ends in no underscore. -/
theorem splitDouble_append {cs rest : List Char} (h : Single (cs ++ ['_'])) :
    splitDouble (cs ++ '_' :: '_' :: rest) = cs :: splitDouble rest := by
  induction cs with
  | nil => rfl
  | cons c cs ih =>
    obtain ⟨hcs, hc⟩ := single_cons_iff.1 h
    rw [List.cons_append, splitDouble.eq_3 c _ ?_, ih hcs]
    intro rest' hc' hrest'
    cases cs with
    | nil => exact hc ⟨hc', rfl⟩
    | cons d cs => exact hc ⟨hc', congrArg List.head? hrest'⟩

theorem splitDouble_intercalate {parts : List (List Char)} (h : IsCut parts) :
    splitDouble (['_', '_'].intercalate parts) = parts := by
  induction parts with
  | nil => exact absurd rfl h.ne_nil
  | cons part parts ih =>
    cases parts with
    | nil =>
      rw [List.intercalate_singleton]
      exact splitDouble_of_single (isCut_singleton_iff.1 h)
    | cons part' parts =>
      obtain ⟨hpart, hparts⟩ := isCut_cons_cons_iff.1 h
      rw [List.intercalate_cons_cons, List.append_assoc]
      exact (splitDouble_append hpart).trans (congrArg _ (ih hparts))

/-- The parts between double underscores, joined, are the text. -/
theorem intercalate_splitDouble (cs : List Char) :
    ['_', '_'].intercalate (splitDouble cs) = cs := by
  fun_induction splitDouble cs with
  | case1 => rfl
  | case2 rest ih =>
    obtain ⟨part, parts, hparts⟩ := List.exists_cons_of_ne_nil (splitDouble_ne_nil rest)
    rw [hparts] at ih ⊢
    rw [List.intercalate_cons_cons, ih]
    rfl
  | case3 c rest _ hnil => exact absurd hnil (splitDouble_ne_nil rest)
  | case4 c rest _ part parts hparts ih =>
    rw [hparts] at ih
    rw [← ih]
    cases parts <;> rfl

theorem isCut_splitDouble (cs : List Char) : IsCut (splitDouble cs) := by
  fun_induction splitDouble cs with
  | case1 => exact isCut_singleton_iff.2 single_nil
  | case2 rest ih =>
    obtain ⟨part, parts, hparts⟩ := List.exists_cons_of_ne_nil (splitDouble_ne_nil rest)
    rw [hparts] at ih ⊢
    exact isCut_cons_cons_iff.2 ⟨by decide, ih⟩
  | case3 c rest _ hnil => exact absurd hnil (splitDouble_ne_nil rest)
  | case4 c rest hcut part parts hparts ih =>
    have hrest := intercalate_splitDouble rest
    rw [hparts] at ih hrest
    -- No cut is made at the front, whichever part of the rest stands there.
    have hfront (front : List Char) (hhead : front.head? = rest.head?) :
        ¬ (c = '_' ∧ front.head? = some '_') := by
      rintro ⟨hc, hfront⟩
      obtain ⟨rest', hrest'⟩ := List.head?_eq_some_iff.1 (hhead ▸ hfront)
      exact hcut rest' hc hrest'
    cases parts with
    | nil =>
      rw [List.intercalate_singleton] at hrest
      rw [isCut_singleton_iff, single_cons_iff]
      exact ⟨isCut_singleton_iff.1 ih, hfront part (congrArg _ hrest)⟩
    | cons part' parts =>
      obtain ⟨hpart, hparts⟩ := isCut_cons_cons_iff.1 ih
      refine isCut_cons_cons_iff.2 ⟨single_cons_iff.2 ⟨hpart, hfront _ ?_⟩, hparts⟩
      rw [← hrest, List.intercalate_cons_cons]
      cases part <;> rfl

/-- A text is cut into the one list of parts that makes it and is cut itself. -/
theorem splitDouble_eq_iff {cs : List Char} {parts : List (List Char)} :
    splitDouble cs = parts ↔ IsCut parts ∧ ['_', '_'].intercalate parts = cs := by
  constructor
  · rintro rfl
    exact ⟨isCut_splitDouble cs, intercalate_splitDouble cs⟩
  · rintro ⟨hcut, rfl⟩
    exact splitDouble_intercalate hcut

end GraphMapper.Text
