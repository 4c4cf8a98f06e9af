import Mathlib.Data.List.Infix
import GraphMapper.Text.Name
import GraphMapper.Text.Search

/-!
# Words inside texts

Where in a text that is put together from parts a word can occur.  Two parts
that meet at a character of no word have every word inside one of them
(`holds_append`), and the quotes around a name take no word away and bring none
in (`holds_quote`): a backquote is in no word, doubled or not.
-/

namespace GraphMapper.Text

section Lists

variable {w a b cs : List Char} {c : Char}

theorem occursIn_iff : occursIn w cs = true ↔ w <:+: cs := by
  induction cs with
  | nil => rw [occursIn, List.isEmpty_iff, List.infix_nil]
  | cons c rest ih =>
    rw [occursIn, Bool.or_eq_true, List.isPrefixOf_iff_prefix, ih, List.infix_cons_iff]

/-- What a text starts with ends before a character that it does not have. -/
theorem prefix_append_cons_iff (hc : c ∉ w) : w <+: a ++ c :: b ↔ w <+: a := by
  constructor
  · intro h
    induction a generalizing w with
    | nil =>
      cases w with
      | nil => exact List.nil_prefix
      | cons d w =>
        obtain ⟨rfl, -⟩ := List.cons_prefix_cons.1 h
        exact absurd List.mem_cons_self hc
    | cons x a ih =>
      cases w with
      | nil => exact List.nil_prefix
      | cons d w =>
        obtain ⟨hd, hrest⟩ := List.cons_prefix_cons.1 h
        have hw := ih (fun hmem => hc (List.mem_cons_of_mem d hmem)) hrest
        exact List.cons_prefix_cons.2 ⟨hd, hw⟩
  · intro h
    exact h.trans (List.prefix_append a (c :: b))

/-- A word lies on one side of a character that it does not have. -/
theorem infix_append_cons_iff (hc : c ∉ w) : w <:+: a ++ c :: b ↔ w <:+: a ∨ w <:+: b := by
  induction a with
  | nil =>
    have hprefix : w <+: c :: b ↔ w <+: [] := prefix_append_cons_iff (a := []) hc
    rw [List.nil_append, List.infix_cons_iff, hprefix, List.prefix_nil, List.infix_nil]
  | cons x a ih =>
    have hprefix : w <+: x :: (a ++ c :: b) ↔ w <+: x :: a :=
      prefix_append_cons_iff (a := x :: a) hc
    rw [List.cons_append, List.infix_cons_iff, List.infix_cons_iff, hprefix, ih, or_assoc]

theorem infix_cons_iff_of_notMem (hc : c ∉ w) : w <:+: c :: b ↔ w <:+: b := by
  have hsplit : w <:+: c :: b ↔ w <:+: [] ∨ w <:+: b := infix_append_cons_iff (a := []) hc
  exact hsplit.trans (or_iff_right_of_imp fun h => List.infix_nil.1 h ▸ List.nil_infix)

theorem infix_concat_iff_of_notMem (hc : c ∉ w) : w <:+: a ++ [c] ↔ w <:+: a :=
  (infix_append_cons_iff hc).trans
    (or_iff_left_of_imp fun h => List.infix_nil.1 h ▸ List.nil_infix)

theorem prefix_doubleBackquotes_iff (hw : backquote ∉ w) :
    w <+: doubleBackquotes cs ↔ w <+: cs := by
  induction cs generalizing w with
  | nil => rfl
  | cons c rest ih =>
    cases w with
    | nil => exact iff_of_true List.nil_prefix List.nil_prefix
    | cons d w =>
      obtain ⟨hd, hw⟩ := not_or.1 (fun h => hw (List.mem_cons.2 h))
      by_cases hc : c = backquote
      · have hne : d ≠ c := fun heq => hd (heq.trans hc).symm
        rw [doubleBackquotes, if_pos hc, ← hc]
        exact iff_of_false (fun h => hne (List.cons_prefix_cons.1 h).1)
          (fun h => hne (List.cons_prefix_cons.1 h).1)
      · rw [doubleBackquotes, if_neg hc, List.cons_prefix_cons, List.cons_prefix_cons, ih hw]

/-- Doubling the backquotes of a text does not change which words it has. -/
theorem infix_doubleBackquotes_iff (hw : backquote ∉ w) :
    w <:+: doubleBackquotes cs ↔ w <:+: cs := by
  induction cs with
  | nil => rfl
  | cons c rest ih =>
    have hprefix : w <+: doubleBackquotes (c :: rest) ↔ w <+: c :: rest :=
      prefix_doubleBackquotes_iff hw
    by_cases hc : c = backquote
    · have hcons (t : List Char) : w <:+: backquote :: t ↔ w <:+: t := infix_cons_iff_of_notMem hw
      rw [doubleBackquotes, if_pos hc, hc, hcons, hcons, hcons, ih]
    · rw [doubleBackquotes, if_neg hc] at hprefix ⊢
      rw [List.infix_cons_iff, List.infix_cons_iff, hprefix, ih]

end Lists

section Words

variable {words : List String} {a b s : String}

/-- Whether one of some words occurs in a text. -/
def holds (words : List String) (s : String) : Bool :=
  words.any fun word => occursIn word.toList s.toList

/-- Whether a character is in none of some words. -/
def isApart (words : List String) (c : Char) : Bool :=
  words.all fun word => !word.toList.contains c

/-- Whether a text starts with a character that is in none of some words. -/
def opens (words : List String) (s : String) : Bool := s.toList.head?.any (isApart words)

/-- Whether a text ends with a character that is in none of some words. -/
def closes (words : List String) (s : String) : Bool := s.toList.getLast?.any (isApart words)

theorem holds_iff : holds words s = true ↔ ∃ word ∈ words, word.toList <:+: s.toList := by
  rw [holds, List.any_eq_true]
  exact exists_congr fun word => and_congr_right fun _ => occursIn_iff

theorem isApart_iff {c : Char} : isApart words c = true ↔ ∀ word ∈ words, c ∉ word.toList := by
  simp [isApart]

theorem opens_iff :
    opens words s = true ↔ ∃ c rest, s.toList = c :: rest ∧ isApart words c = true := by
  rw [opens, Option.any_eq_true]
  constructor
  · rintro ⟨c, hhead, hc⟩
    obtain ⟨rest, hs⟩ := List.head?_eq_some_iff.1 hhead
    exact ⟨c, rest, hs, hc⟩
  · rintro ⟨c, rest, hs, hc⟩
    exact ⟨c, List.head?_eq_some_iff.2 ⟨rest, hs⟩, hc⟩

theorem closes_iff :
    closes words s = true ↔ ∃ front c, s.toList = front ++ [c] ∧ isApart words c = true := by
  rw [closes, Option.any_eq_true]
  constructor
  · rintro ⟨c, hlast, hc⟩
    obtain ⟨front, hs⟩ := List.getLast?_eq_some_iff.1 hlast
    exact ⟨front, c, hs, hc⟩
  · rintro ⟨front, c, hs, hc⟩
    exact ⟨c, List.getLast?_eq_some_iff.2 ⟨front, hs⟩, hc⟩

theorem opens_append (h : opens words a = true) : opens words (a ++ b) = true := by
  obtain ⟨c, rest, ha, hc⟩ := opens_iff.1 h
  refine opens_iff.2 ⟨c, rest ++ b.toList, ?_, hc⟩
  rw [String.toList_append, ha, List.cons_append]

theorem closes_append (h : closes words b = true) : closes words (a ++ b) = true := by
  obtain ⟨front, c, hb, hc⟩ := closes_iff.1 h
  refine closes_iff.2 ⟨a.toList ++ front, c, ?_, hc⟩
  rw [String.toList_append, hb, List.append_assoc]

/-- A text that is longer has the words of its parts. -/
theorem holds_append_of_left (h : holds words a = true) : holds words (a ++ b) = true := by
  obtain ⟨word, hword, hinfix⟩ := holds_iff.1 h
  rw [holds_iff, String.toList_append]
  exact ⟨word, hword, hinfix.trans (List.infix_append [] a.toList b.toList)⟩

theorem holds_append_of_right (h : holds words b = true) : holds words (a ++ b) = true := by
  obtain ⟨word, hword, hinfix⟩ := holds_iff.1 h
  rw [holds_iff, String.toList_append]
  exact ⟨word, hword, hinfix.trans (List.suffix_append a.toList b.toList).isInfix⟩

/-- Parts that meet at a character of no word have every word inside one of them. -/
theorem holds_append (h : closes words a = true ∨ opens words b = true) :
    holds words (a ++ b) = (holds words a || holds words b) := by
  have hword (word : String) (hmem : word ∈ words) :
      word.toList <:+: a.toList ++ b.toList ↔
        word.toList <:+: a.toList ∨ word.toList <:+: b.toList := by
    rcases h with h | h
    · obtain ⟨front, c, ha, hc⟩ := closes_iff.1 h
      have hsplit := isApart_iff.1 hc word hmem
      rw [ha, infix_concat_iff_of_notMem hsplit, List.append_assoc, List.singleton_append,
        infix_append_cons_iff hsplit]
    · obtain ⟨c, rest, hb, hc⟩ := opens_iff.1 h
      have hsplit := isApart_iff.1 hc word hmem
      rw [hb, infix_cons_iff_of_notMem hsplit, infix_append_cons_iff hsplit]
  rw [Bool.eq_iff_iff, Bool.or_eq_true, holds_iff, holds_iff, holds_iff, String.toList_append,
    ← exists_or]
  refine exists_congr fun word => ?_
  rw [← and_or_left]
  exact and_congr_right (hword word)

/-- A name has the same words in quotes, as long as no word has a backquote. -/
theorem holds_quote (hwords : isApart words backquote = true) (name : String) :
    holds words (quote name) = holds words name := by
  unfold quote
  split
  · rfl
  · rw [Bool.eq_iff_iff, holds_iff, holds_iff, backquoted, String.toList_ofList]
    refine exists_congr fun word => and_congr_right fun hmem => ?_
    have hback := isApart_iff.1 hwords word hmem
    rw [List.cons_append, infix_cons_iff_of_notMem hback, infix_concat_iff_of_notMem hback,
      infix_doubleBackquotes_iff hback]

end Words

end GraphMapper.Text
