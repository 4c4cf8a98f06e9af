import GraphMapper.Cypher.Clause
import GraphMapper.Proofs.Text.Word

/-!
# Parameters that a text refers to

A parameter stands in a statement as a dollar sign and a name.  `references`
finds these in a text, from left to right; a dollar sign inside a back-quoted
name counts for nothing.

`Mentions` is what makes the printer's pieces fit together: whatever follows a
piece of text, as long as it does not go on with a letter, the parameters of
the whole are those of the piece and then those of the rest.
-/

namespace GraphMapper.Cypher

/-- The parameters that a text refers to; `quoted` says that it starts inside a quoted name. -/
def referencesFrom (quoted : Bool) : List Char → List String
  | [] => []
  | c :: rest =>
    if c = Text.backquote then referencesFrom (!quoted) rest
    else if c = '$' ∧ quoted = false then
      String.ofList (rest.takeWhile Limits.isIdentifierPart) :: referencesFrom quoted rest
    else referencesFrom quoted rest

/-- The parameters that a text refers to, outside quoted names. -/
def references (text : String) : List String := referencesFrom false text.toList

/-- A text that does not go on with a letter, a digit or an underscore. -/
def Apart (cs : List Char) : Prop := ∀ c rest, cs = c :: rest → Limits.isIdentifierPart c = false

/-- A text that refers to no parameter, and does not end inside a quoted name. -/
def Plain (s : String) : Prop :=
  ∀ rest, referencesFrom false (s.toList ++ rest) = referencesFrom false rest

/-- A text that refers to some parameters, and may be followed by what stands apart. -/
def Mentions (s : String) (names : List String) : Prop :=
  ∀ rest, Apart rest →
    referencesFrom false (s.toList ++ rest) = names ++ referencesFrom false rest

/-- A text that may follow the name of a parameter. -/
def Follows (s : String) : Prop := ∀ rest, Apart rest → Apart (s.toList ++ rest)

/-- A text that starts with a blank or a sign may follow a name. -/
theorem Follows.of_head {s : String} {c : Char} {cs : List Char} (hs : s.toList = c :: cs)
    (hc : Limits.isIdentifierPart c = false) : Follows s := by
  intro rest _ d ds hd
  rw [hs, List.cons_append] at hd
  obtain ⟨rfl, _⟩ := List.cons.inj hd
  exact hc

theorem Follows.empty : Follows "" := fun _ h => h

/-- What follows the start of a text does not matter. -/
theorem Follows.head_append {s t : String} {c : Char} {cs : List Char} (hs : s.toList = c :: cs)
    (hc : Limits.isIdentifierPart c = false) : Follows (s ++ t) := by
  have hst : (s ++ t).toList = c :: (cs ++ t.toList) := by
    rw [String.toList_append, hs, List.cons_append]
  exact Follows.of_head hst hc

theorem apart_nil : Apart [] := by
  intro c rest h
  cases h

namespace Plain

variable {s t : String}

theorem of_chars (h : ∀ c ∈ s.toList, c ≠ Text.backquote ∧ c ≠ '$') : Plain s := by
  intro rest
  generalize s.toList = cs at h
  induction cs with
  | nil => rfl
  | cons c cs ih =>
    obtain ⟨hquote, hdollar⟩ := h c List.mem_cons_self
    rw [List.cons_append, referencesFrom, if_neg hquote, if_neg (fun hc => hdollar hc.1)]
    exact ih fun d hd => h d (List.mem_cons_of_mem c hd)

theorem literal (h : (s.toList.all fun c => c != Text.backquote && c != '$') = true) :
    Plain s := by
  refine of_chars fun c hc => ?_
  have hchar := List.all_eq_true.1 h c hc
  simpa using hchar

theorem append (hs : Plain s) (ht : Plain t) : Plain (s ++ t) := by
  intro rest
  rw [String.toList_append, List.append_assoc, hs, ht]

theorem of_word (h : IsWord s) : Plain s := by
  refine of_chars fun c hc => ?_
  have hpart := h c hc
  constructor
  · rintro rfl
    cases hpart
  · rintro rfl
    cases hpart

theorem intercalate {sep : String} {parts : List String} (hsep : Plain sep)
    (h : ∀ p ∈ parts, Plain p) : Plain (sep.intercalate parts) := by
  induction parts with
  | nil =>
    rw [String.intercalate_nil]
    exact fun _ => rfl
  | cons p rest ih =>
    have hrest := ih fun q hq => h q (List.mem_cons_of_mem p hq)
    cases rest with
    | nil =>
      rw [String.intercalate_singleton]
      exact h p List.mem_cons_self
    | cons q rest =>
      rw [String.intercalate_cons_cons]
      exact ((h p List.mem_cons_self).append hsep).append hrest

/-- Nothing inside a quoted name is a reference. -/
theorem referencesFrom_quoted (cs rest : List Char) :
    referencesFrom true (Text.doubleBackquotes cs ++ Text.backquote :: rest) =
      referencesFrom false rest := by
  induction cs with
  | nil => rw [Text.doubleBackquotes, List.nil_append, referencesFrom, if_pos rfl, Bool.not_true]
  | cons c cs ih =>
    rw [Text.doubleBackquotes]
    by_cases hc : c = Text.backquote
    · rw [if_pos hc, List.cons_append, List.cons_append, referencesFrom, if_pos rfl,
        referencesFrom, if_pos rfl]
      exact ih
    · have hdollar : ¬(c = '$' ∧ true = false) := fun h => Bool.noConfusion h.2
      rw [if_neg hc, List.cons_append, referencesFrom, if_neg hc, if_neg hdollar]
      exact ih

theorem quote (name : String) : Plain (Text.quote name) := by
  unfold Text.quote
  by_cases hvalid : Limits.isValidIdentifier name = true
  · rw [if_pos hvalid]
    exact of_word (IsName.of_isValidIdentifier hvalid).word
  · rw [if_neg hvalid]
    intro rest
    unfold Text.backquoted
    rw [String.toList_ofList, List.cons_append, List.cons_append, List.append_assoc, referencesFrom,
      if_pos rfl, Bool.not_false]
    exact referencesFrom_quoted _ _

theorem mentions (h : Plain s) : Mentions s [] := fun rest _ => h rest

end Plain

namespace Mentions

variable {s t : String} {ns ms : List String}

theorem append (hs : Mentions s ns) (ht : Mentions t ms) (hfollows : Follows t) :
    Mentions (s ++ t) (ns ++ ms) := by
  intro rest hrest
  rw [String.toList_append, List.append_assoc, hs _ (hfollows rest hrest), ht rest hrest,
    List.append_assoc]

theorem plain_append (hs : Plain s) (ht : Mentions t ms) : Mentions (s ++ t) ms := by
  intro rest hrest
  rw [String.toList_append, List.append_assoc, hs, ht rest hrest]

/-- A dollar sign and a word refer to that word. -/
theorem reference {name : String} (h : IsWord name) : Mentions ("$" ++ name) [name] := by
  intro rest hrest
  have htake : (name.toList ++ rest).takeWhile Limits.isIdentifierPart = name.toList := by
    rw [List.takeWhile_append_of_pos h]
    cases rest with
    | nil => exact List.append_nil _
    | cons c cs =>
      rw [List.takeWhile_cons_of_neg (by rw [hrest c cs rfl]; exact Bool.false_ne_true)]
      exact List.append_nil _
  have hchars : ("$" ++ name).toList ++ rest = '$' :: (name.toList ++ rest) := by
    rw [String.toList_append]
    rfl
  have hquote : ¬('$' = Text.backquote) := by decide
  rw [hchars, referencesFrom, if_neg hquote, if_pos ⟨rfl, rfl⟩, htake, String.ofList_toList,
    Plain.of_word h rest]
  rfl

/-- A literal text that ends in a dollar sign goes on with a word. -/
theorem literal_dollar {lit name : String} (pre : String) (hlit : lit = pre ++ "$")
    (hpre : Plain pre) (h : IsWord name) : Mentions (lit ++ name) [name] := by
  rw [hlit, String.append_assoc]
  exact plain_append hpre (reference h)

/-- A plain text goes on with such a literal. -/
theorem dollar {lit name : String} (pre : String) (hs : Plain s) (hlit : lit = pre ++ "$")
    (hpre : Plain pre) (h : IsWord name) : Mentions (s ++ lit ++ name) [name] := by
  rw [String.append_assoc]
  exact plain_append hs (literal_dollar pre hlit hpre h)

theorem append_plain (hs : Mentions s ns) (ht : Plain t) (hfollows : Follows t) :
    Mentions (s ++ t) ns := by
  have happend := hs.append ht.mentions hfollows
  rw [List.append_nil] at happend
  exact happend

theorem references_eq (h : Mentions s ns) : references s = ns := by
  have hall := h [] apart_nil
  rw [List.append_nil] at hall
  rw [references, hall]
  exact List.append_nil ns

end Mentions

end GraphMapper.Cypher
