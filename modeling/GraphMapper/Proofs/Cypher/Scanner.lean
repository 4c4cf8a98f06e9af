import GraphMapper.Proofs.Text.Word
import GraphMapper.Text.Name

/-!
# The marks of a text

A scanner turns the characters of a statement into marks: names, whether they
are quoted or not, and signs.  It reads from left to right and stands, after
every character, between two marks, in a word, inside quotes, or behind a
backquote that closes a quoted name unless another one follows.

`marks_name` and `marks_quote` say what it makes of a name, with the rest of
the text present.
-/

namespace GraphMapper.Cypher

/-- A part of a text. -/
inductive Mark where
  | name (s : String)
  /-- The parentheses of a node. -/
  | opening
  | closing
  /-- The brackets of an edge. -/
  | opensEdge
  | closesEdge
  | dash
  | left
  | right
  | colon
  | bar
  | comma
  | other (c : Char)
deriving DecidableEq

/-- The mark of a sign. -/
def Mark.ofSign (c : Char) : Mark :=
  match c with
  | '(' => opening
  | ')' => closing
  | '[' => opensEdge
  | ']' => closesEdge
  | '-' => dash
  | '<' => left
  | '>' => right
  | ':' => colon
  | '|' => bar
  | ',' => comma
  | c => other c

/-- Where a scanner stands. -/
inductive Scanner where
  | between
  | inWord (cs : List Char)
  | inQuotes (cs : List Char)
  /-- Behind a backquote inside quotes. -/
  | behindQuote (cs : List Char)

namespace Scanner

/-- The first character of a mark, with the mark if that is all of it. -/
def begin (c : Char) : Scanner × List Mark :=
  if c = Text.backquote then (inQuotes [], [])
  else if Limits.isIdentifierPart c then (inWord [c], [])
  else if c = ' ' then (between, [])
  else (between, [.ofSign c])

/-- One character more, with the marks that are complete by then. -/
def step : Scanner → Char → Scanner × List Mark
  | between, c => begin c
  | inWord cs, c =>
    if Limits.isIdentifierPart c then (inWord (cs ++ [c]), [])
    else ((begin c).1, .name (String.ofList cs) :: (begin c).2)
  | inQuotes cs, c =>
    if c = Text.backquote then (behindQuote cs, []) else (inQuotes (cs ++ [c]), [])
  | behindQuote cs, c =>
    if c = Text.backquote then (inQuotes (cs ++ [c]), [])
    else ((begin c).1, .name (String.ofList cs) :: (begin c).2)

/-- The mark that the end of the text completes. -/
def finish : Scanner → List Mark
  | between | inQuotes _ => []
  | inWord cs | behindQuote cs => [.name (String.ofList cs)]

/-- The marks of some characters. -/
def run (s : Scanner) : List Char → List Mark
  | [] => s.finish
  | c :: rest => (s.step c).2 ++ run (s.step c).1 rest

end Scanner

/-- The marks of a text. -/
def marks (cs : List Char) : List Mark := Scanner.run .between cs

/-- A text that goes on with neither a word nor a quoted name. -/
def Clear (cs : List Char) : Prop :=
  ∀ c rest, cs = c :: rest → Limits.isIdentifierPart c = false ∧ c ≠ Text.backquote

theorem Clear.cons {c : Char} {rest : List Char} (hpart : Limits.isIdentifierPart c = false)
    (hquote : c ≠ Text.backquote) : Clear (c :: rest) := by
  intro d rest' h
  cases h
  exact ⟨hpart, hquote⟩

section Clear

variable {rest : List Char}

theorem clear_nil : Clear [] := fun _ _ h => by cases h

theorem clear_blank : Clear (' ' :: rest) := Clear.cons rfl (by decide)

theorem clear_colon : Clear (':' :: rest) := Clear.cons rfl (by decide)

theorem clear_bar : Clear ('|' :: rest) := Clear.cons rfl (by decide)

theorem clear_closing : Clear (')' :: rest) := Clear.cons rfl (by decide)

theorem clear_closesEdge : Clear (']' :: rest) := Clear.cons rfl (by decide)

end Clear

/-! ## Signs -/

theorem marks_blank (rest : List Char) : marks (' ' :: rest) = marks rest := rfl

theorem marks_sign {c : Char} (rest : List Char) (h : Scanner.begin c = (.between, [.ofSign c])) :
    marks (c :: rest) = .ofSign c :: marks rest := by
  simp only [marks, Scanner.run, Scanner.step, h, List.cons_append, List.nil_append]

/-! ## Names -/

theorem Scanner.run_inWord {w rest : List Char} (cs : List Char)
    (hw : ∀ c ∈ w, Limits.isIdentifierPart c = true) (hrest : Clear rest) :
    run (inWord cs) (w ++ rest) = .name (String.ofList (cs ++ w)) :: marks rest := by
  induction w generalizing cs with
  | nil =>
    rw [List.nil_append, List.append_nil]
    cases rest with
    | nil => rfl
    | cons c rest =>
      have hpart := (hrest c rest rfl).1
      simp only [run, step, hpart, Bool.false_eq_true, if_false, marks, List.cons_append]
  | cons c w ih =>
    have hpart := hw c List.mem_cons_self
    rw [List.cons_append, run, step, if_pos hpart, List.nil_append,
      ih _ fun d hd => hw d (List.mem_cons_of_mem c hd), List.append_assoc]
    rfl

/-- A name is one mark, if nothing follows that would be part of it. -/
theorem marks_name {name : String} {rest : List Char} (h : IsName name) (hrest : Clear rest) :
    marks (name.toList ++ rest) = .name name :: marks rest := by
  obtain ⟨c, cs, hchars, _⟩ := h.exists_cons
  have hpart (d : Char) (hd : d ∈ c :: cs) : Limits.isIdentifierPart d = true :=
    h.word d (hchars ▸ hd)
  have hquote : c ≠ Text.backquote := by
    rintro rfl
    exact Bool.noConfusion (hpart Text.backquote List.mem_cons_self)
  have hbegin : Scanner.begin c = (.inWord [c], []) := by
    rw [Scanner.begin, if_neg hquote, if_pos (hpart c List.mem_cons_self)]
  rw [hchars, List.cons_append, marks, Scanner.run, Scanner.step, hbegin, List.nil_append,
    Scanner.run_inWord [c] (fun d hd => hpart d (List.mem_cons_of_mem c hd)) hrest,
    List.singleton_append, ← hchars, String.ofList_toList]

/-- A doubled backquote stands for one inside quotes, and any other closes them. -/
theorem Scanner.run_inQuotes {rest : List Char} (cs name : List Char) (hrest : Clear rest) :
    run (inQuotes cs) (Text.doubleBackquotes name ++ Text.backquote :: rest) =
      .name (String.ofList (cs ++ name)) :: marks rest := by
  induction name generalizing cs with
  | nil =>
    rw [Text.doubleBackquotes, List.nil_append, List.append_nil, run, step, if_pos rfl,
      List.nil_append]
    cases rest with
    | nil => rfl
    | cons c rest =>
      have hquote := (hrest c rest rfl).2
      simp only [run, step, hquote, if_false, marks, List.cons_append]
  | cons c name ih =>
    rw [Text.doubleBackquotes]
    by_cases hc : c = Text.backquote
    · subst hc
      rw [if_pos rfl, List.cons_append, List.cons_append, run, step, if_pos rfl, run, step,
        if_pos rfl, List.nil_append, List.nil_append, ih, List.append_assoc]
      rfl
    · rw [if_neg hc, List.cons_append, run, step, if_neg hc, List.nil_append, ih,
        List.append_assoc]
      rfl

/-- A label or relationship type is one mark, quoted or not. -/
theorem marks_quote {rest : List Char} (name : String) (hrest : Clear rest) :
    marks ((Text.quote name).toList ++ rest) = .name name :: marks rest := by
  unfold Text.quote
  by_cases hvalid : Limits.isValidIdentifier name = true
  · rw [if_pos hvalid]
    exact marks_name (IsName.of_isValidIdentifier hvalid) hrest
  · rw [if_neg hvalid]
    unfold Text.backquoted
    have hbegin : Scanner.begin Text.backquote = (.inQuotes [], []) := rfl
    rw [String.toList_ofList, List.cons_append, List.cons_append, List.append_assoc, marks,
      Scanner.run, Scanner.step, hbegin, List.nil_append, List.singleton_append,
      Scanner.run_inQuotes [] _ hrest, List.nil_append, String.ofList_toList]

/-- The keyword that a clause starts with. -/
theorem marks_keyword {kw : String} (rest : List Char) (h : IsName kw) :
    marks (kw.toList ++ ' ' :: rest) = .name kw :: marks rest :=
  marks_name h clear_blank

end GraphMapper.Cypher
