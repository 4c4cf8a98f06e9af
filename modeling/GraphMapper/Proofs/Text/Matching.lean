import Mathlib.Computability.Language
import GraphMapper.Compile.Filter

/-!
# Matching text

A text operator asks whether a regular expression matches a stored text as a
whole.  Its expression puts `.*` beside the text that is looked for, so a few
laws of the reading settle which texts match (`Matcher`).  A point stands for
any character that ends no line.  So the text is found where it should be, but
only if no line ends in what stands before or behind it.

The laws hold of a reading from left to right, `Matcher.plain`.
-/

namespace GraphMapper

open Text
open scoped Computability

/-- Regular expressions that consist of literal texts and of `.*`. -/
inductive IsSequence : String → Prop where
  | literal (t : String) : IsSequence (literalPattern t)
  | anything : IsSequence ".*"
  | append {p q : String} (hp : IsSequence p) (hq : IsSequence q) : IsSequence (p ++ q)

/-- A reading of regular expressions: the texts that each of them matches from end to end. -/
structure Matcher where
  language : String → Language Char
  /-- The characters that end a line. -/
  EndsLine : Char → Prop
  literal (t : String) : language (literalPattern t) = {t.toList}
  point (cs : List Char) : cs ∈ language "." ↔ ∃ c, ¬ EndsLine c ∧ cs = [c]
  star : language ".*" = (language ".")∗
  append {p q : String} (hp : IsSequence p) (hq : IsSequence q) :
    language (p ++ q) = language p * language q

namespace Matcher

variable (m : Matcher)

/-- Whether a text matches a regular expression. -/
def Matches (pattern s : String) : Prop := s.toList ∈ m.language pattern

/-- No line ends in a text. -/
def OneLine (s : String) : Prop := ∀ c ∈ s.toList, ¬ m.EndsLine c

variable {m} {s t : String}

theorem matches_literal_iff : m.Matches (literalPattern t) s ↔ s = t := by
  rw [Matches, m.literal]
  exact String.toList_inj

theorem matches_anything_iff : m.Matches ".*" s ↔ m.OneLine s := by
  rw [Matches, m.star, Language.mem_kstar]
  constructor
  · rintro ⟨points, hs, hpoints⟩ c hc
    rw [hs] at hc
    obtain ⟨cs, hcs, hc⟩ := List.mem_flatten.1 hc
    obtain ⟨c', hline, rfl⟩ := (m.point cs).1 (hpoints cs hcs)
    rwa [List.mem_singleton.1 hc]
  · intro hline
    refine ⟨s.toList.map fun c => [c], by simp [← List.flatMap_def], fun cs hcs => ?_⟩
    obtain ⟨c, hc, rfl⟩ := List.mem_map.1 hcs
    exact (m.point [c]).2 ⟨c, hline c hc, rfl⟩

theorem matches_append_iff {p q : String} (hp : IsSequence p) (hq : IsSequence q) :
    m.Matches (p ++ q) s ↔ ∃ a b, s = a ++ b ∧ m.Matches p a ∧ m.Matches q b := by
  rw [Matches, m.append hp hq, Language.mem_mul]
  constructor
  · rintro ⟨as, ha, bs, hb, hs⟩
    refine ⟨.ofList as, .ofList bs, ?_, ?_, ?_⟩
    · rw [← String.toList_inj, String.toList_append, String.toList_ofList, String.toList_ofList, hs]
    · rwa [Matches, String.toList_ofList]
    · rwa [Matches, String.toList_ofList]
  · rintro ⟨a, b, rfl, ha, hb⟩
    exact ⟨a.toList, ha, b.toList, hb, String.toList_append.symm⟩

/-! ## Operators -/

theorem matches_startsWith_iff :
    m.Matches (Operator.startsWith.pattern t) s ↔ ∃ after, s = t ++ after ∧ m.OneLine after := by
  rw [Operator.pattern, matches_append_iff (.literal t) .anything]
  simp only [matches_literal_iff, matches_anything_iff]
  constructor
  · rintro ⟨_, after, rfl, rfl, hline⟩
    exact ⟨after, rfl, hline⟩
  · rintro ⟨after, rfl, hline⟩
    exact ⟨t, after, rfl, rfl, hline⟩

theorem matches_endsWith_iff :
    m.Matches (Operator.endsWith.pattern t) s ↔ ∃ before, s = before ++ t ∧ m.OneLine before := by
  rw [Operator.pattern, matches_append_iff .anything (.literal t)]
  simp only [matches_literal_iff, matches_anything_iff]
  constructor
  · rintro ⟨before, _, rfl, hline, rfl⟩
    exact ⟨before, rfl, hline⟩
  · rintro ⟨before, rfl, hline⟩
    exact ⟨before, t, rfl, hline, rfl⟩

theorem matches_contains_iff :
    m.Matches (Operator.contains.pattern t) s ↔
      ∃ before after, s = before ++ t ++ after ∧ m.OneLine before ∧ m.OneLine after := by
  have hends : m.Matches (".*" ++ literalPattern t) = m.Matches (Operator.endsWith.pattern t) := rfl
  rw [Operator.pattern, matches_append_iff (.append .anything (.literal t)) .anything, hends]
  simp only [matches_endsWith_iff, matches_anything_iff]
  constructor
  · rintro ⟨_, after, rfl, ⟨before, rfl, hbefore⟩, hafter⟩
    exact ⟨before, after, rfl, hbefore, hafter⟩
  · rintro ⟨before, after, rfl, hbefore, hafter⟩
    exact ⟨before ++ t, after, rfl, ⟨before, rfl, hbefore⟩, hafter⟩

theorem oneLine_append {a b : String} : m.OneLine (a ++ b) ↔ m.OneLine a ∧ m.OneLine b := by
  simp only [OneLine, String.toList_append, List.forall_mem_append]

theorem exists_startsWith_iff (h : m.OneLine s) :
    (∃ after, s = t ++ after ∧ m.OneLine after) ↔ t.toList <+: s.toList := by
  constructor
  · rintro ⟨after, rfl, _⟩
    exact ⟨after.toList, String.toList_append.symm⟩
  · rintro ⟨after, hs⟩
    have hs : s = t ++ .ofList after := by
      rw [← String.toList_inj, String.toList_append, String.toList_ofList, hs]
    exact ⟨_, hs, (oneLine_append.1 (hs ▸ h)).2⟩

theorem exists_endsWith_iff (h : m.OneLine s) :
    (∃ before, s = before ++ t ∧ m.OneLine before) ↔ t.toList <:+ s.toList := by
  constructor
  · rintro ⟨before, rfl, _⟩
    exact ⟨before.toList, String.toList_append.symm⟩
  · rintro ⟨before, hs⟩
    have hs : s = .ofList before ++ t := by
      rw [← String.toList_inj, String.toList_append, String.toList_ofList, hs]
    exact ⟨_, hs, (oneLine_append.1 (hs ▸ h)).1⟩

theorem exists_contains_iff (h : m.OneLine s) :
    (∃ before after, s = before ++ t ++ after ∧ m.OneLine before ∧ m.OneLine after) ↔
      t.toList <:+: s.toList := by
  constructor
  · rintro ⟨before, after, rfl, _⟩
    exact ⟨before.toList, after.toList, by rw [String.toList_append, String.toList_append]⟩
  · rintro ⟨before, after, hs⟩
    have hs : s = .ofList before ++ t ++ .ofList after := by
      rw [← String.toList_inj, String.toList_append, String.toList_append, String.toList_ofList,
        String.toList_ofList, hs]
    obtain ⟨hfirst, hafter⟩ := oneLine_append.1 (hs ▸ h)
    exact ⟨_, _, hs, (oneLine_append.1 hfirst).1, hafter⟩

/-- The expressions of the text operators find a text inside a stored one, at its start and at its
end, where no line ends in what is left of the stored text; so a stored text of one line matches
just where the text occurs in it, begins it and ends it. -/
theorem operators_match (m : Matcher) (t s : String) :
    (m.Matches (Operator.contains.pattern t) s ↔
      ∃ before after, s = before ++ t ++ after ∧ m.OneLine before ∧ m.OneLine after) ∧
    (m.Matches (Operator.startsWith.pattern t) s ↔ ∃ after, s = t ++ after ∧ m.OneLine after) ∧
    (m.Matches (Operator.endsWith.pattern t) s ↔ ∃ before, s = before ++ t ∧ m.OneLine before) ∧
    (m.OneLine s →
      (m.Matches (Operator.contains.pattern t) s ↔ t.toList <:+: s.toList) ∧
      (m.Matches (Operator.startsWith.pattern t) s ↔ t.toList <+: s.toList) ∧
      (m.Matches (Operator.endsWith.pattern t) s ↔ t.toList <:+ s.toList)) := by
  refine ⟨matches_contains_iff, matches_startsWith_iff, matches_endsWith_iff, fun h => ⟨?_, ?_, ?_⟩⟩
  · rw [matches_contains_iff, exists_contains_iff h]
  · rw [matches_startsWith_iff, exists_startsWith_iff h]
  · rw [matches_endsWith_iff, exists_endsWith_iff h]

/-! ## A reading from left to right -/

/-- The characters that end a line. -/
def lineEnds : List Char := ['\n', '\r', '\u0085', '\u2028', '\u2029']

/-- A piece of a regular expression. -/
inductive Piece where
  | char (c : Char)
  | point
  | many (p : Piece)

/-- What a piece matches. -/
def Piece.language : Piece → Language Char
  | char c => {[c]}
  | point => {cs : List Char | ∃ c, c ∉ lineEnds ∧ cs = [c]}
  | many p => p.language∗

/-- How far a regular expression was read. -/
structure Reading where
  /-- The last one first. -/
  pieces : List Piece
  /-- Whether a backslash was just read. -/
  escaped : Bool

namespace Reading

/-- Lets the last piece match any number of times. -/
def repeatLast (r : Reading) : Option Reading :=
  match r.pieces with
  | [] | .many _ :: _ => none
  | p :: rest => some ⟨.many p :: rest, false⟩

/-- Reads a character.  Of the operators, this knows the backslash, the point and the star. -/
def step (r : Reading) (c : Char) : Option Reading :=
  if r.escaped then
    if c ∈ patternOperators then some ⟨.char c :: r.pieces, false⟩ else none
  else if c = '\\' then some ⟨r.pieces, true⟩
  else if c = '.' then some ⟨.point :: r.pieces, false⟩
  else if c = '*' then r.repeatLast
  else if c ∈ patternOperators then none
  else some ⟨.char c :: r.pieces, false⟩

variable {pieces : List Piece}

theorem step_escaped {c : Char} (hc : c ∈ patternOperators) :
    step ⟨pieces, true⟩ c = some ⟨.char c :: pieces, false⟩ := by
  simp [step, hc]

theorem step_plain {c : Char} (hc : c ∉ patternOperators) :
    step ⟨pieces, false⟩ c = some ⟨.char c :: pieces, false⟩ := by
  have hbackslash : c ≠ '\\' := fun h => hc (h ▸ by decide)
  have hpoint : c ≠ '.' := fun h => hc (h ▸ by decide)
  have hstar : c ≠ '*' := fun h => hc (h ▸ by decide)
  simp [step, hc, hbackslash, hpoint, hstar]

theorem foldlM_literal (cs : List Char) :
    (cs.flatMap fun c => if c ∈ patternOperators then ['\\', c] else [c]).foldlM step
      ⟨pieces, false⟩ = some ⟨(cs.map Piece.char).reverse ++ pieces, false⟩ := by
  induction cs generalizing pieces with
  | nil => rfl
  | cons c rest ih =>
    have hfirst : (if c ∈ patternOperators then ['\\', c] else [c]).foldlM step ⟨pieces, false⟩ =
        some ⟨.char c :: pieces, false⟩ := by
      split
      · next hc =>
        have hbackslash : step ⟨pieces, false⟩ '\\' = some ⟨pieces, true⟩ := by simp [step]
        simp [hbackslash, step_escaped hc]
      · next hc => simp [step_plain hc]
    rw [List.flatMap_cons, List.foldlM_append, hfirst, Option.bind_eq_bind, Option.bind_some, ih,
      List.map_cons, List.reverse_cons, List.append_assoc, List.singleton_append]

/-- A sequence is read piece by piece, whatever stands before it. -/
theorem foldlM_sequence {p : String} (hp : IsSequence p) :
    ∃ qs, ∀ pieces, p.toList.foldlM step ⟨pieces, false⟩ = some ⟨qs ++ pieces, false⟩ := by
  induction hp with
  | literal t =>
    refine ⟨(t.toList.map Piece.char).reverse, fun pieces => ?_⟩
    rw [literalPattern, String.toList_ofList, foldlM_literal]
  | anything => exact ⟨[.many .point], fun _ => rfl⟩
  | append _ _ ihp ihq =>
    obtain ⟨ps, hps⟩ := ihp
    obtain ⟨qs, hqs⟩ := ihq
    refine ⟨qs ++ ps, fun pieces => ?_⟩
    rw [String.toList_append, List.foldlM_append, hps, Option.bind_eq_bind, Option.bind_some, hqs,
      List.append_assoc]

end Reading

/-- The pieces of a regular expression, in order. -/
def pieces? (p : String) : Option (List Piece) :=
  (p.toList.foldlM Reading.step ⟨[], false⟩).bind fun r =>
    if r.escaped then none else some r.pieces.reverse

/-- The texts that match a regular expression piece by piece; none do if it cannot be read. -/
def plainLanguage (p : String) : Language Char :=
  match pieces? p with
  | some pieces => (pieces.map Piece.language).prod
  | none => 0

theorem plainLanguage_eq {p : String} {pieces : List Piece} (h : pieces? p = some pieces) :
    plainLanguage p = (pieces.map Piece.language).prod := by
  rw [plainLanguage, h]

theorem pieces?_literal (t : String) :
    pieces? (literalPattern t) = some (t.toList.map Piece.char) := by
  rw [pieces?, literalPattern, String.toList_ofList, Reading.foldlM_literal]
  simp

theorem pieces?_append {p q : String} (hp : IsSequence p) (hq : IsSequence q) :
    ∃ ps qs, pieces? p = some ps ∧ pieces? q = some qs ∧ pieces? (p ++ q) = some (ps ++ qs) := by
  obtain ⟨ps, hps⟩ := Reading.foldlM_sequence hp
  obtain ⟨qs, hqs⟩ := Reading.foldlM_sequence hq
  refine ⟨ps.reverse, qs.reverse, ?_, ?_, ?_⟩
  · simp [pieces?, hps]
  · simp [pieces?, hqs]
  · simp [pieces?, String.toList_append, List.foldlM_append, hps, hqs]

theorem prod_language_char (cs : List Char) :
    ((cs.map Piece.char).map Piece.language).prod = {cs} := by
  induction cs with
  | nil => rfl
  | cons c rest ih =>
    rw [List.map_cons, List.map_cons, List.prod_cons, ih]
    ext cs
    rw [Language.mem_mul]
    constructor
    · rintro ⟨_, rfl, _, rfl, rfl⟩
      rfl
    · rintro rfl
      exact ⟨[c], rfl, rest, rfl, rfl⟩

/-- Regular expressions read from left to right. -/
def plain : Matcher where
  language := plainLanguage
  EndsLine c := c ∈ lineEnds
  literal t := by rw [plainLanguage_eq (pieces?_literal t), prod_language_char]
  point cs := by
    have hpoint : pieces? "." = some [.point] := rfl
    rw [plainLanguage_eq hpoint, List.map_singleton, List.prod_singleton]
    rfl
  star := by
    have hpoint : pieces? "." = some [.point] := rfl
    have hstar : pieces? ".*" = some [.many .point] := rfl
    rw [plainLanguage_eq hpoint, plainLanguage_eq hstar, List.map_singleton, List.prod_singleton,
      List.map_singleton, List.prod_singleton]
    rfl
  append hp hq := by
    obtain ⟨ps, qs, hps, hqs, hpq⟩ := pieces?_append hp hq
    rw [plainLanguage_eq hps, plainLanguage_eq hqs, plainLanguage_eq hpq, List.map_append,
      List.prod_append]

theorem operators_match_plain :
    plain.OneLine "1+1=2" ∧ plain.Matches (Operator.contains.pattern "+1") "1+1=2" := by
  have hline : ∀ c ∈ "1+1=2".toList, c ∉ lineEnds := by simp [lineEnds]
  exact ⟨hline, ((operators_match plain "+1" "1+1=2").2.2.2 hline).1.2
    ⟨"1".toList, "=2".toList, rfl⟩⟩

/-- A line that ends before a text hides it. -/
theorem occurrence_missed :
    "a".toList <:+: "\na".toList ∧ ¬ plain.Matches (Operator.contains.pattern "a") "\na" := by
  refine ⟨⟨['\n'], [], rfl⟩, fun h => ?_⟩
  obtain ⟨before, after, hs, hbefore, _⟩ := matches_contains_iff.1 h
  have hs : ['\n', 'a'] = before.toList ++ 'a' :: after.toList := by
    simpa using congrArg String.toList hs
  cases hchars : before.toList with
  | nil =>
    rw [hchars] at hs
    exact absurd (List.cons.inj hs).1 (by decide)
  | cons c rest =>
    rw [hchars] at hs
    obtain rfl := (List.cons.inj hs).1
    exact hbefore '\n' (by simp [hchars]) (by decide : '\n' ∈ lineEnds)

end Matcher

end GraphMapper
