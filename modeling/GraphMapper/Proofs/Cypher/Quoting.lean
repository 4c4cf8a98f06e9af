import GraphMapper.Compile.Merge
import GraphMapper.Proofs.Cypher.Scanner

/-!
# Reading quoted names

A label or relationship type is written so that it can be read back: as a run
of identifier characters, or between backquotes with every backquote doubled
(`readName`).  Reading takes in all of what was written and nothing of what
follows, whatever characters the name has (`readName_quote`).  So a name cannot
end its own quotes, names are not confused, and neither are lists of names with
a separator between them (`quote_reads_back`).

A text that goes on with an identifier character or a backquote is left out: in
front of such a text neither form of a name has an end of its own.
-/

namespace GraphMapper.Cypher

open Text

/-! ## The reader -/

/-- What stands inside quotes, up to the backquote that closes them, and what follows.  A doubled
backquote stands for one. -/
def readQuoted : List Char → Option (List Char × List Char)
  | [] => none
  | [c] => if c = backquote then some ([], []) else none
  | c :: d :: rest =>
    if c = backquote then
      if d = backquote then (readQuoted rest).map fun read => (backquote :: read.1, read.2)
      else some ([], d :: rest)
    else (readQuoted (d :: rest)).map fun read => (c :: read.1, read.2)

/-- Reads a name, and gives what follows: a run of identifier characters, as long as there are any,
or what stands between backquotes. -/
def readName : List Char → Option (String × List Char)
  | [] => none
  | c :: rest =>
    if c = backquote then
      (readQuoted rest).map fun read => (String.ofList read.1, read.2)
    else if Limits.isIdentifierPart c then
      some (String.ofList ((c :: rest).takeWhile Limits.isIdentifierPart),
        (c :: rest).dropWhile Limits.isIdentifierPart)
    else none

theorem length_of_readQuoted {cs rest : List Char} {name : List Char}
    (h : readQuoted cs = some (name, rest)) : rest.length < cs.length := by
  fun_induction readQuoted cs generalizing name with
  | case1 => cases h
  | case2 =>
    cases h
    exact Nat.zero_lt_one
  | case3 => cases h
  | case4 rest' ih =>
    obtain ⟨read, hread, heq⟩ := Option.map_eq_some_iff.1 h
    obtain ⟨-, rfl⟩ := Prod.mk.inj heq
    exact Nat.lt_succ_of_lt (Nat.lt_succ_of_lt (ih hread))
  | case5 =>
    cases h
    exact Nat.lt_succ_self _
  | case6 c d rest' hc ih =>
    obtain ⟨read, hread, heq⟩ := Option.map_eq_some_iff.1 h
    obtain ⟨-, rfl⟩ := Prod.mk.inj heq
    exact Nat.lt_succ_of_lt (ih hread)

/-- Reading a name takes some of the text. -/
theorem length_of_readName {cs rest : List Char} {name : String}
    (h : readName cs = some (name, rest)) : rest.length < cs.length := by
  unfold readName at h
  split at h
  · cases h
  · next c cs =>
    split at h
    · obtain ⟨read, hread, heq⟩ := Option.map_eq_some_iff.1 h
      obtain ⟨-, rfl⟩ := Prod.mk.inj heq
      exact Nat.lt_succ_of_lt (length_of_readQuoted hread)
    · split at h
      · next hpart =>
        obtain ⟨-, rfl⟩ := Prod.mk.inj (Option.some.inj h)
        rw [List.dropWhile_cons_of_pos hpart]
        exact Nat.lt_succ_of_le (List.dropWhile_suffix _).length_le
      · cases h

/-- Reads names with a separator between them, and gives what follows the last one. -/
def readNames (sep : Char) (cs : List Char) : Option (List String × List Char) :=
  match _h : readName cs with
  | none => none
  | some (name, rest) =>
    if rest.head? = some sep then
      (readNames sep rest.tail).map fun read => (name :: read.1, read.2)
    else some ([name], rest)
termination_by cs.length
decreasing_by exact Nat.lt_of_le_of_lt (List.tail_suffix rest).length_le (length_of_readName _h)

/-- Reads a text that is a list of names and nothing else. -/
def readList (sep : Char) (cs : List Char) : Option (List String) :=
  if cs = [] then some []
  else (readNames sep cs).bind fun read => if read.2 = [] then some read.1 else none

/-! ## Names -/

/-- A doubled backquote stands for one, and any other closes the quotes. -/
theorem readQuoted_doubleBackquotes (name : List Char) {rest : List Char} (hrest : Clear rest) :
    readQuoted (doubleBackquotes name ++ backquote :: rest) = some (name, rest) := by
  induction name with
  | nil =>
    cases rest with
    | nil => rfl
    | cons c rest =>
      have hc := (hrest c rest rfl).2
      rw [doubleBackquotes, List.nil_append, readQuoted, if_pos rfl, if_neg hc]
  | cons c name ih =>
    by_cases hc : c = backquote
    · rw [doubleBackquotes, if_pos hc, List.cons_append, List.cons_append, readQuoted, if_pos rfl,
        if_pos rfl, ih, hc]
      rfl
    · rw [doubleBackquotes, if_neg hc, List.cons_append]
      -- Something follows the character, at the least the closing backquote.
      obtain ⟨d, more, hmore⟩ := List.exists_cons_of_ne_nil
        (List.append_ne_nil_of_right_ne_nil (doubleBackquotes name)
          (List.cons_ne_nil backquote rest))
      rw [hmore] at ih ⊢
      rw [readQuoted, if_neg hc, ih]
      rfl

/-- A name that needs no quotes is the run of identifier characters that it starts. -/
theorem readName_name {name : String} {rest : List Char} (h : IsName name) (hrest : Clear rest) :
    readName (name.toList ++ rest) = some (name, rest) := by
  obtain ⟨c, cs, hchars, -⟩ := h.exists_cons
  have hpart : ∀ d ∈ name.toList, Limits.isIdentifierPart d = true := h.word
  have hc : Limits.isIdentifierPart c = true := hpart c (hchars ▸ List.mem_cons_self)
  have hquote : c ≠ backquote := by
    rintro rfl
    exact Bool.noConfusion hc
  have hstop : rest.takeWhile Limits.isIdentifierPart = [] ∧
      rest.dropWhile Limits.isIdentifierPart = rest := by
    cases rest with
    | nil => exact ⟨rfl, rfl⟩
    | cons d rest =>
      have hd : ¬ Limits.isIdentifierPart d = true := by
        rw [(hrest d rest rfl).1]
        exact Bool.false_ne_true
      exact ⟨List.takeWhile_cons_of_neg hd, List.dropWhile_cons_of_neg hd⟩
  have hread : readName (name.toList ++ rest) =
      some (String.ofList ((name.toList ++ rest).takeWhile Limits.isIdentifierPart),
        (name.toList ++ rest).dropWhile Limits.isIdentifierPart) := by
    rw [hchars, List.cons_append, readName, if_neg hquote, if_pos hc]
  rw [hread, List.takeWhile_append_of_pos hpart, List.dropWhile_append_of_pos hpart, hstop.1,
    hstop.2, List.append_nil, String.ofList_toList]

/-- A written name reads back, quoted or not, and what follows it is left. -/
theorem readName_quote (name : String) {rest : List Char} (hrest : Clear rest) :
    readName ((quote name).toList ++ rest) = some (name, rest) := by
  unfold quote
  by_cases hvalid : Limits.isValidIdentifier name = true
  · rw [if_pos hvalid]
    exact readName_name (IsName.of_isValidIdentifier hvalid) hrest
  · have htext : (backquoted name).toList ++ rest =
        backquote :: (doubleBackquotes name.toList ++ backquote :: rest) := by
      simp [backquoted]
    rw [if_neg hvalid, htext, readName, if_pos rfl, readQuoted_doubleBackquotes _ hrest,
      Option.map_some, String.ofList_toList]

theorem quote_injective : Function.Injective quote := by
  intro name name' h
  have hread := readName_quote name clear_nil
  rw [h, readName_quote name' clear_nil] at hread
  exact (congrArg Prod.fst (Option.some.inj hread)).symm

/-! ## Lists of names -/

/-- Some names as they are written with a separator between them. -/
def joinNames (sep : Char) (names : List String) : String :=
  (String.singleton sep).intercalate (names.map quote)

/-- What reading a first name makes of reading a list of them. -/
theorem readNames_of_readName {sep : Char} {cs rest : List Char} {name : String}
    (h : readName cs = some (name, rest)) :
    readNames sep cs =
      if rest.head? = some sep then
        (readNames sep rest.tail).map fun read => (name :: read.1, read.2)
      else some ([name], rest) := by
  rw [readNames]
  split
  · next hnone =>
    rw [h] at hnone
    cases hnone
  · next hsome =>
    rw [h] at hsome
    cases hsome
    rfl

/-- Names that a separator keeps apart read back, up to a text that does not go on with another
one. -/
theorem readNames_joinNames {sep : Char} (hsep : ∀ more, Clear (sep :: more)) {names : List String}
    (hne : names ≠ []) {rest : List Char} (hrest : Clear rest) (hend : rest.head? ≠ some sep) :
    readNames sep ((joinNames sep names).toList ++ rest) = some (names, rest) := by
  induction names with
  | nil => exact absurd rfl hne
  | cons name names ih =>
    cases names with
    | nil =>
      rw [joinNames, List.map_singleton, String.intercalate_singleton,
        readNames_of_readName (readName_quote name hrest), if_neg hend]
    | cons next names =>
      have htext : (joinNames sep (name :: next :: names)).toList ++ rest =
          (quote name).toList ++ sep :: ((joinNames sep (next :: names)).toList ++ rest) := by
        simp [joinNames, String.intercalate_cons_cons]
      rw [htext, readNames_of_readName (readName_quote name (hsep _)), List.head?_cons, if_pos rfl,
        List.tail_cons, ih (List.cons_ne_nil next names)]
      rfl

/-- A text that is nothing but a list of names reads back as that list. -/
theorem readList_joinNames {sep : Char} (hsep : ∀ more, Clear (sep :: more))
    (names : List String) : readList sep (joinNames sep names).toList = some names := by
  cases names with
  | nil => rfl
  | cons name names =>
    have hread := readNames_joinNames hsep (List.cons_ne_nil name names) clear_nil nofun
    rw [List.append_nil] at hread
    have hne : (joinNames sep (name :: names)).toList ≠ [] := by
      intro hnil
      rw [hnil, readNames] at hread
      cases hread
    rw [readList, if_neg hne, hread]
    rfl

/-! ## Names in a statement -/

/-- The labels of a node read back, up to its closing parenthesis. -/
theorem readNames_nodePattern (var? : Option String) {labels : List String} (hne : labels ≠ []) :
    ∃ text, (NodePattern.mk var? (some labels)).text = "(" ++ var?.getD "" ++ ":" ++ text ∧
      readNames '|' text.toList = some (labels, [')']) := by
  refine ⟨joinNames '|' labels ++ ")", ?_, ?_⟩
  · simp only [NodePattern.text, joinNames, String.append_assoc]
    rfl
  · rw [String.toList_append]
    exact readNames_joinNames (fun _ => clear_bar) hne clear_closing (by decide)

/-- No arrow goes on with a name behind an edge's inside. -/
theorem exists_arrow (d : Direction) :
    ∃ opening closing, Clear closing.toList ∧
      ∀ inside, arrow d inside = opening ++ inside ++ closing := by
  cases d with
  | outgoing => exact ⟨"-[", "]->", clear_closesEdge, fun _ => rfl⟩
  | incoming => exact ⟨"<-[", "]-", clear_closesEdge, fun _ => rfl⟩
  | either => exact ⟨"-[", "]-", clear_closesEdge, fun _ => rfl⟩

/-- The type of an edge reads back, up to its properties or the bracket that closes it. -/
theorem readName_edgePattern (e : EdgePattern) :
    ∃ opening text after, e.text = opening ++ e.var?.getD "" ++ ":" ++ text ∧
      readName text.toList = some (e.relType, after) := by
  obtain ⟨opening, closing, hclosing, harrow⟩ := exists_arrow e.direction
  let properties := if e.properties = [] then "" else " " ++ assignments e.properties
  have hafter : Clear (properties ++ closing).toList := by
    unfold properties
    split
    · rwa [String.empty_append]
    · rw [String.toList_append, String.toList_append]
      exact clear_blank
  refine ⟨opening, quote e.relType ++ (properties ++ closing), (properties ++ closing).toList, ?_,
    ?_⟩
  · rw [EdgePattern.text, harrow]
    simp only [String.append_assoc, properties]
  · rw [String.toList_append]
    exact readName_quote e.relType hafter

/-- Labels with a colon before each are a colon and then the list of them. -/
theorem join_colons (label : String) (labels : List String) :
    String.join ((label :: labels).map fun l => ":" ++ quote l) =
      ":" ++ joinNames ':' (label :: labels) := by
  induction labels generalizing label with
  | nil => simp [joinNames]
  | cons next labels ih =>
    rw [List.map_cons, String.join_cons, ih next]
    simp only [joinNames, List.map_cons, String.intercalate_cons_cons, String.append_assoc]
    rfl

/-- The labels of a merged node read back, up to the blank before its keys. -/
theorem readNames_mergeStatement (m : MergeStatement) (hne : m.labels ≠ []) :
    ∃ text after, m.text = "MERGE (" ++ m.var ++ ":" ++ text ∧
      readNames ':' text.toList = some (m.labels, ' ' :: after) := by
  obtain ⟨more, htext⟩ : ∃ more, m.text =
      "MERGE (" ++ m.var ++ ":" ++ (joinNames ':' m.labels ++ (" " ++ more)) := by
    obtain ⟨label, labels, hlabels⟩ := List.exists_cons_of_ne_nil hne
    simp only [MergeStatement.text, hlabels, join_colons, String.append_assoc]
    exact ⟨_, rfl⟩
  refine ⟨_, more.toList, htext, ?_⟩
  rw [String.toList_append, String.toList_append]
  exact readNames_joinNames (fun _ => clear_colon) hne clear_blank
    fun hcolon => absurd (Option.some.inj hcolon) (by decide)

/-- What is written for a name or for a list of names reads back, and no more of the text is taken
than what was written.

* A written name reads back in front of every text that starts with neither an identifier character
  nor a backquote, and that text is left.
* Distinct names are written in distinct ways.
* Names with bars or colons between them read back as a list, which ends with its text or in front
  of a text that does not go on with the separator.
* So do the labels of a node, the type of an edge and the labels of a merged node, each where a
  statement writes it. -/
theorem quote_reads_back :
    (∀ name rest, Clear rest → readName ((quote name).toList ++ rest) = some (name, rest)) ∧
    Function.Injective quote ∧
    (∀ sep, sep = '|' ∨ sep = ':' →
      (∀ names, readList sep (joinNames sep names).toList = some names) ∧
      ∀ names rest, names ≠ [] → Clear rest → rest.head? ≠ some sep →
        readNames sep ((joinNames sep names).toList ++ rest) = some (names, rest)) ∧
    (∀ var? labels, labels ≠ [] →
      ∃ text, (NodePattern.mk var? (some labels)).text = "(" ++ var?.getD "" ++ ":" ++ text ∧
        readNames '|' text.toList = some (labels, [')'])) ∧
    (∀ e : EdgePattern, ∃ opening text after, e.text = opening ++ e.var?.getD "" ++ ":" ++ text ∧
      readName text.toList = some (e.relType, after)) ∧
    ∀ m : MergeStatement, m.labels ≠ [] →
      ∃ text after, m.text = "MERGE (" ++ m.var ++ ":" ++ text ∧
        readNames ':' text.toList = some (m.labels, ' ' :: after) := by
  refine ⟨fun name rest => readName_quote name, quote_injective, fun sep hsep => ?_,
    fun var? labels => readNames_nodePattern var?, readName_edgePattern, readNames_mergeStatement⟩
  have hclear : ∀ more, Clear (sep :: more) := by
    rcases hsep with rfl | rfl
    · exact fun _ => clear_bar
    · exact fun _ => clear_colon
  exact ⟨readList_joinNames hclear, fun names rest hne => readNames_joinNames hclear hne⟩

/-- Backquotes in a run at an end of a name, separators inside a name, and a name of nothing at
all. -/
theorem quote_reads_back_backquotes :
    readName ((quote "`a``").toList ++ "|b".toList) = some ("`a``", "|b".toList) ∧
      readNames '|' ((joinNames '|' ["`|`", "", "Plain"]).toList ++ ")-[".toList) =
        some (["`|`", "", "Plain"], ")-[".toList) ∧
      joinNames '|' ["`|`", "", "Plain"] = "```|```|``|Plain" := by
  obtain ⟨hname, -, hlist, -⟩ := quote_reads_back
  exact ⟨hname "`a``" "|b".toList clear_bar,
    (hlist '|' (.inl rfl)).2 ["`|`", "", "Plain"] ")-[".toList (by decide)
      clear_closing (by decide), by decide +kernel⟩

end GraphMapper.Cypher
