import GraphMapper.Proofs.Cypher.Chain
import GraphMapper.Proofs.Cypher.Scanner

/-!
# Reading what is matched

The patterns of a clause are read back from its text: the marks of a node and
of the edges that lead on from it, one fragment after the other with a comma
between.  A reader goes from mark to mark and keeps the pattern that it has
read so far.

The main statement is `readFragments_clauseText`: the text of a clause reads
back as the patterns of that clause, if nodes and edges have names for their
variables.  A clause that matches nothing reads back as no pattern at all.
-/

namespace GraphMapper.Cypher

/-! ## The reader -/

mutual

/-- Reads a node, which `draw` adds to the pattern before it, and what follows. -/
def readNode (draw : NodePattern → Pattern) : List Mark → Option (List Pattern)
  | .opening :: .name v :: .closing :: ms => readOn (draw ⟨some v, none⟩) ms
  | .opening :: .name v :: .colon :: ms =>
    readLabels (fun labels => draw ⟨some v, some labels⟩) [] ms
  | _ => none

/-- Reads on where a label has to come, or where a node without any ends. -/
def readLabels (draw : List String → Pattern) (labels : List String) :
    List Mark → Option (List Pattern)
  | .closing :: ms => if labels.isEmpty then readOn (draw []) ms else none
  | .name l :: .bar :: ms => readLabels draw (labels ++ [l]) ms
  | .name l :: .closing :: ms => readOn (draw (labels ++ [l])) ms
  | _ => none

/-- Reads on behind a node: the pattern ends, another one follows, or an edge does. -/
def readOn (p : Pattern) : List Mark → Option (List Pattern)
  | [] => some [p]
  | .comma :: ms => (readNode .node ms).map (p :: ·)
  | .dash :: .opensEdge :: ms => readEdge p false ms
  | .left :: .dash :: .opensEdge :: ms => readEdge p true ms
  | _ => none

/-- Reads an edge from behind its bracket; `incoming` says that an arrow's head stands before it. -/
def readEdge (p : Pattern) (incoming : Bool) : List Mark → Option (List Pattern)
  | .name v :: .colon :: .name t :: .closesEdge :: .dash :: .right :: ms =>
    if incoming then none else readNode (p.extend ⟨some v, t, .outgoing, []⟩) ms
  | .name v :: .colon :: .name t :: .closesEdge :: .dash :: ms =>
    readNode (p.extend ⟨some v, t, if incoming then .incoming else .either, []⟩) ms
  | _ => none

end

/-- The patterns that some marks match, with whether they are optional. -/
def fragmentsOf : List Mark → Option (List (Pattern × Bool))
  | .name "MATCH" :: ms => (readNode .node ms).map fun ps => ps.map fun p => (p, false)
  | .name "OPTIONAL" :: .name "MATCH" :: ms =>
    (readNode .node ms).map fun ps => ps.map fun p => (p, true)
  | _ => some []

/-- The patterns that the text of a clause matches. -/
def readFragments (text : String) : Option (List (Pattern × Bool)) :=
  fragmentsOf (marks text.toList)

/-- The patterns that some clauses match, read from the text of one after the other; blocks inside
have their own. -/
def readMatches (clauses : List Clause) : Option (List (Pattern × Bool)) :=
  ((clauses.map clauseText).mapM readFragments).map List.flatten

/-! ## What can be read -/

/-- A node with a name for its variable. -/
def NodePattern.Legible (n : NodePattern) : Prop := ∃ v, n.var? = some v ∧ IsName v

/-- An edge with a name for its variable, and without properties. -/
def EdgePattern.Legible (e : EdgePattern) : Prop :=
  (∃ v, e.var? = some v ∧ IsName v) ∧ e.properties = []

/-- A pattern of legible nodes and edges. -/
structure Pattern.Legible (p : Pattern) : Prop where
  start : p.start.Legible
  steps : ∀ s ∈ p.steps, s.1.Legible ∧ s.2.Legible

variable {n : NodePattern} {e : EdgePattern} {p : Pattern} {rest : List Char}

theorem Pattern.Legible.of_links (hstart : p.start.Legible)
    (hlinks : ∀ l ∈ p.links, l.edge.Legible ∧ l.target.Legible) : p.Legible where
  start := hstart
  steps s hs := by
    obtain ⟨l, hl, hedge, htarget⟩ := Pattern.exists_link hs
    rw [← hedge, ← htarget]
    exact hlinks l hl

/-! ## Nodes -/

theorem readLabels_text (draw : List String → Pattern) (labels : List String) (l : String)
    (more : List String) (rest : List Char) :
    readLabels draw labels
        (marks (("|".intercalate ((l :: more).map Text.quote)).toList ++ ')' :: rest)) =
      readOn (draw (labels ++ l :: more)) (marks rest) := by
  induction more generalizing labels l with
  | nil =>
    rw [List.map_singleton, String.intercalate_singleton, marks_quote l clear_closing,
      marks_sign rest rfl]
    rfl
  | cons l' more ih =>
    have hbar (cs : List Char) : "|".toList ++ cs = '|' :: cs := rfl
    rw [List.map_cons, List.map_cons, String.intercalate_cons_cons, String.toList_append,
      String.toList_append, List.append_assoc, List.append_assoc, hbar,
      marks_quote l clear_bar, marks_sign _ rfl, ← List.map_cons]
    have hmore := ih (labels ++ [l]) l'
    rw [List.append_assoc, List.singleton_append] at hmore
    exact hmore

/-- A node is read back, and reading goes on behind it. -/
theorem readNode_text (draw : NodePattern → Pattern) (h : n.Legible) (rest : List Char) :
    readNode draw (marks (n.text.toList ++ rest)) = readOn (draw n) (marks rest) := by
  obtain ⟨_, labels?⟩ := n
  obtain ⟨v, rfl, hv⟩ := h
  cases labels? with
  | none =>
    have htext : (NodePattern.text ⟨some v, none⟩).toList ++ rest =
        '(' :: (v.toList ++ ')' :: rest) := by
      simp [NodePattern.text]
    rw [htext, marks_sign _ rfl, marks_name hv clear_closing, marks_sign rest rfl]
    rfl
  | some labels =>
    have htext : (NodePattern.text ⟨some v, some labels⟩).toList ++ rest =
        '(' :: (v.toList ++
          ':' :: (("|".intercalate (labels.map Text.quote)).toList ++ ')' :: rest)) := by
      simp [NodePattern.text]
    rw [htext, marks_sign _ rfl, marks_name hv clear_colon, marks_sign _ rfl]
    cases labels with
    | nil =>
      rw [List.map_nil, String.intercalate_nil, String.toList_empty, List.nil_append,
        marks_sign rest rfl]
      rfl
    | cons l more =>
      exact readLabels_text (fun labels => draw ⟨some v, some labels⟩) [] l more rest

/-- The text of a node starts with a parenthesis. -/
theorem NodePattern.marks_text (n : NodePattern) (rest : List Char) :
    ∃ ms, marks (n.text.toList ++ rest) = .opening :: ms := by
  obtain ⟨cs, hcs⟩ : ∃ cs, n.text.toList ++ rest = '(' :: cs := by
    simp [NodePattern.text]
  exact ⟨marks cs, by rw [hcs, marks_sign cs rfl]; rfl⟩

/-! ## Edges -/

/-- What stands in the brackets of an edge. -/
theorem marks_inside {v t : String} (hv : IsName v) (rest : List Char) :
    marks ((v ++ ":" ++ Text.quote t).toList ++ ']' :: rest) =
      .name v :: .colon :: .name t :: .closesEdge :: marks rest := by
  have htext : (v ++ ":" ++ Text.quote t).toList ++ ']' :: rest =
      v.toList ++ ':' :: ((Text.quote t).toList ++ ']' :: rest) := by
    simp
  rw [htext, marks_name hv clear_colon, marks_sign _ rfl, marks_quote t clear_closesEdge,
    marks_sign rest rfl]
  rfl

/-- An edge is read back with the node that it leads to. -/
theorem readOn_text (p : Pattern) (he : e.Legible) (hn : n.Legible) (rest : List Char) :
    readOn p (marks (e.text.toList ++ (n.text.toList ++ rest))) =
      readOn (p.extend e n) (marks rest) := by
  obtain ⟨_, t, direction, _⟩ := e
  obtain ⟨⟨v, rfl, hv⟩, rfl⟩ := he
  have hnode := readNode_text (p.extend ⟨some v, t, direction, []⟩) hn rest
  rw [← hnode]
  generalize hafter : n.text.toList ++ rest = after
  cases direction with
  | outgoing =>
    have htext : (EdgePattern.text ⟨some v, t, .outgoing, []⟩).toList ++ after =
        '-' :: '[' :: ((v ++ ":" ++ Text.quote t).toList ++ ']' :: '-' :: '>' :: after) := by
      simp [EdgePattern.text, arrow]
    rw [htext, marks_sign _ rfl, marks_sign _ rfl, marks_inside hv, marks_sign _ rfl,
      marks_sign _ rfl]
    rfl
  | incoming =>
    have htext : (EdgePattern.text ⟨some v, t, .incoming, []⟩).toList ++ after =
        '<' :: '-' :: '[' :: ((v ++ ":" ++ Text.quote t).toList ++ ']' :: '-' :: after) := by
      simp [EdgePattern.text, arrow]
    obtain ⟨ms, hms⟩ := n.marks_text rest
    rw [hafter] at hms
    rw [htext, marks_sign _ rfl, marks_sign _ rfl, marks_sign _ rfl, marks_inside hv,
      marks_sign _ rfl, hms]
    rfl
  | either =>
    have htext : (EdgePattern.text ⟨some v, t, .either, []⟩).toList ++ after =
        '-' :: '[' :: ((v ++ ":" ++ Text.quote t).toList ++ ']' :: '-' :: after) := by
      simp [EdgePattern.text, arrow]
    -- The head of an arrow would go on behind the dash, but a node stands there.
    obtain ⟨ms, hms⟩ := n.marks_text rest
    rw [hafter] at hms
    rw [htext, marks_sign _ rfl, marks_sign _ rfl, marks_inside hv, marks_sign _ rfl, hms]
    rfl

/-! ## Patterns -/

theorem readOn_steps (p : Pattern) {steps : List (EdgePattern × NodePattern)}
    (h : ∀ s ∈ steps, s.1.Legible ∧ s.2.Legible) (rest : List Char) :
    readOn p (marks ((String.join (steps.map fun s => s.1.text ++ s.2.text)).toList ++ rest)) =
      readOn ⟨p.start, p.steps ++ steps⟩ (marks rest) := by
  induction steps generalizing p with
  | nil =>
    rw [List.append_nil]
    rfl
  | cons s steps ih =>
    obtain ⟨e, n⟩ := s
    obtain ⟨he, hn⟩ := h (e, n) List.mem_cons_self
    rw [List.map_cons, String.join_cons, String.toList_append, String.toList_append,
      List.append_assoc, List.append_assoc, readOn_text p he hn,
      ih _ fun s hs => h s (List.mem_cons_of_mem _ hs)]
    simp only [Pattern.extend, List.append_assoc, List.singleton_append]

/-- A pattern is read back, and reading goes on behind it. -/
theorem readNode_pattern (h : p.Legible) (rest : List Char) :
    readNode .node (marks (p.text.toList ++ rest)) = readOn p (marks rest) := by
  unfold Pattern.text
  rw [String.toList_append, List.append_assoc, readNode_text .node h.start,
    readOn_steps _ h.steps]
  rfl

/-- Patterns with commas between them are read back one by one. -/
theorem readNode_patterns {ps : List Pattern} (hp : p.Legible) (hps : ∀ q ∈ ps, q.Legible) :
    readNode .node (marks (", ".intercalate ((p :: ps).map Pattern.text)).toList) =
      some (p :: ps) := by
  induction ps generalizing p with
  | nil =>
    have hread := readNode_pattern hp []
    rw [List.append_nil] at hread
    rw [List.map_singleton, String.intercalate_singleton, hread]
    rfl
  | cons q ps ih =>
    have hcomma (cs : List Char) : ", ".toList ++ cs = ',' :: ' ' :: cs := rfl
    have hread := ih (hps q List.mem_cons_self) fun q' hq' => hps q' (List.mem_cons_of_mem q hq')
    rw [List.map_cons, List.map_cons, String.intercalate_cons_cons, String.toList_append,
      String.toList_append, List.append_assoc, hcomma, readNode_pattern hp, marks_sign _ rfl,
      marks_blank, ← List.map_cons]
    exact congrArg (Option.map (p :: ·)) hread

/-! ## Clauses -/

/-- The patterns that a clause matches, with whether they are optional. -/
def Clause.fragments : Clause → List (Pattern × Bool)
  | .matching patterns => patterns.map fun p => (p, false)
  | .optionalMatching p => [(p, true)]
  | _ => []

theorem isName_match : IsName "MATCH" := IsName.of_isIdentifier rfl

theorem readFragments_match (text : String) :
    readFragments ("MATCH " ++ text) =
      (readNode .node (marks text.toList)).map fun ps => ps.map fun p => (p, false) := by
  have htext : ("MATCH " ++ text).toList = "MATCH".toList ++ ' ' :: text.toList := by simp
  rw [readFragments, htext, marks_keyword _ isName_match]
  rfl

theorem readFragments_optionalMatch (text : String) :
    readFragments ("OPTIONAL MATCH " ++ text) =
      (readNode .node (marks text.toList)).map fun ps => ps.map fun p => (p, true) := by
  have hoptional : IsName "OPTIONAL" := IsName.of_isIdentifier rfl
  have htext : ("OPTIONAL MATCH " ++ text).toList =
      "OPTIONAL".toList ++ ' ' :: ("MATCH".toList ++ ' ' :: text.toList) := by simp
  rw [readFragments, htext, marks_keyword _ hoptional, marks_keyword _ isName_match]
  rfl

/-- A text that starts with another keyword matches nothing. -/
theorem readFragments_keyword {kw text : String} (hkw : IsName kw) (hmatch : kw ≠ "MATCH")
    (hoptional : kw ≠ "OPTIONAL") (htext : kw.toList ++ [' '] <+: text.toList) :
    readFragments text = some [] := by
  obtain ⟨rest, hrest⟩ := htext
  rw [readFragments, ← hrest, List.append_assoc, List.singleton_append, marks_keyword rest hkw]
  unfold fragmentsOf
  split
  · next h => exact absurd (Mark.name.inj (List.cons.inj h).1) hmatch
  · next h => exact absurd (Mark.name.inj (List.cons.inj h).1) hoptional
  · rfl

theorem readFragments_parts (page : Page) :
    readFragments (" ".intercalate page.parts) = some [] := by
  obtain ⟨skip?, limit?⟩ := page
  cases skip? with
  | none =>
    cases limit? with
    | none => rfl
    | some n =>
      have hlimit : IsName "LIMIT" := IsName.of_isIdentifier rfl
      exact readFragments_keyword hlimit (by decide) (by decide) (by simp [Page.parts])
  | some m =>
    have hskip : IsName "SKIP" := IsName.of_isIdentifier rfl
    cases limit? with
    | none => exact readFragments_keyword hskip (by decide) (by decide) (by simp [Page.parts])
    | some n => exact readFragments_keyword hskip (by decide) (by decide) (by simp [Page.parts])

/-- The text of a clause reads back as the patterns that it matches. -/
theorem readFragments_clauseText {c : Clause} (hne : c ≠ .matching [])
    (h : ∀ f ∈ c.fragments, f.1.Legible) : readFragments (clauseText c) = some c.fragments := by
  have hwith : IsName "WITH" := IsName.of_isIdentifier rfl
  cases c with
  | matching ps =>
    cases ps with
    | nil => exact absurd rfl hne
    | cons p ps =>
      have hread := readNode_patterns (h (p, false) List.mem_cons_self) fun q hq =>
        h (q, false) (List.mem_cons_of_mem _ (List.mem_map_of_mem hq))
      rw [clauseText, readFragments_match, hread]
      rfl
  | optionalMatching p =>
    have hread := readNode_pattern (h (p, true) List.mem_cons_self) []
    rw [List.append_nil] at hread
    rw [clauseText, readFragments_optionalMatch, hread]
    rfl
  | filter fs =>
    have hwhere : IsName "WHERE" := IsName.of_isIdentifier rfl
    exact readFragments_keyword hwhere (by decide) (by decide) (by simp [clauseText])
  | lateFilter fs | stage distinct items order =>
    exact readFragments_keyword hwith (by decide) (by decide) (by simp [clauseText])
  | call imports body =>
    have hcall : IsName "CALL" := IsName.of_isIdentifier rfl
    exact readFragments_keyword hcall (by decide) (by decide) (by simp [clauseText])
  | keep var page =>
    refine readFragments_keyword hwith (by decide) (by decide) ?_
    cases hparts : page.parts with
    | nil => simp [clauseText, hparts]
    | cons q qs => simp [clauseText, hparts]
  | returning items =>
    have hreturn : IsName "RETURN" := IsName.of_isIdentifier rfl
    exact readFragments_keyword hreturn (by decide) (by decide) (by simp [clauseText])
  | ordering terms =>
    have horder : IsName "ORDER" := IsName.of_isIdentifier rfl
    exact readFragments_keyword horder (by decide) (by decide) (by simp [clauseText])
  | paging page => exact readFragments_parts page

example : readFragments "MATCH (a:A)-[r1:X]->(b:`B C`|D)<-[q:Y]-(c), (a)" = some
    [(⟨⟨some "a", some ["A"]⟩,
        [(⟨some "r1", "X", .outgoing, []⟩, ⟨some "b", some ["B C", "D"]⟩),
          (⟨some "q", "Y", .incoming, []⟩, ⟨some "c", none⟩)]⟩, false),
      (.node (.bound "a"), false)] := by
  decide +kernel

/-- Clauses read back one by one. -/
theorem readMatches_eq {cs : List Clause} (hne : ∀ c ∈ cs, c ≠ .matching [])
    (h : ∀ f ∈ cs.flatMap Clause.fragments, f.1.Legible) :
    readMatches cs = some (cs.flatMap Clause.fragments) := by
  have hread : (cs.map clauseText).mapM readFragments = some (cs.map Clause.fragments) := by
    induction cs with
    | nil => rfl
    | cons c rest ih =>
      have hc := readFragments_clauseText (hne c List.mem_cons_self) fun f hf =>
        h f (List.mem_append_left _ hf)
      have hrest := ih (fun c hc => hne c (List.mem_cons_of_mem _ hc)) fun f hf =>
        h f (List.mem_append_right _ hf)
      rw [List.map_cons, List.mapM_cons, hc, hrest]
      rfl
  rw [readMatches, hread, List.flatMap_def]
  rfl

end GraphMapper.Cypher
