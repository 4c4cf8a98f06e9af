import GraphMapper.Proofs.Cypher.Pieces
import GraphMapper.Proofs.Text.Occurrence

/-!
# Words of clauses in a statement

Where in the text of a statement the word of a clause that changes what is
stored can occur.  The words and signs that the printer puts in itself have none
of these words, and every name, label and parameter stands between two of them.
So the statement of a plan has such a word exactly where a name that is spelled
in it has one (`inert_queryPieces`), whatever the names are.
-/

namespace GraphMapper.Cypher

open Text (holds opens closes)

/-! ## Inert pieces -/

/-- The words of the clauses that change what is stored. -/
def clauseWords : List String := ["MERGE", "CREATE", "DELETE", "SET"]

/-- Whether the word of a clause that changes what is stored occurs in a text. -/
def hasClause (s : String) : Bool := holds clauseWords s

/-- The text that a piece takes over from the plan or the schema, before it is quoted. -/
def Piece.spelled? : Piece → Option String
  | own _ => none
  | name text | label text => some text

/-- The names, labels and parameters among some pieces, as they are in the plan or the schema. -/
def spelled (ps : List Piece) : List String := ps.filterMap Piece.spelled?

@[simp]
theorem spelled_own (text : String) (ps : List Piece) : spelled (.own text :: ps) = spelled ps := rfl

@[simp]
theorem spelled_append (ps qs : List Piece) : spelled (ps ++ qs) = spelled ps ++ spelled qs :=
  List.filterMap_append

theorem textOf_singleton (p : Piece) : textOf [p] = p.text := by
  rw [textOf_cons, textOf_nil, String.append_empty]

/-- Pieces whose text has the word of a clause only inside what they spell. -/
def Inert (ps : List Piece) : Prop := hasClause (textOf ps) = (spelled ps).any hasClause

/-- A sign without the word of a clause, whatever comes after it. -/
def leads (t : String) : Bool := !hasClause t && closes clauseWords t

/-- A sign without the word of a clause, whatever comes before it. -/
def trails (t : String) : Bool := !hasClause t && opens clauseWords t

/-- A sign without the word of a clause, whatever stands around it. -/
def links (t : String) : Bool := leads t && trails t

theorem leads_iff {t : String} :
    leads t = true ↔ hasClause t = false ∧ closes clauseWords t = true := by
  rw [leads, Bool.and_eq_true, Bool.not_eq_true']

theorem trails_iff {t : String} :
    trails t = true ↔ hasClause t = false ∧ opens clauseWords t = true := by
  rw [trails, Bool.and_eq_true, Bool.not_eq_true']

theorem hasClause_append_of_leads {t : String} (ht : leads t = true) (s : String) :
    hasClause (t ++ s) = hasClause s := by
  obtain ⟨hclean, hcloses⟩ := leads_iff.1 ht
  have hsplit : hasClause (t ++ s) = (hasClause t || hasClause s) :=
    Text.holds_append (.inl hcloses)
  rw [hsplit, hclean, Bool.false_or]

theorem hasClause_append_of_trails {t : String} (ht : trails t = true) (s : String) :
    hasClause (s ++ t) = hasClause s := by
  obtain ⟨hclean, hopens⟩ := trails_iff.1 ht
  have hsplit : hasClause (s ++ t) = (hasClause s || hasClause t) :=
    Text.holds_append (.inr hopens)
  rw [hsplit, hclean, Bool.or_false]

namespace Inert

variable {ps qs : List Piece} {t left right : String}

theorem nil : Inert [] := rfl

theorem name (text : String) : Inert [.name text] := by
  rw [Inert, textOf_singleton]
  exact (Bool.or_false _).symm

theorem label (text : String) : Inert [.label text] := by
  rw [Inert, textOf_singleton]
  exact (Text.holds_quote rfl text).trans (Bool.or_false _).symm

/-- Inert pieces one after the other, where the texts meet at a character of no clause. -/
theorem append (hps : Inert ps) (hqs : Inert qs)
    (h : closes clauseWords (textOf ps) = true ∨ opens clauseWords (textOf qs) = true) :
    Inert (ps ++ qs) := by
  have hsplit : hasClause (textOf ps ++ textOf qs) =
      (hasClause (textOf ps) || hasClause (textOf qs)) := Text.holds_append h
  rw [Inert, textOf_append, hsplit, hps, hqs, spelled_append, List.any_append]

theorem behind (ht : leads t = true) (hqs : Inert qs) : Inert (.own t :: qs) := by
  rw [Inert, textOf_cons]
  exact (hasClause_append_of_leads ht (textOf qs)).trans hqs

theorem before (hps : Inert ps) (ht : trails t = true) : Inert (ps ++ [.own t]) := by
  obtain ⟨hclean, hopens⟩ := trails_iff.1 ht
  have htext : textOf [.own t] = t := textOf_singleton (.own t)
  refine hps.append ?_ (.inr (htext.symm ▸ hopens))
  rw [Inert, htext]
  exact hclean

theorem joined (hps : Inert ps) (ht : links t = true) (hqs : Inert qs) :
    Inert (ps ++ .own t :: qs) := by
  obtain ⟨hleads, htrails⟩ := Bool.and_eq_true_iff.1 ht
  refine hps.append (.behind hleads hqs) (.inr ?_)
  rw [textOf_cons]
  exact Text.opens_append (trails_iff.1 htrails).2

/-- Inert pieces between two signs. -/
theorem between (hleft : leads left = true) (h : Inert ps) (hright : trails right = true) :
    Inert (.own left :: ps ++ [.own right]) :=
  (Inert.behind hleft h).before hright

theorem own (ht : leads t = true) : Inert [.own t] := .behind ht .nil

theorem separated {sep : String} {pss : List (List Piece)} (hsep : links sep = true)
    (h : ∀ ps ∈ pss, Inert ps) : Inert (separated sep pss) := by
  fun_induction Cypher.separated sep pss with
  | case1 => exact nil
  | case2 ps => exact h ps List.mem_cons_self
  | case3 ps qs rest ih =>
    exact (h ps List.mem_cons_self).joined hsep (ih fun ps hps => h ps (List.mem_cons_of_mem _ hps))

theorem list {α : Type} {f : α → List Piece} {sep : String} {xs : List α}
    (hsep : links sep = true) (h : ∀ x ∈ xs, Inert (f x)) :
    Inert (Cypher.separated sep (xs.map f)) := by
  refine separated hsep fun ps hps => ?_
  obtain ⟨x, hx, rfl⟩ := List.mem_map.1 hps
  exact h x hx

theorem var (var? : Option String) : Inert (varPieces var?) := by
  cases var? with
  | none => exact nil
  | some v => exact name v

theorem distinct (distinct : Bool) (hqs : Inert qs) : Inert (distinctPieces distinct ++ qs) := by
  cases distinct with
  | false => exact hqs
  | true => exact behind rfl hqs

theorem directed (h : Inert ps) (descending : Bool) : Inert (directedPieces ps descending) := by
  cases descending with
  | false => exact h
  | true => exact h.before rfl

end Inert

/-! ## Patterns -/

theorem NodePattern.inert (n : NodePattern) : Inert n.pieces := by
  obtain ⟨var?, labels?⟩ := n
  cases labels? with
  | none =>
    have hinside : Inert (varPieces var? ++ []) := by
      rw [List.append_nil]
      exact .var var?
    exact .between rfl hinside rfl
  | some labels =>
    have hinside : Inert
        (varPieces var? ++ .own ":" :: separated "|" (labels.map fun l => [.label l])) :=
      (Inert.var var?).joined rfl (.list rfl fun l _ => .label l)
    exact .between rfl hinside rfl

theorem NodePattern.opens_pieces (n : NodePattern) :
    opens clauseWords (textOf n.pieces) = true := by
  rw [pieces, List.cons_append, List.cons_append, textOf_cons]
  exact Text.opens_append rfl

theorem NodePattern.closes_pieces (n : NodePattern) :
    closes clauseWords (textOf n.pieces) = true := by
  rw [pieces, textOf_append]
  exact Text.closes_append rfl

theorem EdgePattern.inert (e : EdgePattern) : Inert e.pieces := by
  have hassignments : Inert (assignmentPieces e.properties) :=
    .between rfl (.list rfl fun p _ => (Inert.name p.1).joined rfl (.name p.2)) rfl
  have htype : Inert ([.label e.relType] ++
      if e.properties = [] then [] else .own " " :: assignmentPieces e.properties) := by
    split
    · exact .label e.relType
    · exact (Inert.label e.relType).joined rfl hassignments
  have hinside := (Inert.var e.var?).joined (t := ":") rfl htype
  rw [pieces, List.append_assoc]
  cases e.direction with
  | outgoing | incoming | either => exact .between rfl hinside rfl

theorem Pattern.inert (p : Pattern) : Inert p.pieces := by
  have hsteps (steps : List (EdgePattern × NodePattern)) :
      Inert (steps.flatMap fun s => s.1.pieces ++ s.2.pieces) := by
    induction steps with
    | nil => exact .nil
    | cons s rest ih =>
      have hstep := s.1.inert.append s.2.inert (.inr s.2.opens_pieces)
      rw [List.flatMap_cons]
      refine hstep.append ih (.inl ?_)
      rw [textOf_append]
      exact Text.closes_append s.2.closes_pieces
  exact p.start.inert.append (hsteps p.steps) (.inl p.start.closes_pieces)

theorem spelled_varPieces (var? : Option String) : spelled (varPieces var?) = var?.toList := by
  cases var? <;> rfl

theorem spelled_arrowPieces (d : Direction) (inside : List Piece) :
    spelled (arrowPieces d inside) = spelled inside := by
  cases d <;> exact (spelled_append inside _).trans (List.append_nil _)

theorem spelled_alternatives (labels : List String) :
    spelled (separated "|" (labels.map fun l => [.label l])) = labels := by
  induction labels with
  | nil => rfl
  | cons l rest ih =>
    cases rest with
    | nil => rfl
    | cons m rest => exact congrArg (l :: ·) ih

theorem NodePattern.spelled_pieces (n : NodePattern) :
    spelled n.pieces = n.var?.toList ++ n.labels?.getD [] := by
  rw [pieces, spelled_append, List.cons_append, spelled_own, spelled_append, spelled_varPieces]
  cases n.labels? with
  | none => exact List.append_nil _
  | some labels => exact (List.append_nil _).trans (congrArg _ (spelled_alternatives labels))

theorem EdgePattern.spelled_pieces {e : EdgePattern} (h : e.properties = []) :
    spelled e.pieces = e.var?.toList ++ [e.relType] := by
  rw [pieces, spelled_arrowPieces, if_pos h, List.append_nil, spelled_append, spelled_varPieces]
  rfl

theorem Pattern.spelled_pieces_step (start : NodePattern) (edge : EdgePattern)
    (finish : NodePattern) :
    spelled (mk start [(edge, finish)]).pieces =
      spelled start.pieces ++ (spelled edge.pieces ++ spelled finish.pieces) := by
  rw [pieces, List.flatMap_singleton, spelled_append, spelled_append]

theorem Pattern.opens_text (p : Pattern) : opens clauseWords p.text = true := by
  rw [text, ← p.start.textOf_pieces]
  exact Text.opens_append p.start.opens_pieces

/-! ## Filters -/

theorem PropertyRef.inert (p : PropertyRef) : Inert p.pieces :=
  (Inert.name p.var).joined rfl (.name p.key)

theorem Atom.inert (a : Atom) : Inert a.pieces := by
  cases a with
  | compare lhs op param =>
    have hop : leads op.text = true := by cases op <;> rfl
    exact lhs.inert.joined rfl (.behind hop (.behind rfl (.name param)))
  | isNull lhs | isNotNull lhs => exact lhs.inert.before rfl
  | isIn lhs param | likes lhs param => exact lhs.inert.joined rfl (.name param)
  | anyIn lhs param =>
    have hparam : Inert [.name param, .own ")"] := (Inert.name param).before rfl
    exact (Inert.behind rfl lhs.inert).joined rfl hparam

section Tokens

variable {ts : List Token}

theorem tokenPieces_cons (t : Token) (ts : List Token) :
    tokenPieces (t :: ts) = t.pieces ++ tokenPieces ts := List.flatMap_cons

theorem tokenPieces_append (ts us : List Token) :
    tokenPieces (ts ++ us) = tokenPieces ts ++ tokenPieces us := List.flatMap_append

theorem Inert.token {t : Token} (h : Inert t.pieces) : Inert (tokenPieces [t]) := by
  rw [tokenPieces, List.flatMap_singleton]
  exact h

theorem Inert.parenthesized (h : Inert (tokenPieces ts)) :
    Inert (tokenPieces (parenthesized ts)) := by
  rw [Cypher.parenthesized, tokenPieces_append, tokenPieces_cons]
  exact .between rfl h rfl

theorem Inert.negated (h : Inert (tokenPieces ts)) : Inert (tokenPieces (.not :: ts)) := by
  rw [tokenPieces_cons]
  exact .behind rfl h

theorem Inert.present (p : Pattern) : Inert (tokenPieces [.present p]) :=
  .token (.between rfl p.inert rfl)

/-- The parts of a group come one by one behind those before them, with the connective between. -/
theorem Inert.group (connective : Token) {sign : String} (hpieces : connective.pieces = [.own sign])
    (hsign : links sign = true) {fs : List Formula}
    (h : ∀ f ∈ fs, Inert (tokenPieces (f.tokens true))) (hts : Inert (tokenPieces ts)) :
    Inert (tokenPieces (ts ++ Formula.tokensAfter connective fs)) := by
  induction fs generalizing ts with
  | nil =>
    rw [Formula.tokensAfter, List.append_nil]
    exact hts
  | cons f fs ih =>
    have hone : Inert (tokenPieces (ts ++ connective :: f.tokens true)) := by
      rw [tokenPieces_append, tokenPieces_cons, hpieces]
      exact hts.joined hsign (h f List.mem_cons_self)
    have hall := ih (fun g hg => h g (List.mem_cons_of_mem f hg)) hone
    rw [List.append_assoc] at hall
    exact hall

end Tokens

theorem Formula.inert (f : Formula) (nested : Bool) : Inert (tokenPieces (f.tokens nested)) := by
  induction f using Formula.induction generalizing nested with
  | atom a =>
    rw [tokens]
    exact .token a.inert
  | present p =>
    rw [tokens]
    exact .present p
  | absent p =>
    rw [tokens]
    exact (Inert.present p).negated
  | all parts ih =>
    cases parts with
    | nil =>
      rw [tokens]
      exact .token (.own rfl)
    | cons f rest =>
      have hrest := fun g hg => ih g (List.mem_cons_of_mem f hg) true
      have hgroup := Inert.group .and rfl rfl hrest (ih f List.mem_cons_self true)
      simp only [tokens]
      split
      · exact hgroup.parenthesized
      · exact hgroup
  | any parts ih =>
    cases parts with
    | nil =>
      rw [tokens]
      exact .token (.own rfl)
    | cons f rest =>
      have hrest := fun g hg => ih g (List.mem_cons_of_mem f hg) true
      have hgroup := Inert.group .or rfl rfl hrest (ih f List.mem_cons_self true)
      simp only [tokens]
      split
      · exact hgroup
      · exact hgroup.parenthesized
  | not f ih =>
    rw [tokens]
    exact (ih false).parenthesized.negated

theorem inert_conditionPieces (fs : List Formula) : Inert (conditionPieces fs) := by
  unfold conditionPieces
  fun_induction conditionTokens fs with
  | case1 => exact .nil
  | case2 f => exact f.inert false
  | case3 f fs _ ih =>
    rw [tokenPieces_append, tokenPieces_cons]
    exact (f.inert false).joined rfl ih

/-! ## Clauses -/

theorem Reference.inert (r : Reference) : Inert r.pieces := .list rfl fun name _ => .name name

theorem inert_exprPieces (e : Expr Reference) : Inert (exprPieces e) := by
  induction e with
  | ref r => exact r.inert
  | apply f arg ih =>
    have hname : leads f.text = true := by cases f <;> simp only [Function.text] <;> rfl
    have harg : Inert (distinctPieces f.isDistinct ++ exprPieces arg) := .distinct f.isDistinct ih
    have hcall := (Inert.behind hname (.behind (t := "(") rfl harg)).before (t := ")") rfl
    rwa [exprPieces, List.append_assoc [_, _]]

theorem Page.inert_pieces (p : Page) : ∀ ps ∈ p.pieces, Inert ps := by
  have hbound {keyword : String} (hkeyword : leads keyword = true) (name? : Option String) :
      ∀ ps ∈ (name?.map fun n => [.own keyword, .name n]).toList, Inert ps := by
    intro ps hps
    cases name? with
    | none => cases hps
    | some name =>
      rw [List.mem_singleton.1 hps]
      exact .behind hkeyword (.name name)
  intro ps hps
  rcases List.mem_append.1 hps with hps | hps
  · exact hbound rfl p.skip? ps hps
  · exact hbound rfl p.limit? ps hps

theorem Item.inert (i : Item) : Inert i.pieces := by
  cases i with
  | var name => exact .name name
  | computed expr name => exact (inert_exprPieces expr).joined rfl (.name name)

theorem SortTerm.inert (t : SortTerm) : Inert t.pieces := by
  cases t with
  | random => exact .own rfl
  | property lhs descending => exact lhs.inert.directed descending

/-- Every clause is inert, whatever names it has. -/
theorem Clause.inert (c : Clause) : Inert c.pieces := by
  induction c using Clause.induction with
  | matching patterns => exact .behind rfl (.list rfl fun p _ => p.inert)
  | optionalMatching pattern => exact .behind rfl pattern.inert
  | filter conditions | lateFilter conditions => exact .behind rfl (inert_conditionPieces conditions)
  | stage distinct items order =>
    have hitems : Inert (separated ", "
        (items.map fun i => i.1.pieces ++ [.own " AS ", .name i.2])) :=
      .list rfl fun i _ => i.1.inert.joined rfl (.name i.2)
    have hterms : Inert (separated ", " (order.map fun o => directedPieces o.1.pieces o.2)) :=
      .list rfl fun o _ => o.1.inert.directed o.2
    rw [pieces, List.cons_append, List.cons_append]
    refine .behind rfl ?_
    rw [List.append_assoc]
    refine .distinct distinct ?_
    split
    · rw [List.append_nil]
      exact hitems
    · exact hitems.joined rfl hterms
  | call imports body ih =>
    have hbody : Inert (separated " " (piecesOf body)) := by
      rw [piecesOf_eq_map]
      exact .list rfl ih
    have hinside : Inert ((if imports.isEmpty then []
        else .own "WITH " :: separated ", " (imports.map fun n => [.name n]) ++ [.own " "]) ++
          separated " " (piecesOf body)) := by
      split
      · exact hbody
      · have himports : Inert (separated ", " (imports.map fun n => [.name n])) :=
          .list rfl fun name _ => .name name
        have hwith := (himports.joined (t := " ") rfl hbody).behind (t := "WITH ") rfl
        rwa [List.append_assoc]
    exact .between rfl hinside rfl
  | keep var page =>
    refine .separated rfl fun ps hps => ?_
    rcases List.mem_cons.1 hps with rfl | hps
    · exact .behind rfl (.name var)
    · exact page.inert_pieces ps hps
  | returning items => exact .behind rfl (.list rfl fun i _ => i.inert)
  | ordering terms => exact .behind rfl (.list rfl fun t _ => t.inert)
  | paging page => exact .separated rfl page.inert_pieces

/-- A statement has the word of a clause that changes what is stored exactly where one of the
names in it has. -/
theorem inert_queryPieces (q : Query) : Inert (queryPieces q) := by
  rw [queryPieces, Clause.piecesOf_eq_map]
  exact .list rfl fun c _ => c.inert

end GraphMapper.Cypher
