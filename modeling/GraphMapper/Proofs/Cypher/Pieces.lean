import GraphMapper.Proofs.Cypher.Printing

/-!
# What a printed statement is made of

The text of a statement is put together from words and signs of the language,
names as they are, and labels and relationship types in quotes where they need
them (`textOf_queryPieces`).  A text can be taken apart in more ways than one; the
pieces here are those that the printer puts together, so that a blank in a name
would be part of the name.  In a well-named statement every piece is safe: the words
and signs are fixed, and whatever else stands without quotes is a name
(`safe_queryPieces`).
-/

namespace GraphMapper.Cypher

/-- A piece of a statement's text. -/
inductive Piece where
  /-- A word or sign of the language, with the blanks around it. -/
  | own (text : String)
  /-- A variable, property, column or parameter. -/
  | name (text : String)
  /-- A label or relationship type. -/
  | label (text : String)

/-- A piece as text. -/
@[simp]
def Piece.text : Piece → String
  | own text | name text => text
  | label text => Text.quote text

/-- Pieces as text, one after the other. -/
def textOf (ps : List Piece) : String := String.join (ps.map Piece.text)

/-- Pieces of some texts, with a sign between any two. -/
def separated (sep : String) : List (List Piece) → List Piece
  | [] => []
  | [ps] => ps
  | ps :: qs :: rest => ps ++ .own sep :: separated sep (qs :: rest)

@[simp]
theorem textOf_nil : textOf [] = "" := rfl

@[simp]
theorem textOf_cons (p : Piece) (ps : List Piece) : textOf (p :: ps) = p.text ++ textOf ps := by
  rw [textOf, List.map_cons, String.join_cons]
  rfl

@[simp]
theorem textOf_append (ps qs : List Piece) : textOf (ps ++ qs) = textOf ps ++ textOf qs := by
  rw [textOf, List.map_append, String.join_append]
  rfl

@[simp]
theorem textOf_separated (sep : String) (pss : List (List Piece)) :
    textOf (separated sep pss) = sep.intercalate (pss.map textOf) := by
  fun_induction separated sep pss with
  | case1 => rw [List.map_nil, String.intercalate_nil, textOf_nil]
  | case2 ps => rw [List.map_singleton, String.intercalate_singleton]
  | case3 ps qs rest ih =>
    rw [textOf_append, textOf_cons, ih]
    simp only [List.map_cons, String.intercalate_cons_cons, String.append_assoc, Piece.text]

/-! ## Patterns -/

/-- The piece of a variable, where one is written. -/
def varPieces (var? : Option String) : List Piece := var?.toList.map .name

@[simp]
theorem textOf_varPieces (var? : Option String) : textOf (varPieces var?) = var?.getD "" := by
  cases var? <;> simp [varPieces]

/-- The pieces of a node. -/
def NodePattern.pieces (n : NodePattern) : List Piece :=
  .own "(" :: varPieces n.var? ++
    (match n.labels? with
      | some labels => .own ":" :: separated "|" (labels.map fun l => [.label l])
      | none => []) ++ [.own ")"]

/-- The pieces of properties bound to parameters. -/
def assignmentPieces (ps : List (String × String)) : List Piece :=
  .own "\x7b" :: separated ", " (ps.map fun p => [.name p.1, .own ": $", .name p.2]) ++
    [.own "\x7d"]

/-- The pieces of an edge between those of its direction's arrow. -/
def arrowPieces (d : Direction) (inside : List Piece) : List Piece :=
  match d with
  | .outgoing => .own "-[" :: inside ++ [.own "]->"]
  | .incoming => .own "<-[" :: inside ++ [.own "]-"]
  | .either => .own "-[" :: inside ++ [.own "]-"]

/-- The pieces of an edge. -/
def EdgePattern.pieces (e : EdgePattern) : List Piece :=
  arrowPieces e.direction <|
    varPieces e.var? ++ [.own ":", .label e.relType] ++
      if e.properties = [] then [] else .own " " :: assignmentPieces e.properties

/-- The pieces of a pattern. -/
def Pattern.pieces (p : Pattern) : List Piece :=
  p.start.pieces ++ p.steps.flatMap fun s => s.1.pieces ++ s.2.pieces

@[simp]
theorem NodePattern.textOf_pieces (n : NodePattern) : textOf n.pieces = n.text := by
  unfold pieces text
  cases n.labels? with
  | none => simp [String.append_assoc]
  | some labels => simp [Function.comp_def, String.append_assoc]

theorem textOf_assignmentPieces (ps : List (String × String)) :
    textOf (assignmentPieces ps) = assignments ps := by
  simp [assignmentPieces, assignments, Function.comp_def, String.append_assoc]

theorem textOf_arrowPieces (d : Direction) (inside : List Piece) :
    textOf (arrowPieces d inside) = arrow d (textOf inside) := by
  cases d <;> simp [arrowPieces, arrow, String.append_assoc]

@[simp]
theorem EdgePattern.textOf_pieces (e : EdgePattern) : textOf e.pieces = e.text := by
  rw [pieces, text, textOf_arrowPieces]
  split <;> simp [textOf_assignmentPieces, String.append_assoc]

@[simp]
theorem Pattern.textOf_pieces (p : Pattern) : textOf p.pieces = p.text := by
  have hsteps (steps : List (EdgePattern × NodePattern)) :
      textOf (steps.flatMap fun s => s.1.pieces ++ s.2.pieces) =
        String.join (steps.map fun s => s.1.text ++ s.2.text) := by
    induction steps with
    | nil => rfl
    | cons s rest ih => simp [ih, String.join_cons, String.append_assoc]
  rw [pieces, text, textOf_append, hsteps, NodePattern.textOf_pieces]

/-! ## Filters -/

/-- The pieces of a property. -/
def PropertyRef.pieces (p : PropertyRef) : List Piece := [.name p.var, .own ".", .name p.key]

/-- The pieces of a comparison. -/
def Atom.pieces : Atom → List Piece
  | compare lhs op param => lhs.pieces ++ [.own " ", .own op.text, .own " $", .name param]
  | isNull lhs => lhs.pieces ++ [.own " IS NULL"]
  | isNotNull lhs => lhs.pieces ++ [.own " IS NOT NULL"]
  | isIn lhs param => lhs.pieces ++ [.own " IN $", .name param]
  | anyIn lhs param =>
    .own "any(x IN " :: lhs.pieces ++ [.own " WHERE x IN $", .name param, .own ")"]
  | likes lhs param => lhs.pieces ++ [.own " =~ $", .name param]

/-- The pieces of a token. -/
def Token.pieces : Token → List Piece
  | atom a => a.pieces
  | present p => .own "EXISTS \x7b " :: p.pieces ++ [.own " \x7d"]
  | t => [.own t.text]

/-- The pieces of some tokens. -/
def tokenPieces (ts : List Token) : List Piece := ts.flatMap Token.pieces

/-- The pieces of filters that all have to hold. -/
def conditionPieces (fs : List Formula) : List Piece := tokenPieces (conditionTokens fs)

@[simp]
theorem PropertyRef.textOf_pieces (p : PropertyRef) : textOf p.pieces = p.text := by
  simp [pieces, text, String.append_assoc]

theorem Atom.textOf_pieces (a : Atom) : textOf a.pieces = a.text := by
  cases a <;> simp [pieces, text, String.append_assoc]

theorem Token.textOf_pieces (t : Token) : textOf t.pieces = t.text := by
  cases t with
  | atom a => exact a.textOf_pieces
  | present p => simp [pieces, text, String.append_assoc]
  | _ => simp [pieces]

@[simp]
theorem textOf_conditionPieces (fs : List Formula) :
    textOf (conditionPieces fs) = conditionText fs := by
  unfold conditionPieces tokenPieces conditionText
  induction conditionTokens fs with
  | nil => rfl
  | cons t rest ih =>
    rw [List.flatMap_cons, textOf_append, ih, t.textOf_pieces, List.map_cons, String.join_cons]

/-! ## Expressions -/

/-- The piece that says that values are taken once. -/
def distinctPieces (distinct : Bool) : List Piece := if distinct then [.own "DISTINCT "] else []

@[simp]
theorem textOf_distinctPieces (distinct : Bool) :
    textOf (distinctPieces distinct) = if distinct then "DISTINCT " else "" := by
  unfold distinctPieces
  split <;> simp

/-- The pieces of a reference. -/
def Reference.pieces (r : Reference) : List Piece :=
  separated "." ((r.var :: r.path).map fun n => [.name n])

/-- The pieces of an expression. -/
def exprPieces : Expr Reference → List Piece
  | .ref r => r.pieces
  | .apply f arg =>
    [.own f.text, .own "("] ++ distinctPieces f.isDistinct ++ exprPieces arg ++ [.own ")"]

/-- The pieces of skip and limit, each of them by itself. -/
def Page.pieces (p : Page) : List (List Piece) :=
  (p.skip?.map fun n => [.own "SKIP $", .name n]).toList ++
    (p.limit?.map fun n => [.own "LIMIT $", .name n]).toList

/-- The pieces of an item. -/
def Item.pieces : Item → List Piece
  | var name => [.name name]
  | computed expr name => exprPieces expr ++ [.own " AS ", .name name]

/-- Pieces with the mark of a descending order. -/
def directedPieces (ps : List Piece) (descending : Bool) : List Piece :=
  if descending then ps ++ [.own " DESC"] else ps

/-- The pieces of a sort term. -/
def SortTerm.pieces : SortTerm → List Piece
  | random => [.own "rand()"]
  | property lhs descending => directedPieces lhs.pieces descending

@[simp]
theorem Reference.textOf_pieces (r : Reference) : textOf r.pieces = r.text := by
  rw [pieces, text, textOf_separated, List.map_map]
  simp [Function.comp_def]

@[simp]
theorem textOf_exprPieces (e : Expr Reference) : textOf (exprPieces e) = exprText e := by
  induction e with
  | ref r => exact r.textOf_pieces
  | apply f arg ih => simp [exprPieces, exprText, ih, String.append_assoc]

@[simp]
theorem Page.map_textOf_pieces (p : Page) : p.pieces.map textOf = p.parts := by
  obtain ⟨skip?, limit?⟩ := p
  cases skip? <;> cases limit? <;> simp [pieces, parts]

@[simp]
theorem Item.textOf_pieces (i : Item) : textOf i.pieces = i.text := by
  cases i <;> simp [pieces, text, String.append_assoc]

@[simp]
theorem textOf_directedPieces (ps : List Piece) (descending : Bool) :
    textOf (directedPieces ps descending) = directed (textOf ps) descending := by
  unfold directedPieces directed
  split <;> simp

@[simp]
theorem SortTerm.textOf_pieces (t : SortTerm) : textOf t.pieces = t.text := by
  cases t <;> simp [pieces, text]

/-! ## Clauses -/

mutual

/-- The pieces of a clause. -/
def Clause.pieces : Clause → List Piece
  | .matching patterns => .own "MATCH " :: separated ", " (patterns.map Pattern.pieces)
  | .optionalMatching pattern => .own "OPTIONAL MATCH " :: pattern.pieces
  | .filter conditions => .own "WHERE " :: conditionPieces conditions
  | .lateFilter conditions => .own "WITH * WHERE " :: conditionPieces conditions
  | .stage distinct items order =>
    .own "WITH " :: distinctPieces distinct ++
      separated ", " (items.map fun i => i.1.pieces ++ [.own " AS ", .name i.2]) ++
      (if order.isEmpty then []
        else .own " ORDER BY " ::
          separated ", " (order.map fun o => directedPieces o.1.pieces o.2))
  | .call imports body =>
    .own "CALL \x7b " ::
      (if imports.isEmpty then []
        else .own "WITH " :: separated ", " (imports.map fun n => [.name n]) ++ [.own " "]) ++
      separated " " (Clause.piecesOf body) ++ [.own " \x7d"]
  | .keep var page => separated " " ([.own "WITH ", .name var] :: page.pieces)
  | .returning items => .own "RETURN " :: separated ", " (items.map Item.pieces)
  | .ordering terms => .own "ORDER BY " :: separated ", " (terms.map SortTerm.pieces)
  | .paging page => separated " " page.pieces

/-- The pieces of some clauses, one by one. -/
def Clause.piecesOf : List Clause → List (List Piece)
  | [] => []
  | c :: cs => c.pieces :: Clause.piecesOf cs

end

/-- The pieces of a statement. -/
def queryPieces (q : Query) : List Piece := separated " " (Clause.piecesOf q)

theorem Clause.piecesOf_eq_map (cs : List Clause) : piecesOf cs = cs.map pieces := by
  induction cs with
  | nil => rfl
  | cons c rest ih => rw [piecesOf, ih, List.map_cons]

theorem Clause.textOf_pieces (c : Clause) : textOf c.pieces = clauseText c := by
  induction c using Clause.induction with
  | matching patterns => simp [pieces, clauseText, Function.comp_def]
  | optionalMatching pattern => simp [pieces, clauseText]
  | filter conditions | lateFilter conditions => simp [pieces, clauseText]
  | stage distinct items order =>
    rw [pieces, clauseText]
    by_cases horder : order.isEmpty = true <;>
      simp [horder, Function.comp_def, String.append_assoc]
  | call imports body ih =>
    have hbody : (piecesOf body).map textOf = clauseTexts body := by
      rw [piecesOf_eq_map, clauseTexts_eq_map, List.map_map]
      exact List.map_congr_left ih
    rw [pieces, clauseText]
    split <;> simp [hbody, Function.comp_def, String.append_assoc]
  | keep var page => simp [pieces, clauseText]
  | returning items => simp [pieces, clauseText, Function.comp_def]
  | ordering terms => simp [pieces, clauseText, Function.comp_def]
  | paging page => simp [pieces, clauseText]

/-- The pieces of a statement make its text. -/
theorem textOf_queryPieces (q : Query) : textOf (queryPieces q) = queryText q := by
  rw [queryPieces, queryText, textOf_separated, Clause.piecesOf_eq_map, clauseTexts_eq_map,
    List.map_map]
  exact congrArg (" ".intercalate ·) (List.map_congr_left fun c _ => c.textOf_pieces)

/-! ## Safe pieces -/

/-- The words and signs that the statements of plans are made of. -/
def vocabulary : List String :=
  ["MATCH ", "OPTIONAL MATCH ", "WHERE ", "WITH * WHERE ", "WITH ", "DISTINCT ", " AS ",
    " ORDER BY ", "CALL \x7b ", "EXISTS \x7b ", " \x7d", "SKIP $", "LIMIT $", "RETURN ",
    "ORDER BY ", "rand()", " DESC", " ", ", ", ".", "(", ")", ":", "|", "-[", "<-[", "]-", "]->",
    "=", "<>", "<", ">", "<=", ">=", " $", " =~ $", " IS NULL", " IS NOT NULL", " IN $",
    "any(x IN ", " WHERE x IN $", " AND ", " OR ", "NOT ", "true", "false", "collect", "count",
    "last", "size", "sum", "avg", "min", "max"]

/-- A piece that nothing can come in through: a word or sign of the language, a name, or a label
that is a name or stands between backquotes. -/
def Piece.Safe : Piece → Prop
  | own text => text ∈ vocabulary
  | name text => IsName text
  | label text => IsName (Text.quote text) ∨ Text.quote text = Text.backquoted text

/-- Some safe pieces. -/
def Safe (ps : List Piece) : Prop := ∀ p ∈ ps, p.Safe

namespace Safe

variable {ps qs : List Piece}

theorem nil : Safe [] := by
  intro p hp
  cases hp

theorem append (hps : Safe ps) (hqs : Safe qs) : Safe (ps ++ qs) := fun p hp =>
  (List.mem_append.1 hp).elim (hps p) (hqs p)

theorem own {text : String} (h : vocabulary.contains text = true) : Safe [.own text] := by
  intro p hp
  rw [List.mem_singleton.1 hp]
  exact List.contains_iff_mem.1 h

theorem name {text : String} (h : IsName text) : Safe [.name text] := by
  intro p hp
  rw [List.mem_singleton.1 hp]
  exact h

theorem label (text : String) : Safe [.label text] := by
  intro p hp
  rw [List.mem_singleton.1 hp, Piece.Safe, Text.quote]
  split
  · next h => exact .inl (IsName.of_isValidIdentifier h)
  · exact .inr rfl

theorem separated {sep : String} {pss : List (List Piece)} (hsep : vocabulary.contains sep = true)
    (h : ∀ ps ∈ pss, Safe ps) : Safe (separated sep pss) := by
  fun_induction Cypher.separated sep pss with
  | case1 => exact nil
  | case2 ps => exact h ps List.mem_cons_self
  | case3 ps qs rest ih =>
    exact (h ps List.mem_cons_self).append
      ((own hsep).append (ih fun ps hps => h ps (List.mem_cons_of_mem _ hps)))

/-- Safe pieces between two signs. -/
theorem between {left right : String} (hleft : vocabulary.contains left = true) (h : Safe ps)
    (hright : vocabulary.contains right = true) : Safe (.own left :: ps ++ [.own right]) :=
  ((own hleft).append h).append (own hright)

theorem list {α : Type} {f : α → List Piece} {sep : String} {xs : List α}
    (hsep : vocabulary.contains sep = true) (h : ∀ x ∈ xs, Safe (f x)) :
    Safe (Cypher.separated sep (xs.map f)) := by
  refine separated hsep fun ps hps => ?_
  obtain ⟨x, hx, rfl⟩ := List.mem_map.1 hps
  exact h x hx

theorem var {var? : Option String} (h : ∀ v, var? = some v → IsName v) :
    Safe (varPieces var?) := by
  cases var? with
  | none => exact nil
  | some v => exact name (h v rfl)

theorem distinct (distinct : Bool) : Safe (distinctPieces distinct) := by
  cases distinct with
  | false => exact nil
  | true => exact own rfl

theorem directed (h : Safe ps) (descending : Bool) : Safe (directedPieces ps descending) := by
  cases descending with
  | false => exact h
  | true => exact h.append (own rfl)

end Safe

theorem NodePattern.Named.safe {n : NodePattern} (h : n.Named) : Safe n.pieces := by
  refine .between rfl ((Safe.var h).append ?_) rfl
  cases n.labels? with
  | none => exact .nil
  | some labels => exact (Safe.own rfl).append (.list rfl fun l _ => .label l)

theorem EdgePattern.Named.safe {e : EdgePattern} (h : e.Named) : Safe e.pieces := by
  obtain ⟨hvar, hproperties⟩ := h
  have htype : Safe [.own ":", .label e.relType] := (Safe.own rfl).append (.label e.relType)
  have hinside := ((Safe.var hvar).append htype).append .nil
  rw [pieces, if_pos hproperties]
  cases e.direction with
  | outgoing | incoming | either => exact .between rfl hinside rfl

theorem Pattern.Named.safe {p : Pattern} (h : p.Named) : Safe p.pieces := by
  refine h.1.safe.append fun piece hpiece => ?_
  obtain ⟨s, hs, hpiece⟩ := List.mem_flatMap.1 hpiece
  exact ((h.2 s hs).1.safe.append (h.2 s hs).2.safe) piece hpiece

theorem PropertyRef.Named.safe {p : PropertyRef} (h : p.Named) : Safe p.pieces :=
  (Safe.name h.1).append ((Safe.own rfl).append (.name h.2))

theorem Atom.Named.safe {a : Atom} (h : a.Named) : Safe a.pieces := by
  obtain ⟨hlhs, hparam⟩ := h
  cases a with
  | compare lhs op param =>
    have hop : vocabulary.contains op.text = true := by cases op <;> rfl
    exact hlhs.safe.append ((Safe.own rfl).append ((Safe.own hop).append
      ((Safe.own rfl).append (.name (hparam param rfl)))))
  | isNull lhs | isNotNull lhs => exact hlhs.safe.append (.own rfl)
  | isIn lhs param | likes lhs param =>
    exact hlhs.safe.append ((Safe.own rfl).append (.name (hparam param rfl)))
  | anyIn lhs param =>
    have hparam : Safe [.name param] := .name (hparam param rfl)
    exact ((Safe.own rfl).append hlhs.safe).append (.between rfl hparam rfl)

section Tokens

variable {ts us : List Token}

theorem Safe.tokens_append (hts : Safe (tokenPieces ts)) (hus : Safe (tokenPieces us)) :
    Safe (tokenPieces (ts ++ us)) := by
  rw [tokenPieces, List.flatMap_append]
  exact hts.append hus

theorem Safe.token {t : Token} (h : Safe t.pieces) : Safe (tokenPieces [t]) := by
  rw [tokenPieces, List.flatMap_singleton]
  exact h

theorem Safe.parenthesized (h : Safe (tokenPieces ts)) :
    Safe (tokenPieces (parenthesized ts)) := by
  have hopening : Safe (tokenPieces [.opening]) := .token (.own rfl)
  have hclosing : Safe (tokenPieces [.closing]) := .token (.own rfl)
  exact (hopening.tokens_append h).tokens_append hclosing

theorem Safe.negated (h : Safe (tokenPieces ts)) : Safe (tokenPieces (.not :: ts)) := by
  have hnot : Safe (tokenPieces [.not]) := .token (.own rfl)
  exact hnot.tokens_append h

theorem Safe.present {p : Pattern} (h : p.Named) : Safe (tokenPieces [.present p]) :=
  .token (.between rfl h.safe rfl)

/-- The parts of a group, a connective between any two. -/
theorem Safe.group (connective : Token) {f : Formula} {rest : List Formula}
    (hconnective : Safe connective.pieces)
    (h : ∀ g ∈ f :: rest, Safe (tokenPieces (g.tokens true))) :
    Safe (tokenPieces (f.tokens true ++ Formula.tokensAfter connective rest)) := by
  have hafter (fs : List Formula) (hfs : ∀ g ∈ fs, Safe (tokenPieces (g.tokens true))) :
      Safe (tokenPieces (Formula.tokensAfter connective fs)) := by
    induction fs with
    | nil => exact .nil
    | cons g fs ih =>
      have hg := hfs g List.mem_cons_self
      have hrest := ih fun g hg => hfs g (List.mem_cons_of_mem _ hg)
      rw [Formula.tokensAfter]
      exact (Safe.token hconnective).tokens_append (hg.tokens_append hrest)
  have hrest := hafter rest fun g hg => h g (List.mem_cons_of_mem _ hg)
  exact (h f List.mem_cons_self).tokens_append hrest

end Tokens

theorem Formula.Named.safe {f : Formula} (h : f.Named) (nested : Bool) :
    Safe (tokenPieces (f.tokens nested)) := by
  induction f using Formula.induction generalizing nested with
  | atom a =>
    rw [tokens]
    exact .token (Atom.Named.safe h)
  | present p =>
    rw [tokens]
    exact .present h
  | absent p =>
    rw [tokens]
    exact (Safe.present h).negated
  | all parts ih =>
    have hparts := allNamed_iff.1 h
    cases parts with
    | nil =>
      rw [tokens]
      exact .token (.own rfl)
    | cons f rest =>
      have hgroup := Safe.group .and (.own rfl) fun g hg => ih g hg (hparts g hg) true
      simp only [tokens]
      split
      · exact hgroup.parenthesized
      · exact hgroup
  | any parts ih =>
    have hparts := allNamed_iff.1 h
    cases parts with
    | nil =>
      rw [tokens]
      exact .token (.own rfl)
    | cons f rest =>
      have hgroup := Safe.group .or (.own rfl) fun g hg => ih g hg (hparts g hg) true
      simp only [tokens]
      split
      · exact hgroup
      · exact hgroup.parenthesized
  | not f ih =>
    rw [tokens]
    exact (ih h false).parenthesized.negated

theorem safe_conditionPieces {fs : List Formula} (h : ∀ f ∈ fs, f.Named) :
    Safe (conditionPieces fs) := by
  unfold conditionPieces
  fun_induction conditionTokens fs with
  | case1 => exact .nil
  | case2 f => exact (h f List.mem_cons_self).safe false
  | case3 f fs _ ih =>
    have hrest := ih fun g hg => h g (List.mem_cons_of_mem f hg)
    have hand : Safe (tokenPieces [.and]) := .token (.own rfl)
    exact ((h f List.mem_cons_self).safe false).tokens_append (hand.tokens_append hrest)

theorem Reference.Named.safe {r : Reference} (h : r.Named) : Safe r.pieces := by
  refine .list rfl fun name hname => .name ?_
  rcases List.mem_cons.1 hname with rfl | hname
  · exact h.1
  · exact h.2 name hname

theorem safe_exprPieces {e : Expr Reference} (h : ExprNamed e) : Safe (exprPieces e) := by
  induction e with
  | ref r => exact Reference.Named.safe h
  | apply f arg ih =>
    have hname : vocabulary.contains f.text = true := by cases f <;> rfl
    have hopen : Safe [.own f.text, .own "("] := (Safe.own hname).append (.own rfl)
    exact ((hopen.append (.distinct _)).append (ih h)).append (.own rfl)

theorem Page.safe_pieces {p : Page} (h : ∀ name ∈ p.params, IsName name) :
    ∀ ps ∈ p.pieces, Safe ps := by
  have hbound {keyword : String} {name? : Option String}
      (hkeyword : vocabulary.contains keyword = true) (hname : ∀ name ∈ name?.toList, IsName name) :
      ∀ ps ∈ (name?.map fun n => [.own keyword, .name n]).toList, Safe ps := by
    intro ps hps
    cases name? with
    | none => cases hps
    | some name =>
      rw [List.mem_singleton.1 hps]
      exact (Safe.own hkeyword).append (.name (hname name List.mem_cons_self))
  intro ps hps
  rcases List.mem_append.1 hps with hps | hps
  · exact hbound rfl (fun name hname => h name (List.mem_append_left _ hname)) ps hps
  · exact hbound rfl (fun name hname => h name (List.mem_append_right _ hname)) ps hps

theorem Item.Named.safe {i : Item} (h : i.Named) : Safe i.pieces := by
  cases i with
  | var name => exact .name h
  | computed expr name =>
    exact (safe_exprPieces h.1).append ((Safe.own rfl).append (.name h.2))

theorem SortTerm.Named.safe {t : SortTerm} (h : t.Named) : Safe t.pieces := by
  cases t with
  | random => exact .own rfl
  | property lhs descending => exact (PropertyRef.Named.safe h).directed descending

/-- Every piece of a well-named clause is safe. -/
theorem Clause.Named.safe {c : Clause} (h : c.Named) : Safe c.pieces := by
  induction c using Clause.induction with
  | matching patterns => exact (Safe.own rfl).append (.list rfl fun p hp => (h p hp).safe)
  | optionalMatching pattern => exact (Safe.own rfl).append (Pattern.Named.safe h)
  | filter conditions | lateFilter conditions =>
    exact (Safe.own rfl).append (safe_conditionPieces h)
  | stage distinct items order =>
    obtain ⟨hitems, horder⟩ := h
    have hlist : Safe (separated ", "
        (items.map fun i => i.1.pieces ++ [.own " AS ", .name i.2])) := by
      refine .list rfl fun i hi => ?_
      exact (hitems i hi).1.safe.append ((Safe.own rfl).append (.name (hitems i hi).2))
    have hsorted : Safe (if order.isEmpty then []
        else .own " ORDER BY " ::
          separated ", " (order.map fun o => directedPieces o.1.pieces o.2)) := by
      split
      · exact .nil
      · exact (Safe.own rfl).append (.list rfl fun o ho => (horder o ho).safe.directed o.2)
    exact (((Safe.own rfl).append (.distinct distinct)).append hlist).append hsorted
  | call imports body ih =>
    obtain ⟨himports, hbody⟩ := h
    have hinside : Safe (separated " " (piecesOf body)) := by
      rw [piecesOf_eq_map]
      exact .list rfl fun c hc => ih c hc (allNamed_iff.1 hbody c hc)
    have hwith : Safe (if imports.isEmpty then []
        else .own "WITH " :: separated ", " (imports.map fun n => [.name n]) ++ [.own " "]) := by
      split
      · exact .nil
      · exact .between rfl (.list rfl fun name hname => .name (himports name hname)) rfl
    exact (((Safe.own rfl).append hwith).append hinside).append (.own rfl)
  | keep var page =>
    obtain ⟨hvar, hpage⟩ := h
    refine .separated rfl fun ps hps => ?_
    rcases List.mem_cons.1 hps with rfl | hps
    · exact (Safe.own rfl).append (.name hvar)
    · exact page.safe_pieces hpage ps hps
  | returning items => exact (Safe.own rfl).append (.list rfl fun i hi => (h i hi).safe)
  | ordering terms => exact (Safe.own rfl).append (.list rfl fun t ht => (h t ht).safe)
  | paging page => exact .separated rfl (page.safe_pieces h)

/-- Every piece of a well-named statement is safe. -/
theorem safe_queryPieces {q : Query} (h : Clause.AllNamed q) : Safe (queryPieces q) := by
  rw [queryPieces, Clause.piecesOf_eq_map]
  exact .list rfl fun c hc => (Clause.allNamed_iff.1 h c hc).safe

end GraphMapper.Cypher
