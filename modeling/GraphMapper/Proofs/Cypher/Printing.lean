import GraphMapper.Proofs.Cypher.Reading
import GraphMapper.Proofs.Cypher.References

/-!
# What a printed statement refers to

A statement is well named when every variable, property and parameter in it is
a name; labels and relationship types may be anything, because they are quoted.
The text of a well-named statement refers to exactly the parameters that stand
in it, in their order (`references_queryText`).
-/

namespace GraphMapper.Cypher

/-! ## Patterns -/

/-- A node whose variable is a name. -/
def NodePattern.Named (n : NodePattern) : Prop := ∀ v, n.var? = some v → IsName v

/-- An edge whose variable is a name, without properties. -/
def EdgePattern.Named (e : EdgePattern) : Prop :=
  (∀ v, e.var? = some v → IsName v) ∧ e.properties = []

/-- A pattern of well-named nodes and edges. -/
def Pattern.Named (p : Pattern) : Prop :=
  p.start.Named ∧ ∀ s ∈ p.steps, s.1.Named ∧ s.2.Named

theorem plain_getD {v? : Option String} (h : ∀ v, v? = some v → IsName v) :
    Plain (v?.getD "") := by
  cases v? with
  | none => exact Plain.literal rfl
  | some v => exact Plain.of_word (h v rfl).word

theorem NodePattern.Named.plain {n : NodePattern} (h : n.Named) : Plain n.text := by
  unfold NodePattern.text
  refine Plain.append (Plain.append (Plain.append (Plain.literal rfl) (plain_getD h)) ?_)
    (Plain.literal rfl)
  cases n.labels? with
  | none => exact Plain.literal rfl
  | some labels =>
    refine (Plain.literal rfl).append (Plain.intercalate (Plain.literal rfl) ?_)
    intro l hl
    obtain ⟨name, _, rfl⟩ := List.mem_map.1 hl
    exact Plain.quote name

theorem EdgePattern.Named.plain {e : EdgePattern} (h : e.Named) : Plain e.text := by
  obtain ⟨hvar, hproperties⟩ := h
  have hinside : Plain (e.var?.getD "" ++ ":" ++ Text.quote e.relType ++ "") :=
    (((plain_getD hvar).append (Plain.literal rfl)).append (Plain.quote _)).append
      (Plain.literal rfl)
  unfold EdgePattern.text arrow
  rw [if_pos hproperties]
  cases e.direction with
  | outgoing | incoming | either =>
    exact ((Plain.literal rfl).append hinside).append (Plain.literal rfl)

theorem Pattern.Named.plain {p : Pattern} (h : p.Named) : Plain p.text := by
  obtain ⟨hstart, hsteps⟩ := h
  unfold Pattern.text
  refine hstart.plain.append ?_
  generalize p.steps = steps at hsteps
  induction steps with
  | nil => exact Plain.literal rfl
  | cons s rest ih =>
    obtain ⟨hedge, hnode⟩ := hsteps s List.mem_cons_self
    rw [List.map_cons, String.join_cons]
    refine (hedge.plain.append hnode.plain).append ?_
    exact ih fun s' hs' => hsteps s' (List.mem_cons_of_mem s hs')

theorem Pattern.Named.extend {p : Pattern} {e : EdgePattern} {n : NodePattern} (hp : p.Named)
    (he : e.Named) (hn : n.Named) : (p.extend e n).Named := by
  refine ⟨hp.1, fun s hs => ?_⟩
  rcases List.mem_append.1 hs with hs | hs
  · exact hp.2 s hs
  · rw [List.mem_singleton.1 hs]
    exact ⟨he, hn⟩

/-! ## Filters -/

/-- A property of a well-named variable. -/
def PropertyRef.Named (p : PropertyRef) : Prop := IsName p.var ∧ IsName p.key

/-- A comparison of a well-named property with a well-named parameter. -/
def Atom.Named (a : Atom) : Prop := a.lhs.Named ∧ ∀ name, a.param? = some name → IsName name

theorem PropertyRef.Named.plain {p : PropertyRef} (h : p.Named) : Plain p.text :=
  ((Plain.of_word h.1.word).append (Plain.literal rfl)).append (Plain.of_word h.2.word)

theorem Atom.Named.mentions {a : Atom} (h : a.Named) : Mentions a.text a.param?.toList := by
  obtain ⟨hlhs, hparam⟩ := h
  cases a with
  | compare lhs op param =>
    have hop : Plain op.text := by cases op <;> exact Plain.literal rfl
    have hleft := (hlhs.plain.append (Plain.literal (s := " ") rfl)).append hop
    exact Mentions.dollar " " hleft rfl (Plain.literal rfl) (hparam param rfl).word
  | isNull lhs => exact (hlhs.plain.append (Plain.literal rfl)).mentions
  | isNotNull lhs => exact (hlhs.plain.append (Plain.literal rfl)).mentions
  | isIn lhs param =>
    exact Mentions.dollar " IN " hlhs.plain rfl (Plain.literal rfl) (hparam param rfl).word
  | anyIn lhs param =>
    have hleft := (Plain.literal (s := "any(x IN ") rfl).append hlhs.plain
    have hsome := Mentions.dollar " WHERE x IN " hleft rfl (Plain.literal rfl) (hparam param rfl).word
    exact hsome.append_plain (Plain.literal rfl) (Follows.of_head rfl rfl)
  | likes lhs param =>
    exact Mentions.dollar " =~ " hlhs.plain rfl (Plain.literal rfl) (hparam param rfl).word

namespace Formula

mutual

/-- A filter of well-named comparisons and patterns. -/
def Named : Formula → Prop
  | atom a => a.Named
  | present p => p.Named
  | absent p => p.Named
  | all parts => AllNamed parts
  | any parts => AllNamed parts
  | not f => f.Named

/-- Some well-named filters. -/
def AllNamed : List Formula → Prop
  | [] => True
  | f :: fs => f.Named ∧ AllNamed fs

end

theorem allNamed_iff {fs : List Formula} : AllNamed fs ↔ ∀ f ∈ fs, f.Named := by
  induction fs with
  | nil => simp [AllNamed]
  | cons f rest ih => simp [AllNamed, ih]

/-- The parameters of a filter, from left to right. -/
def params (f : Formula) : List String := f.atoms.filterMap Atom.param?

theorem params_atom (a : Atom) : (atom a).params = a.param?.toList := by
  simp only [params, atoms]
  cases ha : a.param? <;> simp [ha]

theorem filterMap_atomsOf (fs : List Formula) :
    (atomsOf fs).filterMap Atom.param? = fs.flatMap params := by
  induction fs with
  | nil => rfl
  | cons f rest ih =>
    rw [atomsOf, List.filterMap_append, ih, List.flatMap_cons]
    rfl

end Formula

/-- Tokens as text. -/
def tokensText (ts : List Token) : String := String.join (ts.map Token.text)

theorem tokensText_append (ts us : List Token) :
    tokensText (ts ++ us) = tokensText ts ++ tokensText us := by
  rw [tokensText, List.map_append, String.join_append]
  rfl

theorem tokensText_cons (t : Token) (ts : List Token) :
    tokensText (t :: ts) = t.text ++ tokensText ts := by
  rw [tokensText, List.map_cons, String.join_cons]
  rfl

theorem tokensText_singleton (t : Token) : tokensText [t] = t.text := by
  rw [tokensText_cons]
  exact String.append_empty

theorem mentions_parenthesized {ts : List Token} {names : List String}
    (h : Mentions (tokensText ts) names) : Mentions (tokensText (parenthesized ts)) names := by
  unfold parenthesized
  rw [List.cons_append, tokensText_cons, tokensText_append, tokensText_singleton]
  refine Mentions.plain_append (Plain.literal rfl) ?_
  exact h.append_plain (Plain.literal rfl) (Follows.of_head rfl rfl)

theorem mentions_tokensAfter (connective : Token) {fs : List Formula} {c : Char} {cs : List Char}
    (hplain : Plain connective.text) (hhead : connective.text.toList = c :: cs)
    (hc : Limits.isIdentifierPart c = false)
    (h : ∀ f ∈ fs, Mentions (tokensText (f.tokens true)) f.params) :
    Mentions (tokensText (Formula.tokensAfter connective fs)) (fs.flatMap Formula.params) ∧
      Follows (tokensText (Formula.tokensAfter connective fs)) := by
  induction fs with
  | nil => exact ⟨(Plain.literal rfl).mentions, Follows.empty⟩
  | cons f rest ih =>
    obtain ⟨hrest, hrestFollows⟩ := ih fun g hg => h g (List.mem_cons_of_mem f hg)
    have hf := h f List.mem_cons_self
    rw [Formula.tokensAfter, List.cons_append, tokensText_cons, tokensText_append,
      List.flatMap_cons]
    exact ⟨Mentions.plain_append hplain (hf.append hrest hrestFollows),
      Follows.head_append hhead hc⟩

/-- The parts of a group, a connective between any two. -/
theorem mentions_group (connective : Token) {f : Formula} {rest : List Formula} {c : Char}
    {cs : List Char} (hplain : Plain connective.text) (hhead : connective.text.toList = c :: cs)
    (hc : Limits.isIdentifierPart c = false)
    (h : ∀ g ∈ f :: rest, Mentions (tokensText (g.tokens true)) g.params) :
    Mentions (tokensText (f.tokens true ++ Formula.tokensAfter connective rest))
      ((f :: rest).flatMap Formula.params) := by
  obtain ⟨hrest, hfollows⟩ := mentions_tokensAfter connective hplain hhead hc
    fun g hg => h g (List.mem_cons_of_mem f hg)
  rw [tokensText_append, List.flatMap_cons]
  exact (h f List.mem_cons_self).append hrest hfollows

namespace Formula

theorem mentions_tokens {f : Formula} (h : f.Named) (nested : Bool) :
    Mentions (tokensText (f.tokens nested)) f.params := by
  induction f using Formula.induction generalizing nested with
  | atom a =>
    rw [tokens, tokensText_singleton]
    rw [params_atom]
    exact Atom.Named.mentions h
  | present p =>
    rw [tokens, tokensText_singleton]
    exact (((Plain.literal rfl).append (Pattern.Named.plain h)).append (Plain.literal rfl)).mentions
  | absent p =>
    rw [tokens, tokensText_cons, tokensText_singleton]
    refine Mentions.plain_append (Plain.literal rfl) ?_
    exact (((Plain.literal rfl).append (Pattern.Named.plain h)).append (Plain.literal rfl)).mentions
  | all parts ih =>
    have hparts := allNamed_iff.1 h
    have hparams : (all parts).params = parts.flatMap params := filterMap_atomsOf parts
    rw [hparams]
    cases parts with
    | nil =>
      rw [tokens, tokensText_singleton]
      exact (Plain.literal rfl).mentions
    | cons f rest =>
      have hgroup := mentions_group .and (Plain.literal rfl) rfl rfl
        fun g hg => ih g hg (hparts g hg) true
      simp only [tokens]
      split
      · exact mentions_parenthesized hgroup
      · exact hgroup
  | any parts ih =>
    have hparts := allNamed_iff.1 h
    have hparams : (any parts).params = parts.flatMap params := filterMap_atomsOf parts
    rw [hparams]
    cases parts with
    | nil =>
      rw [tokens, tokensText_singleton]
      exact (Plain.literal rfl).mentions
    | cons f rest =>
      have hgroup := mentions_group .or (Plain.literal rfl) rfl rfl
        fun g hg => ih g hg (hparts g hg) true
      simp only [tokens]
      split
      · exact hgroup
      · exact mentions_parenthesized hgroup
  | not f ih =>
    rw [tokens, tokensText_cons]
    refine Mentions.plain_append (Plain.literal rfl) ?_
    exact mentions_parenthesized (ih h false)

end Formula

theorem mentions_conditionText {fs : List Formula} (h : ∀ f ∈ fs, f.Named) :
    Mentions (conditionText fs) (fs.flatMap Formula.params) := by
  show Mentions (tokensText (conditionTokens fs)) _
  fun_induction conditionTokens fs with
  | case1 => exact (Plain.literal rfl).mentions
  | case2 f =>
    rw [List.flatMap_cons, List.flatMap_nil, List.append_nil]
    exact Formula.mentions_tokens (h f List.mem_cons_self) false
  | case3 f fs _ ih =>
    have hrest := ih fun g hg => h g (List.mem_cons_of_mem f hg)
    rw [tokensText_append, tokensText_cons, List.flatMap_cons]
    refine (Formula.mentions_tokens (h f List.mem_cons_self) false).append ?_ ?_
    · exact Mentions.plain_append (Plain.literal rfl) hrest
    · exact Follows.head_append rfl rfl

/-! ## Clauses -/

/-- A reference made of names. -/
def Reference.Named (r : Reference) : Prop := IsName r.var ∧ ∀ p ∈ r.path, IsName p

/-- An expression over a well-named reference. -/
def ExprNamed : Expr Reference → Prop
  | .ref r => r.Named
  | .apply _ arg => ExprNamed arg

/-- A well-named item. -/
def Item.Named : Item → Prop
  | var name => IsName name
  | computed expr name => ExprNamed expr ∧ IsName name

/-- A well-named sort term. -/
def SortTerm.Named : SortTerm → Prop
  | random => True
  | property lhs _ => lhs.Named

/-- The parameters of a page. -/
def Page.params (p : Page) : List String := p.skip?.toList ++ p.limit?.toList

namespace Clause

mutual

/-- A clause of well-named parts. -/
def Named : Clause → Prop
  | .matching patterns => ∀ p ∈ patterns, p.Named
  | .optionalMatching p => p.Named
  | .filter fs | .lateFilter fs => ∀ f ∈ fs, f.Named
  | .stage _ items order =>
    (∀ i ∈ items, i.1.Named ∧ IsName i.2) ∧ ∀ o ∈ order, o.1.Named
  | .call imports body => (∀ name ∈ imports, IsName name) ∧ AllNamed body
  | .keep var page => IsName var ∧ ∀ name ∈ page.params, IsName name
  | .returning items => ∀ i ∈ items, i.Named
  | .ordering terms => ∀ t ∈ terms, t.Named
  | .paging page => ∀ name ∈ page.params, IsName name

/-- Some well-named clauses. -/
def AllNamed : List Clause → Prop
  | [] => True
  | c :: cs => c.Named ∧ AllNamed cs

end

mutual

/-- The parameters of a clause, in order. -/
def params : Clause → List String
  | .filter fs | .lateFilter fs => fs.flatMap Formula.params
  | .call _ body => paramsOf body
  | .keep _ page | .paging page => page.params
  | _ => []

/-- The parameters of some clauses, in order. -/
def paramsOf : List Clause → List String
  | [] => []
  | c :: cs => c.params ++ paramsOf cs

end

theorem allNamed_iff {cs : List Clause} : AllNamed cs ↔ ∀ c ∈ cs, c.Named := by
  induction cs with
  | nil => simp [AllNamed]
  | cons c rest ih => simp [AllNamed, ih]

theorem paramsOf_eq_flatMap (cs : List Clause) : paramsOf cs = cs.flatMap params := by
  induction cs with
  | nil => rfl
  | cons c rest ih => rw [paramsOf, ih, List.flatMap_cons]

/-- Induction on clauses, with the hypothesis for every clause of a block. -/
@[elab_as_elim]
theorem induction {motive : Clause → Prop}
    (matching : ∀ ps, motive (.matching ps)) (optionalMatching : ∀ p, motive (.optionalMatching p))
    (filter : ∀ fs, motive (.filter fs)) (lateFilter : ∀ fs, motive (.lateFilter fs))
    (stage : ∀ d items order, motive (.stage d items order))
    (call : ∀ imports body, (∀ c ∈ body, motive c) → motive (.call imports body))
    (keep : ∀ var page, motive (.keep var page)) (returning : ∀ items, motive (.returning items))
    (ordering : ∀ terms, motive (.ordering terms)) (paging : ∀ page, motive (.paging page))
    (c : Clause) : motive c :=
  Clause.rec (motive_1 := motive) (motive_2 := fun cs => ∀ c ∈ cs, motive c)
    matching optionalMatching filter lateFilter stage call keep returning ordering paging (by simp)
    (fun c cs hc hcs c' hc' => by
      rcases List.mem_cons.1 hc' with rfl | hc'
      · exact hc
      · exact hcs c' hc') c

end Clause

theorem Reference.Named.plain {r : Reference} (h : r.Named) : Plain r.text := by
  refine Plain.intercalate (Plain.literal rfl) fun p hp => ?_
  rcases List.mem_cons.1 hp with rfl | hp
  · exact Plain.of_word h.1.word
  · exact Plain.of_word (h.2 p hp).word

theorem plain_exprText {e : Expr Reference} (h : ExprNamed e) : Plain (exprText e) := by
  induction e with
  | ref r => exact Reference.Named.plain h
  | apply f arg ih =>
    have hfunction : Plain f.text := by
      cases f <;> simp only [Function.text] <;> exact Plain.literal rfl
    have hdistinct : Plain (if f.isDistinct then "DISTINCT " else "") := by
      split <;> exact Plain.literal rfl
    have hopen := (hfunction.append (Plain.literal (s := "(") rfl)).append hdistinct
    exact (hopen.append (ih h)).append (Plain.literal rfl)

theorem Item.Named.plain {i : Item} (h : i.Named) : Plain i.text := by
  cases i with
  | var name => exact Plain.of_word h.word
  | computed expr name =>
    exact ((plain_exprText h.1).append (Plain.literal rfl)).append (Plain.of_word h.2.word)

theorem plain_directed {text : String} (h : Plain text) (descending : Bool) :
    Plain (directed text descending) := by
  unfold directed
  split
  · exact h.append (Plain.literal rfl)
  · exact h

theorem SortTerm.Named.plain {t : SortTerm} (h : t.Named) : Plain t.text := by
  cases t with
  | random => exact Plain.literal rfl
  | property lhs descending => exact plain_directed (PropertyRef.Named.plain h) descending

/-- Pieces with blanks between them. -/
theorem mentions_intercalate {parts : List String} {names : List (List String)}
    (h : List.Forall₂ Mentions parts names) :
    Mentions (" ".intercalate parts) names.flatten := by
  induction h with
  | nil =>
    rw [String.intercalate_nil]
    exact (Plain.literal rfl).mentions
  | @cons p ns parts names hp hrest ih =>
    cases hrest with
    | nil =>
      rw [String.intercalate_singleton, List.flatten_singleton]
      exact hp
    | cons hq hrest =>
      rw [String.intercalate_cons_cons, List.flatten_cons, String.append_assoc]
      exact hp.append (Mentions.plain_append (Plain.literal rfl) ih) (Follows.head_append rfl rfl)

theorem mentions_parts {page : Page} (h : ∀ name ∈ page.params, IsName name) :
    ∃ names, List.Forall₂ Mentions page.parts names ∧ names.flatten = page.params := by
  obtain ⟨skip?, limit?⟩ := page
  have hskip (name : String) (hname : IsName name) : Mentions ("SKIP $" ++ name) [name] :=
    Mentions.literal_dollar "SKIP " rfl (Plain.literal rfl) hname.word
  have hlimit (name : String) (hname : IsName name) : Mentions ("LIMIT $" ++ name) [name] :=
    Mentions.literal_dollar "LIMIT " rfl (Plain.literal rfl) hname.word
  cases skip? with
  | none =>
    cases limit? with
    | none => exact ⟨[], .nil, rfl⟩
    | some n => exact ⟨[[n]], .cons (hlimit n (h n (by simp [Page.params]))) .nil, rfl⟩
  | some m =>
    have hm := hskip m (h m (by simp [Page.params]))
    cases limit? with
    | none => exact ⟨[[m]], .cons hm .nil, rfl⟩
    | some n =>
      exact ⟨[[m], [n]], .cons hm (.cons (hlimit n (h n (by simp [Page.params]))) .nil), rfl⟩

theorem clauseTexts_eq_map (cs : List Clause) : clauseTexts cs = cs.map clauseText := by
  induction cs with
  | nil => rfl
  | cons c rest ih => rw [clauseTexts, ih, List.map_cons]

/-- Clauses with blanks between them refer to what each of them refers to. -/
theorem mentions_clauses {cs : List Clause}
    (h : ∀ c ∈ cs, Mentions (clauseText c) c.params) :
    Mentions (" ".intercalate (clauseTexts cs)) (Clause.paramsOf cs) := by
  rw [clauseTexts_eq_map, Clause.paramsOf_eq_flatMap, List.flatMap_def]
  refine mentions_intercalate ?_
  rw [List.forall₂_map_left_iff, List.forall₂_map_right_iff, List.forall₂_same]
  exact h

theorem mentions_clauseText {c : Clause} (h : c.Named) : Mentions (clauseText c) c.params := by
  induction c using Clause.induction with
  | matching patterns =>
    refine (Plain.append (Plain.literal rfl) (Plain.intercalate (Plain.literal rfl) ?_)).mentions
    intro t ht
    obtain ⟨p, hp, rfl⟩ := List.mem_map.1 ht
    exact (h p hp).plain
  | optionalMatching p => exact ((Plain.literal rfl).append (Pattern.Named.plain h)).mentions
  | filter fs => exact Mentions.plain_append (Plain.literal rfl) (mentions_conditionText h)
  | lateFilter fs => exact Mentions.plain_append (Plain.literal rfl) (mentions_conditionText h)
  | stage d items order =>
    obtain ⟨hitems, horder⟩ := h
    have hdistinct : Plain (if d then "DISTINCT " else "") := by
      split <;> exact Plain.literal rfl
    have hlist : Plain (", ".intercalate (items.map fun i => i.1.text ++ " AS " ++ i.2)) := by
      refine Plain.intercalate (Plain.literal rfl) fun t ht => ?_
      obtain ⟨i, hi, rfl⟩ := List.mem_map.1 ht
      obtain ⟨href, hname⟩ := hitems i hi
      exact (href.plain.append (Plain.literal rfl)).append (Plain.of_word hname.word)
    have hsorted : Plain (if order.isEmpty then ""
        else " ORDER BY " ++ ", ".intercalate (order.map fun o => directed o.1.text o.2)) := by
      split
      · exact Plain.literal rfl
      · refine (Plain.literal rfl).append (Plain.intercalate (Plain.literal rfl) fun t ht => ?_)
        obtain ⟨o, ho, rfl⟩ := List.mem_map.1 ht
        exact plain_directed (horder o ho).plain o.2
    have hwith := ((Plain.literal (s := "WITH ") rfl).append hdistinct).append hlist
    exact (hwith.append hsorted).mentions
  | call imports body ih =>
    obtain ⟨himports, hbody⟩ := h
    have hinside := mentions_clauses fun c hc => ih c hc (Clause.allNamed_iff.1 hbody c hc)
    have hwith : Plain (if imports.isEmpty then ""
        else "WITH " ++ ", ".intercalate imports ++ " ") := by
      split
      · exact Plain.literal rfl
      · refine Plain.append (Plain.append (Plain.literal rfl) ?_) (Plain.literal rfl)
        exact Plain.intercalate (Plain.literal rfl) fun name hname =>
          Plain.of_word (himports name hname).word
    refine Mentions.append_plain ?_ (Plain.literal rfl) (Follows.of_head rfl rfl)
    exact Mentions.plain_append ((Plain.literal rfl).append hwith) hinside
  | keep var page =>
    obtain ⟨hvar, hpage⟩ := h
    obtain ⟨names, hparts, hnames⟩ := mentions_parts hpage
    have hwith : Plain ("WITH " ++ var) := (Plain.literal rfl).append (Plain.of_word hvar.word)
    have hall := mentions_intercalate (.cons hwith.mentions hparts)
    rw [List.flatten_cons, List.nil_append, hnames] at hall
    exact hall
  | returning items =>
    refine (Plain.append (Plain.literal rfl) (Plain.intercalate (Plain.literal rfl) ?_)).mentions
    intro t ht
    obtain ⟨i, hi, rfl⟩ := List.mem_map.1 ht
    exact (h i hi).plain
  | ordering terms =>
    refine (Plain.append (Plain.literal rfl) (Plain.intercalate (Plain.literal rfl) ?_)).mentions
    intro t ht
    obtain ⟨term, hterm, rfl⟩ := List.mem_map.1 ht
    exact (h term hterm).plain
  | paging page =>
    obtain ⟨names, hparts, hnames⟩ := mentions_parts h
    have hall := mentions_intercalate hparts
    rw [hnames] at hall
    exact hall

/-- The text of a well-named statement refers to its parameters, each where it stands. -/
theorem references_queryText {q : Query} (h : Clause.AllNamed q) :
    references (queryText q) = Clause.paramsOf q :=
  (mentions_clauses fun c hc => mentions_clauseText (Clause.allNamed_iff.1 h c hc)).references_eq

end GraphMapper.Cypher
