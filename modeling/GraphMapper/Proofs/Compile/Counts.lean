import GraphMapper.Proofs.Compile.Columns
import GraphMapper.Proofs.Compile.Values

/-!
# Counts

A count makes its rows as the statement itself does, in the same clauses and
with the same parameters, and pages them alike; only then the two part, one to
return the rows and the other to count them.
-/

namespace GraphMapper

/-! ## Texts -/

/-- Joined texts may be joined into a longer text in one go. -/
theorem intercalate_flatten {sep : String} {xs ys zs : List String} (hys : ys ≠ []) :
    sep.intercalate (xs ++ sep.intercalate ys :: zs) = sep.intercalate (xs ++ (ys ++ zs)) := by
  have hinner : sep.intercalate (sep.intercalate ys :: zs) = sep.intercalate (ys ++ zs) := by
    cases zs with
    | nil => rw [String.intercalate_singleton, List.append_nil]
    | cons z zs =>
      rw [String.intercalate_cons_cons,
        String.intercalate_append_of_ne_nil hys (List.cons_ne_nil z zs)]
  cases xs with
  | nil => exact hinner
  | cons x xs =>
    rw [String.intercalate_append_of_ne_nil (List.cons_ne_nil x xs) (List.cons_ne_nil _ _), hinner,
      String.intercalate_append_of_ne_nil (List.cons_ne_nil x xs) fun h =>
        hys (List.append_eq_nil_iff.1 h).1]

namespace Cypher

theorem clauseTexts_append (cs ds : List Clause) :
    clauseTexts (cs ++ ds) = clauseTexts cs ++ clauseTexts ds := by
  simp only [clauseTexts_eq_map, List.map_append]

theorem Page.parts_ne_nil {page : Page} (h : page.isEmpty = false) : page.parts ≠ [] := by
  obtain ⟨skip?, limit?⟩ := page
  cases skip? with
  | some _ => exact List.cons_ne_nil _ _
  | none =>
    cases limit? with
    | some _ => exact List.cons_ne_nil _ _
    | none => cases h

theorem Page.parts_eq_nil {page : Page} (h : page.isEmpty = true) : page.parts = [] := by
  obtain ⟨skip?, limit?⟩ := page
  cases skip? with
  | some _ => cases h
  | none =>
    cases limit? with
    | some _ => cases h
    | none => rfl

/-! ## Clauses -/

/-- Whether a clause has a say in which rows there are, before any are left out by a page. -/
def Clause.makesRows : Clause → Bool
  | .matching _ | .optionalMatching _ | .filter _ | .lateFilter _ | .stage _ _ _ | .call _ _ => true
  | .keep _ _ | .returning _ | .ordering _ | .paging _ => false

/-- The clauses that a statement starts with to make its rows. -/
def rowClauses (q : Query) : Query := q.takeWhile Clause.makesRows

theorem rowClauses_append {front rest : Query} {c : Clause} (hfront : ∀ d ∈ front, d.makesRows)
    (hc : c.makesRows = false) : rowClauses (front ++ c :: rest) = front := by
  rw [rowClauses, List.takeWhile_append_of_pos hfront, List.takeWhile_cons_of_neg (by simp [hc]),
    List.append_nil]

/-- The clause that sorts rows, where there is anything to sort by. -/
def orderingBy (terms : List SortTerm) : Query := if terms.isEmpty then [] else [.ordering terms]

/-- The clause that takes a page of rows, where the page is not all there is. -/
def pagedBy (page : Page) : Query := if page.isEmpty then [] else [.paging page]

theorem queryText_pagedBy (q : Query) (page : Page) :
    queryText (q ++ pagedBy page) = " ".intercalate (clauseTexts q ++ page.parts) := by
  rw [queryText, clauseTexts_append, pagedBy]
  cases hpage : page.isEmpty with
  | true => rw [page.parts_eq_nil hpage]; rfl
  | false =>
    rw [← List.append_nil page.parts]
    exact intercalate_flatten (page.parts_ne_nil hpage)

theorem queryText_keep (q : Query) (var : String) (page : Page) (last : Clause) :
    queryText (q ++ [.keep var page, last]) =
      " ".intercalate (clauseTexts q ++ ("WITH " ++ var) :: (page.parts ++ [clauseText last])) := by
  rw [queryText, clauseTexts_append]
  exact intercalate_flatten (List.cons_ne_nil _ _)

end Cypher

section Rows

variable {r : Registry} {s : Selection} {scope scope' : Scope} {space : String} {b b' : Binder}

namespace Selection

theorem makesRows_matchClauses {early late : List Cypher.Formula} :
    ∀ c ∈ matchClauses scope early late, c.makesRows := by
  intro c hc
  rcases mem_matchClauses hc with ⟨_, rfl⟩ | ⟨_, _, rfl⟩ | rfl | rfl | rfl <;> rfl

theorem makesRows_compileFront {imports : List String} {front : List Cypher.Clause}
    (h : s.compileFront r space imports b = .ok ((front, scope), b')) :
    ∀ c ∈ front, c.makesRows := by
  obtain ⟨scope₁, matched, stages, _, hmatched, hstages, rfl⟩ := compileFront_eq_ok h
  intro c hc
  rcases List.mem_append.1 hc with hc | hc
  · obtain ⟨early, late, rfl⟩ := exists_matchClauses hmatched
    exact makesRows_matchClauses c hc
  · obtain ⟨_, _, _, rfl⟩ := stage_of_mem_compileTransforms hstages c hc
    rfl

end Selection

theorem makesRows_compileSubqueries {number : Nat} {qs : List (Subquery QueryPlan)}
    {calls : List Cypher.Clause}
    (h : compileSubqueries r space number scope qs b = .ok ((calls, scope'), b')) :
    ∀ c ∈ calls, c.makesRows := by
  induction qs generalizing number scope calls b with
  | nil =>
    obtain ⟨rfl, _⟩ := compileSubqueries_nil_eq_ok h
    intro c hc
    cases hc
  | cons q rest ih =>
    obtain ⟨body, _, _, _, calls', _, _, _, hrest, rfl⟩ := compileSubqueries_cons_eq_ok h
    intro c hc
    rcases List.mem_cons.1 hc with rfl | hc
    · rfl
    · exact ih hrest c hc

end Rows

/-! ## Two endings -/

section Endings

variable {r : Registry} {s : Selection} {scope : Scope} {space : String} {b b' : Binder}

/-- The item that a count returns. -/
def Cypher.counted (var : String) : Cypher.Item :=
  .computed (.apply (.count false) (.ref ⟨var, []⟩)) "count"

theorem Cypher.clauseText_counted (var : String) :
    Cypher.clauseText (.returning [Cypher.counted var]) =
      "RETURN count(" ++ var ++ ") AS count" := by
  have hitem : (Cypher.counted var).text = "count(" ++ var ++ ") AS count" := by
    simp [Cypher.counted, Cypher.Item.text, Cypher.exprText, Cypher.Reference.text, Function.text,
      Function.isDistinct, String.append_assoc]
  rw [Cypher.clauseText, List.map_singleton, String.intercalate_singleton, hitem]
  simp only [← String.append_assoc, String.reduceAppend]

/-- A count of what a variable matches, once its page is bound. -/
theorem Selection.compileCount_run {page : Cypher.Page} (hplain : scope.transformed? = none)
    (hpage : s.compilePage space b = .ok (page, b')) :
    s.compileCount scope space b =
      .ok (([.keep scope.rootVar page,
        .returning [.computed (.apply (.count false) (.ref ⟨scope.rootVar, []⟩)) "count"]],
        ⟨none, s.mode?, [⟨"count", .projection⟩]⟩), b') := by
  simp only [Selection.compileCount, hplain, Option.isSome_none, Bool.false_eq_true, if_false]
  exact run_bind_eq_ok.2 ⟨page, b', hpage, rfl⟩

/-- Another ending of a plan leaves everything before it as it is. -/
theorem compilePlan_run {imports : List String} {ending : Ending}
    {qs : List (Subquery QueryPlan)} {front calls last : List Cypher.Clause}
    {scope scope' : Scope} {b₁ b₂ : Binder} {shape : ResultShape}
    (hfront : s.compileFront r space imports b = .ok ((front, scope), b₁))
    (hcalls : compileSubqueries r space 1 scope qs b₁ = .ok ((calls, scope'), b₂))
    (hlast : s.compileEnding scope' space (qs.flatMap Subquery.returns) ending b₂ =
      .ok ((last, shape), b')) :
    compilePlan r space imports ending (.mk s qs) b =
      .ok ((front ++ calls ++ last, shape), b') := by
  rw [compilePlan]
  exact run_bind_eq_ok.2 ⟨_, _, hfront, run_bind_eq_ok.2 ⟨_, _, hcalls,
    run_bind_eq_ok.2 ⟨_, _, hlast, rfl⟩⟩⟩

/-- The scope that a plan without transforms ends with is about its own root. -/
theorem Selection.plain_of_compileFront {imports : List String} {front : List Cypher.Clause}
    (hplain : s.transforms = []) (h : s.compileFront r space imports b = .ok ((front, scope), b')) :
    scope.transformed? = none ∧ scope.rootVar = s.root.variableName := by
  obtain ⟨scope₁, _, _, hscope, _, hstages, _⟩ := Selection.compileFront_eq_ok h
  rw [hplain] at hstages
  obtain ⟨_, rfl⟩ := Selection.compileTransforms_nil_eq_ok hstages
  exact ⟨(Scope.Introduces.of_scope hscope).plain.1, (Scope.places_scope hscope).1⟩

end Endings

/-- A plan that compiles and has no transforms can be counted.  The count holds the same parameters
and makes its rows in the same clauses, texts and all; then one returns them, sorted and paged, and
the other counts its root on the same page. -/
theorem QueryPlan.count_of_same_rows {r : Registry} {p : QueryPlan} {c : CompiledQuery}
    (hplain : p.selection.transforms = []) (h : p.compile r = .ok c) :
    ∃ n, p.compileCount r = .ok n ∧ n.params = c.params ∧
      Cypher.rowClauses n.query = Cypher.rowClauses c.query ∧
      ∃ (items : List Cypher.Item) (terms : List Cypher.SortTerm) (page : Cypher.Page),
        c.query = Cypher.rowClauses c.query ++
          .returning items :: (Cypher.orderingBy terms ++ Cypher.pagedBy page) ∧
        n.query = Cypher.rowClauses c.query ++
          [.keep p.root.variableName page, .returning [Cypher.counted p.root.variableName]] ∧
        c.text = " ".intercalate (Cypher.clauseTexts (Cypher.rowClauses c.query) ++
          Cypher.clauseTexts (.returning items :: Cypher.orderingBy terms) ++ page.parts) ∧
        n.text = " ".intercalate (Cypher.clauseTexts (Cypher.rowClauses c.query) ++
          ("WITH " ++ p.root.variableName) ::
            (page.parts ++ ["RETURN count(" ++ p.root.variableName ++ ") AS count"])) := by
  obtain ⟨s, qs⟩ := p
  obtain ⟨binder, hrun, hparams⟩ := compileTo_eq_ok h
  obtain ⟨front, scope, b₁, calls, scope', b₂, last, hfront, hcalls, hlast, hquery⟩ :=
    compilePlan_eq_ok hrun
  obtain ⟨outputs, _, hreturn, _⟩ := Selection.compileEnding_result_eq_ok hlast
  obtain ⟨_, _, terms, page, _, hpage, rfl⟩ := Selection.compileReturn_eq_ok hreturn
  obtain ⟨htransformed, hroot⟩ := Selection.plain_of_compileFront hplain hfront
  obtain ⟨_, hroot', htransformed'⟩ := keeps_compileSubqueries hcalls
  -- Both endings bind the page, and nothing else, to parameters.
  have hcount := Selection.compileCount_run (htransformed'.trans htransformed) hpage
  rw [hroot', hroot] at hcount
  have hrun' : compilePlan r "" [] .count (.mk s qs) .empty = _ :=
    compilePlan_run hfront hcalls hcount
  have hmakes : ∀ d ∈ front ++ calls, d.makesRows := by
    intro d hd
    rcases List.mem_append.1 hd with hd | hd
    · exact Selection.makesRows_compileFront hfront d hd
    · exact makesRows_compileSubqueries hcalls d hd
  have hresult : c.query = (front ++ calls) ++
      .returning (outputs.map Prod.fst) :: (Cypher.orderingBy terms ++ Cypher.pagedBy page) :=
    hquery
  have hrows : Cypher.rowClauses c.query = front ++ calls := by
    rw [hresult, Cypher.rowClauses_append hmakes rfl]
  rw [hrows]
  refine ⟨_, bind_eq_ok.2 ⟨_, hrun', rfl⟩, hparams.symm, Cypher.rowClauses_append hmakes rfl,
    _, terms, page, hresult, rfl, ?_, ?_⟩
  · rw [CompiledQuery.text, hresult, ← List.cons_append, ← List.append_assoc,
      Cypher.queryText_pagedBy, Cypher.clauseTexts_append]
  · rw [← Cypher.clauseText_counted]
    exact Cypher.queryText_keep (front ++ calls) _ page _

theorem QueryPlan.count_of_same_rows_asked :
    ∃ c n, (Sample.asked ["a"] "b" 1).compile Sample.registry = .ok c ∧
      (Sample.asked ["a"] "b" 1).compileCount Sample.registry = .ok n ∧ n.params = c.params ∧
      Cypher.rowClauses n.query = Cypher.rowClauses c.query := by
  have h : ((Sample.asked ["a"] "b" 1).compile Sample.registry).isOk = true := by
    decide +kernel
  obtain ⟨c, hc⟩ := exists_eq_ok h
  obtain ⟨n, hn, hparams, hrows, _⟩ := count_of_same_rows rfl hc
  exact ⟨c, n, hc, hn, hparams, hrows⟩

end GraphMapper
