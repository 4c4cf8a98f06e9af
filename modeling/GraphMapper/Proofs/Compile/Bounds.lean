import GraphMapper.Proofs.Compile.Values

/-!
# Bounds that are too large

The numbers given to skip and limit have to fit in 64 bits.  What becomes of a
plan is decided by the plan with zeros in their place (`QueryPlan.unsized`) and
by its bounds: where the former compiles, the plan compiles if every bound
fits, and else fails on the first that does not, whatever plan of the nest it
belongs to.

`Settles` says this of a run of the compiler, and it is kept when runs are put
one after the other.
-/

namespace GraphMapper

/-! ## Plans without their bounds -/

/-- A selection with zeros for its bounds. -/
def Selection.unsized (s : Selection) : Selection := { s with pagination := s.pagination.blank }

/-- The bounds of a page, with their keywords. -/
def Pagination.bounds (p : Pagination) : List (String × Nat) :=
  (p.skip?.map fun n => ("SKIP", n)).toList ++ (p.limit?.map fun n => ("LIMIT", n)).toList

namespace QueryPlan

mutual

/-- A plan with zeros for its bounds and those of its subqueries. -/
def unsized : QueryPlan → QueryPlan
  | mk s qs => mk s.unsized (unsizedAll qs)

/-- Some subqueries with zeros for their bounds. -/
def unsizedAll : List (Subquery QueryPlan) → List (Subquery QueryPlan)
  | [] => []
  | ⟨plan, returns, imports⟩ :: qs => ⟨plan.unsized, returns, imports⟩ :: unsizedAll qs

end

mutual

/-- The bounds of a plan, those of its subqueries first. -/
def bounds : QueryPlan → List (String × Nat)
  | mk s qs => boundsOf qs ++ s.pagination.bounds

/-- The bounds of some subqueries. -/
def boundsOf : List (Subquery QueryPlan) → List (String × Nat)
  | [] => []
  | ⟨plan, _, _⟩ :: qs => plan.bounds ++ boundsOf qs

end

end QueryPlan

/-- The first bound that does not fit in 64 bits. -/
def tooLarge? (bounds : List (String × Nat)) : Option (String × Nat) :=
  bounds.find? fun bound => decide (greatestInt64 < bound.2)

/-- A run that ends in `P` wherever it starts, unless some bound is too large: then it fails on the
first such bound. -/
def Settles {α : Type} (m : Compile α) (bounds : List (String × Nat)) (P : α → Prop) : Prop :=
  match tooLarge? bounds with
  | none => ∀ b, ∃ a b', m b = .ok (a, b') ∧ P a
  | some (keyword, n) => ∀ b, m b = .error (.error (.compile (.boundTooLarge keyword n)))

/-! ## Runs that settle -/

namespace Settles

variable {α β : Type} {P : α → Prop} {Q : β → Prop} {bounds bounds' : List (String × Nat)}

theorem pure {a : α} (h : P a) : Settles (pure a) [] P := fun b => ⟨a, b, rfl, h⟩

theorem lift {x : Except Error α} {a : α} (hx : x = .ok a) (h : P a) : Settles (liftM x) [] P :=
  fun b => ⟨a, b, run_liftError_eq_ok.2 ⟨hx, rfl⟩, h⟩

theorem bindParam (hint : String) (v : Value) : Settles (bindParam hint v) [] fun _ => True :=
  fun _ => ⟨_, _, rfl, trivial⟩

/-- Runs that settle do so one after the other. -/
theorem bind {m : Compile α} {f : α → Compile β} (hm : Settles m bounds P)
    (hf : ∀ a, P a → Settles (f a) bounds' Q) : Settles (m >>= f) (bounds ++ bounds') Q := by
  unfold Settles tooLarge? at *
  rw [List.find?_append]
  cases hlarge : bounds.find? fun bound => decide (greatestInt64 < bound.2) with
  | some bound =>
    simp only [hlarge] at hm
    intro b
    simp only [Bind.bind, StateT.bind, Except.bind, hm b]
  | none =>
    simp only [hlarge] at hm
    rw [Option.none_or]
    cases hlarge' : bounds'.find? fun bound => decide (greatestInt64 < bound.2) with
    | some bound =>
      simp only [hlarge'] at hf
      intro b
      obtain ⟨a, b₁, hrun, ha⟩ := hm b
      simp only [Bind.bind, StateT.bind, Except.bind, hrun, hf a ha b₁]
    | none =>
      simp only [hlarge'] at hf
      intro b
      obtain ⟨a, b₁, hrun, ha⟩ := hm b
      obtain ⟨y, b₂, hrun', hy⟩ := hf a ha b₁
      exact ⟨y, b₂, run_bind_eq_ok.2 ⟨a, b₁, hrun, hrun'⟩, hy⟩

end Settles

theorem int64?_eq_none_iff {n : Nat} : int64? n = none ↔ greatestInt64 < n := by
  have hleast : leastInt64 ≤ (n : Int) :=
    Int.le_trans (show leastInt64 ≤ 0 by decide) (Int.natCast_nonneg n)
  unfold int64?
  by_cases hn : (n : Int) ≤ greatestInt64
  · simp [hleast, hn]
  · simp [hn]
    omega

/-! ## Filters -/

section Filters

variable {scope scope' : Scope} {space : String} {b b' : Binder}

theorem settles_compileCondition {c : Condition} {f : Cypher.Formula}
    (hscope : scope.blank = scope'.blank) (h : compileCondition scope' space c b = .ok (f, b')) :
    Settles (compileCondition scope space c) [] fun _ => True := by
  obtain ⟨lhs, p, lowered, hfield, hlower, _⟩ := compileCondition_eq_ok h
  rw [← scope'.field_blank, ← hscope, scope.field_blank] at hfield
  refine (Settles.lift (P := (· = (lhs, p))) hfield rfl).bind ?_
  rintro _ rfl
  refine (Settles.lift (P := (· = lowered)) hlower rfl).bind ?_
  rintro lowered rfl
  cases lowered.operand? with
  | none => exact Settles.pure trivial
  | some v => exact (Settles.bindParam _ v).bind fun _ _ => Settles.pure trivial

theorem settles_compilePredicates {ps : List Predicate} {fs : List Cypher.Formula}
    (ih : ∀ p ∈ ps, ∀ b b' f, compilePredicate scope' space p b = .ok (f, b') →
      Settles (compilePredicate scope space p) [] fun _ => True)
    (h : compilePredicates scope' space ps b = .ok (fs, b')) :
    Settles (compilePredicates scope space ps) [] fun _ => True := by
  induction ps generalizing b fs with
  | nil => exact Settles.pure trivial
  | cons p rest ihrest =>
    obtain ⟨f, b₁, fs', hf, hfs, rfl⟩ := compilePredicates_cons_eq_ok h
    have hrest := ihrest (fun q hq => ih q (List.mem_cons_of_mem p hq)) hfs
    rw [compilePredicates]
    exact (ih p List.mem_cons_self _ _ _ hf).bind fun _ _ =>
      hrest.bind fun _ _ => Settles.pure trivial

/-- Whether a predicate compiles does not depend on the parameters bound before it. -/
theorem settles_compilePredicate {p : Predicate} {f : Cypher.Formula}
    (hscope : scope.blank = scope'.blank) (h : compilePredicate scope' space p b = .ok (f, b')) :
    Settles (compilePredicate scope space p) [] fun _ => True := by
  induction p using Predicate.induction generalizing b b' f with
  | leaf c =>
    rw [compilePredicate] at h ⊢
    exact settles_compileCondition hscope h
  | and parts ih =>
    obtain ⟨fs, hfs, rfl⟩ := compilePredicate_and_eq_ok h
    rw [compilePredicate]
    exact (settles_compilePredicates (fun p hp _ _ _ => ih p hp) hfs).bind fun _ _ =>
      Settles.pure trivial
  | or parts ih =>
    obtain ⟨fs, hfs, rfl⟩ := compilePredicate_or_eq_ok h
    rw [compilePredicate]
    exact (settles_compilePredicates (fun p hp _ _ _ => ih p hp) hfs).bind fun _ _ =>
      Settles.pure trivial
  | not p ih =>
    obtain ⟨g, hg, rfl⟩ := compilePredicate_not_eq_ok h
    rw [compilePredicate]
    exact (ih hg).bind fun _ _ => Settles.pure trivial

end Filters

/-! ## Clauses -/

namespace Selection

variable {s : Selection} {scope scope' : Scope} {space : String} {b b' : Binder}

theorem blank_unsized (s : Selection) : s.unsized.blank = s.blank := by
  obtain ⟨_, _, _, _, _, _, _, ⟨skip?, limit?⟩, _, _⟩ := s
  cases skip? <;> cases limit? <;> rfl

theorem settles_compileMatch {clauses : List Cypher.Clause} (hscope : scope.blank = scope'.blank)
    (h : s.unsized.compileMatch scope' space b = .ok (clauses, b')) :
    Settles (s.compileMatch scope space) [] fun _ => True := by
  unfold compileMatch
  obtain ⟨hp, _, _⟩ | ⟨p, f, hp, hf, _⟩ := compileMatch_eq_ok h
  · have hp : s.predicate? = none := hp
    simp only [hp]
    exact Settles.pure trivial
  · have hp : s.predicate? = some p := hp
    simp only [hp]
    exact (settles_compilePredicate hscope hf).bind fun _ _ => Settles.pure trivial

theorem settles_compileFront {r : Registry} {imports : List String} {front : List Cypher.Clause}
    (h : s.unsized.compileFront r space imports b = .ok ((front, scope'), b')) :
    Settles (s.compileFront r space imports) [] fun x => x.2.blank = scope'.blank := by
  obtain ⟨scope₁', matched, stages, hscope', hmatched, hstages, _⟩ := compileFront_eq_ok h
  obtain ⟨scope₁, hscope, hblank⟩ : ∃ scope₁, s.scope r imports = .ok scope₁ ∧
      scope₁.blank = scope₁'.blank := by
    have hmap := s.scope_blank r imports
    rw [← s.blank_unsized, scope_blank, hscope'] at hmap
    obtain ⟨scope₁, hscope, hblank⟩ := map_eq_ok.1 hmap.symm
    exact ⟨scope₁, hscope, hblank⟩
  obtain ⟨scope₂, hstages₂, hblank₂⟩ : ∃ scope₂,
      compileTransforms scope₁ s.transforms = .ok (stages, scope₂) ∧
        scope₂.blank = scope'.blank := by
    have htransforms : compileTransforms scope₁' s.transforms = .ok (stages, scope') := hstages
    have hmap := compileTransforms_blank scope₁ s.transforms
    rw [hblank, compileTransforms_blank, htransforms] at hmap
    obtain ⟨⟨stages₂, scope₂⟩, hrun, heq⟩ := map_eq_ok.1 hmap.symm
    obtain ⟨rfl, hblank₂⟩ := Prod.mk.inj heq
    exact ⟨scope₂, hrun, hblank₂⟩
  have hbound : Settles (liftM (s.scope r imports)) [] (· = scope₁) := fun b =>
    ⟨scope₁, b, run_lift_eq_ok.2 ⟨hscope, rfl⟩, rfl⟩
  refine hbound.bind ?_
  rintro _ rfl
  refine (settles_compileMatch hblank hmatched).bind fun matched _ => ?_
  refine (Settles.lift (P := (· = (stages, scope₂))) hstages₂ rfl).bind ?_
  rintro _ rfl
  exact Settles.pure hblank₂

theorem settles_compileBound (space keyword hint : String) (n? : Option Nat) :
    Settles (compileBound space keyword hint n?) (n?.map fun n => (keyword, n)).toList
      fun _ => True := by
  cases n? with
  | none => exact Settles.pure trivial
  | some n =>
    cases hi : int64? n with
    | none =>
      have hlarge : tooLarge? [(keyword, n)] = some (keyword, n) :=
        List.find?_cons_of_pos (decide_eq_true (int64?_eq_none_iff.1 hi))
      show Settles _ [(keyword, n)] _
      unfold Settles
      rw [hlarge]
      intro b
      simp only [compileBound, hi]
      rfl
    | some i =>
      have hsmall : ¬greatestInt64 < (n : Int) := by
        rw [← int64?_eq_none_iff, hi]
        exact Option.some_ne_none i
      have hnone : tooLarge? [(keyword, n)] = none := by
        rw [tooLarge?, List.find?_cons_of_neg (by simpa using hsmall), List.find?_nil]
      show Settles _ [(keyword, n)] _
      unfold Settles
      rw [hnone]
      intro b
      simp only [compileBound, hi]
      exact ⟨_, _, rfl, trivial⟩

theorem settles_compilePage (s : Selection) (space : String) :
    Settles (s.compilePage space) s.pagination.bounds fun _ => True := by
  have hpure (skip? limit? : Option String) :
      Settles (pure (⟨skip?, limit?⟩ : Cypher.Page) : Compile Cypher.Page) [] fun _ => True :=
    Settles.pure trivial
  have hrun := (settles_compileBound space "SKIP" "skip" s.pagination.skip?).bind fun skip? _ =>
    (settles_compileBound space "LIMIT" "limit" s.pagination.limit?).bind fun limit? _ =>
      hpure skip? limit?
  rw [List.append_nil] at hrun
  exact hrun

theorem settles_compileReturn {outputs : List Output} {clauses : List Cypher.Clause}
    (hscope : scope.blank = scope'.blank)
    (h : s.unsized.compileReturn scope' space outputs b = .ok (clauses, b')) :
    Settles (s.compileReturn scope space outputs) s.pagination.bounds fun _ => True := by
  obtain ⟨hrepeated, hempty, order, _, horder, _, _⟩ := compileReturn_eq_ok h
  have hterm (names : List String) (grouped : Bool) :
      compileOrder scope' names grouped = compileOrder scope names grouped := by
    funext term
    rw [← compileOrder_blank, ← hscope, compileOrder_blank]
  rw [hterm] at horder
  have horder : s.ordering.mapM (compileOrder scope (outputs.map fun o => o.1.name)
      (s.annotations.any fun a => a.expr.isAggregate)) = .ok order := horder
  unfold compileReturn
  simp only [hrepeated, hempty, Bool.false_eq_true, if_false]
  have hrun := (Settles.lift (P := (· = order)) horder rfl).bind fun order' _ =>
    (settles_compilePage s space).bind fun page _ => Settles.pure (P := fun _ => True)
      (a := Cypher.Clause.returning (outputs.map Prod.fst) ::
        (if order'.isEmpty then [] else [.ordering order']) ++
        (if page.isEmpty then [] else [.paging page])) trivial
  rw [List.nil_append, List.append_nil] at hrun
  exact hrun

theorem settles_compileEnding {taken : List String} {ending : Ending}
    {last : List Cypher.Clause} {shape : ResultShape} (hscope : scope.blank = scope'.blank)
    (h : s.unsized.compileEnding scope' space taken ending b = .ok ((last, shape), b')) :
    Settles (s.compileEnding scope space taken ending) s.pagination.bounds fun _ => True := by
  have hreturned (outputs : List Output) (own : Bool) {clauses : List Cypher.Clause}
      (hreturn : s.unsized.compileReturn scope' space outputs b = .ok (clauses, b')) :=
    (settles_compileReturn hscope hreturn).bind fun clauses _ =>
      Settles.pure (P := fun _ => True) (a := (clauses, s.shapeOf scope own outputs)) trivial
  cases ending with
  | result =>
    obtain ⟨outputs, houtputs, hreturn, _⟩ := compileEnding_result_eq_ok h
    rw [← planOutputs_blank, blank_unsized, ← hscope, planOutputs_blank] at houtputs
    have hrun := (Settles.lift (P := (· = outputs)) houtputs rfl).bind fun outputs' heq =>
      hreturned outputs' true (heq ▸ hreturn)
    rw [List.nil_append, List.append_nil] at hrun
    exact hrun
  | handOut names =>
    obtain ⟨outputs, houtputs, hreturn, _⟩ := compileEnding_handOut_eq_ok h
    have hname : s.unsized.handedOut scope' = s.handedOut scope := by
      funext name
      rw [← handedOut_blank, blank_unsized, ← hscope, handedOut_blank]
    rw [hname] at houtputs
    have hrun := (Settles.lift (P := (· = outputs)) houtputs rfl).bind fun outputs' heq =>
      hreturned outputs' false (heq ▸ hreturn)
    rw [List.nil_append, List.append_nil] at hrun
    exact hrun
  | count =>
    obtain ⟨htransformed, _⟩ := compileCount_eq_ok h
    have htransformed : scope.transformed? = none :=
      (congrArg Scope.transformed? hscope :).trans htransformed
    unfold compileEnding compileCount
    simp only [htransformed, Option.isSome_none, Bool.false_eq_true, if_false]
    have hrun := (settles_compilePage s space).bind fun page _ =>
      Settles.pure (P := fun _ => True) (a := (([.keep scope.rootVar page, .returning
          [.computed (.apply (.count false) (.ref ⟨scope.rootVar, []⟩)) "count"]] :
            List Cypher.Clause),
        (⟨none, s.mode?, [⟨"count", .projection⟩]⟩ : ResultShape))) trivial
    rw [List.append_nil] at hrun
    exact hrun

end Selection

/-! ## Plans -/

section Plans

variable {r : Registry} {space : String} {b b' : Binder}

theorem QueryPlan.returns_unsizedAll (qs : List (Subquery QueryPlan)) :
    (unsizedAll qs).flatMap Subquery.returns = qs.flatMap Subquery.returns := by
  induction qs with
  | nil => rfl
  | cons q rest ih =>
    simp only [unsizedAll, List.flatMap_cons, ih]

/-- Where a plan with zeros for its bounds compiles, the plan settles. -/
def RunsSettle (r : Registry) (p : QueryPlan) : Prop :=
  ∀ space imports ending b y, compilePlan r space imports ending p.unsized b = .ok y →
    Settles (compilePlan r space imports ending p) p.bounds fun _ => True

theorem settles_compileSubqueries {number : Nat} {qs : List (Subquery QueryPlan)}
    {scope scope' scope₂ : Scope} {calls : List Cypher.Clause}
    (ih : ∀ q ∈ qs, RunsSettle r q.plan) (hscope : scope.blank = scope'.blank)
    (h : compileSubqueries r space number scope' (QueryPlan.unsizedAll qs) b =
      .ok ((calls, scope₂), b')) :
    Settles (compileSubqueries r space number scope qs) (QueryPlan.boundsOf qs)
      fun x => x.2.blank = scope₂.blank := by
  induction qs generalizing number scope scope' calls b with
  | nil =>
    obtain ⟨_, rfl, _⟩ := compileSubqueries_nil_eq_ok h
    rw [compileSubqueries]
    exact Settles.pure hscope
  | cons q rest ihrest =>
    obtain ⟨plan, returns, imports⟩ := q
    obtain ⟨body, shape, b₁, scope₁', calls', himports, hbody, htake, hcalls, _⟩ :=
      compileSubqueries_cons_eq_ok h
    have himports : checkImports scope imports = .ok () := by
      rw [← checkImports_blank, hscope, checkImports_blank]
      exact himports
    obtain ⟨scope₁, htake, hblank⟩ : ∃ scope₁, takeReturns scope returns = .ok scope₁ ∧
        scope₁.blank = scope₁'.blank := by
      have hmap := takeReturns_blank scope returns
      rw [hscope, takeReturns_blank, htake] at hmap
      exact map_eq_ok.1 hmap.symm
    have hrest := ihrest (fun q hq => ih q (List.mem_cons_of_mem _ hq)) hblank hcalls
    have hplan := ih _ List.mem_cons_self _ _ _ _ _ hbody
    have hrun := (Settles.lift (P := fun _ => True) himports trivial).bind fun _ _ =>
      hplan.bind fun body _ => (Settles.lift (P := (· = scope₁)) htake rfl).bind fun scope₁ heq =>
        (heq ▸ hrest).bind fun x hx =>
          Settles.pure (P := fun x : List Cypher.Clause × Scope => x.2.blank = scope₂.blank)
            (a := (.call imports body.1 :: x.1, x.2)) hx
    rw [List.nil_append, List.nil_append, List.append_nil] at hrun
    rw [compileSubqueries]
    exact hrun

/-- Every plan settles, nested to any depth. -/
theorem runsSettle (p : QueryPlan) : RunsSettle r p := by
  induction p using QueryPlan.induction with
  | mk s qs ih =>
    intro space imports ending b y h
    obtain ⟨⟨clauses, shape⟩, b'⟩ := y
    obtain ⟨front, scope₁', b₁, calls, scope₂', b₂, last, hfront, hcalls, hlast, _⟩ :=
      compilePlan_eq_ok h
    rw [QueryPlan.returns_unsizedAll] at hlast
    have hrun := (Selection.settles_compileFront hfront).bind fun x hx =>
      (settles_compileSubqueries ih hx hcalls).bind fun y hy =>
        (Selection.settles_compileEnding hy hlast).bind fun z _ =>
          Settles.pure (P := fun _ => True) (a := (x.1 ++ y.1 ++ z.1, z.2)) trivial
    rw [List.nil_append, List.append_nil] at hrun
    rw [compilePlan]
    exact hrun

end Plans

/-- Where a plan with zeros for its bounds compiles, the plan compiles if all bounds fit, and else
the first that does not is the error. -/
theorem QueryPlan.compileTo_of_unsized {r : Registry} {p : QueryPlan} {ending : Ending}
    {c : CompiledQuery} (h : p.unsized.compileTo r ending = .ok c) :
    match tooLarge? p.bounds with
    | none => ∃ c', p.compileTo r ending = .ok c'
    | some (keyword, n) =>
      p.compileTo r ending = .error (.error (.compile (.boundTooLarge keyword n))) := by
  obtain ⟨binder, hrun, _⟩ := compileTo_eq_ok h
  have hsettles := runsSettle p _ _ _ _ _ hrun
  unfold Settles at hsettles
  cases hlarge : tooLarge? p.bounds with
  | none =>
    rw [hlarge] at hsettles
    obtain ⟨⟨clauses, shape⟩, b', hplan, _⟩ := hsettles .empty
    exact ⟨⟨clauses, b'.params, shape⟩,
      by simp only [compileTo, StateT.run, hplan]; rfl⟩
  | some bound =>
    rw [hlarge] at hsettles
    simp only [compileTo, StateT.run, hsettles .empty]
    rfl

end GraphMapper
