import GraphMapper.Proofs.Cypher.Reading
import GraphMapper.Proofs.Plan.Calls

/-!
# What the filters of a statement say

The filters of a statement stand behind MATCH, behind `WITH *`, or are split
between the two.  Read with the usual precedence and taken together, they say
what the calls on the plan asked for: every filter, the negation of everything
excluded, and every existence check.

* `Predicate.logic`, `Existence.logic` and `PlanCall.demand?` give that meaning
  on the side of the plan.
* `QueryPlan.same_demand_calls` says that a plan keeps the meaning of its calls,
  however they are flattened into one predicate.
* `Predicate.compilesTo` says that compiling keeps the shape of a predicate and
  lowers its comparisons one by one.
* `QueryPlan.filters_say_what_calls_ask` puts them together.
-/

namespace GraphMapper

/-! ## The meaning of a plan's filters -/

namespace Predicate

mutual

/-- What a predicate says about its comparisons. -/
def logic : Predicate → Logic Condition Existence
  | leaf c => .comparison c
  | and parts => .all (logics parts)
  | or parts => .any (logics parts)
  | not p => .not p.logic

/-- What some predicates say. -/
def logics : List Predicate → List (Logic Condition Existence)
  | [] => []
  | p :: ps => p.logic :: logics ps

end

theorem logics_eq_map (ps : List Predicate) : logics ps = ps.map logic := by
  induction ps with
  | nil => rfl
  | cons p rest ih => rw [logics, ih, List.map_cons]

theorem all_andParts (p : Predicate) : Logic.all (p.andParts.map logic) = p.logic := by
  unfold andParts
  split
  · rw [logic, logics_eq_map]
  · rfl

/-- Flattening a conjunction keeps its comparisons and its truth. -/
theorem same_logic_all (ps : List Predicate) :
    Logic.Same (Predicate.all ps).logic (.all (ps.map logic)) := by
  have hall : (Predicate.all ps).logic = .all ((ps.flatMap andParts).map logic) := by
    unfold Predicate.all
    split
    · next p hp => rw [hp]; rfl
    · rw [logic, logics_eq_map]
  rw [hall, List.map_flatMap]
  refine (Logic.same_all_flatMap _ ps).trans ?_
  simp only [all_andParts]
  exact Logic.Same.refl _

theorem checks_logic (p : Predicate) : p.logic.checks = [] := by
  induction p using Predicate.induction with
  | leaf c => rfl
  | and parts ih =>
    rw [logic, Logic.checks_all, logics_eq_map, List.flatMap_eq_nil_iff]
    simpa using ih
  | or parts ih =>
    rw [logic, Logic.checks_any, logics_eq_map, List.flatMap_eq_nil_iff]
    simpa using ih
  | not p ih => rw [logic, Logic.checks, ih]

end Predicate

/-- What an existence check says. -/
def Existence.logic (e : Existence) : Logic Condition Existence :=
  if e.isPresent then .check e else .not (.check e)

theorem Existence.comparisons_logic (e : Existence) : e.logic.comparisons = [] := by
  unfold Existence.logic
  split <;> rfl

/-- What a call asks of every match, if it filters; a chain of hops is resolved from the root. -/
def PlanCall.demand? (r : Registry) (root : NodeType) :
    PlanCall → Option (Logic Condition Existence)
  | .filter p => some p.logic
  | .exclude p => some (.not p.logic)
  | .has path isPresent =>
    match parseHops path >>= walk r root with
    | .ok hops => some (Existence.logic ⟨hops, isPresent⟩)
    | .error _ => none
  | _ => none

namespace Selection

/-- What the predicate of a selection says. -/
def predicateLogic (s : Selection) : Logic Condition Existence :=
  match s.predicate? with
  | some p => p.logic
  | none => .const true

/-- What a selection asks of every match. -/
def demand (s : Selection) : Logic Condition Existence :=
  s.predicateLogic.and (.all (s.existence.map Existence.logic))

theorem comparisons_existence (s : Selection) :
    (Logic.all (s.existence.map Existence.logic)).comparisons = [] := by
  rw [Logic.comparisons_all, List.flatMap_eq_nil_iff]
  simp [Existence.comparisons_logic]

/-- Adding a predicate adds what it says. -/
theorem same_demand_filter (s : Selection) (p : Predicate) :
    Logic.Same
      { s with
        predicate? := some (match s.predicate? with
          | some q => Predicate.all [q, p]
          | none => p) }.demand
      (s.demand.and p.logic) := by
  have hp : Logic.Same (Logic.and s.predicateLogic p.logic)
      (match s.predicate? with
        | some q => Predicate.all [q, p]
        | none => p).logic := by
    unfold predicateLogic
    split
    · next q _ => exact (Predicate.same_logic_all [q, p]).symm
    · exact Logic.same_true_and p.logic
  refine (Logic.Same.and hp (Logic.Same.refl _)).symm.trans ?_
  -- The predicate stands before the existence checks, the call comes after them.
  refine (Logic.same_and_assoc _ _ _).trans ?_
  refine (Logic.Same.and (Logic.Same.refl _) ?_).trans (Logic.same_and_assoc _ _ _).symm
  exact Logic.same_and_comm (Predicate.checks_logic p) (comparisons_existence s)

/-- Adding an existence check adds what it says. -/
theorem same_demand_has (s : Selection) (e : Existence) :
    Logic.Same { s with existence := s.existence ++ [e] }.demand (s.demand.and e.logic) := by
  refine Logic.Same.trans ?_ (Logic.same_and_assoc _ _ _).symm
  refine Logic.Same.and (Logic.Same.refl _) ?_
  rw [List.map_append, List.map_singleton]
  exact Logic.same_all_append _ _

end Selection

/-- What some calls ask of every match. -/
def demands (root : NodeType) (history : List (Registry × PlanCall)) :
    List (Logic Condition Existence) :=
  history.filterMap fun c => c.2.demand? c.1 root

namespace QueryPlan

/-- A call adds what it asks for, and nothing else. -/
theorem same_demand_call {r : Registry} {p q : QueryPlan} {c : PlanCall}
    (h : p.call r c = .ok q) :
    Logic.Same q.selection.demand
      (p.selection.demand.and (.all (c.demand? r p.root).toList)) := by
  cases does_of_call h with
  | filter | exclude => exact Selection.same_demand_filter _ _
  | has hresolved =>
    simp only [PlanCall.demand?, root, selection, hresolved]
    exact Selection.same_demand_has _ _
  | traverse | share | orderBy | skip | limit | annotate | transform | subquery =>
    exact (Logic.same_and_true _).symm

/-- A plan asks for what it asked for at first, and for what its calls ask for. -/
theorem same_demand_calls {history : List (Registry × PlanCall)} {p q : QueryPlan}
    (h : p.calls history = .ok q) :
    Logic.Same q.selection.demand (p.selection.demand.and (.all (demands p.root history))) := by
  induction history generalizing p with
  | nil =>
    obtain rfl := calls_nil_eq_ok h
    exact (Logic.same_and_true _).symm
  | cons c rest ih =>
    obtain ⟨p₁, hcall, hrest⟩ := calls_cons_eq_ok h
    have hroot : p₁.root = p.root := root_call hcall
    have hdemands : demands p.root (c :: rest) =
        (c.2.demand? c.1 p.root).toList ++ demands p.root rest := by
      unfold demands
      rw [List.filterMap_cons]
      cases c.2.demand? c.1 p.root <;> rfl
    rw [hdemands]
    refine (ih hrest).trans ?_
    rw [hroot]
    refine (Logic.Same.and (same_demand_call hcall) (Logic.Same.refl _)).trans ?_
    refine (Logic.same_and_assoc _ _ _).trans ?_
    exact Logic.Same.and (Logic.Same.refl _) (Logic.same_all_append _ _).symm

/-- A new plan asks for nothing but what its calls ask for. -/
theorem same_demand_of_new {r : Registry} {root : String} {p q : QueryPlan}
    {history : List (Registry × PlanCall)} (hnew : QueryPlan.new r root = .ok p)
    (h : p.calls history = .ok q) :
    Logic.Same q.selection.demand (.all (demands p.root history)) := by
  obtain ⟨t, _, rfl⟩ := new_eq_ok hnew
  refine (same_demand_calls h).trans ?_
  exact (Logic.Same.and (Logic.same_true_and _) (Logic.Same.refl _)).trans
    (Logic.same_true_and _)

end QueryPlan

/-! ## Compiling a predicate -/

/-- A comparison of the statement that a comparison of the plan is lowered to: it compares the
variable and storage name of the plan's field with the plan's operator. -/
def Condition.LowersTo (scope : Scope) (c : Condition) (a : Cypher.Atom) : Prop :=
  ∃ lhs p lowered name, scope.field c.field .filters = .ok (lhs, p) ∧
    c.lower lhs p = .ok lowered ∧ a = lowered.atom name

/-- A filter of the statement with the shape of a predicate and its comparisons lowered. -/
structure Predicate.CompilesTo (scope : Scope) (p : Predicate) (f : Cypher.Formula) : Prop where
  comparisons : List.Forall₂ (Condition.LowersTo scope) p.logic.comparisons f.logic.comparisons
  shape : p.logic.shape = f.logic.shape

namespace Predicate

variable {scope : Scope} {space : String} {b b' : Binder}

theorem compilesTo_group {parts : List Predicate} {fs : List Cypher.Formula}
    (h : List.Forall₂ (CompilesTo scope) parts fs) :
    List.Forall₂ (Condition.LowersTo scope) ((logics parts).flatMap Logic.comparisons)
        ((Cypher.Formula.logics fs).flatMap Logic.comparisons) ∧
      (logics parts).map Logic.shape = (Cypher.Formula.logics fs).map Logic.shape := by
  induction h with
  | nil => exact ⟨.nil, rfl⟩
  | cons hpf _ ih =>
    simp only [logics, Cypher.Formula.logics, List.flatMap_cons, List.map_cons]
    exact ⟨List.rel_append hpf.comparisons ih.1, congrArg₂ _ hpf.shape ih.2⟩

theorem compilesTo_parts {parts : List Predicate} {fs : List Cypher.Formula}
    (ih : ∀ p ∈ parts, ∀ b b' f, compilePredicate scope space p b = .ok (f, b') →
      CompilesTo scope p f)
    (h : compilePredicates scope space parts b = .ok (fs, b')) :
    List.Forall₂ (CompilesTo scope) parts fs := by
  induction parts generalizing b fs with
  | nil =>
    obtain ⟨rfl, rfl⟩ := compilePredicates_nil_eq_ok h
    exact .nil
  | cons p rest ihrest =>
    obtain ⟨f, b₁, fs', hf, hfs, rfl⟩ := compilePredicates_cons_eq_ok h
    refine .cons (ih p List.mem_cons_self _ _ _ hf) ?_
    exact ihrest (fun q hq => ih q (List.mem_cons_of_mem p hq)) hfs

/-- A predicate is compiled node by node, and comparison by comparison. -/
theorem compilesTo {p : Predicate} {f : Cypher.Formula}
    (h : compilePredicate scope space p b = .ok (f, b')) : CompilesTo scope p f := by
  induction p using Predicate.induction generalizing b b' f with
  | leaf c =>
    obtain ⟨lhs, p, lowered, hfield, hlower, hatom⟩ := compileCondition_eq_ok h
    obtain ⟨_, rfl, _⟩ | ⟨v, name, _, _, rfl⟩ := hatom
    · exact ⟨.cons ⟨lhs, p, lowered, "", hfield, hlower, rfl⟩ .nil, rfl⟩
    · exact ⟨.cons ⟨lhs, p, lowered, name, hfield, hlower, rfl⟩ .nil, rfl⟩
  | and parts ih =>
    obtain ⟨fs, hfs, rfl⟩ := compilePredicate_and_eq_ok h
    obtain ⟨hcomparisons, hshape⟩ := compilesTo_group (compilesTo_parts ih hfs)
    constructor
    · simpa only [logic, Cypher.Formula.logic, Logic.comparisons_all] using hcomparisons
    · simp only [logic, Cypher.Formula.logic, Logic.shape_all, hshape]
  | or parts ih =>
    obtain ⟨fs, hfs, rfl⟩ := compilePredicate_or_eq_ok h
    obtain ⟨hcomparisons, hshape⟩ := compilesTo_group (compilesTo_parts ih hfs)
    constructor
    · simpa only [logic, Cypher.Formula.logic, Logic.comparisons_any] using hcomparisons
    · simp only [logic, Cypher.Formula.logic, Logic.shape_any, hshape]
  | not p ih =>
    obtain ⟨g, hg, rfl⟩ := compilePredicate_not_eq_ok h
    obtain ⟨hcomparisons, hshape⟩ := ih hg
    exact ⟨hcomparisons, congrArg Logic.not hshape⟩

end Predicate

/-! ## The clauses that filter -/

/-- The tokens of a clause that filters. -/
def Cypher.Clause.condition? : Cypher.Clause → Option (List Cypher.Token)
  | .filter fs | .lateFilter fs => some (Cypher.conditionTokens fs)
  | _ => none

/-- What the filters of a statement say, clause by clause; blocks inside have their own. -/
def Cypher.readFilters (clauses : List Cypher.Clause) : Option (List Cypher.Reading) :=
  (clauses.filterMap Cypher.Clause.condition?).mapM Cypher.readCondition

namespace Selection

/-- The filters of one clause, if there are any. -/
def filterGroup (fs : List Cypher.Formula) : List (List Cypher.Formula) :=
  if fs.isEmpty then [] else [fs]

theorem flatten_filterGroup (fs : List Cypher.Formula) : (filterGroup fs).flatten = fs := by
  cases fs <;> simp [filterGroup]

theorem ne_nil_of_mem_filterGroup {fs g : List Cypher.Formula} (h : g ∈ filterGroup fs) :
    g ≠ [] := by
  cases fs with
  | nil => cases h
  | cons f rest =>
    obtain rfl := List.mem_singleton.1 h
    exact List.cons_ne_nil f rest

/-- The clauses of the early and the late filters, wherever the split between them falls: none is
empty, and together they hold every filter once. -/
theorem condition?_matchClauses (scope : Scope) (early late : List Cypher.Formula) :
    ∃ groups : List (List Cypher.Formula), (∀ g ∈ groups, g ≠ []) ∧
      groups.flatten = early ++ late ∧
      (matchClauses scope early late).filterMap Cypher.Clause.condition? =
        groups.map Cypher.conditionTokens := by
  have hoptional : (scope.optional.map Cypher.Clause.optionalMatching).filterMap
      Cypher.Clause.condition? = [] := by
    rw [List.filterMap_map, List.filterMap_eq_nil_iff]
    intro p _
    rfl
  have hlate (fs : List Cypher.Formula) :
      (if fs.isEmpty then [] else [Cypher.Clause.lateFilter fs]).filterMap
        Cypher.Clause.condition? = (filterGroup fs).map Cypher.conditionTokens := by
    cases fs <;> rfl
  have hearly (fs : List Cypher.Formula) :
      (if fs.isEmpty then [] else [Cypher.Clause.filter fs]).filterMap
        Cypher.Clause.condition? = (filterGroup fs).map Cypher.conditionTokens := by
    cases fs <;> rfl
  unfold matchClauses
  by_cases hpatterns : (mandatoryPatterns scope).isEmpty = true
  · -- Without patterns every filter is late.
    refine ⟨filterGroup (early ++ late), fun g => ne_nil_of_mem_filterGroup,
      flatten_filterGroup _, ?_⟩
    simp only [hpatterns, if_true]
    rw [List.filterMap_append, hoptional, hlate, List.nil_append]
  · refine ⟨filterGroup early ++ filterGroup late, ?_, ?_, ?_⟩
    · intro g hg
      rcases List.mem_append.1 hg with hg | hg
      · exact ne_nil_of_mem_filterGroup hg
      · exact ne_nil_of_mem_filterGroup hg
    · rw [List.flatten_append, flatten_filterGroup, flatten_filterGroup]
    · simp only [hpatterns, Bool.false_eq_true, if_false, List.cons_append]
      rw [List.filterMap_cons, List.map_append, ← hearly, ← hlate]
      simp only [Cypher.Clause.condition?, List.filterMap_append, hoptional, List.append_nil]

theorem readConditions_map {groups : List (List Cypher.Formula)} (h : ∀ g ∈ groups, g ≠ []) :
    (groups.map Cypher.conditionTokens).mapM Cypher.readCondition =
      some (groups.map fun g => .all (g.flatMap Cypher.Formula.operands)) := by
  induction groups with
  | nil => rfl
  | cons g rest ih =>
    rw [List.map_cons, List.mapM_cons,
      Cypher.readCondition_conditionTokens (h g List.mem_cons_self),
      ih fun g' hg' => h g' (List.mem_cons_of_mem g hg')]
    rfl

/-- Read together, the filters of the clauses say what all of them say. -/
theorem readFilters_matchClauses (scope : Scope) (early late : List Cypher.Formula) :
    ∃ readings, Cypher.readFilters (matchClauses scope early late) = some readings ∧
      Logic.Same (.all readings) (.all ((early ++ late).map Cypher.Formula.logic)) := by
  obtain ⟨groups, hne, hflatten, hconditions⟩ := condition?_matchClauses scope early late
  refine ⟨groups.map fun g => .all (g.flatMap Cypher.Formula.operands), ?_, ?_⟩
  · unfold Cypher.readFilters
    rw [hconditions, readConditions_map hne]
  · refine (Logic.same_all_flatMap (fun g => g.flatMap Cypher.Formula.operands)
      groups).symm.trans ?_
    rw [← List.flatMap_assoc, List.flatMap_id', hflatten]
    refine (Logic.same_all_flatMap Cypher.Formula.operands (early ++ late)).trans ?_
    simp only [Cypher.Formula.all_operands]
    exact Logic.Same.refl _

end Selection

/-! ## What compiled filters say -/

/-- The filters of a statement say what is wanted: every comparison is lowered once, every check
stands once, and under every assignment both are true or both are false. -/
structure FiltersSay (scope : Scope) (wanted : Logic Condition Existence)
    (read : Cypher.Reading) : Prop where
  comparisons : List.Forall₂ (Condition.LowersTo scope) wanted.comparisons read.comparisons
  checks : read.checks = wanted.checks.map (Existence.pattern scope.rootVar)
  holds : ∀ t, read.holds t = wanted.holds t

namespace FiltersSay

variable {scope : Scope} {wanted wanted' : Logic Condition Existence} {read read' : Cypher.Reading}

theorem of_same (h : FiltersSay scope wanted read) (hwanted : Logic.Same wanted wanted')
    (hread : Logic.Same read' read) : FiltersSay scope wanted' read' where
  comparisons := by
    rw [← hwanted.comparisons, hread.comparisons]
    exact h.comparisons
  checks := by
    rw [← hwanted.checks, hread.checks]
    exact h.checks
  holds t := by
    rw [hread.holds, h.holds, hwanted.holds]

theorem and (h : FiltersSay scope wanted read) (h' : FiltersSay scope wanted' read') :
    FiltersSay scope (wanted.and wanted') (read.and read') where
  comparisons := List.rel_append h.comparisons h'.comparisons
  checks := by
    simp only [Logic.checks]
    rw [h.checks, h'.checks, List.map_append]
  holds t := by
    have hcomparisons : read.comparisons.length = wanted.comparisons.length :=
      h.comparisons.length_eq.symm
    have hchecks : read.checks.length = wanted.checks.length := by
      rw [h.checks, List.length_map]
    simp only [Logic.holds]
    rw [h.holds, h'.holds, hcomparisons, hchecks]

theorem of_compilesTo {p : Predicate} {f : Cypher.Formula} (h : p.CompilesTo scope f) :
    FiltersSay scope p.logic f.logic where
  comparisons := h.comparisons
  checks := by
    have hlength : f.logic.checks.length = p.logic.checks.length := by
      have hmap := congrArg (fun g => g.checks.length) h.shape
      simpa [Logic.shape] using hmap.symm
    rw [Predicate.checks_logic] at hlength ⊢
    exact List.length_eq_zero_iff.1 hlength
  holds t := (Logic.holds_of_shape_eq h.shape t).symm

theorem formula_existence (e : Existence) :
    FiltersSay scope e.logic (Existence.formula scope.rootVar e).logic := by
  unfold Existence.logic Existence.formula
  by_cases hpresent : e.isPresent = true
  · rw [if_pos hpresent, if_pos hpresent]
    exact ⟨.nil, rfl, fun _ => rfl⟩
  · rw [if_neg hpresent, if_neg hpresent]
    exact ⟨.nil, rfl, fun _ => rfl⟩

theorem all_existence (es : List Existence) :
    FiltersSay scope (.all (es.map Existence.logic))
      (.all ((es.map (Existence.formula scope.rootVar)).map Cypher.Formula.logic)) := by
  induction es with
  | nil => exact ⟨.nil, rfl, fun _ => rfl⟩
  | cons e rest ih =>
    simp only [List.map_cons]
    exact ((formula_existence e).and ih).of_same (Logic.same_all_cons _ _).symm
      (Logic.same_all_cons _ _)

end FiltersSay

/-- The clauses that match and filter say what a selection demands. -/
theorem Selection.filtersSay_compileMatch {s : Selection} {scope : Scope} {space : String}
    {clauses : List Cypher.Clause} {b b' : Binder}
    (h : s.compileMatch scope space b = .ok (clauses, b')) :
    ∃ readings, Cypher.readFilters clauses = some readings ∧
      FiltersSay scope s.demand (.all readings) := by
  have hexistence : FiltersSay scope _ _ := FiltersSay.all_existence s.existence
  obtain ⟨hp, _, rfl⟩ | ⟨p, f, hp, hf, rfl⟩ := compileMatch_eq_ok h
  · obtain ⟨readings, hread, hsame⟩ := readFilters_matchClauses scope
      (s.existence.map (Existence.formula scope.rootVar)) []
    rw [List.append_nil] at hsame
    refine ⟨readings, hread, hexistence.of_same ?_ hsame⟩
    simp only [demand, predicateLogic, hp]
    exact (Logic.same_true_and _).symm
  · have hpredicate := FiltersSay.of_compilesTo (Predicate.compilesTo hf)
    have hdemand : s.demand = p.logic.and (.all (s.existence.map Existence.logic)) := by
      simp only [demand, predicateLogic, hp]
    have hchecks : f.logic.checks = [] := by
      rw [hpredicate.checks, Predicate.checks_logic, List.map_nil]
    have hcomparisons := hexistence.comparisons
    rw [comparisons_existence, List.forall₂_nil_left_iff] at hcomparisons
    rw [hdemand]
    by_cases hlate : touchesOptional scope f = true
    · -- The predicate stands behind the existence checks.
      rw [if_pos hlate]
      obtain ⟨readings, hread, hsame⟩ := readFilters_matchClauses scope
        (s.existence.map (Existence.formula scope.rootVar)) [f]
      refine ⟨readings, hread, (hpredicate.and hexistence).of_same (Logic.Same.refl _) ?_⟩
      rw [List.map_append] at hsame
      refine (hsame.trans (Logic.same_all_append _ _)).trans ?_
      exact (Logic.same_and_comm hchecks hcomparisons).symm
    · rw [if_neg hlate]
      obtain ⟨readings, hread, hsame⟩ := readFilters_matchClauses scope
        (f :: s.existence.map (Existence.formula scope.rootVar)) []
      refine ⟨readings, hread, (hpredicate.and hexistence).of_same (Logic.Same.refl _) ?_⟩
      rw [List.append_nil, List.map_cons] at hsame
      exact hsame.trans (Logic.same_all_cons _ _)

theorem Cypher.condition?_of_narrows {c : Cypher.Clause} (h : c.narrows = false) :
    c.condition? = none := by
  cases c <;> first | rfl | cases h

/-- The filters of a statement say what the calls on its plan ask for: read with NOT before AND
before OR and taken together, they are true exactly when every filter and every existence check
is and every excluded predicate is not.

The plan stands on its own or is spliced into another one, and `ending` is any. -/
theorem QueryPlan.filters_say_what_calls_ask {r₀ r : Registry} {root : String} {p₀ p : QueryPlan}
    {history : List (Registry × PlanCall)} {space : String} {imports : List String}
    {ending : Ending} {clauses : List Cypher.Clause} {shape : ResultShape} {b b' : Binder}
    (hnew : QueryPlan.new r₀ root = .ok p₀) (hcalls : p₀.calls history = .ok p)
    (hrun : compilePlan r space imports ending p b = .ok ((clauses, shape), b')) :
    ∃ scope readings, p.selection.scope r imports = .ok scope ∧
      Cypher.readFilters clauses = some readings ∧
      FiltersSay scope (.all (demands p₀.root history)) (.all readings) := by
  obtain ⟨scope, matched, b₁, others, hscope, hmatched, rfl, hothers⟩ := compilePlan_eq_matched hrun
  obtain ⟨readings, hread, hsay⟩ := Selection.filtersSay_compileMatch hmatched
  have hnone : others.filterMap Cypher.Clause.condition? = [] :=
    List.filterMap_eq_nil_iff.2 fun c hc => Cypher.condition?_of_narrows (hothers c hc)
  refine ⟨scope, readings, hscope, ?_, ?_⟩
  · unfold Cypher.readFilters
    rw [List.filterMap_append, hnone, List.append_nil]
    exact hread
  · exact hsay.of_same (same_demand_of_new hnew hcalls) (Logic.Same.refl _)

/-- An OR of an AND and of a group of one, an excluded AND and a check, over an optional hop. -/
def Sample.filtered : List (Registry × PlanCall) :=
  [(registry, .traverse "suppliers" ⟨none, true, true, true⟩ .fetch),
    (registry, .filter (.or [.and [named [] "a", .not (.or [])], .and [named ["suppliers"] "b"]])),
    (registry, .exclude (.and [named [] "c", .and [named [] "d"]])),
    (registry, .has "suppliers".toList false)]

theorem QueryPlan.filters_say_what_calls_ask_filtered :
    ∃ p₀ p clauses shape b', QueryPlan.new Sample.registry "Coffee" = .ok p₀ ∧
      p₀.calls Sample.filtered = .ok p ∧
      compilePlan Sample.registry "" [] .result p .empty = .ok ((clauses, shape), b') ∧
      ∃ scope readings, p.selection.scope Sample.registry [] = .ok scope ∧
        Cypher.readFilters clauses = some readings ∧
        FiltersSay scope (.all (demands p₀.root Sample.filtered)) (.all readings) := by
  have hrun : (do
      let p₀ ← QueryPlan.new Sample.registry "Coffee"
      let p ← p₀.calls Sample.filtered
      compilePlan Sample.registry "" [] .result p .empty : Except Halt _).isOk = true := by
    decide +kernel
  obtain ⟨⟨⟨clauses, shape⟩, b'⟩, hrun⟩ := exists_eq_ok hrun
  obtain ⟨p₀, hnew, hrun⟩ := lift_bind_eq_ok.1 hrun
  obtain ⟨p, hcalls, hrun⟩ := lift_bind_eq_ok.1 hrun
  exact ⟨p₀, p, clauses, shape, b', hnew, hcalls, hrun,
    QueryPlan.filters_say_what_calls_ask hnew hcalls hrun⟩

end GraphMapper
