import GraphMapper.Proofs.Compile.Bounds
import GraphMapper.Proofs.Compile.Names

/-!
# What parameters hold

The parameters of a statement are the ones that its text refers to, each
referred to once.  The parameter of a comparison holds the operand as the
property stores it (`Condition.Stores`), that of a bound holds the bound, and so
it is in every subquery (`QueryPlan.HeldBy`).

A run of the compiler adds the parameters of the clauses that it writes, in
their order, and whatever is bound later leaves them as they are.
-/

namespace GraphMapper

/-! ## What a comparison stores -/

/-- What the parameter of a comparison holds, for a property of some codec. -/
inductive Condition.Stores (c : Condition) (codec : Codec) : Value → Prop where
  /-- The items of an operand of `in`, each encoded. -/
  | items {vs : List Value} (hop : c.operator = .isIn) (harray : codec.isArray = false)
    (hvs : List.Forall₂ (fun v w => codec.encode v = .ok w) (c.operand.list?.getD []) vs) :
    Stores c codec (.list vs)
  /-- The regular expression made of an encoded text. -/
  | pattern {text : String} (hop : c.operator.isPattern = true)
    (htext : codec.encode c.operand = .ok (.string text)) :
    Stores c codec (.string (c.operator.pattern text))
  /-- The encoded operand; a list property encodes an operand of `in` item by item. -/
  | encoded {v : Value} (hop : c.operator.isPattern = false)
    (hin : c.operator = .isIn → codec.isArray = true) (hv : codec.encode c.operand = .ok v) :
    Stores c codec v

/-- A comparison of the statement is about the field of a comparison of the plan, and its
parameter holds what that one stores.  Only a null check has no parameter. -/
def Condition.HeldBy (scope : Scope) (params : Params) (c : Condition) (a : Cypher.Atom) : Prop :=
  ∃ p, scope.field c.field .filters = .ok (a.lhs, p) ∧
    match a.param? with
    | none => c.operator = .isNull
    | some name => c.operator ≠ .isNull ∧
        ∃ v, params.get? name = some v ∧ c.Stores p.codec v

/-- The parameter of a bound holds the bound. -/
def BoundHeldBy (params : Params) (n : Nat) (name : String) : Prop :=
  ∃ i : Int64, params.get? name = some (.int i) ∧ i.toInt = n

/-! ## What clauses refer to -/

namespace Cypher.Clause

/-- The comparisons of a clause that filters. -/
def comparisons : Clause → List Atom
  | .filter fs | .lateFilter fs => Formula.atomsOf fs
  | _ => []

/-- The page of a clause, if it takes one. -/
def page? : Clause → Option Page
  | .keep _ page | .paging page => some page
  | _ => none

/-- The statement inside a clause, if there is one. -/
def body? : Clause → Option (List Clause)
  | .call _ body => some body
  | _ => none

/-- The parameters that say how much is skipped. -/
def skips (cs : List Clause) : List String := (cs.filterMap page?).filterMap Page.skip?

/-- The parameters that say how much is returned at most. -/
def limits (cs : List Clause) : List String := (cs.filterMap page?).filterMap Page.limit?

end Cypher.Clause

/-- The comparisons of a selection, from left to right. -/
def Selection.conditions (s : Selection) : List Condition :=
  (s.predicate?.map Predicate.conditions).getD []

/-- The clauses of a selection refer to parameters that hold its values: there is one comparison
for each of its own, in their order, and one parameter for each of its bounds. -/
structure Selection.HeldBy (r : Registry) (params : Params) (s : Selection)
    (imports : List String) (clauses : List Cypher.Clause) : Prop where
  comparisons : ∃ scope, s.scope r imports = .ok scope ∧
    List.Forall₂ (Condition.HeldBy scope params) s.conditions
      (clauses.flatMap Cypher.Clause.comparisons)
  skips : List.Forall₂ (BoundHeldBy params) s.pagination.skip?.toList
    (Cypher.Clause.skips clauses)
  limits : List.Forall₂ (BoundHeldBy params) s.pagination.limit?.toList
    (Cypher.Clause.limits clauses)

namespace QueryPlan

mutual

/-- The clauses of a plan refer to parameters that hold its values, and so do those of its
subqueries. -/
def HeldBy (r : Registry) (params : Params) (imports : List String) :
    QueryPlan → List Cypher.Clause → Prop
  | mk s qs, clauses =>
    s.HeldBy r params imports clauses ∧
      AllHeldBy r params qs (clauses.filterMap Cypher.Clause.body?)

/-- Some subqueries, each with the clauses inside its call. -/
def AllHeldBy (r : Registry) (params : Params) :
    List (Subquery QueryPlan) → List (List Cypher.Clause) → Prop
  | [], bodies => bodies = []
  | ⟨plan, _, imports⟩ :: qs, bodies =>
    ∃ body bodies', bodies = body :: bodies' ∧ plan.HeldBy r params imports body ∧
      AllHeldBy r params qs bodies'

end

end QueryPlan

/-! ## Runs of the binder -/

namespace Binder

/-- Everything that is bound is a parameter of a statement. -/
def Within (b : Binder) (params : Params) : Prop :=
  ∀ name v, b.params.get? name = some v → params.get? name = some v

/-- What a run of the compiler does: it adds some parameters, and `P` holds of every statement
that has all the parameters there are at its end. -/
structure Binds (b : Binder) (names : List String) (b' : Binder) (P : Params → Prop) : Prop where
  adds : b.Adds names b'
  holds : ∀ params, b'.Within params → P params

namespace Binds

variable {b b₁ b' : Binder} {names names' : List String} {P Q : Params → Prop}

theorem refl (h : ∀ params, P params) : Binds b [] b P := ⟨Adds.refl b, fun params _ => h params⟩

theorem imp (h : Binds b names b' P) (himp : ∀ params, P params → Q params) :
    Binds b names b' Q := ⟨h.adds, fun params hparams => himp params (h.holds params hparams)⟩

/-- What one run binds is still there after the next. -/
theorem trans (h : Binds b names b₁ P) (h' : Binds b₁ names' b' Q) :
    Binds b (names ++ names') b' fun params => P params ∧ Q params := by
  refine ⟨h.adds.trans h'.adds, fun params hparams => ⟨h.holds params ?_, h'.holds params hparams⟩⟩
  exact fun name v hv => hparams name v (h'.adds.keeps name v hv)

end Binds

theorem binds_bind {b b' : Binder} {hint name : String} {v : Value}
    (h : b.bind hint v = (name, b')) :
    Binds b [name] b' fun params => params.get? name = some v := by
  obtain ⟨hadds, hvalue⟩ := b.adds_bind hint v
  rw [h] at hadds hvalue
  exact ⟨hadds, fun params hparams => hparams name v hvalue⟩

end Binder

/-! ## Filters -/

theorem Property.encode_eq_ok {p : Property} {name : String} {v w : Value} :
    p.encode name v = .ok w ↔ p.codec.encode v = .ok w := mapError_eq_ok

namespace Condition.Lowers

variable {c : Condition} {lhs : Cypher.PropertyRef} {p : Property} {l : Lowered}

theorem operand?_eq_none (h : c.Lowers lhs p l) (hnone : l.operand? = none) :
    c.operator = .isNull := by
  cases h with
  | isNull hop => exact hop
  | anyIn | isIn | likes | compare => cases hnone

/-- The value that a comparison is lowered with is the one that it stores. -/
theorem stores (h : c.Lowers lhs p l) {v : Value} (hv : l.operand? = some v) :
    c.operator ≠ .isNull ∧ c.Stores p.codec v := by
  cases h with
  | isNull => cases hv
  | anyIn hop harray henc =>
    cases hv
    rw [Property.encode_eq_ok] at henc
    exact ⟨by simp [hop], .encoded (by rw [hop]; rfl) (fun _ => harray) henc⟩
  | isIn hop harray hvs =>
    cases hv
    simp only [Property.encode_eq_ok] at hvs
    exact ⟨by simp [hop], .items hop harray hvs⟩
  | @likes hop w text henc htext =>
    cases hv
    have hw : w = .string text := by
      cases w with
      | string s => exact congrArg Value.string (Option.some.inj htext)
      | _ => cases htext
    rw [Property.encode_eq_ok, hw] at henc
    refine ⟨fun hnull => ?_, .pattern hop henc⟩
    rw [hnull] at hop
    cases hop
  | compare hnull hin hop henc =>
    cases hv
    rw [Property.encode_eq_ok] at henc
    exact ⟨hnull, .encoded hop (fun h => absurd h hin) henc⟩

end Condition.Lowers

section Filters

open Binder

variable {scope : Scope} {space : String} {b b' : Binder}

theorem binds_compileCondition {c : Condition} {f : Cypher.Formula}
    (h : compileCondition scope space c b = .ok (f, b')) :
    Binds b f.params b' fun params =>
      List.Forall₂ (Condition.HeldBy scope params) [c] f.atoms := by
  obtain ⟨lhs, p, l, hfield, hlower, hatom⟩ := compileCondition_eq_ok h
  have hlowers := Condition.lowers_of_lower hlower
  have hheld (name : String) (params : Params)
      (hparam : match (l.atom name).param? with
        | none => c.operator = .isNull
        | some name => c.operator ≠ .isNull ∧
            ∃ v, params.get? name = some v ∧ c.Stores p.codec v) :
      List.Forall₂ (Condition.HeldBy scope params) [c] [l.atom name] :=
    .cons ⟨p, by rw [hlowers.lhs_atom]; exact hfield, hparam⟩ .nil
  obtain ⟨hnone, rfl, rfl⟩ | ⟨v, name, hsome, hbind, rfl⟩ := hatom
  · have hparam : (l.atom "").param? = none := by
      rw [hlowers.param?_atom, hnone]
      rfl
    rw [Cypher.Formula.params_atom, hparam]
    refine Binds.refl fun params => hheld "" params ?_
    rw [hparam]
    exact hlowers.operand?_eq_none hnone
  · have hparam : (l.atom name).param? = some name := by
      rw [hlowers.param?_atom, hsome]
      rfl
    obtain ⟨hnull, hstores⟩ := hlowers.stores hsome
    rw [Cypher.Formula.params_atom, hparam]
    refine (binds_bind hbind).imp fun params hv => hheld name params ?_
    rw [hparam]
    exact ⟨hnull, v, hv, hstores⟩

theorem binds_compilePredicates {ps : List Predicate} {fs : List Cypher.Formula}
    (ih : ∀ p ∈ ps, ∀ b b' f, compilePredicate scope space p b = .ok (f, b') →
      Binds b f.params b' fun params =>
        List.Forall₂ (Condition.HeldBy scope params) p.conditions f.atoms)
    (h : compilePredicates scope space ps b = .ok (fs, b')) :
    Binds b ((Cypher.Formula.atomsOf fs).filterMap Cypher.Atom.param?) b' fun params =>
      List.Forall₂ (Condition.HeldBy scope params) (Predicate.conditionsOf ps)
        (Cypher.Formula.atomsOf fs) := by
  induction ps generalizing b fs with
  | nil =>
    obtain ⟨rfl, rfl⟩ := compilePredicates_nil_eq_ok h
    exact Binds.refl fun _ => .nil
  | cons p rest ihrest =>
    obtain ⟨f, b₁, fs', hf, hfs, rfl⟩ := compilePredicates_cons_eq_ok h
    have hfirst := ih p List.mem_cons_self _ _ _ hf
    have hrest := ihrest (fun q hq => ih q (List.mem_cons_of_mem p hq)) hfs
    rw [Cypher.Formula.atomsOf, List.filterMap_append]
    exact (hfirst.trans hrest).imp fun _ hheld => List.rel_append hheld.1 hheld.2

/-- A predicate binds the operands of its comparisons, from left to right. -/
theorem binds_compilePredicate {p : Predicate} {f : Cypher.Formula}
    (h : compilePredicate scope space p b = .ok (f, b')) :
    Binds b f.params b' fun params =>
      List.Forall₂ (Condition.HeldBy scope params) p.conditions f.atoms := by
  induction p using Predicate.induction generalizing b b' f with
  | leaf c => exact binds_compileCondition h
  | and parts ih =>
    obtain ⟨fs, hfs, rfl⟩ := compilePredicate_and_eq_ok h
    exact binds_compilePredicates (fun p hp _ _ _ => ih p hp) hfs
  | or parts ih =>
    obtain ⟨fs, hfs, rfl⟩ := compilePredicate_or_eq_ok h
    exact binds_compilePredicates (fun p hp _ _ _ => ih p hp) hfs
  | not p ih =>
    obtain ⟨g, hg, rfl⟩ := compilePredicate_not_eq_ok h
    have hbinds := ih hg
    exact hbinds

end Filters

/-! ## Clauses -/

namespace Cypher.Clause

variable {cs ds : List Clause}

theorem paramsOf_append : paramsOf (cs ++ ds) = paramsOf cs ++ paramsOf ds := by
  rw [paramsOf_eq_flatMap, paramsOf_eq_flatMap, paramsOf_eq_flatMap, List.flatMap_append]

theorem skips_append : skips (cs ++ ds) = skips cs ++ skips ds := by
  rw [skips, List.filterMap_append, List.filterMap_append]
  rfl

theorem limits_append : limits (cs ++ ds) = limits cs ++ limits ds := by
  rw [limits, List.filterMap_append, List.filterMap_append]
  rfl

/-- Clauses without a page of their own bound nothing. -/
theorem bounds_eq_nil (h : ∀ c ∈ cs, c.page? = none) : skips cs = [] ∧ limits cs = [] := by
  have hpages : cs.filterMap page? = [] := List.filterMap_eq_nil_iff.2 h
  rw [skips, limits, hpages]
  exact ⟨rfl, rfl⟩

theorem page?_of_narrows {c : Clause} (h : c.narrows = true) : c.page? = none := by
  cases c <;> first | rfl | cases h

theorem body?_of_narrows {c : Clause} (h : c.narrows = true) : c.body? = none := by
  cases c <;> first | rfl | cases h

/-- Only clauses that filter compare. -/
theorem comparisons_eq_nil (h : ∀ c ∈ cs, c.narrows = false) : cs.flatMap comparisons = [] := by
  refine List.flatMap_eq_nil_iff.2 fun c hc => ?_
  have hc := h c hc
  cases c <;> first | rfl | cases hc

/-- Stages refer to no parameter. -/
theorem paramsOf_of_stage (h : ∀ c ∈ cs, ∃ distinct items order, c = .stage distinct items order) :
    paramsOf cs = [] := by
  rw [paramsOf_eq_flatMap, List.flatMap_eq_nil_iff]
  intro c hc
  obtain ⟨_, _, _, rfl⟩ := h c hc
  rfl

/-- Matching clauses refer to the parameters of their comparisons. -/
theorem paramsOf_of_narrows (h : ∀ c ∈ cs, c.narrows = true) :
    paramsOf cs = (cs.flatMap comparisons).filterMap Atom.param? := by
  rw [paramsOf_eq_flatMap, List.filterMap_flatMap]
  refine List.flatMap_congr fun c hc => ?_
  cases c with
  | filter fs | lateFilter fs => exact (Formula.filterMap_atomsOf fs).symm
  | matching | optionalMatching => rfl
  | stage | call | keep | returning | ordering | paging => cases h _ hc

end Cypher.Clause

namespace Cypher.Formula

theorem atomsOf_append (fs gs : List Formula) : atomsOf (fs ++ gs) = atomsOf fs ++ atomsOf gs := by
  induction fs with
  | nil => rfl
  | cons f rest ih => rw [List.cons_append, atomsOf, atomsOf, ih, List.append_assoc]

end Cypher.Formula

theorem Existence.atomsOf_formulas (rootVar : String) (es : List Existence) :
    Cypher.Formula.atomsOf (es.map (Existence.formula rootVar)) = [] := by
  induction es with
  | nil => rfl
  | cons e rest ih =>
    rw [List.map_cons, Cypher.Formula.atomsOf, ih, List.append_nil]
    unfold formula
    split <;> rfl

namespace Selection

open Binder Cypher

variable {r : Registry} {s : Selection} {scope scope' : Scope} {space : String} {b b' : Binder}

/-- The comparisons of the clauses that match are those of the filters. -/
theorem comparisons_matchClauses (scope : Scope) (early late : List Formula) :
    (matchClauses scope early late).flatMap Clause.comparisons =
      Formula.atomsOf early ++ Formula.atomsOf late := by
  have hoptional : (scope.optional.map Clause.optionalMatching).flatMap Clause.comparisons = [] :=
    List.flatMap_eq_nil_iff.2 fun c hc => by
      obtain ⟨p, _, rfl⟩ := List.mem_map.1 hc
      rfl
  have hlate (fs : List Formula) : (if fs.isEmpty then [] else
      [Clause.lateFilter fs]).flatMap Clause.comparisons = Formula.atomsOf fs := by
    cases fs with
    | nil => rfl
    | cons f rest => exact List.append_nil _
  have hearly : (if early.isEmpty then [] else
      [Clause.filter early]).flatMap Clause.comparisons = Formula.atomsOf early := by
    cases early with
    | nil => rfl
    | cons f rest => exact List.append_nil _
  simp only [matchClauses]
  split
  · rw [List.flatMap_append, hoptional, hlate, List.nil_append, Formula.atomsOf_append]
  · rw [List.flatMap_append, List.flatMap_append, List.flatMap_cons, hoptional, hlate, hearly,
      List.append_nil]
    rfl

theorem narrows_matchClauses (scope : Scope) (early late : List Formula) :
    ∀ c ∈ matchClauses scope early late, c.narrows = true := by
  intro c hc
  obtain ⟨_, rfl⟩ | ⟨p, _, rfl⟩ | rfl | rfl | rfl := mem_matchClauses hc <;> rfl

/-- The clauses that match bind what the selection's own predicate compares with. -/
theorem binds_compileMatch {clauses : List Clause}
    (h : s.compileMatch scope space b = .ok (clauses, b')) :
    (∀ c ∈ clauses, c.narrows = true) ∧ Binds b (Clause.paramsOf clauses) b' fun params =>
      List.Forall₂ (Condition.HeldBy scope params) s.conditions
        (clauses.flatMap Clause.comparisons) := by
  have hexistence := Existence.atomsOf_formulas scope.rootVar s.existence
  obtain ⟨hp, rfl, rfl⟩ | ⟨p, f, hp, hf, rfl⟩ := compileMatch_eq_ok h
  · have hnarrows := narrows_matchClauses scope (s.existence.map (Existence.formula scope.rootVar)) []
    refine ⟨hnarrows, ?_⟩
    rw [Clause.paramsOf_of_narrows hnarrows, comparisons_matchClauses, hexistence, conditions, hp]
    exact Binds.refl fun _ => .nil
  · obtain ⟨early, late, hclauses, hatoms⟩ : ∃ early late,
        (if touchesOptional scope f then
            matchClauses scope (s.existence.map (Existence.formula scope.rootVar)) [f]
          else matchClauses scope (f :: s.existence.map (Existence.formula scope.rootVar)) []) =
          matchClauses scope early late ∧
        Formula.atomsOf early ++ Formula.atomsOf late = f.atoms := by
      by_cases hlate : touchesOptional scope f = true
      · refine ⟨_, _, if_pos hlate, ?_⟩
        simp only [hexistence, Formula.atomsOf, List.nil_append, List.append_nil]
      · refine ⟨_, _, if_neg hlate, ?_⟩
        simp only [hexistence, Formula.atomsOf, List.append_nil]
    rw [hclauses]
    have hnarrows := narrows_matchClauses scope early late
    refine ⟨hnarrows, ?_⟩
    rw [Clause.paramsOf_of_narrows hnarrows, comparisons_matchClauses, hatoms, conditions, hp]
    exact binds_compilePredicate hf

/-! ## Endings -/

theorem binds_compileBound {keyword hint : String} {n? : Option Nat} {name? : Option String}
    (h : compileBound space keyword hint n? b = .ok (name?, b')) :
    Binds b name?.toList b' fun params =>
      List.Forall₂ (BoundHeldBy params) n?.toList name?.toList := by
  cases n? with
  | none =>
    obtain ⟨rfl, rfl⟩ := compileBound_none_eq_ok h
    exact Binds.refl fun _ => .nil
  | some n =>
    obtain ⟨i, name, hi, hbind, rfl⟩ := compileBound_some_eq_ok h
    exact (binds_bind hbind).imp fun params hv => .cons ⟨i, hv, toInt_of_int64? hi⟩ .nil

theorem binds_compilePage {page : Page} (h : s.compilePage space b = .ok (page, b')) :
    Binds b page.params b' fun params =>
      List.Forall₂ (BoundHeldBy params) s.pagination.skip?.toList page.skip?.toList ∧
        List.Forall₂ (BoundHeldBy params) s.pagination.limit?.toList page.limit?.toList := by
  obtain ⟨b₁, hskip, hlimit⟩ := compilePage_eq_ok h
  exact (binds_compileBound hskip).trans (binds_compileBound hlimit)

/-- Clauses that take one page, and hold no statement of their own. -/
structure TakePage (page : Page) (cs : List Clause) : Prop where
  params : Clause.paramsOf cs = page.params
  skips : Clause.skips cs = page.skip?.toList
  limits : Clause.limits cs = page.limit?.toList
  bodies : cs.filterMap Clause.body? = []

theorem takePage_compileReturn {outputs : List Output} {last : List Clause}
    (h : s.compileReturn scope space outputs b = .ok (last, b')) :
    ∃ page, s.compilePage space b = .ok (page, b') ∧ TakePage page last := by
  obtain ⟨_, _, order, page, _, hpage, rfl⟩ := compileReturn_eq_ok h
  refine ⟨page, hpage, ?_⟩
  have hordering (terms : List SortTerm) :
      TakePage ⟨none, none⟩ (if terms.isEmpty then [] else [.ordering terms]) := by
    split <;> exact ⟨rfl, rfl, rfl, rfl⟩
  have hpaging : TakePage page (if page.isEmpty then [] else [.paging page]) := by
    obtain ⟨skip?, limit?⟩ := page
    cases skip? <;> cases limit? <;> exact ⟨rfl, rfl, rfl, rfl⟩
  refine ⟨?_, ?_, ?_, ?_⟩
  · rw [Clause.paramsOf_append, hpaging.params, Clause.paramsOf, (hordering order).params]
    rfl
  · rw [Clause.skips_append, hpaging.skips]
    exact congrArg (· ++ page.skip?.toList) (hordering order).skips
  · rw [Clause.limits_append, hpaging.limits]
    exact congrArg (· ++ page.limit?.toList) (hordering order).limits
  · rw [List.filterMap_append, hpaging.bodies, List.append_nil]
    exact (hordering order).bodies

theorem takePage_compileEnding {taken : List String} {ending : Ending} {last : List Clause}
    {shape : ResultShape}
    (h : s.compileEnding scope space taken ending b = .ok ((last, shape), b')) :
    ∃ page, s.compilePage space b = .ok (page, b') ∧ TakePage page last := by
  cases ending with
  | result =>
    obtain ⟨_, _, hreturn, _⟩ := compileEnding_result_eq_ok h
    exact takePage_compileReturn hreturn
  | handOut names =>
    obtain ⟨_, _, hreturn, _⟩ := compileEnding_handOut_eq_ok h
    exact takePage_compileReturn hreturn
  | count =>
    obtain ⟨_, page, hpage, rfl, _⟩ := compileCount_eq_ok h
    refine ⟨page, hpage, ?_, ?_, ?_, rfl⟩
    · exact List.append_nil _
    · obtain ⟨skip?, limit?⟩ := page
      cases skip? <;> rfl
    · obtain ⟨skip?, limit?⟩ := page
      cases limit? <;> rfl

end Selection

/-! ## Plans -/

section Plans

open Binder Cypher

variable {r : Registry} {space : String} {b b' : Binder}

/-- What a plan compiles to binds its values, wherever it is spliced in. -/
def RunsBind (r : Registry) (p : QueryPlan) : Prop :=
  ∀ space imports ending b b' clauses shape,
    compilePlan r space imports ending p b = .ok ((clauses, shape), b') →
    Binds b (Clause.paramsOf clauses) b' fun params => p.HeldBy r params imports clauses

theorem binds_compileSubqueries {number : Nat} {scope scope' : Scope}
    {qs : List (Subquery QueryPlan)} {calls : List Clause} (ih : ∀ q ∈ qs, RunsBind r q.plan)
    (h : compileSubqueries r space number scope qs b = .ok ((calls, scope'), b')) :
    (∀ c ∈ calls, c.page? = none) ∧ Binds b (Clause.paramsOf calls) b' fun params =>
      QueryPlan.AllHeldBy r params qs (calls.filterMap Clause.body?) := by
  induction qs generalizing number scope calls b with
  | nil =>
    obtain ⟨rfl, rfl, rfl⟩ := compileSubqueries_nil_eq_ok h
    refine ⟨by simp, Binds.refl fun params => ?_⟩
    rw [QueryPlan.AllHeldBy]
    rfl
  | cons q rest ihrest =>
    obtain ⟨body, shape, b₁, scope₁, calls', _, hbody, _, hcalls, rfl⟩ :=
      compileSubqueries_cons_eq_ok h
    obtain ⟨hpages, hrest⟩ := ihrest (fun q hq => ih q (List.mem_cons_of_mem _ hq)) hcalls
    have hfirst := ih q List.mem_cons_self _ _ _ _ _ _ _ hbody
    refine ⟨fun c hc => ?_, (hfirst.trans hrest).imp fun params hheld => ?_⟩
    · rcases List.mem_cons.1 hc with rfl | hc
      · rfl
      · exact hpages c hc
    · obtain ⟨plan, returns, imports⟩ := q
      rw [QueryPlan.AllHeldBy]
      exact ⟨body, _, rfl, hheld⟩

theorem runsBind (p : QueryPlan) : RunsBind r p := by
  induction p using QueryPlan.induction with
  | mk s qs ih =>
    intro space imports ending b b' clauses shape h
    obtain ⟨front, scope, b₁, calls, scope', b₂, last, hfront, hcalls, hlast, rfl⟩ :=
      compilePlan_eq_ok h
    obtain ⟨scope₁, matched, stages, hscope, hmatched, hstages, rfl⟩ :=
      Selection.compileFront_eq_ok hfront
    obtain ⟨hnarrows, hmatch⟩ := Selection.binds_compileMatch hmatched
    have hstage := Selection.stage_of_mem_compileTransforms hstages
    obtain ⟨hpages, hsubqueries⟩ := binds_compileSubqueries ih hcalls
    obtain ⟨page, hpage, htake⟩ := Selection.takePage_compileEnding hlast
    have hends := Selection.binds_compilePage hpage
    -- Only calls hold statements, and only the end takes a page.
    have hbefore : ∀ c ∈ matched ++ stages, c.page? = none ∧ c.body? = none := by
      intro c hc
      rcases List.mem_append.1 hc with hc | hc
      · exact ⟨Clause.page?_of_narrows (hnarrows c hc), Clause.body?_of_narrows (hnarrows c hc)⟩
      · obtain ⟨_, _, _, rfl⟩ := hstage c hc
        exact ⟨rfl, rfl⟩
    have hbodies : (matched ++ stages).filterMap Clause.body? = [] :=
      List.filterMap_eq_nil_iff.2 fun c hc => (hbefore c hc).2
    obtain ⟨hskips, hlimits⟩ : Clause.skips (matched ++ stages ++ calls) = [] ∧
        Clause.limits (matched ++ stages ++ calls) = [] :=
      Clause.bounds_eq_nil fun c hc =>
        (List.mem_append.1 hc).elim (fun hc => (hbefore c hc).1) (hpages c)
    have hothers : ∀ c ∈ stages ++ calls ++ last, c.narrows = false := by
      intro c hc
      rcases List.mem_append.1 hc with hc | hc
      · exact (List.mem_append.1 hc).elim (narrows_compileTransforms hstages c)
          (narrows_compileSubqueries hcalls c)
      · exact narrows_compileEnding hlast c hc
    have hparams : Clause.paramsOf (matched ++ stages ++ calls ++ last) =
        Clause.paramsOf matched ++ (Clause.paramsOf calls ++ page.params) := by
      rw [Clause.paramsOf_append, Clause.paramsOf_append, Clause.paramsOf_append,
        Clause.paramsOf_of_stage hstage, htake.params, List.append_nil, List.append_assoc]
    rw [hparams]
    refine (hmatch.trans (hsubqueries.trans hends)).imp fun params hheld => ?_
    obtain ⟨hheld, hall, hskip, hlimit⟩ := hheld
    rw [QueryPlan.HeldBy]
    refine ⟨⟨⟨scope₁, hscope, ?_⟩, ?_, ?_⟩, ?_⟩
    · rw [List.append_assoc, List.append_assoc, ← List.append_assoc stages, List.flatMap_append,
        Clause.comparisons_eq_nil hothers, List.append_nil]
      exact hheld
    · rw [Clause.skips_append, hskips, htake.skips]
      exact hskip
    · rw [Clause.limits_append, hlimits, htake.limits]
      exact hlimit
    · rw [List.filterMap_append, List.filterMap_append, hbodies, htake.bodies, List.append_nil]
      exact hall

end Plans

/-! ## Statements -/

theorem BoundHeldBy.fits {params : Params} {n : Nat} {name : String}
    (h : BoundHeldBy params n name) : ¬greatestInt64 < (n : Int) := by
  obtain ⟨i, _, hi⟩ := h
  have hgreatest : i.toInt < 2 ^ 63 := i.toInt_lt
  have hvalue : greatestInt64 = 2 ^ 63 - 1 := rfl
  omega

theorem Selection.HeldBy.fits {r : Registry} {params : Params} {s : Selection}
    {imports : List String} {clauses : List Cypher.Clause}
    (h : s.HeldBy r params imports clauses) :
    ∀ bound ∈ s.pagination.bounds, ¬greatestInt64 < (bound.2 : Int) := by
  have hbound (keyword : String) (n? : Option Nat) (names : List String)
      (hheld : List.Forall₂ (BoundHeldBy params) n?.toList names) :
      ∀ bound ∈ (n?.map fun n => (keyword, n)).toList, ¬greatestInt64 < (bound.2 : Int) := by
    cases n? with
    | none => simp
    | some n =>
      intro bound hmem
      rw [List.mem_singleton.1 hmem]
      cases hheld with
      | cons hn _ => exact hn.fits
  intro bound hmem
  rcases List.mem_append.1 hmem with hmem | hmem
  · exact hbound "SKIP" _ _ h.skips bound hmem
  · exact hbound "LIMIT" _ _ h.limits bound hmem

namespace QueryPlan

theorem AllHeldBy.fits {r : Registry} {params : Params} {qs : List (Subquery QueryPlan)}
    {bodies : List (List Cypher.Clause)}
    (ih : ∀ q ∈ qs, ∀ imports clauses, q.plan.HeldBy r params imports clauses →
      ∀ bound ∈ q.plan.bounds, ¬greatestInt64 < (bound.2 : Int))
    (h : AllHeldBy r params qs bodies) :
    ∀ bound ∈ boundsOf qs, ¬greatestInt64 < (bound.2 : Int) := by
  induction qs generalizing bodies with
  | nil => simp [boundsOf]
  | cons q rest ihrest =>
    obtain ⟨plan, returns, imports⟩ := q
    rw [AllHeldBy] at h
    obtain ⟨body, bodies', _, hplan, hrest⟩ := h
    intro bound hmem
    rw [boundsOf] at hmem
    rcases List.mem_append.1 hmem with hmem | hmem
    · exact ih _ List.mem_cons_self _ _ hplan bound hmem
    · exact ihrest (fun q hq => ih q (List.mem_cons_of_mem _ hq)) hrest bound hmem

/-- A bound that a parameter holds fits in 64 bits. -/
theorem HeldBy.fits {r : Registry} {params : Params} {p : QueryPlan} {imports : List String}
    {clauses : List Cypher.Clause} (h : p.HeldBy r params imports clauses) :
    ∀ bound ∈ p.bounds, ¬greatestInt64 < (bound.2 : Int) := by
  induction p using QueryPlan.induction generalizing imports clauses with
  | mk s qs ih =>
    rw [HeldBy] at h
    intro bound hmem
    rw [bounds] at hmem
    rcases List.mem_append.1 hmem with hmem | hmem
    · exact h.2.fits (fun q hq _ _ => ih q hq) bound hmem
    · exact h.1.fits bound hmem

end QueryPlan

/-- The parameters of a statement are those that its text refers to, each of them once, and they
hold the values of a plan. -/
structure CompiledQuery.HoldsValuesOf (c : CompiledQuery) (r : Registry) (p : QueryPlan) :
    Prop where
  references : Cypher.references c.text = Cypher.Clause.paramsOf c.query
  keys : (Cypher.references c.text).Perm c.params.keys
  once : (Cypher.references c.text).Nodup
  held : p.HeldBy r c.params [] c.query

theorem QueryPlan.holdsValues_of_compileTo {r : Registry} {p : QueryPlan} {ending : Ending}
    {c : CompiledQuery} (hr : r.Named) (hp : p.Named) (hending : ending.Named)
    (h : p.compileTo r ending = .ok c) : c.HoldsValuesOf r p := by
  obtain ⟨binder, hrun, hparams⟩ := compileTo_eq_ok h
  have hbinds := runsBind p _ _ _ _ _ _ _ hrun
  have hnamed := runsNamed hr hp _ _ _ _ _ _ _ (.inl rfl) (by simp) hending hrun
  have hreferences := Cypher.references_queryText (Cypher.Clause.allNamed_iff.2 hnamed)
  have hkeys : binder.params.keys.Perm (Cypher.Clause.paramsOf c.query) := hbinds.adds.keys
  have hnodup : binder.params.keys.Nodup := hbinds.adds.nodup List.nodup_nil
  refine ⟨hreferences, ?_, ?_, ?_⟩
  · rw [CompiledQuery.text, hreferences, hparams]
    exact hkeys.symm
  · rw [CompiledQuery.text, hreferences]
    exact hkeys.nodup_iff.1 hnodup
  · rw [hparams]
    exact hbinds.holds _ fun _ _ hv => hv

/-- The parameters of a statement hold exactly the values of its plan.

Whatever compiles refers to each of its parameters once, the parameter of every comparison holds
what that one stores, and the parameter of every bound holds the bound.  A bound that does not fit
in 64 bits never compiles, and is the error where nothing else is wrong with the plan.  Parameters
are added under new names, wherever a plan is spliced in and whatever is bound before. -/
theorem QueryPlan.parameters_hold_values {r : Registry} {p : QueryPlan} (hr : r.Reachable)
    (hp : p.Written) :
    (∀ c, p.compile r = .ok c ∨ p.compileCount r = .ok c →
      c.HoldsValuesOf r p ∧ tooLarge? p.bounds = none) ∧
    (∀ keyword n, tooLarge? p.bounds = some (keyword, n) →
      (∀ c, p.unsized.compile r = .ok c →
        p.compile r = .error (.error (.compile (.boundTooLarge keyword n)))) ∧
      ∀ c, p.unsized.compileCount r = .ok c →
        p.compileCount r = .error (.error (.compile (.boundTooLarge keyword n)))) ∧
    (∀ space imports ending b b' clauses shape,
      compilePlan r space imports ending p b = .ok ((clauses, shape), b') →
      b.Adds (Cypher.Clause.paramsOf clauses) b') ∧
    ∀ (b : Binder) hint v, (b.bind hint v).1 ∉ b.params.keys := by
  refine ⟨fun c hc => ?_, fun keyword n hlarge => ⟨fun c hc => ?_, fun c hc => ?_⟩, ?_, ?_⟩
  · have hholds : c.HoldsValuesOf r p := by
      rcases hc with hc | hc
      · have hending : Ending.Named .result := trivial
        exact holdsValues_of_compileTo hr.named hp.named hending hc
      · have hending : Ending.Named .count := trivial
        exact holdsValues_of_compileTo hr.named hp.named hending hc
    refine ⟨hholds, List.find?_eq_none.2 fun bound hbound => ?_⟩
    rw [decide_eq_true_eq]
    exact hholds.held.fits bound hbound
  · have hsettles := compileTo_of_unsized hc
    rw [hlarge] at hsettles
    exact hsettles
  · have hsettles := compileTo_of_unsized hc
    rw [hlarge] at hsettles
    exact hsettles
  · intro space imports ending b b' clauses shape hrun
    exact (runsBind p _ _ _ _ _ _ _ hrun).adds
  · exact fun b hint v => b.bind_fresh hint v

namespace Sample

/-- A filter over a hop, and a count. -/
def counted (r : Registry) : List (Registry × PlanCall) :=
  [(r, .filter (named ["country"] "a")),
    (r, .annotate "found" (.apply (.count false) (.ref .root)))]

/-- A list, a pattern, a null check and a page. -/
def valued (r : Registry) : List (Registry × PlanCall) :=
  [(r, .filter (.or
      [.leaf ⟨⟨[], "name", false⟩, .isIn, .list [.string "a", .string "b"]⟩,
        .leaf ⟨⟨["suppliers"], "name", false⟩, .startsWith, .string "c"⟩])),
    (r, .exclude (.leaf ⟨⟨[], "name", false⟩, .isNull, .bool true⟩)),
    (r, .skip 2), (r, .limit 5)]

end Sample

theorem QueryPlan.parameters_hold_values_valued :
    ∃ (r : Registry) (p : QueryPlan) (c : CompiledQuery), r.Reachable ∧ p.Written ∧
      p.compile r = .ok c ∧ c.HoldsValuesOf r p ∧ tooLarge? p.bounds = none := by
  have hrun : (do
      let r ← Sample.registered
      let inner₀ ← QueryPlan.new r "Supplier"
      let inner ← inner₀.calls (Sample.counted r)
      let p₀ ← QueryPlan.new r "Coffee"
      let p₁ ← p₀.calls (Sample.valued r)
      let p ← p₁.call r (.subquery inner ["found"] [])
      let c ← p.compile r
      pure (r, p, c) : Except Halt _).isOk = true := by
    decide +kernel
  obtain ⟨_, hrun⟩ := exists_eq_ok hrun
  obtain ⟨r, hr, hrun⟩ := lift_bind_eq_ok.1 hrun
  obtain ⟨inner₀, hinner₀, hrun⟩ := lift_bind_eq_ok.1 hrun
  obtain ⟨inner, hinner, hrun⟩ := lift_bind_eq_ok.1 hrun
  obtain ⟨p₀, hp₀, hrun⟩ := lift_bind_eq_ok.1 hrun
  obtain ⟨p₁, hp₁, hrun⟩ := lift_bind_eq_ok.1 hrun
  obtain ⟨p, hp, hrun⟩ := lift_bind_eq_ok.1 hrun
  obtain ⟨c, hc, _⟩ := bind_eq_ok.1 hrun
  have hreachable := Sample.reachable_registered hr
  have hwritten : inner.Written :=
    .calls (.new hreachable hinner₀) (by simp [Sample.counted, hreachable]) hinner
  have hwritten₁ : p₁.Written :=
    .calls (.new hreachable hp₀) (by simp [Sample.valued, hreachable]) hp₁
  have hwritten₂ : p.Written := by
    refine .call hreachable hwritten₁ (fun inner' _ _ h => ?_) hp
    cases h
    exact hwritten
  obtain ⟨hholds, hbounds⟩ := (parameters_hold_values hreachable hwritten₂).1 c (.inl hc)
  exact ⟨r, p, c, hreachable, hwritten₂, hc, hholds, hbounds⟩

end GraphMapper
