import GraphMapper.Proofs.Plan.Calls

/-!
# Values stay out of the text

A plan's operands and page numbers reach a statement only as the values of its
parameters.  `QueryPlan.blank` takes them out of a plan, and leaves everything
else as it is; two plans with the same blank compile to the same text, the same
shape and the same parameter names.

The proof follows two runs of the compiler side by side.  Their scopes agree
because nothing in a scope looks at a value (`Scope.blank`), and their binders
agree because names are chosen by looking at names alone (`Binder.Agree`).
-/

namespace GraphMapper

/-! ## Plans without their values -/

/-- A comparison without its operand, unless it asks for null. -/
def Condition.blank (c : Condition) : Condition :=
  if c.operator = .isNull then c else { c with operand := .null }

namespace Predicate

mutual

/-- A predicate without its operands. -/
def blank : Predicate → Predicate
  | leaf c => leaf c.blank
  | and parts => and (blanks parts)
  | or parts => or (blanks parts)
  | not p => not p.blank

/-- Some predicates without their operands. -/
def blanks : List Predicate → List Predicate
  | [] => []
  | p :: ps => p.blank :: blanks ps

end

end Predicate

/-- A page without its numbers. -/
def Pagination.blank (p : Pagination) : Pagination :=
  ⟨p.skip?.map fun _ => 0, p.limit?.map fun _ => 0⟩

/-- A selection without its values. -/
def Selection.blank (s : Selection) : Selection :=
  { s with predicate? := s.predicate?.map Predicate.blank, pagination := s.pagination.blank }

namespace QueryPlan

mutual

/-- A plan without its values, nor those of its subqueries. -/
def blank : QueryPlan → QueryPlan
  | mk s qs => mk s.blank (blanks qs)

/-- Some subqueries without their values. -/
def blanks : List (Subquery QueryPlan) → List (Subquery QueryPlan)
  | [] => []
  | ⟨plan, returns, imports⟩ :: qs => ⟨plan.blank, returns, imports⟩ :: blanks qs

end

end QueryPlan

/-! ## Scopes -/

/-- A scope of a selection without its values. -/
def Scope.blank (s : Scope) : Scope := { s with selection := s.selection.blank }

theorem Condition.field_blank (c : Condition) : c.blank.field = c.field := by
  unfold blank
  split <;> rfl

theorem Condition.operator_blank (c : Condition) : c.blank.operator = c.operator := by
  unfold blank
  split <;> rfl

theorem Predicate.blanks_eq_map (ps : List Predicate) : blanks ps = ps.map blank := by
  induction ps with
  | nil => rfl
  | cons p rest ih => rw [blanks, ih, List.map_cons]

theorem Predicate.conditions_blank (p : Predicate) :
    p.blank.conditions = p.conditions.map Condition.blank := by
  induction p using Predicate.induction with
  | leaf c => rfl
  | and parts ih | or parts ih =>
    rw [blank, conditions, conditions, blanks_eq_map, conditionsOf_eq_flatMap,
      conditionsOf_eq_flatMap, List.flatMap_map, List.map_flatMap]
    exact List.flatMap_congr ih
  | not p ih => rw [blank, conditions, conditions, ih]

/-- A fold of steps that commute with a function commutes with it. -/
theorem foldlM_map_ok {ε σ α : Type} {f : σ → α → Except ε σ} {g : σ → σ}
    (h : ∀ s a, f (g s) a = (f s a).map g) (s : σ) (as : List α) :
    as.foldlM f (g s) = (as.foldlM f s).map g := by
  induction as generalizing s with
  | nil => rfl
  | cons a rest ih =>
    rw [List.foldlM_cons, List.foldlM_cons, h]
    cases f s a with
    | error e => rfl
    | ok s' => exact ih s'

namespace Scope

theorem declare_blank (s : Scope) (name : String) :
    s.blank.declare name = (s.declare name).map blank := by
  simp only [declare]
  show (if s.declared.contains name then _ else _) = _
  split <;> rfl

theorem start_blank (s : Selection) (imports : List String) :
    start s.blank imports = (start s imports).map blank := by
  have hfold := foldlM_map_ok declare_blank
    ⟨s, s.root.variableName, imports.contains s.root.variableName, [], [], [], none, [], []⟩
    imports
  simp only [start]
  refine (congrArg (· >>= _) hfold).trans ?_
  cases imports.foldlM declare
    ⟨s, s.root.variableName, imports.contains s.root.variableName, [], [], [], none, [], []⟩ with
  | error e => rfl
  | ok s₁ =>
    by_cases himported : imports.contains s.root.variableName = true
    · simp only [Selection.blank, himported]
      rfl
    · simp only [Selection.blank, himported]
      exact declare_blank s₁ _

theorem flush_blank (s : Scope) (pattern? : Option (Cypher.Pattern × Bool)) :
    s.blank.flush pattern? = (s.flush pattern?).blank := by
  rcases pattern? with _ | ⟨p, _ | _⟩ <;> rfl

theorem startPattern_blank (s : Scope) (at? : Option Nat) (optional : Bool) :
    s.blank.startPattern at? optional =
      ((s.startPattern at? optional).1, (s.startPattern at? optional).2.blank) := by
  have hbindings : s.blank.bindings = s.bindings := rfl
  have hlabelled : s.blank.rootLabelled = s.rootLabelled := rfl
  unfold startPattern
  rw [hbindings, hlabelled]
  cases at?.bind (s.bindings[·]?) with
  | some b => rfl
  | none =>
    by_cases hlabel : (!optional && !s.rootLabelled) = true
    · simp only [hlabel, if_true]
      rfl
    · simp only [hlabel, Bool.false_eq_true, if_false]
      rfl

theorem openPattern_blank (s : Scope) (p : Progress) (optional : Bool) :
    s.blank.openPattern p optional =
      ((s.openPattern p optional).1, (s.openPattern p optional).2.blank) := by
  unfold openPattern
  rcases p.pattern? with _ | ⟨pattern, o⟩
  · exact startPattern_blank s _ _
  · by_cases ho : o = optional
    · simp only [ho, if_true]
    · simp only [ho, if_false]
      rw [flush_blank]
      exact startPattern_blank _ _ _

theorem bindNew_blank (s : Scope) (p : Progress) (step : PathStep) (hidden : Bool) :
    s.blank.bindNew p step hidden =
      (s.bindNew p step hidden).map fun x => (x.1.blank, x.2) := by
  obtain ⟨pattern, s₁, hopen⟩ : ∃ pattern s₁,
      s.openPattern p (step.optional || p.afterOptional) = (pattern, s₁) := ⟨_, _, rfl⟩
  simp only [bindNew, openPattern_blank, hopen]
  have hvar : s₁.blank.nodeVar step = s₁.nodeVar step := rfl
  rw [hvar]
  cases s₁.nodeVar step with
  | error e => rfl
  | ok var =>
    show ((liftM (s₁.blank.declare var) : Except Halt Scope) >>= _) =
      ((liftM (s₁.declare var) : Except Halt Scope) >>= _).map _
    rw [declare_blank]
    cases s₁.declare var with
    | error e => rfl
    | ok s₂ =>
      show ((liftM (s₂.blank.declare (s₁.edgeVar step)) : Except Halt Scope) >>= _) =
        ((liftM (s₂.declare (s₁.edgeVar step)) : Except Halt Scope) >>= _).map _
      rw [declare_blank]
      cases s₂.declare (s₁.edgeVar step) with
      | error e => rfl
      | ok s₃ => rfl

theorem bindStep_blank (hidden : Bool) (s : Scope) (p : Progress) (step : PathStep) :
    bindStep hidden (s.blank, p) step =
      (bindStep hidden (s, p) step).map fun x => (x.1.blank, x.2) := by
  have hreuse : s.blank.reusable? step hidden = s.reusable? step hidden := rfl
  simp only [bindStep, hreuse]
  cases s.reusable? step hidden with
  | some i =>
    simp only [flush_blank]
    rfl
  | none => exact bindNew_blank s p step hidden

theorem bindPath_blank (s : Scope) (path : PathSpec) :
    s.blank.bindPath path = (s.bindPath path).map blank := by
  have hfold := foldlM_map_ok (f := bindStep path.hidden) (g := fun x => (x.1.blank, x.2))
    (fun x step => bindStep_blank path.hidden x.1 x.2 step) (s, ⟨none, none, false⟩) path.steps
  simp only [bindPath]
  refine (congrArg (· >>= _) hfold).trans ?_
  cases path.steps.foldlM (bindStep path.hidden) (s, ⟨none, none, false⟩) with
  | error e => rfl
  | ok x => exact congrArg Except.ok (flush_blank x.1 x.2.pattern?)

end Scope

/-- Nothing but the fields of a filter decides which hidden paths it needs. -/
theorem Selection.filterPaths_blank (r : Registry) (s : Selection) :
    s.blank.filterPaths r = s.filterPaths r := by
  unfold filterPaths
  have hconditions : (s.blank.predicate?.map Predicate.conditions).getD [] =
      ((s.predicate?.map Predicate.conditions).getD []).map Condition.blank := by
    simp only [blank]
    cases s.predicate? with
    | none => rfl
    | some p => exact Predicate.conditions_blank p
  rw [hconditions, List.foldlM_map]
  simp only [Condition.field_blank]
  rfl

/-- A selection without its values has the scope of the selection, without its values. -/
theorem Selection.scope_blank (r : Registry) (s : Selection) (imports : List String) :
    s.blank.scope r imports = (s.scope r imports).map Scope.blank := by
  have hshared : s.blank.unknownShared? = s.unknownShared? := rfl
  have hpaths : s.blank.paths = s.paths := rfl
  simp only [scope, Scope.start_blank, hshared, filterPaths_blank, hpaths]
  cases Scope.start s imports with
  | error e => rfl
  | ok scope =>
    cases s.unknownShared? with
    | some name => rfl
    | none =>
      cases s.filterPaths r with
      | error e => rfl
      | ok hidden => exact foldlM_map_ok Scope.bindPath_blank scope (s.paths ++ hidden)

/-! ## Reading scopes -/

namespace Scope

theorem field_blank (s : Scope) (f : FieldPath) (site : UseSite) :
    s.blank.field f site = s.field f site := rfl

theorem reference_blank (s : Scope) (site : UseSite) (v : VarRef) :
    s.blank.reference site v = s.reference site v := by
  induction v with
  | root | node | edge | name => rfl
  | property of name ih =>
    have hname : s.blank.storageName of name = s.storageName of name := by
      cases of <;> rfl
    simp only [reference, ih, hname]

theorem expr_blank (s : Scope) (e : Expr VarRef) : s.blank.expr e = s.expr e := by
  unfold expr
  have href : s.blank.reference .projections = s.reference .projections :=
    funext (reference_blank s .projections)
  rw [href]

theorem returnedParent?_blank (s : Scope) (fuel : Nat) (parent? : Option Nat) :
    s.blank.returnedParent? fuel parent? = s.returnedParent? fuel parent? := by
  induction fuel generalizing parent? with
  | zero => rfl
  | succ fuel ih =>
    cases parent? with
    | none => rfl
    | some i =>
      have hbinding : s.blank.bindings[i]? = s.bindings[i]? := rfl
      simp only [returnedParent?, hbinding, ih]

end Scope

namespace Selection

theorem matchClauses_blank (scope : Scope) (early late : List Cypher.Formula) :
    matchClauses scope.blank early late = matchClauses scope early late := rfl

theorem touchesOptional_blank (scope : Scope) (f : Cypher.Formula) :
    touchesOptional scope.blank f = touchesOptional scope f := rfl

theorem stageItems_blank (scope : Scope) (vars : List TransformVar) (names : List String) :
    stageItems scope.blank vars names = stageItems scope vars names := by
  induction vars generalizing names with
  | nil => rfl
  | cons v rest ih => simp only [stageItems, Scope.reference_blank, ih]

theorem compileTransform_blank (scope : Scope) (t : Transform) :
    compileTransform scope.blank t =
      (compileTransform scope t).map fun x => (x.1, x.2.blank) := by
  have hafter : { scope.blank with transformed? := some (t.vars.map TransformVar.name) } =
      Scope.blank { scope with transformed? := some (t.vars.map TransformVar.name) } := rfl
  simp only [compileTransform, stageItems_blank, hafter, Scope.reference_blank]
  cases stageItems scope t.vars [] with
  | error e => rfl
  | ok items =>
    simp only [bind, Except.bind]
    split <;> rfl

theorem compileTransforms_blank (scope : Scope) (ts : List Transform) :
    compileTransforms scope.blank ts =
      (compileTransforms scope ts).map fun x => (x.1, x.2.blank) := by
  induction ts generalizing scope with
  | nil => rfl
  | cons t rest ih =>
    simp only [compileTransforms, compileTransform_blank]
    cases compileTransform scope t with
    | error e => rfl
    | ok x =>
      show (compileTransforms x.2.blank rest >>= _) = _
      rw [ih]
      simp only [bind, Except.bind, Except.map]
      cases compileTransforms x.2 rest <;> rfl

theorem annotated_blank (scope : Scope) (a : Annotation) :
    annotated scope.blank a = annotated scope a := by
  simp only [annotated, Scope.expr_blank]

theorem bindingOutputs_blank (scope : Scope) (b : Binding) :
    bindingOutputs scope.blank b = bindingOutputs scope b := by
  have hlength : scope.blank.bindings.length = scope.bindings.length := rfl
  simp only [bindingOutputs, Scope.returnedParent?_blank, hlength]

theorem planOutputs_blank (s : Selection) (scope : Scope) (taken : List String) :
    s.blank.planOutputs scope.blank taken = s.planOutputs scope taken := by
  have hbindings : scope.blank.bindings.flatMap (bindingOutputs scope.blank) =
      scope.bindings.flatMap (bindingOutputs scope) :=
    List.flatMap_congr fun b _ => bindingOutputs_blank scope b
  have hannotated : annotated scope.blank = annotated scope := funext (annotated_blank scope)
  simp only [planOutputs, hbindings, hannotated]
  rfl

theorem handedOut_blank (s : Selection) (scope : Scope) (name : String) :
    s.blank.handedOut scope.blank name = s.handedOut scope name := by
  simp only [handedOut, annotated_blank]
  rfl

theorem compileOrder_blank (scope : Scope) (names : List String) (grouped : Bool)
    (term : OrderTerm) :
    compileOrder scope.blank names grouped term = compileOrder scope names grouped term := by
  cases term <;> rfl

end Selection

theorem checkImports_blank (scope : Scope) (imports : List String) :
    checkImports scope.blank imports = checkImports scope imports := rfl

theorem takeReturns_blank (scope : Scope) (names : List String) :
    takeReturns scope.blank names = (takeReturns scope names).map Scope.blank := by
  induction names generalizing scope with
  | nil => rfl
  | cons name rest ih =>
    simp only [takeReturns]
    by_cases hvisible : scope.isVisible name = true
    · rw [if_pos hvisible, if_pos (show scope.blank.isVisible name = true from hvisible)]
      rfl
    · rw [if_neg hvisible, if_neg (show ¬scope.blank.isVisible name = true from hvisible)]
      exact ih { scope with extra := scope.extra ++ [name] }

/-! ## Two runs side by side -/

/-- Two binders with the same names: the same counters and the same parameters, whatever these
hold. -/
structure Binder.Agree (b b' : Binder) : Prop where
  keys : b.params.keys = b'.params.keys
  numbers : b.numbers = b'.numbers

namespace Binder

theorem Agree.refl (b : Binder) : Agree b b := ⟨rfl, rfl⟩

theorem Agree.nextNumber {b b' : Binder} (h : Agree b b') (hint : String) :
    b.nextNumber hint = b'.nextNumber hint := by
  have hlength : b.params.length = b'.params.length := by
    simpa [Dict.keys] using congrArg List.length h.keys
  simp only [Binder.nextNumber, h.numbers, hlength, Dict.contains_eq_contains_keys, h.keys]

/-- A name is chosen without looking at the value that it is for. -/
theorem Agree.bind {b b' : Binder} (h : Agree b b') (hint : String) (v v' : Value) :
    (b.bind hint v).1 = (b'.bind hint v').1 ∧ Agree (b.bind hint v).2 (b'.bind hint v').2 := by
  have hnumber := h.nextNumber hint
  refine ⟨congrArg (paramName hint) hnumber, ?_, ?_⟩
  · simp only [Binder.bind, hnumber]
    exact Dict.keys_insert_congr h.keys _ _ _
  · simp only [Binder.bind, hnumber, h.numbers]

end Binder

/-- Two results with the same blank were made of results with the same blank. -/
theorem blank_eq_of_map_eq {ε α : Type} {g : α → α} {x x' : Except ε α} {y y' : α}
    (hxx : x.map g = x'.map g) (hx : x = .ok y) (hx' : x' = .ok y') : g y = g y' := by
  rw [hx, hx'] at hxx
  exact Except.ok.inj hxx

section Filters

variable {scope scope' : Scope} {space : String} {b₁ b₁' b₂ b₂' : Binder}

/-- Comparisons with the same blank are written alike, and both have an operand or neither. -/
theorem Condition.lower_agree {c c' : Condition} {lhs : Cypher.PropertyRef} {p : Property}
    {l l' : Lowered} (hc : c.blank = c'.blank) (hl : c.lower lhs p = .ok l)
    (hl' : c'.lower lhs p = .ok l') :
    l.atom = l'.atom ∧ l.operand?.isSome = l'.operand?.isSome := by
  have hop : c.operator = c'.operator := by
    rw [← c.operator_blank, ← c'.operator_blank, hc]
  by_cases hnull : c.operator = .isNull
  · -- The operand of a null check is part of what is compared.
    have hcc : c = c' := by
      rw [blank, blank, if_pos hnull, if_pos (hop ▸ hnull)] at hc
      exact hc
    subst hcc
    obtain rfl := Except.ok.inj (hl.symm.trans hl')
    exact ⟨rfl, rfl⟩
  · have hin : Operator.isPattern .isIn = false := rfl
    cases lowers_of_lower hl <;> cases lowers_of_lower hl' <;> grind

theorem compileCondition_agree {c c' : Condition} {f f' : Cypher.Formula}
    (hscope : scope.blank = scope'.blank) (hc : c.blank = c'.blank) (hb : b₁.Agree b₁')
    (h : compileCondition scope space c b₁ = .ok (f, b₂))
    (h' : compileCondition scope' space c' b₁' = .ok (f', b₂')) :
    f = f' ∧ b₂.Agree b₂' := by
  obtain ⟨lhs, p, l, hfield, hlower, h⟩ := compileCondition_eq_ok h
  obtain ⟨lhs', p', l', hfield', hlower', h'⟩ := compileCondition_eq_ok h'
  have hfields : c.field = c'.field := by
    rw [← c.field_blank, ← c'.field_blank, hc]
  have hlhs : scope.field c.field .filters = scope'.field c'.field .filters := by
    rw [← scope.field_blank, ← scope'.field_blank, hscope, hfields]
  rw [hfield, hfield'] at hlhs
  obtain ⟨rfl, rfl⟩ := Prod.mk.inj (Except.ok.inj hlhs)
  obtain ⟨hatom, hoperand⟩ := Condition.lower_agree hc hlower hlower'
  obtain ⟨hnone, rfl, rfl⟩ | ⟨v, name, hsome, hbind, rfl⟩ := h <;>
    obtain ⟨hnone', rfl, rfl⟩ | ⟨v', name', hsome', hbind', rfl⟩ := h'
  · exact ⟨by rw [hatom], hb⟩
  · rw [hnone, hsome'] at hoperand
    cases hoperand
  · rw [hsome, hnone'] at hoperand
    cases hoperand
  · obtain ⟨hname, hagree⟩ := hb.bind (paramHint space lhs) v v'
    rw [hbind, hbind'] at hname hagree
    simp only at hname
    exact ⟨by rw [hatom, hname], hagree⟩

theorem compilePredicates_agree {ps ps' : List Predicate} {fs fs' : List Cypher.Formula}
    (ih : ∀ p ∈ ps, ∀ p' b₁ b₁' b₂ b₂' f f', p.blank = p'.blank → Binder.Agree b₁ b₁' →
      compilePredicate scope space p b₁ = .ok (f, b₂) →
      compilePredicate scope' space p' b₁' = .ok (f', b₂') → f = f' ∧ b₂.Agree b₂')
    (hps : Predicate.blanks ps = Predicate.blanks ps') (hb : b₁.Agree b₁')
    (h : compilePredicates scope space ps b₁ = .ok (fs, b₂))
    (h' : compilePredicates scope' space ps' b₁' = .ok (fs', b₂')) :
    fs = fs' ∧ b₂.Agree b₂' := by
  induction ps generalizing ps' b₁ b₁' fs fs' with
  | nil =>
    cases ps' with
    | nil =>
      obtain ⟨rfl, rfl⟩ := compilePredicates_nil_eq_ok h
      obtain ⟨rfl, rfl⟩ := compilePredicates_nil_eq_ok h'
      exact ⟨rfl, hb⟩
    | cons p' rest' => cases hps
  | cons p rest ihrest =>
    cases ps' with
    | nil => cases hps
    | cons p' rest' =>
      obtain ⟨hp, hrest⟩ := List.cons.inj hps
      obtain ⟨f, b₃, fs₁, hf, hfs, rfl⟩ := compilePredicates_cons_eq_ok h
      obtain ⟨f', b₃', fs₁', hf', hfs', rfl⟩ := compilePredicates_cons_eq_ok h'
      obtain ⟨rfl, hb₃⟩ := ih p List.mem_cons_self _ _ _ _ _ _ _ hp hb hf hf'
      obtain ⟨rfl, hb₂⟩ := ihrest (fun q hq => ih q (List.mem_cons_of_mem p hq)) hrest hb₃ hfs hfs'
      exact ⟨rfl, hb₂⟩

/-- Two runs on predicates with the same blank write the same filter. -/
theorem compilePredicate_agree {p p' : Predicate} {f f' : Cypher.Formula}
    (hscope : scope.blank = scope'.blank) (hp : p.blank = p'.blank) (hb : b₁.Agree b₁')
    (h : compilePredicate scope space p b₁ = .ok (f, b₂))
    (h' : compilePredicate scope' space p' b₁' = .ok (f', b₂')) :
    f = f' ∧ b₂.Agree b₂' := by
  induction p using Predicate.induction generalizing p' b₁ b₁' b₂ b₂' f f' with
  | leaf c =>
    cases p' with
    | leaf c' => exact compileCondition_agree hscope (Predicate.leaf.inj hp) hb h h'
    | and | or | not => cases hp
  | and parts ih =>
    cases p' with
    | and parts' =>
      obtain ⟨fs, hfs, rfl⟩ := compilePredicate_and_eq_ok h
      obtain ⟨fs', hfs', rfl⟩ := compilePredicate_and_eq_ok h'
      obtain ⟨rfl, hagree⟩ := compilePredicates_agree (fun p hp _ _ _ _ _ _ _ => ih p hp)
        (Predicate.and.inj hp) hb hfs hfs'
      exact ⟨rfl, hagree⟩
    | leaf | or | not => cases hp
  | or parts ih =>
    cases p' with
    | or parts' =>
      obtain ⟨fs, hfs, rfl⟩ := compilePredicate_or_eq_ok h
      obtain ⟨fs', hfs', rfl⟩ := compilePredicate_or_eq_ok h'
      obtain ⟨rfl, hagree⟩ := compilePredicates_agree (fun p hp _ _ _ _ _ _ _ => ih p hp)
        (Predicate.or.inj hp) hb hfs hfs'
      exact ⟨rfl, hagree⟩
    | leaf | and | not => cases hp
  | not p ih =>
    cases p' with
    | not p' =>
      obtain ⟨g, hg, rfl⟩ := compilePredicate_not_eq_ok h
      obtain ⟨g', hg', rfl⟩ := compilePredicate_not_eq_ok h'
      obtain ⟨rfl, hagree⟩ := ih (Predicate.not.inj hp) hb hg hg'
      exact ⟨rfl, hagree⟩
    | leaf | and | or => cases hp

end Filters

/-! ## Clauses -/

namespace Selection

variable {s s' : Selection} {scope scope' : Scope} {space : String} {b₁ b₁' b₂ b₂' : Binder}

theorem compileMatch_agree {clauses clauses' : List Cypher.Clause}
    (hs : s.blank = s'.blank) (hscope : scope.blank = scope'.blank) (hb : b₁.Agree b₁')
    (h : s.compileMatch scope space b₁ = .ok (clauses, b₂))
    (h' : s'.compileMatch scope' space b₁' = .ok (clauses', b₂')) :
    clauses = clauses' ∧ b₂.Agree b₂' := by
  have hexistence : s.existence.map (Existence.formula scope.rootVar) =
      s'.existence.map (Existence.formula scope'.rootVar) := by
    have hes : s.existence = s'.existence := (congrArg existence hs :)
    have hvar : scope.rootVar = scope'.rootVar := (congrArg Scope.rootVar hscope :)
    rw [hes, hvar]
  have hmatch (early late : List Cypher.Formula) :
      matchClauses scope early late = matchClauses scope' early late := by
    rw [← matchClauses_blank, ← matchClauses_blank scope', hscope]
  have hpredicate : s.predicate?.map Predicate.blank = s'.predicate?.map Predicate.blank :=
    (congrArg predicate? hs :)
  obtain ⟨hp, rfl, rfl⟩ | ⟨p, f, hp, hf, rfl⟩ := compileMatch_eq_ok h <;>
    obtain ⟨hp', rfl, rfl⟩ | ⟨p', f', hp', hf', rfl⟩ := compileMatch_eq_ok h' <;>
    rw [hp, hp'] at hpredicate
  · exact ⟨by rw [hexistence, hmatch], hb⟩
  · cases hpredicate
  · cases hpredicate
  · obtain ⟨rfl, hagree⟩ := compilePredicate_agree hscope (Option.some.inj hpredicate) hb hf hf'
    have htouches : touchesOptional scope f = touchesOptional scope' f := by
      rw [← touchesOptional_blank, ← touchesOptional_blank scope', hscope]
    refine ⟨?_, hagree⟩
    rw [hexistence, hmatch, hmatch, htouches]

theorem compileBound_agree {keyword hint : String} {n? n?' : Option Nat}
    {name? name?' : Option String}
    (hn : n?.isSome = n?'.isSome) (hb : b₁.Agree b₁')
    (h : compileBound space keyword hint n? b₁ = .ok (name?, b₂))
    (h' : compileBound space keyword hint n?' b₁' = .ok (name?', b₂')) :
    name? = name?' ∧ b₂.Agree b₂' := by
  cases n? with
  | none =>
    cases n?' with
    | none =>
      obtain ⟨rfl, rfl⟩ := compileBound_none_eq_ok h
      obtain ⟨rfl, rfl⟩ := compileBound_none_eq_ok h'
      exact ⟨rfl, hb⟩
    | some n' => cases hn
  | some n =>
    cases n?' with
    | none => cases hn
    | some n' =>
      obtain ⟨i, name, _, hbind, rfl⟩ := compileBound_some_eq_ok h
      obtain ⟨i', name', _, hbind', rfl⟩ := compileBound_some_eq_ok h'
      obtain ⟨hname, hagree⟩ := hb.bind (space ++ hint) (.int i) (.int i')
      rw [hbind, hbind'] at hname hagree
      exact ⟨congrArg some hname, hagree⟩

theorem compilePage_agree {page page' : Cypher.Page} (hs : s.blank = s'.blank)
    (hb : b₁.Agree b₁') (h : s.compilePage space b₁ = .ok (page, b₂))
    (h' : s'.compilePage space b₁' = .ok (page', b₂')) :
    page = page' ∧ b₂.Agree b₂' := by
  have hpage : s.pagination.blank = s'.pagination.blank := (congrArg pagination hs :)
  have hskip? : s.pagination.skip?.isSome = s'.pagination.skip?.isSome := by
    simpa [Pagination.blank] using congrArg (fun p => p.skip?.isSome) hpage
  have hlimit? : s.pagination.limit?.isSome = s'.pagination.limit?.isSome := by
    simpa [Pagination.blank] using congrArg (fun p => p.limit?.isSome) hpage
  obtain ⟨b₃, hskip, hlimit⟩ := compilePage_eq_ok h
  obtain ⟨b₃', hskip', hlimit'⟩ := compilePage_eq_ok h'
  obtain ⟨hs₁, hb₃⟩ := compileBound_agree hskip? hb hskip hskip'
  obtain ⟨hl₁, hb₂⟩ := compileBound_agree hlimit? hb₃ hlimit hlimit'
  obtain ⟨skip?, limit?⟩ := page
  exact ⟨congrArg₂ Cypher.Page.mk hs₁ hl₁, hb₂⟩

theorem compileReturn_agree {outputs : List Output} {clauses clauses' : List Cypher.Clause}
    (hs : s.blank = s'.blank) (hscope : scope.blank = scope'.blank) (hb : b₁.Agree b₁')
    (h : s.compileReturn scope space outputs b₁ = .ok (clauses, b₂))
    (h' : s'.compileReturn scope' space outputs b₁' = .ok (clauses', b₂')) :
    clauses = clauses' ∧ b₂.Agree b₂' := by
  obtain ⟨_, _, order, page, horder, hpage, rfl⟩ := compileReturn_eq_ok h
  obtain ⟨_, _, order', page', horder', hpage', rfl⟩ := compileReturn_eq_ok h'
  obtain ⟨rfl, hagree⟩ := compilePage_agree hs hb hpage hpage'
  have hordering : s.ordering = s'.ordering := (congrArg ordering hs :)
  have hannotations : s.annotations = s'.annotations := (congrArg annotations hs :)
  have hterm (names : List String) (grouped : Bool) :
      compileOrder scope names grouped = compileOrder scope' names grouped := by
    funext term
    rw [← compileOrder_blank, ← compileOrder_blank scope', hscope]
  rw [hordering, hannotations, hterm, horder'] at horder
  obtain rfl := Except.ok.inj horder
  exact ⟨rfl, hagree⟩

theorem shapeOf_agree (hs : s.blank = s'.blank) (hscope : scope.blank = scope'.blank)
    (own : Bool) (outputs : List Output) :
    s.shapeOf scope own outputs = s'.shapeOf scope' own outputs := by
  have hmode : s.mode? = s'.mode? := (congrArg mode? hs :)
  have hvar : scope.rootVar = scope'.rootVar := (congrArg Scope.rootVar hscope :)
  have htransformed : scope.transformed? = scope'.transformed? :=
    (congrArg Scope.transformed? hscope :)
  unfold shapeOf
  rw [hmode, hvar, htransformed]

/-- Two runs on the same ending write the same end. -/
theorem compileEnding_agree {taken : List String} {ending : Ending}
    {clauses clauses' : List Cypher.Clause} {shape shape' : ResultShape}
    (hs : s.blank = s'.blank) (hscope : scope.blank = scope'.blank) (hb : b₁.Agree b₁')
    (h : s.compileEnding scope space taken ending b₁ = .ok ((clauses, shape), b₂))
    (h' : s'.compileEnding scope' space taken ending b₁' = .ok ((clauses', shape'), b₂')) :
    clauses = clauses' ∧ shape = shape' ∧ b₂.Agree b₂' := by
  cases ending with
  | result =>
    obtain ⟨outputs, houtputs, hreturn, rfl⟩ := compileEnding_result_eq_ok h
    obtain ⟨outputs', houtputs', hreturn', rfl⟩ := compileEnding_result_eq_ok h'
    rw [← planOutputs_blank, hs, hscope, planOutputs_blank, houtputs'] at houtputs
    obtain rfl := Except.ok.inj houtputs
    obtain ⟨rfl, hagree⟩ := compileReturn_agree hs hscope hb hreturn hreturn'
    exact ⟨rfl, shapeOf_agree hs hscope _ _, hagree⟩
  | count =>
    obtain ⟨_, page, hpage, rfl, rfl⟩ := compileCount_eq_ok h
    obtain ⟨_, page', hpage', rfl, rfl⟩ := compileCount_eq_ok h'
    obtain ⟨rfl, hagree⟩ := compilePage_agree hs hb hpage hpage'
    have hmode : s.mode? = s'.mode? := (congrArg mode? hs :)
    have hvar : scope.rootVar = scope'.rootVar := (congrArg Scope.rootVar hscope :)
    rw [hmode, hvar]
    exact ⟨rfl, rfl, hagree⟩
  | handOut names =>
    obtain ⟨outputs, houtputs, hreturn, rfl⟩ := compileEnding_handOut_eq_ok h
    obtain ⟨outputs', houtputs', hreturn', rfl⟩ := compileEnding_handOut_eq_ok h'
    have hname : s.handedOut scope = s'.handedOut scope' := by
      funext name
      rw [← handedOut_blank, hs, hscope, handedOut_blank]
    rw [hname, houtputs'] at houtputs
    obtain rfl := Except.ok.inj houtputs
    obtain ⟨rfl, hagree⟩ := compileReturn_agree hs hscope hb hreturn hreturn'
    exact ⟨rfl, shapeOf_agree hs hscope _ _, hagree⟩

theorem compileFront_agree {r : Registry} {imports : List String}
    {front front' : List Cypher.Clause}
    (hs : s.blank = s'.blank) (hb : b₁.Agree b₁')
    (h : s.compileFront r space imports b₁ = .ok ((front, scope), b₂))
    (h' : s'.compileFront r space imports b₁' = .ok ((front', scope'), b₂')) :
    front = front' ∧ scope.blank = scope'.blank ∧ b₂.Agree b₂' := by
  obtain ⟨scope₁, matched, stages, hscope, hmatched, hstages, rfl⟩ := compileFront_eq_ok h
  obtain ⟨scope₁', matched', stages', hscope', hmatched', hstages', rfl⟩ := compileFront_eq_ok h'
  have hscopes : scope₁.blank = scope₁'.blank := by
    have hmap : (s.scope r imports).map Scope.blank = (s'.scope r imports).map Scope.blank := by
      rw [← scope_blank, ← scope_blank, hs]
    exact blank_eq_of_map_eq hmap hscope hscope'
  obtain ⟨rfl, hagree⟩ := compileMatch_agree hs hscopes hb hmatched hmatched'
  have htransforms : s.transforms = s'.transforms := (congrArg transforms hs :)
  have hmap : (compileTransforms scope₁ s.transforms).map (fun x => (x.1, x.2.blank)) =
      (compileTransforms scope₁' s'.transforms).map fun x => (x.1, x.2.blank) := by
    rw [← compileTransforms_blank, ← compileTransforms_blank, hscopes, htransforms]
  rw [hstages, hstages'] at hmap
  obtain ⟨rfl, hafter⟩ := Prod.mk.inj (Except.ok.inj hmap)
  exact ⟨rfl, hafter, hagree⟩

end Selection

/-! ## Plans -/

section Plans

variable {r : Registry} {space : String} {b₁ b₁' b₂ b₂' : Binder}

theorem QueryPlan.returns_blanks (qs : List (Subquery QueryPlan)) :
    (blanks qs).flatMap Subquery.returns = qs.flatMap Subquery.returns := by
  induction qs with
  | nil => rfl
  | cons q rest ih =>
    simp only [blanks, List.flatMap_cons, ih]

/-- What two runs on plans with the same blank have in common. -/
def RunsAgree (r : Registry) (p p' : QueryPlan) : Prop :=
  ∀ space imports ending b₁ b₁' b₂ b₂' clauses clauses' shape shape', Binder.Agree b₁ b₁' →
    compilePlan r space imports ending p b₁ = .ok ((clauses, shape), b₂) →
    compilePlan r space imports ending p' b₁' = .ok ((clauses', shape'), b₂') →
    clauses = clauses' ∧ shape = shape' ∧ Binder.Agree b₂ b₂'

theorem compileSubqueries_agree {number : Nat} {qs qs' : List (Subquery QueryPlan)}
    {scope scope' scope₂ scope₂' : Scope} {calls calls' : List Cypher.Clause}
    (ih : ∀ q ∈ qs, ∀ p' : QueryPlan, q.plan.blank = p'.blank → RunsAgree r q.plan p')
    (hqs : QueryPlan.blanks qs = QueryPlan.blanks qs') (hscope : scope.blank = scope'.blank)
    (hb : b₁.Agree b₁')
    (h : compileSubqueries r space number scope qs b₁ = .ok ((calls, scope₂), b₂))
    (h' : compileSubqueries r space number scope' qs' b₁' = .ok ((calls', scope₂'), b₂')) :
    calls = calls' ∧ scope₂.blank = scope₂'.blank ∧ b₂.Agree b₂' := by
  induction qs generalizing qs' number scope scope' calls calls' b₁ b₁' with
  | nil =>
    cases qs' with
    | nil =>
      obtain ⟨rfl, rfl, rfl⟩ := compileSubqueries_nil_eq_ok h
      obtain ⟨rfl, rfl, rfl⟩ := compileSubqueries_nil_eq_ok h'
      exact ⟨rfl, hscope, hb⟩
    | cons q' rest' => cases hqs
  | cons q rest ihrest =>
    cases qs' with
    | nil => cases hqs
    | cons q' rest' =>
      obtain ⟨hq, hrest⟩ := List.cons.inj hqs
      obtain ⟨plan, returns, imports⟩ := q
      obtain ⟨plan', returns', imports'⟩ := q'
      obtain ⟨hplan, rfl, rfl⟩ := Subquery.mk.inj hq
      obtain ⟨body, shape, b₃, scope₃, calls₁, _, hbody, htake, hcalls, rfl⟩ :=
        compileSubqueries_cons_eq_ok h
      obtain ⟨body', shape', b₃', scope₃', calls₁', _, hbody', htake', hcalls', rfl⟩ :=
        compileSubqueries_cons_eq_ok h'
      obtain ⟨rfl, _, hb₃⟩ := ih _ List.mem_cons_self plan' hplan _ _ _ _ _ _ _ _ _ _ _ hb
        hbody hbody'
      have hscope₃ : scope₃.blank = scope₃'.blank := by
        have hmap : (takeReturns scope returns).map Scope.blank =
            (takeReturns scope' returns).map Scope.blank := by
          rw [← takeReturns_blank, ← takeReturns_blank, hscope]
        exact blank_eq_of_map_eq hmap htake htake'
      obtain ⟨rfl, hscope₂, hb₂⟩ := ihrest (fun q hq => ih q (List.mem_cons_of_mem _ hq)) hrest
        hscope₃ hb₃ hcalls hcalls'
      exact ⟨rfl, hscope₂, hb₂⟩

/-- Plans with the same blank are compiled alike, nested to any depth. -/
theorem runsAgree {p p' : QueryPlan} (hp : p.blank = p'.blank) : RunsAgree r p p' := by
  induction p using QueryPlan.induction generalizing p' with
  | mk s qs ih =>
    obtain ⟨s', qs'⟩ := p'
    obtain ⟨hs, hqs⟩ := QueryPlan.mk.inj hp
    intro space imports ending b₁ b₁' b₂ b₂' clauses clauses' shape shape' hb h h'
    obtain ⟨front, scope₁, b₃, calls, scope₂, b₄, last, hfront, hcalls, hlast, rfl⟩ :=
      compilePlan_eq_ok h
    obtain ⟨front', scope₁', b₃', calls', scope₂', b₄', last', hfront', hcalls', hlast', rfl⟩ :=
      compilePlan_eq_ok h'
    obtain ⟨rfl, hscope₁, hb₃⟩ := Selection.compileFront_agree hs hb hfront hfront'
    obtain ⟨rfl, hscope₂, hb₄⟩ := compileSubqueries_agree (fun q hq p' hp' => ih q hq hp') hqs
      hscope₁ hb₃ hcalls hcalls'
    have hreturns : qs.flatMap Subquery.returns = qs'.flatMap Subquery.returns := by
      rw [← QueryPlan.returns_blanks, hqs, QueryPlan.returns_blanks]
    rw [hreturns] at hlast
    obtain ⟨rfl, rfl, hb₂⟩ := Selection.compileEnding_agree hs hscope₂ hb₄ hlast hlast'
    exact ⟨rfl, rfl, hb₂⟩

/-- Everything before a count and the page are as for the result, so only a transform is in the
way of counting what compiles. -/
theorem compileCount_isOk {s : Selection} {qs : List (Subquery QueryPlan)} {c : CompiledQuery}
    (h : (QueryPlan.mk s qs).compile r = .ok c) :
    ∃ front scope₁ b₁ calls scope b₂, s.compileFront r "" [] .empty = .ok ((front, scope₁), b₁) ∧
      compileSubqueries r "" 1 scope₁ qs b₁ = .ok ((calls, scope), b₂) ∧
      ((QueryPlan.mk s qs).compileCount r).isOk = scope.transformed?.isNone := by
  obtain ⟨binder, hrun, _⟩ := compileTo_eq_ok h
  obtain ⟨front, scope₁, b₁, calls, scope, b₂, last, hfront, hcalls, hlast, _⟩ :=
    compilePlan_eq_ok hrun
  obtain ⟨outputs, _, hreturn, _⟩ := Selection.compileEnding_result_eq_ok hlast
  obtain ⟨_, _, order, page, _, hpage, _⟩ := Selection.compileReturn_eq_ok hreturn
  refine ⟨front, scope₁, b₁, calls, scope, b₂, hfront, hcalls, ?_⟩
  simp only [QueryPlan.compileCount, QueryPlan.compileTo, StateT.run, compilePlan, bind,
    StateT.bind, Except.bind, hfront, hcalls, Selection.compileEnding, Selection.compileCount]
  cases scope.transformed? with
  | some names => rfl
  | none =>
    simp only [Option.isSome_none, Bool.false_eq_true, if_false, StateT.bind, bind, Except.bind,
      hpage]
    rfl

end Plans

/-- Two statements that differ in the values of their parameters only. -/
structure CompiledQuery.Alike (c c' : CompiledQuery) : Prop where
  text : c.text = c'.text
  shape : c.shape = c'.shape
  names : c.params.keys = c'.params.keys

theorem QueryPlan.alike_of_compileTo {r : Registry} {p p' : QueryPlan} {ending : Ending}
    {c c' : CompiledQuery} (hp : p.blank = p'.blank) (h : p.compileTo r ending = .ok c)
    (h' : p'.compileTo r ending = .ok c') : c.Alike c' := by
  obtain ⟨binder, hrun, hparams⟩ := compileTo_eq_ok h
  obtain ⟨binder', hrun', hparams'⟩ := compileTo_eq_ok h'
  obtain ⟨hquery, hshape, hbinder⟩ := runsAgree hp _ _ _ _ _ _ _ _ _ _ _ (Binder.Agree.refl _)
    hrun hrun'
  refine ⟨congrArg Cypher.queryText hquery, hshape, ?_⟩
  rw [hparams, hparams']
  exact hbinder.keys

/-- The values of a plan never show in its statement.  Plans that differ in operands and in page
numbers only, their subqueries included, compile to the same text, the same shape and the same
parameter names, and so do their counts. -/
theorem QueryPlan.compile_alike {r : Registry} {p p' : QueryPlan} (hp : p.blank = p'.blank) :
    (∀ c c', p.compile r = .ok c → p'.compile r = .ok c' → c.Alike c') ∧
    (∀ d d', p.compileCount r = .ok d → p'.compileCount r = .ok d' → d.Alike d') ∧
    ∀ c c', p.compile r = .ok c → p'.compile r = .ok c' →
      (p.compileCount r).isOk = (p'.compileCount r).isOk := by
  refine ⟨fun c c' => alike_of_compileTo hp, fun d d' => alike_of_compileTo hp, ?_⟩
  intro c c' h h'
  obtain ⟨s, qs⟩ := p
  obtain ⟨s', qs'⟩ := p'
  obtain ⟨hs, hqs⟩ := QueryPlan.mk.inj hp
  obtain ⟨front, scope₁, b₁, calls, scope, b₂, hfront, hcalls, hcount⟩ := compileCount_isOk h
  obtain ⟨front', scope₁', b₁', calls', scope', b₂', hfront', hcalls', hcount'⟩ :=
    compileCount_isOk h'
  obtain ⟨_, hscope₁, hb₁⟩ := Selection.compileFront_agree hs (Binder.Agree.refl _) hfront hfront'
  obtain ⟨_, hscope, _⟩ := compileSubqueries_agree (fun q _ p' hp' => runsAgree hp') hqs hscope₁
    hb₁ hcalls hcalls'
  have htransformed : scope.transformed? = scope'.transformed? :=
    (congrArg Scope.transformed? hscope :)
  rw [hcount, hcount', htransformed]

/-- A plan that asks for some names or for suppliers whose name starts with a text, counts the
suppliers of that name, and takes a page. -/
def Sample.asked (texts : List String) (text : String) (n : Nat) : QueryPlan :=
  let inner : Selection :=
    { root := linked "Supplier" "country" "Country" "IN"
      predicate? := some (named [] text), existence := [], paths := [],
      mode? := none, shared := [], ordering := [], pagination := ⟨none, none⟩,
      annotations := [⟨"found", .apply (.count false) (.ref .root)⟩], transforms := [] }
  let outer : Selection :=
    { root := linked "Coffee" "suppliers" "Supplier" "SUPPLIED_BY"
      predicate? := some (.or
        [.leaf ⟨⟨[], "name", false⟩, .isIn, .list (texts.map Value.string)⟩,
          .leaf ⟨⟨["suppliers"], "name", false⟩, .startsWith, .string text⟩])
      existence := [], paths := [], mode? := none, shared := [], ordering := []
      pagination := ⟨none, some n⟩, annotations := [], transforms := [] }
  .mk outer [⟨.mk inner [], ["found"], []⟩]

theorem QueryPlan.compile_alike_asked :
    ∃ c c', (Sample.asked ["a"] "b" 1).compile Sample.registry = .ok c ∧
      (Sample.asked ["c", "d", "e"] "') RETURN 1 //" 250).compile Sample.registry = .ok c' ∧
      c.Alike c' := by
  have h : ((Sample.asked ["a"] "b" 1).compile Sample.registry).isOk = true := by
    decide +kernel
  have h' : ((Sample.asked ["c", "d", "e"] "') RETURN 1 //" 250).compile
      Sample.registry).isOk = true := by
    decide +kernel
  obtain ⟨c, hc⟩ := exists_eq_ok h
  obtain ⟨c', hc'⟩ := exists_eq_ok h'
  have hblank : (Sample.asked ["a"] "b" 1).blank =
      (Sample.asked ["c", "d", "e"] "') RETURN 1 //" 250).blank := rfl
  exact ⟨c, c', hc, hc', (compile_alike hblank).1 c c' hc hc'⟩

end GraphMapper
