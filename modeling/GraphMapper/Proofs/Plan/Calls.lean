import GraphMapper.Plan.Call
import GraphMapper.Proofs.Compile.Run

/-!
# What a call on a plan does

One lemma for each call says what was checked when it succeeded, and which
parts of the selection it changed.
-/

namespace GraphMapper

namespace Selection

variable {r : Registry} {s s' : Selection}

theorem filter_eq_ok {p : Predicate} (h : s.filter r p = .ok s') :
    (p.conditions.forM fun c => checkField r s c.field) = .ok () ∧
      s' = { s with
        predicate? := some (match s.predicate? with
          | some q => Predicate.all [q, p]
          | none => p) } := by
  obtain ⟨_, hcheck, h⟩ := bind_eq_ok.1 h
  exact ⟨hcheck, (pure_eq_ok.1 h).symm⟩

theorem has_eq_ok {path : List Char} {isPresent : Bool} (h : s.has r path isPresent = .ok s') :
    ∃ hops, (parseHops path >>= walk r s.root) = .ok hops ∧
      s' = { s with existence := s.existence ++ [⟨hops, isPresent⟩] } := by
  obtain ⟨names, hnames, h⟩ := bind_eq_ok.1 h
  obtain ⟨hops, hhops, h⟩ := bind_eq_ok.1 h
  exact ⟨hops, bind_eq_ok.2 ⟨names, hnames, hhops⟩, (pure_eq_ok.1 h).symm⟩

theorem traverse_eq_ok {expr : String} {options : TraverseOptions} {mode : PathMode}
    (h : s.traverse r expr options mode = .ok s') :
    (∀ committed, s.mode? = some committed → committed = mode) ∧
      (∀ name, options.alias? = some name → s.aliasTaken name = false) ∧
      ∃ spec, PathSpec.resolve r s.root expr options mode = .ok spec ∧
        s' = { s with mode? := some mode, paths := s.paths ++ [spec] } := by
  simp only [traverse] at h
  cases hm : s.mode? with
  | none =>
    cases ha : options.alias? with
    | none =>
      simp only [hm, ha] at h
      obtain ⟨spec, hspec, h⟩ := bind_eq_ok.1 h
      exact ⟨by simp, by simp, spec, hspec, (pure_eq_ok.1 h).symm⟩
    | some name =>
      simp only [hm, ha] at h
      split at h
      · exact absurd h throw_bind_ne_ok
      · next hfree =>
        obtain ⟨spec, hspec, h⟩ := bind_eq_ok.1 h
        exact ⟨by simp, by simpa using hfree, spec, hspec, (pure_eq_ok.1 h).symm⟩
  | some committed =>
    simp only [hm] at h
    split at h
    · exact absurd h throw_bind_ne_ok
    · next hsame =>
      cases ha : options.alias? with
      | none =>
        simp only [ha] at h
        obtain ⟨spec, hspec, h⟩ := bind_eq_ok.1 h
        exact ⟨by simpa using hsame, by simp, spec, hspec, (pure_eq_ok.1 h).symm⟩
      | some name =>
        simp only [ha] at h
        split at h
        · exact absurd h throw_bind_ne_ok
        · next hfree =>
          obtain ⟨spec, hspec, h⟩ := bind_eq_ok.1 h
          exact ⟨by simpa using hsame, by simpa using hfree, spec, hspec,
            (pure_eq_ok.1 h).symm⟩

theorem orderBy_eq_ok {text : List Char} (h : s.orderBy r text = .ok s') :
    ∃ term, OrderTerm.parse text = .ok term ∧
      s' = { s with ordering := s.ordering ++ [term] } := by
  obtain ⟨term, hterm, h⟩ := bind_eq_ok.1 h
  refine ⟨term, hterm, ?_⟩
  cases term with
  | random => exact (pure_eq_ok.1 h).symm
  | field path descending =>
    obtain ⟨_, _, h⟩ := bind_eq_ok.1 h
    exact (pure_eq_ok.1 h).symm

theorem annotate_eq_ok {name : String} {expr : Expr VarRef} (h : s.annotate name expr = .ok s') :
    requireIdentifier name = .ok () ∧
      s' = { s with annotations := s.annotations ++ [⟨name, expr⟩] } := by
  obtain ⟨_, hname, h⟩ := bind_eq_ok.1 h
  exact ⟨hname, (pure_eq_ok.1 h).symm⟩

theorem transform_eq_ok {t : Transform} (h : s.transform t = .ok s') :
    t.vars ≠ [] ∧ (t.vars.forM fun v => requireIdentifier v.name) = .ok () ∧
      s' = { s with transforms := s.transforms ++ [t] } := by
  simp only [transform] at h
  split at h
  · exact absurd h throw_bind_ne_ok
  · next hne =>
    obtain ⟨_, hnames, h⟩ := bind_eq_ok.1 h
    exact ⟨hne, hnames, (pure_eq_ok.1 h).symm⟩

end Selection

namespace QueryPlan

variable {r : Registry} {p q : QueryPlan}

theorem mapSelection_eq_ok {f : Selection → Except Error Selection}
    (h : p.mapSelection f = .ok q) :
    ∃ s, f p.selection = .ok s ∧ q = .mk s p.subqueries := by
  obtain ⟨s, hs, h⟩ := bind_eq_ok.1 h
  exact ⟨s, hs, (pure_eq_ok.1 h).symm⟩

theorem subquery_eq_ok {inner : QueryPlan} {returns imports : List String}
    (h : p.subquery inner returns imports = .ok q) :
    returns ≠ [] ∧ (returns ++ imports).forM requireIdentifier = .ok () ∧
      q = .mk p.selection (p.subqueries ++ [⟨inner, returns, imports⟩]) := by
  simp only [subquery] at h
  split at h
  · exact absurd h throw_bind_ne_ok
  · next hne =>
    obtain ⟨_, hnames, h⟩ := bind_eq_ok.1 h
    exact ⟨hne, hnames, (pure_eq_ok.1 h).symm⟩

theorem new_eq_ok {root : String} (h : QueryPlan.new r root = .ok p) :
    ∃ t, r.nodeType root = .ok t ∧ p = forType t := by
  obtain ⟨t, ht, h⟩ := bind_eq_ok.1 h
  exact ⟨t, ht, (pure_eq_ok.1 h).symm⟩

theorem calls_nil_eq_ok (h : p.calls [] = .ok q) : p = q := pure_eq_ok.1 h

theorem calls_cons_eq_ok {c : Registry × PlanCall} {rest : List (Registry × PlanCall)}
    (h : p.calls (c :: rest) = .ok q) :
    ∃ p₁, p.call c.1 c.2 = .ok p₁ ∧ p₁.calls rest = .ok q := by
  rw [calls, List.foldlM_cons] at h
  exact bind_eq_ok.1 h

end QueryPlan

/-- What a successful call does: the checks that it passed and the plan that it leaves. -/
inductive PlanCall.Does (r : Registry) : QueryPlan → PlanCall → QueryPlan → Prop where
  | filter {s qs p}
      (fields : (p.conditions.forM fun c => s.checkField r c.field) = .ok ()) :
      Does r (.mk s qs) (.filter p)
        (.mk { s with
          predicate? := some (match s.predicate? with
            | some q => Predicate.all [q, p]
            | none => p) } qs)
  | exclude {s qs p}
      (fields : ((Predicate.not p).conditions.forM fun c => s.checkField r c.field) = .ok ()) :
      Does r (.mk s qs) (.exclude p)
        (.mk { s with
          predicate? := some (match s.predicate? with
            | some q => Predicate.all [q, .not p]
            | none => .not p) } qs)
  | has {s qs path isPresent hops} (resolved : (parseHops path >>= walk r s.root) = .ok hops) :
      Does r (.mk s qs) (.has path isPresent)
        (.mk { s with existence := s.existence ++ [⟨hops, isPresent⟩] } qs)
  | traverse {s qs expr options mode spec}
      (agrees : ∀ committed, s.mode? = some committed → committed = mode)
      (free : ∀ name, options.alias? = some name → s.aliasTaken name = false)
      (resolved : PathSpec.resolve r s.root expr options mode = .ok spec) :
      Does r (.mk s qs) (.traverse expr options mode)
        (.mk { s with mode? := some mode, paths := s.paths ++ [spec] } qs)
  | share {s qs names} : Does r (.mk s qs) (.share names) (.mk (s.share names) qs)
  | orderBy {s qs text term} (parsed : OrderTerm.parse text = .ok term) :
      Does r (.mk s qs) (.orderBy text) (.mk { s with ordering := s.ordering ++ [term] } qs)
  | skip {s qs n} : Does r (.mk s qs) (.skip n) (.mk (s.skip n) qs)
  | limit {s qs n} : Does r (.mk s qs) (.limit n) (.mk (s.limit n) qs)
  | annotate {s qs name expr} (identifier : requireIdentifier name = .ok ()) :
      Does r (.mk s qs) (.annotate name expr)
        (.mk { s with annotations := s.annotations ++ [⟨name, expr⟩] } qs)
  | transform {s qs t} (nonempty : t.vars ≠ [])
      (identifiers : (t.vars.forM fun v => requireIdentifier v.name) = .ok ()) :
      Does r (.mk s qs) (.transform t) (.mk { s with transforms := s.transforms ++ [t] } qs)
  | subquery {s qs inner returns imports} (nonempty : returns ≠ [])
      (identifiers : (returns ++ imports).forM requireIdentifier = .ok ()) :
      Does r (.mk s qs) (.subquery inner returns imports)
        (.mk s (qs ++ [⟨inner, returns, imports⟩]))

namespace QueryPlan

variable {r : Registry} {p q : QueryPlan}

theorem does_of_call {c : PlanCall} (h : p.call r c = .ok q) : c.Does r p q := by
  obtain ⟨s, qs⟩ := p
  cases c with
  | filter pred =>
    rw [call] at h
    obtain ⟨s', hs, rfl⟩ := mapSelection_eq_ok h
    obtain ⟨hfields, rfl⟩ := Selection.filter_eq_ok hs
    exact .filter hfields
  | exclude pred =>
    rw [call] at h
    obtain ⟨s', hs, rfl⟩ := mapSelection_eq_ok h
    obtain ⟨hfields, rfl⟩ := Selection.filter_eq_ok hs
    exact .exclude hfields
  | has path isPresent =>
    rw [call] at h
    obtain ⟨s', hs, rfl⟩ := mapSelection_eq_ok h
    obtain ⟨hops, hhops, rfl⟩ := Selection.has_eq_ok hs
    exact .has hhops
  | traverse expr options mode =>
    rw [call] at h
    obtain ⟨s', hs, rfl⟩ := mapSelection_eq_ok h
    obtain ⟨hmode, hfree, spec, hspec, rfl⟩ := Selection.traverse_eq_ok hs
    exact .traverse hmode hfree hspec
  | share names =>
    rw [call] at h
    obtain ⟨s', hs, rfl⟩ := mapSelection_eq_ok h
    cases hs
    exact .share
  | orderBy text =>
    rw [call] at h
    obtain ⟨s', hs, rfl⟩ := mapSelection_eq_ok h
    obtain ⟨term, hterm, rfl⟩ := Selection.orderBy_eq_ok hs
    exact .orderBy hterm
  | skip n =>
    rw [call] at h
    obtain ⟨s', hs, rfl⟩ := mapSelection_eq_ok h
    cases hs
    exact .skip
  | limit n =>
    rw [call] at h
    obtain ⟨s', hs, rfl⟩ := mapSelection_eq_ok h
    cases hs
    exact .limit
  | annotate name expr =>
    rw [call] at h
    obtain ⟨s', hs, rfl⟩ := mapSelection_eq_ok h
    obtain ⟨hname, rfl⟩ := Selection.annotate_eq_ok hs
    exact .annotate hname
  | transform t =>
    rw [call] at h
    obtain ⟨s', hs, rfl⟩ := mapSelection_eq_ok h
    obtain ⟨hne, hnames, rfl⟩ := Selection.transform_eq_ok hs
    exact .transform hne hnames
  | subquery inner returns imports =>
    obtain ⟨hne, hnames, rfl⟩ := subquery_eq_ok h
    exact .subquery hne hnames

/-- What holds of a plan and is kept by every call holds after some calls. -/
theorem calls_invariant {P : QueryPlan → Prop} {history : List (Registry × PlanCall)} (hp : P p)
    (hstep : ∀ r c p q, P p → PlanCall.Does r p c q → P q) (h : p.calls history = .ok q) : P q :=
  foldlM_invariant hp (fun c _ p q hp hcall => hstep c.1 c.2 p q hp (does_of_call hcall)) h

/-- No call changes the root. -/
theorem root_call {c : PlanCall} (h : p.call r c = .ok q) : q.root = p.root := by
  cases does_of_call h <;> rfl

end QueryPlan

/-! ## Paths -/

namespace PathSpec

variable {r : Registry} {root : NodeType} {spec : PathSpec}

theorem resolve_eq_ok {expr : String} {options : TraverseOptions} {mode : PathMode}
    (h : resolve r root expr options mode = .ok spec) :
    ∃ hops resolved, options.alias?.forM requireIdentifier = .ok () ∧
      parseHops expr.toList = .ok hops ∧ walk r root hops = .ok resolved ∧
      spec = ⟨expr, stepsOf options mode [] (hops.zip resolved), mode, false⟩ := by
  obtain ⟨_, halias, h⟩ := bind_eq_ok.1 h
  obtain ⟨hops, hhops, h⟩ := bind_eq_ok.1 h
  obtain ⟨resolved, hresolved, h⟩ := bind_eq_ok.1 h
  exact ⟨hops, resolved, halias, hhops, hresolved, (pure_eq_ok.1 h).symm⟩

theorem forFilter_eq_ok {hops : List String} (h : forFilter r root hops = .ok spec) :
    ∃ visible, resolve r root (Text.joinDouble hops) TraverseOptions.default .filterOnly =
        .ok visible ∧ spec = { visible with hidden := true } := by
  obtain ⟨visible, hvisible, h⟩ := bind_eq_ok.1 h
  exact ⟨visible, hvisible, (pure_eq_ok.1 h).symm⟩

/-- The steps of a path are all optional or all not. -/
def Uniform (p : PathSpec) : Prop := ∃ o, ∀ step ∈ p.steps, step.optional = o

theorem optional_stepsOf {options : TraverseOptions} {mode : PathMode} {done : List String}
    {hops : List (String × Hop)} :
    ∀ step ∈ stepsOf options mode done hops, step.optional = options.optional := by
  induction hops generalizing done with
  | nil =>
    intro step hstep
    cases hstep
  | cons hop rest ih =>
    intro step hstep
    rcases List.mem_cons.1 hstep with rfl | hstep
    · rfl
    · exact ih step hstep

/-- Without an alias for its last node a path gives none. -/
theorem alias?_stepsOf {options : TraverseOptions} (halias : options.alias? = none)
    {mode : PathMode} {done : List String} {hops : List (String × Hop)} :
    ∀ step ∈ stepsOf options mode done hops, step.alias? = none := by
  induction hops generalizing done with
  | nil =>
    intro step hstep
    cases hstep
  | cons hop rest ih =>
    intro step hstep
    rcases List.mem_cons.1 hstep with rfl | hstep
    · simp only [halias, ite_self]
    · exact ih step hstep

theorem alias?_forFilter {hops : List String} (h : forFilter r root hops = .ok spec) :
    spec.hidden = true ∧ ∀ step ∈ spec.steps, step.alias? = none := by
  obtain ⟨visible, hvisible, rfl⟩ := forFilter_eq_ok h
  obtain ⟨_, _, _, _, _, rfl⟩ := resolve_eq_ok hvisible
  exact ⟨rfl, alias?_stepsOf rfl⟩

theorem uniform_of_resolve {expr : String} {options : TraverseOptions} {mode : PathMode}
    (h : resolve r root expr options mode = .ok spec) : spec.Uniform := by
  obtain ⟨hops, resolved, _, _, _, rfl⟩ := resolve_eq_ok h
  exact ⟨options.optional, optional_stepsOf⟩

end PathSpec

/-- Hidden paths are made one by one, each for the way to a node property that is compared. -/
theorem Selection.filterPaths_forall_of {r : Registry} {s : Selection} {hidden : List PathSpec}
    {P : PathSpec → Prop}
    (hP : ∀ c ∈ (s.predicate?.map Predicate.conditions).getD [], c.field.hops ≠ [] →
      c.field.onRelationship = false →
      ∀ p, PathSpec.forFilter r s.root c.field.hops = .ok p → P p)
    (h : s.filterPaths r = .ok hidden) : ∀ p ∈ hidden, P p := by
  refine foldlM_invariant (P := fun hidden : List PathSpec => ∀ p ∈ hidden, P p) (by simp) ?_ h
  intro c hc hidden hidden' hforall hstep
  simp only at hstep
  split at hstep
  · cases hstep
    exact hforall
  · next hskip =>
    simp only [not_or, Bool.not_eq_true] at hskip
    obtain ⟨hne, hnode, _⟩ := hskip
    obtain ⟨p, hp, hstep⟩ := bind_eq_ok.1 hstep
    obtain rfl := pure_eq_ok.1 hstep
    intro q hq
    rcases List.mem_append.1 hq with hq | hq
    · exact hforall q hq
    · rw [List.mem_singleton.1 hq]
      exact hP c hc hne hnode p hp

theorem Selection.filterPaths_forall {r : Registry} {s : Selection} {hidden : List PathSpec}
    {P : PathSpec → Prop} (hP : ∀ hops p, PathSpec.forFilter r s.root hops = .ok p → P p)
    (h : s.filterPaths r = .ok hidden) : ∀ p ∈ hidden, P p :=
  filterPaths_forall_of (fun c _ _ _ => hP c.field.hops) h

/-- Nothing that is asked for by a filter only has an alias. -/
theorem Selection.alias?_filterPaths {r : Registry} {s : Selection} {hidden : List PathSpec}
    (h : s.filterPaths r = .ok hidden) :
    ∀ p ∈ hidden, p.hidden = true ∧ ∀ step ∈ p.steps, step.alias? = none :=
  filterPaths_forall (fun _ _ => PathSpec.alias?_forFilter) h

theorem Selection.uniform_filterPaths {r : Registry} {s : Selection} {hidden : List PathSpec}
    (h : s.filterPaths r = .ok hidden) : ∀ p ∈ hidden, p.Uniform := by
  refine filterPaths_forall (fun hops p hp => ?_) h
  obtain ⟨visible, hvisible, rfl⟩ := PathSpec.forFilter_eq_ok hp
  obtain ⟨o, ho⟩ := PathSpec.uniform_of_resolve hvisible
  exact ⟨o, ho⟩

/-- Every path of a plan was resolved by a traversal from its root. -/
theorem QueryPlan.resolved_calls {r : Registry} {root : String} {p q : QueryPlan}
    {history : List (Registry × PlanCall)} (hnew : QueryPlan.new r root = .ok p)
    (h : p.calls history = .ok q) : ∀ path ∈ q.selection.paths, ∃ r expr options mode,
      PathSpec.resolve r q.root expr options mode = .ok path := by
  obtain ⟨t, _, rfl⟩ := new_eq_ok hnew
  refine calls_invariant (P := fun p => ∀ path ∈ p.selection.paths, ∃ r expr options mode,
      PathSpec.resolve r p.root expr options mode = .ok path)
    (by simp [forType, selection]) ?_ h
  intro r c p q hp hdoes
  cases hdoes with
  | traverse _ _ hspec =>
    intro path hpath
    rcases List.mem_append.1 hpath with hpath | hpath
    · exact hp path hpath
    · rw [List.mem_singleton.1 hpath]
      exact ⟨r, _, _, _, hspec⟩
  | _ => exact hp

/-- Every traversal of a plan is optional as a whole or not at all. -/
theorem QueryPlan.uniform_calls {r : Registry} {root : String} {p q : QueryPlan}
    {history : List (Registry × PlanCall)} (hnew : QueryPlan.new r root = .ok p)
    (h : p.calls history = .ok q) : ∀ path ∈ q.selection.paths, path.Uniform := by
  intro path hpath
  obtain ⟨_, _, _, _, hspec⟩ := resolved_calls hnew h path hpath
  exact PathSpec.uniform_of_resolve hspec

/-! ## A small registry

Coffees, their suppliers and the countries of these, for runs on concrete plans. -/

namespace Sample

/-- A text property. -/
def name : Property := ⟨"name", none, .string none, false, none, .none, false⟩

/-- A type with a name and a relationship to some other type. -/
def linked (type relationship target relType : String) : NodeType :=
  ((NodeType.new type).withProperty name).withRelationship
    ⟨relationship, [target], relType, .outgoing, .zeroOrMore, .soft, none⟩

/-- Coffees have suppliers, suppliers are in a country, and a country grows coffees. -/
def registry : Registry :=
  let types := [linked "Coffee" "suppliers" "Supplier" "SUPPLIED_BY",
    linked "Country" "coffees" "Coffee" "GROWS", linked "Supplier" "country" "Country" "IN"]
  ⟨types.map fun t => (t.labels, t), types.map fun t => (t.name, t.labels), [], []⟩

/-- The name of what some hops reach is a text. -/
def named (hops : List String) (text : String) : Predicate :=
  .leaf ⟨⟨hops, "name", false⟩, .exact, .string text⟩

end Sample

end GraphMapper
