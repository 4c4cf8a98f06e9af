import GraphMapper.Proofs.Compile.Parameters
import GraphMapper.Proofs.Compile.Values
import GraphMapper.Proofs.Plan.Walks

/-!
# Plans written over one registry

Every call on a plan is checked against the registry, and what was checked goes
on to hold as long as the registry stays the same: the fields of filters and
orderings end at declared properties, and paths follow their hops
(`Selection.Checked`).  So it is for a plan and for all that is spliced into it
(`QueryPlan.WrittenOver.checked`).
-/

namespace GraphMapper

/-! ## Parsed predicates -/

namespace Predicate

/-- A predicate whose fields were parsed, as those of comparisons and lookups are. -/
def Parsed (p : Predicate) : Prop := ∀ c ∈ p.conditions, ∃ text, FieldPath.parse text = .ok c.field

theorem parsed_of_compare {field : List Char} {op : Operator} {operand : Value} {p : Predicate}
    (h : compare field op operand = .ok p) : p.Parsed := by
  obtain ⟨path, hpath, h⟩ := bind_eq_ok.1 h
  split at h
  · exact absurd h throw_ne_ok
  · obtain rfl := pure_eq_ok.1 h
    intro c hc
    rw [conditions, List.mem_singleton] at hc
    subst hc
    exact ⟨field, hpath⟩

theorem parsed_of_lookup {text : List Char} {operand : Value} {p : Predicate}
    (h : lookup text operand = .ok p) : p.Parsed :=
  parsed_of_compare h

/-- What is put together from parsed predicates alone is parsed. -/
theorem Parsed.of_conditions {p : Predicate} {ps : List Predicate}
    (hp : p.conditions = ps.flatMap conditions) (h : ∀ q ∈ ps, q.Parsed) : p.Parsed := by
  intro c hc
  rw [hp, List.mem_flatMap] at hc
  obtain ⟨q, hq, hc⟩ := hc
  exact h q hq c hc

theorem Parsed.all {ps : List Predicate} (h : ∀ p ∈ ps, p.Parsed) : (Predicate.all ps).Parsed :=
  of_conditions (conditions_all ps) h

theorem Parsed.any {ps : List Predicate} (h : ∀ p ∈ ps, p.Parsed) : (Predicate.any ps).Parsed :=
  of_conditions (conditions_any ps) h

end Predicate

/-- A call whose predicate, if it has one, was parsed. -/
def PlanCall.Parsed : PlanCall → Prop
  | filter p | exclude p => p.Parsed
  | _ => True

/-! ## Selections -/

namespace Selection

variable {r : Registry} {s s' : Selection}

/-- A selection whose fields and paths hold up against the registry. -/
structure Checked (r : Registry) (s : Selection) : Prop where
  parsed : ∀ c ∈ s.conditions, ∃ text, FieldPath.parse text = .ok c.field
  filters : ∀ c ∈ s.conditions, s.checkField r c.field = .ok ()
  ordering : ∀ f descending, .field f descending ∈ s.ordering → s.checkField r f = .ok ()
  paths : ∀ path ∈ s.paths, ∃ names, path.Follows r s.root names

theorem orderBy_checked {text : List Char} (h : s.orderBy r text = .ok s') :
    ∀ f descending, .field f descending ∈ s'.ordering →
      .field f descending ∈ s.ordering ∨ s.checkField r f = .ok () := by
  obtain ⟨term, _, h⟩ := bind_eq_ok.1 h
  cases term with
  | random =>
    obtain rfl := pure_eq_ok.1 h
    intro f descending hmem
    rcases List.mem_append.1 hmem with hmem | hmem
    · exact .inl hmem
    · cases List.mem_singleton.1 hmem
  | field path descending =>
    obtain ⟨_, hfield, h⟩ := bind_eq_ok.1 h
    obtain rfl := pure_eq_ok.1 h
    intro f descending' hmem
    rcases List.mem_append.1 hmem with hmem | hmem
    · exact .inl hmem
    · cases List.mem_singleton.1 hmem
      exact .inr hfield

theorem conditions_filter (s : Selection) (p : Predicate) :
    conditions { s with
      predicate? := some (match s.predicate? with
        | some q => Predicate.all [q, p]
        | none => p) } = s.conditions ++ p.conditions := by
  unfold conditions
  cases s.predicate? with
  | none => rfl
  | some q => simp [Predicate.conditions_all]

theorem Checked.filter {p : Predicate} (h : s.Checked r) (hparsed : p.Parsed)
    (hfields : (p.conditions.forM fun c => s.checkField r c.field) = .ok ()) :
    Checked r { s with
      predicate? := some (match s.predicate? with
        | some q => Predicate.all [q, p]
        | none => p) } := by
  constructor
  · intro c hc
    rw [conditions_filter] at hc
    rcases List.mem_append.1 hc with hc | hc
    · exact h.parsed c hc
    · exact hparsed c hc
  · intro c hc
    rw [conditions_filter] at hc
    rcases List.mem_append.1 hc with hc | hc
    · exact h.filters c hc
    · exact forM_eq_ok hfields c hc
  · exact h.ordering
  · exact h.paths

end Selection

/-! ## Plans -/

namespace QueryPlan

variable {r : Registry} {p q : QueryPlan}

/-- A plan that accepted calls write over one registry; so are the plans spliced into it. -/
inductive WrittenOver (r : Registry) : QueryPlan → Prop
  | start (root : NodeType) : WrittenOver r (forType root)
  | call {p q : QueryPlan} {c : PlanCall} (hp : WrittenOver r p) (hparsed : c.Parsed)
    (hinner : ∀ inner returns imports, c = .subquery inner returns imports → WrittenOver r inner)
    (h : p.call r c = .ok q) : WrittenOver r q

/-- The plans that a plan is made of: itself, and those of the plans spliced into it. -/
inductive Contains : QueryPlan → QueryPlan → Prop
  | self (p : QueryPlan) : Contains p p
  | inner {p q : QueryPlan} {sub : Subquery QueryPlan} (hsub : sub ∈ p.subqueries)
    (h : Contains sub.plan q) : Contains p q

theorem contains_forType {root : NodeType} (h : (forType root).Contains q) : q = forType root := by
  cases h with
  | self => rfl
  | inner hsub => cases hsub

/-- What a plan is made of after a call: the plan itself, what it was made of before, and what a
plan that the call splices in is made of. -/
theorem contains_call {p' : QueryPlan} {c : PlanCall} (h : p.call r c = .ok p')
    (hq : p'.Contains q) :
    q = p' ∨ p.Contains q ∨
      ∃ inner returns imports, c = .subquery inner returns imports ∧ inner.Contains q := by
  cases hq with
  | self => exact .inl rfl
  | @inner _ _ sub hsub hcontains =>
    have hkept (hmem : sub ∈ p.subqueries) : p.Contains q := .inner hmem hcontains
    cases does_of_call h with
    | @subquery s qs inner returns imports =>
      rcases List.mem_append.1 hsub with hsub | hsub
      · exact .inr (.inl (hkept hsub))
      · obtain rfl := List.mem_singleton.1 hsub
        exact .inr (.inr ⟨inner, returns, imports, rfl, hcontains⟩)
    | _ => exact .inr (.inl (hkept hsub))

/-- A call keeps a selection checked. -/
theorem checked_call {c : PlanCall} (hp : p.selection.Checked r) (hparsed : c.Parsed)
    (h : p.call r c = .ok q) : q.selection.Checked r := by
  have hdoes := does_of_call h
  cases hdoes with
  | filter hfields => exact hp.filter hparsed hfields
  | exclude hfields => exact hp.filter hparsed hfields
  | has | share | skip | limit | annotate | transform | subquery =>
    exact ⟨hp.parsed, hp.filters, hp.ordering, hp.paths⟩
  | traverse _ _ hspec =>
    refine ⟨hp.parsed, hp.filters, hp.ordering, fun path hpath => ?_⟩
    rcases List.mem_append.1 hpath with hpath | hpath
    · exact hp.paths path hpath
    · rw [List.mem_singleton.1 hpath]
      obtain ⟨names, _, hfollows⟩ := PathSpec.follows_of_resolve hspec
      exact ⟨names, hfollows⟩
  | orderBy =>
    rw [call] at h
    obtain ⟨s', hs', heq⟩ := mapSelection_eq_ok h
    obtain ⟨rfl, _⟩ := QueryPlan.mk.inj heq
    refine ⟨hp.parsed, hp.filters, fun f descending hmem => ?_, hp.paths⟩
    rcases Selection.orderBy_checked hs' f descending hmem with hmem | hfield
    · exact hp.ordering f descending hmem
    · exact hfield

/-- Whatever a plan over a registry is made of was checked against it. -/
theorem WrittenOver.checked (h : p.WrittenOver r) (hq : p.Contains q) : q.selection.Checked r := by
  induction h generalizing q with
  | start root =>
    rw [contains_forType hq]
    exact ⟨nofun, nofun, nofun, nofun⟩
  | @call p p' c _ hparsed _ hcall ihp ihinner =>
    rcases contains_call hcall hq with rfl | hq | ⟨inner, returns, imports, rfl, hq⟩
    · exact checked_call (ihp (.self p)) hparsed hcall
    · exact ihp hq
    · exact ihinner inner returns imports rfl hq

end QueryPlan

end GraphMapper
