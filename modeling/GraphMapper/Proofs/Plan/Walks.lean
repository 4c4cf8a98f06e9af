import GraphMapper.Proofs.Plan.Calls
import GraphMapper.Proofs.Text.Hops

/-!
# Walks and the steps of paths

A path has one step for each beginning of its hops, with the hop that walking
that far leads to (`PathSpec.Follows`).  So any two steps with the same hops, of
whatever paths from one root, have the same hop.
-/

namespace GraphMapper

variable {r : Registry} {root : NodeType}

/-! ## Walks -/

/-- A hop has a registered type for each target of its relationship, and the registered model that
the relationship names. -/
theorem Hop.ofRelationship_eq_ok {rel : Relationship} {hop : Hop}
    (h : Hop.ofRelationship r rel = .ok hop) :
    hop.relationship = rel ∧
      List.Forall₂ (fun name t => r.nodeType name = .ok t) rel.targets hop.targets ∧
      ∀ m, hop.model? = some m → ∃ name, r.relationshipType name = .ok m := by
  obtain ⟨targets, htargets, h⟩ := bind_eq_ok.1 h
  obtain ⟨model?, hmodel, h⟩ := bind_eq_ok.1 h
  obtain rfl := pure_eq_ok.1 h
  refine ⟨rfl, forall₂_of_mapM htargets, fun m hm => ?_⟩
  cases hrel : rel.model? with
  | none =>
    rw [hrel] at hmodel
    obtain rfl := pure_eq_ok.1 hmodel
    cases hm
  | some name =>
    rw [hrel] at hmodel
    obtain ⟨m', hm', rfl⟩ := map_eq_ok.1 hmodel
    cases hm
    exact ⟨name, hm'⟩

theorem walkFrom_cons {current : List NodeType} {name : String} {rest : List String}
    {hops : List Hop} :
    walkFrom r current (name :: rest) = .ok hops ↔
      ∃ rel hop hops', current.findSome? (·.relationship? name) = some rel ∧
        Hop.ofRelationship r rel = .ok hop ∧ walkFrom r hop.targets rest = .ok hops' ∧
        hops = hop :: hops' := by
  rw [walkFrom]
  cases hrel : current.findSome? fun t => t.relationship? name with
  | none => simp [throw_ne_ok]
  | some rel =>
    constructor
    · intro h
      obtain ⟨hop, hhop, h⟩ := bind_eq_ok.1 h
      obtain ⟨hops', hhops, h⟩ := bind_eq_ok.1 h
      exact ⟨rel, hop, hops', rfl, hhop, hhops, (pure_eq_ok.1 h).symm⟩
    · rintro ⟨rel', hop, hops', hrel', hhop, hhops, rfl⟩
      cases hrel'
      exact bind_eq_ok.2 ⟨hop, hhop, bind_eq_ok.2 ⟨hops', hhops, rfl⟩⟩

/-- Behind its first hop, a walk goes on from the targets of that hop. -/
theorem walkFrom_first {current : List NodeType} {name : String} {rel : Relationship} {hop : Hop}
    (hrel : current.findSome? (·.relationship? name) = some rel)
    (hhop : Hop.ofRelationship r rel = .ok hop) {rest : List String} {hops : List Hop} :
    walkFrom r current (name :: rest) = .ok hops ↔
      ∃ hops', walkFrom r hop.targets rest = .ok hops' ∧ hops = hop :: hops' := by
  rw [walkFrom_cons]
  constructor
  · rintro ⟨rel', hop', hops', hrel', hhop', hwalk, rfl⟩
    cases hrel.symm.trans hrel'
    cases hhop.symm.trans hhop'
    exact ⟨hops', hwalk, rfl⟩
  · rintro ⟨hops', hwalk, rfl⟩
    exact ⟨rel, hop, hops', hrel, hhop, hwalk, rfl⟩

theorem length_of_walkFrom {current : List NodeType} {names : List String} {hops : List Hop}
    (h : walkFrom r current names = .ok hops) : hops.length = names.length := by
  induction names generalizing current hops with
  | nil =>
    cases h
    rfl
  | cons name rest ih =>
    obtain ⟨_, _, _, _, _, hrest, rfl⟩ := walkFrom_cons.1 h
    exact congrArg (· + 1) (ih hrest)

/-- Hops that can be walked can be walked part of the way. -/
theorem walkFrom_prefix {current : List NodeType} {names beginning : List String}
    {hops : List Hop} (h : walkFrom r current names = .ok hops) (hbegins : beginning <+: names) :
    ∃ walked, walkFrom r current beginning = .ok walked := by
  induction beginning generalizing current names hops with
  | nil => exact ⟨[], rfl⟩
  | cons name beginning ih =>
    obtain ⟨rest, rfl⟩ := hbegins
    obtain ⟨rel, hop, hops', hrel, hhop, hrest, rfl⟩ := walkFrom_cons.1 h
    obtain ⟨walked, hwalked⟩ := ih hrest (List.prefix_append beginning rest)
    exact ⟨hop :: walked, walkFrom_cons.2 ⟨rel, hop, walked, hrel, hhop, hwalked, rfl⟩⟩

/-- The hop that a walk ends with. -/
def LeadsTo (r : Registry) (root : NodeType) (names : List String) (hop : Hop) : Prop :=
  ∃ walked, walk r root names = .ok walked ∧ walked.getLast? = some hop

namespace LeadsTo

variable {names : List String} {hop : Hop}

theorem ne_nil (h : LeadsTo r root names hop) : names ≠ [] := by
  rintro rfl
  obtain ⟨walked, hwalk, hlast⟩ := h
  cases hwalk
  cases hlast

theorem of_prefix {walked : List Hop} {beginning : List String}
    (h : walk r root names = .ok walked) (hbegins : beginning <+: names) (hne : beginning ≠ []) :
    ∃ hop, LeadsTo r root beginning hop := by
  obtain ⟨walked', hwalk⟩ := walkFrom_prefix h hbegins
  have hwalked : walked' ≠ [] := by
    rintro rfl
    exact hne (List.length_eq_zero_iff.1 (length_of_walkFrom hwalk).symm)
  exact ⟨walked'.getLast hwalked, walked', hwalk, List.getLast?_eq_some_getLast hwalked⟩

end LeadsTo

/-! ## Steps -/

namespace PathSpec

variable {options : TraverseOptions} {mode : PathMode} {spec : PathSpec}

/-- The steps that are made of a walk are those of its beginnings. -/
theorem exists_mem_stepsOf {current : List NodeType} {done names : List String}
    {resolved : List Hop} (h : walkFrom r current names = .ok resolved) {hops : List String}
    {hop : Hop} :
    (∃ step ∈ stepsOf options mode done (names.zip resolved), step.hops = hops ∧ step.hop = hop) ↔
      ∃ beginning walked, beginning <+: names ∧ hops = done ++ beginning ∧
        walkFrom r current beginning = .ok walked ∧ walked.getLast? = some hop := by
  induction names generalizing current done resolved with
  | nil =>
    cases h
    constructor
    · rintro ⟨step, hstep, _⟩
      cases hstep
    · rintro ⟨beginning, walked, hbegins, _, hwalk, hlast⟩
      rw [List.prefix_nil.1 hbegins] at hwalk
      cases hwalk
      cases hlast
  | cons name rest ih =>
    obtain ⟨rel, first, resolved, hrel, hfirst, hrest, rfl⟩ := walkFrom_cons.1 h
    simp only [List.zip_cons_cons, stepsOf, List.mem_cons, exists_eq_or_imp]
    rw [ih hrest]
    constructor
    · rintro (⟨rfl, rfl⟩ | ⟨beginning, walked, hbegins, rfl, hwalk, hlast⟩)
      · exact ⟨[name], [first], (List.prefix_cons_inj name).2 List.nil_prefix, rfl,
          (walkFrom_first hrel hfirst).2 ⟨[], rfl, rfl⟩, rfl⟩
      · refine ⟨name :: beginning, first :: walked, (List.prefix_cons_inj name).2 hbegins, ?_,
          (walkFrom_first hrel hfirst).2 ⟨walked, hwalk, rfl⟩, ?_⟩
        · rw [List.append_assoc, List.singleton_append]
        · rw [List.getLast?_cons, hlast]
          rfl
    · rintro ⟨beginning, walked, hbegins, rfl, hwalk, hlast⟩
      cases beginning with
      | nil =>
        cases hwalk
        cases hlast
      | cons name' beginning =>
        obtain ⟨rfl, hbeginning⟩ := List.cons_prefix_cons.1 hbegins
        obtain ⟨walked, hwalked, rfl⟩ := (walkFrom_first hrel hfirst).1 hwalk
        cases walked with
        | nil =>
          obtain rfl := List.length_eq_zero_iff.1 (length_of_walkFrom hwalked).symm
          exact .inl ⟨rfl, Option.some.inj hlast⟩
        | cons second walked =>
          refine .inr ⟨beginning, second :: walked, hbeginning, ?_, hwalked, ?_⟩
          · rw [List.append_assoc, List.singleton_append]
          · rwa [List.getLast?_cons_cons] at hlast

/-- A path whose steps are those of the beginnings of some hops. -/
structure Follows (r : Registry) (root : NodeType) (names : List String) (p : PathSpec) : Prop where
  legible : Legible names
  steps : ∀ hops hop, (∃ step ∈ p.steps, step.hops = hops ∧ step.hop = hop) ↔
    hops <+: names ∧ LeadsTo r root hops hop
  walked : ∃ walked, walk r root names = .ok walked

theorem follows_of_resolve {expr : String} (h : resolve r root expr options mode = .ok spec) :
    ∃ names, parseHops expr.toList = .ok names ∧ spec.Follows r root names := by
  obtain ⟨names, resolved, _, hnames, hwalk, rfl⟩ := resolve_eq_ok h
  refine ⟨names, hnames, legible_of_parseHops hnames, fun hops hop => ?_, resolved, hwalk⟩
  rw [exists_mem_stepsOf hwalk]
  constructor
  · rintro ⟨beginning, walked, hbegins, rfl, hwalked, hlast⟩
    exact ⟨hbegins, walked, hwalked, hlast⟩
  · rintro ⟨hbegins, walked, hwalked, hlast⟩
    exact ⟨hops, walked, hbegins, rfl, hwalked, hlast⟩

/-- The hidden path of a filter follows the filter's hops. -/
theorem follows_of_forFilter {names : List String} (hlegible : Legible names)
    (h : forFilter r root names = .ok spec) : spec.Follows r root names := by
  obtain ⟨visible, hvisible, rfl⟩ := forFilter_eq_ok h
  obtain ⟨names', hnames', hfollows⟩ := follows_of_resolve hvisible
  have heq : names' = names := (parseHops_eq_ok hnames').symm.trans hlegible
  subst heq
  exact ⟨hfollows.legible, hfollows.steps, hfollows.walked⟩

/-- A filter's hops that were parsed and can be walked have a hidden path. -/
theorem exists_forFilter {text : List Char} {names : List String} {walked : List Hop}
    (hparsed : parseHops text = .ok names) (hwalk : walk r root names = .ok walked) :
    ∃ spec, forFilter r root names = .ok spec := by
  have hvisible : resolve r root (Text.joinDouble names) .default .filterOnly =
      .ok ⟨Text.joinDouble names, stepsOf .default .filterOnly [] (names.zip walked),
        .filterOnly, false⟩ :=
    bind_eq_ok.2 ⟨(), rfl, bind_eq_ok.2 ⟨names, parseHops_joinDouble hparsed,
      bind_eq_ok.2 ⟨walked, hwalk, rfl⟩⟩⟩
  exact ⟨_, bind_eq_ok.2 ⟨_, hvisible, rfl⟩⟩

namespace Follows

variable {names : List String} {p : PathSpec}

theorem leadsTo (h : p.Follows r root names) {step : PathStep} (hstep : step ∈ p.steps) :
    LeadsTo r root step.hops step.hop :=
  ((h.steps step.hops step.hop).1 ⟨step, hstep, rfl, rfl⟩).2

theorem legible_step (h : p.Follows r root names) {step : PathStep} (hstep : step ∈ p.steps) :
    Legible step.hops :=
  h.legible.of_prefix ((h.steps step.hops step.hop).1 ⟨step, hstep, rfl, rfl⟩).1
    (h.leadsTo hstep).ne_nil

/-- There is a step for every beginning. -/
theorem exists_step (h : p.Follows r root names) {hops : List String} :
    (∃ step ∈ p.steps, step.hops = hops) ↔ hops <+: names ∧ hops ≠ [] := by
  constructor
  · rintro ⟨step, hstep, rfl⟩
    exact ⟨((h.steps _ _).1 ⟨step, hstep, rfl, rfl⟩).1, (h.leadsTo hstep).ne_nil⟩
  · rintro ⟨hbegins, hne⟩
    obtain ⟨walked, hwalk⟩ := h.walked
    obtain ⟨hop, hleads⟩ := LeadsTo.of_prefix hwalk hbegins hne
    obtain ⟨step, hstep, hhops, _⟩ := (h.steps hops hop).2 ⟨hbegins, hleads⟩
    exact ⟨step, hstep, hhops⟩

end Follows

end PathSpec

end GraphMapper
