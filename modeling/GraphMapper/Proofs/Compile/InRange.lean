import GraphMapper.Proofs.Compile.Columns
import GraphMapper.Proofs.Compile.Failures
import GraphMapper.Proofs.Plan.Targets

/-!
# What compiling takes for granted

Compiling looks some things up without a check.  The binder goes to bindings by
their positions, a path has a last hop, and a step without an alias is named
after the first target of its hop.

The positions are those of bindings made before (`Scope.InRange`), wherever the
binder comes to, and no path is empty.  A first target is there for every step
but one: a traversal without an alias that is the single hop over a relationship
for which its root lacks targets.  Registration refuses such a root, and the
paths that filters hide never cross such a relationship, as it leads to no
property that a filter could name.
-/

namespace GraphMapper

/-! ## Positions of bindings -/

/-- Every binding that is looked up by its position is there: the one that the binder stands on, the
one that a step takes over, and the parent of a binding, which comes before it. -/
structure Scope.InRange (s : Scope) (p : Scope.Progress) : Prop where
  here : ∀ i, p.at? = some i → i < s.bindings.length
  reused : ∀ step hidden i, s.reusable? step hidden = some i → i < s.bindings.length
  parents : ∀ (i : Nat) b, s.bindings[i]? = some b → ∀ j, b.parent? = some j → j < i

/-- The binder comes to some place on its way through the paths of a selection. -/
inductive Selection.ComesTo (r : Registry) (selection : Selection) (imports : List String) :
    Scope → Scope.Progress → Prop
  | intro {hidden before after : List PathSpec} {path : PathSpec} {done rest : List PathStep}
    {start s s' : Scope} {p : Scope.Progress} (hhidden : selection.filterPaths r = .ok hidden)
    (hpaths : selection.paths ++ hidden = before ++ path :: after)
    (hsteps : path.steps = done ++ rest) (hstart : Scope.start selection imports = .ok start)
    (hbefore : before.foldlM Scope.bindPath start = .ok s)
    (hdone : done.foldlM (Scope.bindStep path.hidden) (s, ⟨none, none, false⟩) = .ok (s', p)) :
    ComesTo r selection imports s' p

namespace Scope

variable {s : Scope} {p : Progress}

theorem lt_of_reusable? {step : PathStep} {hidden : Bool} {i : Nat}
    (h : s.reusable? step hidden = some i) : i < s.bindings.length :=
  (List.findIdx?_eq_some_iff_getElem.1 h).1

theorem Places.inRange {placed : List Placed} (h : s.Places placed)
    (hhere : ∀ i, p.at? = some i → i < s.bindings.length) : s.InRange p :=
  ⟨hhere, fun _ _ _ => lt_of_reusable?, fun _ _ hb _ hj => h.chained.parent_lt hb hj⟩

theorem Reaches.inRange {w : Walk} (h : s.Reaches p w) : s.InRange p := by
  refine h.places.inRange fun i hi => ?_
  obtain ⟨hnone, _⟩ | ⟨j, b, hj, hb, _⟩ := h.here
  · rw [hnone] at hi
    cases hi
  · obtain rfl := Option.some.inj (hj.symm.trans hi)
    exact (List.getElem?_eq_some_iff.1 hb).1

end Scope

namespace Selection

variable {r : Registry} {s : Selection} {imports : List String} {scope : Scope}
  {p : Scope.Progress}

/-- Wherever the binder comes to, the positions that it goes by are in range. -/
theorem ComesTo.inRange (h : s.ComesTo r imports scope p) : scope.InRange p := by
  obtain ⟨_, _, _, hstart, hbefore, hdone⟩ := h
  obtain ⟨hplaces, _⟩ := (Scope.places_start hstart).1.bindPaths hbefore
  have hreaches : Scope.Reaches _ ⟨none, none, false⟩ ⟨_, _, false⟩ := ⟨hplaces, .inl ⟨rfl, rfl⟩⟩
  exact (hreaches.foldlM hdone).1.inRange

theorem inRange_scope (h : s.scope r imports = .ok scope) : scope.InRange ⟨none, none, false⟩ := by
  obtain ⟨_, _, _, hplaces⟩ := Scope.places_scope h
  exact hplaces.inRange nofun

end Selection

/-! ## Selections -/

namespace Selection

/-- What calls have checked of a selection, each against a registry that registrations make. -/
structure Accepted (s : Selection) : Prop where
  filters : ∀ c ∈ s.conditions, ∃ r, s.checkField r c.field = .ok ()
  paths : ∀ path ∈ s.paths, ∃ r : Registry, r.Reachable ∧ ∃ expr options mode,
    PathSpec.resolve r s.root expr options mode = .ok path

/-- A traversal without an alias is the single hop over a relationship for which the root lacks
targets. -/
def MissesTarget (s : Selection) (name : String) : Prop :=
  s.root.LacksTargets name ∧ ∃ path ∈ s.paths, ∃ step,
    path.steps = [step] ∧ step.name = name ∧ step.alias? = none

variable {r : Registry} {s : Selection}

theorem accepted_forType (root : NodeType) : (QueryPlan.forType root).selection.Accepted :=
  ⟨nofun, nofun⟩

theorem Accepted.filter {p : Predicate} (h : s.Accepted)
    (hfields : (p.conditions.forM fun c => s.checkField r c.field) = .ok ()) :
    Accepted { s with
      predicate? := some (match s.predicate? with
        | some q => Predicate.all [q, p]
        | none => p) } := by
  refine ⟨fun c hc => ?_, h.paths⟩
  have hmem : c ∈ s.conditions ++ p.conditions := by
    rw [← conditions_filter]
    exact hc
  rcases List.mem_append.1 hmem with hc | hc
  · exact h.filters c hc
  · exact ⟨r, forM_eq_ok hfields c hc⟩

theorem Accepted.call {p q : QueryPlan} {c : PlanCall} (hp : p.selection.Accepted)
    (hr : r.Reachable) (h : p.call r c = .ok q) : q.selection.Accepted := by
  cases QueryPlan.does_of_call h with
  | filter hfields => exact hp.filter hfields
  | exclude hfields => exact hp.filter hfields
  | traverse _ _ hspec =>
    refine ⟨hp.filters, fun path hpath => ?_⟩
    rcases List.mem_append.1 hpath with hpath | hpath
    · exact hp.paths path hpath
    · rw [List.mem_singleton.1 hpath]
      exact ⟨r, hr, _, _, _, hspec⟩
  | has | share | orderBy | skip | limit | annotate | transform | subquery =>
    exact ⟨hp.filters, hp.paths⟩

/-- The hidden paths of filters have steps, and all these have targets: what was compared is
declared on the last of them. -/
theorem Accepted.targets_filterPaths (h : s.Accepted) (hr : r.Reachable) {hidden : List PathSpec}
    (hhidden : s.filterPaths r = .ok hidden) :
    ∀ path ∈ hidden, path.steps ≠ [] ∧ ∀ step ∈ path.steps, step.hop.targets ≠ [] := by
  refine filterPaths_forall_of (fun c hc hne hnode path hpath => ?_) hhidden
  obtain ⟨visible, hvisible, rfl⟩ := PathSpec.forFilter_eq_ok hpath
  have hsteps : visible.steps ≠ [] := PathSpec.steps_ne_nil hvisible
  refine ⟨hsteps, ?_⟩
  rcases PathSpec.targets_of_resolve hr hvisible with htargets | ⟨name, hname, hroot, _⟩
  · exact htargets
  · -- The filter names a property behind a single hop, and there is no type to declare it.
    obtain ⟨r₁, hcheck⟩ := h.filters c hc
    have hhops := eq_singleton_of_parseHops hne hname
    obtain ⟨walked, hwalk⟩ := walk_of_checkField hcheck hne
    obtain ⟨_, hop, rfl, _, htargets⟩ := walk_of_lacksTargets hroot (hhops ▸ hwalk)
    have hleads : LeadsTo r₁ s.root c.field.hops hop := ⟨[hop], hwalk, rfl⟩
    have hdeclares := declares_of_checkField hcheck hleads
    rw [hnode, if_neg Bool.false_ne_true, htargets] at hdeclares
    obtain ⟨_, hproperty⟩ := hdeclares
    cases hproperty

end Selection

/-- What compiling may end with, a panic for want of a target only at some hops. -/
def Halt.MissesOnly (names : String → Prop) : Halt → Prop
  | .error _ => True
  | .panic (.firstTarget name) => names name

/-- Binding the paths of a selection misses a target only where one of its traversals does. -/
theorem Selection.Accepted.fails_scope {r : Registry} {s : Selection} {names : String → Prop}
    (h : s.Accepted) (hr : r.Reachable) (hnames : ∀ name, s.MissesTarget name → names name)
    (imports : List String) : Fails (Halt.MissesOnly names) (s.scope r imports) := by
  refine Selection.fails_scope (fun _ => trivial) (fun _ => trivial) (fun _ _ => trivial) ?_ imports
  intro hidden hhidden path hpath step hstep halias hnone
  rcases List.mem_append.1 hpath with hpath | hpath
  · obtain ⟨r₁, hr₁, expr, options, mode, hresolve⟩ := h.paths path hpath
    rcases PathSpec.targets_of_resolve hr₁ hresolve with htargets | ⟨_, _, hroot, _, hsteps, rfl⟩
    · exact absurd hnone (htargets step hstep)
    · rw [hsteps] at hstep
      obtain rfl := List.mem_singleton.1 hstep
      exact hnames _ ⟨hroot, path, hpath, step, hsteps, rfl, halias⟩
  · exact absurd hnone ((h.targets_filterPaths hr hhidden path hpath).2 step hstep)

/-! ## Plans -/

namespace QueryPlan

/-- A plan that accepted calls write at some type, registered or not, each against a registry that
registrations make; so are the plans spliced into it. -/
inductive Accepted : QueryPlan → Prop where
  | forType (root : NodeType) : Accepted (forType root)
  | call {r : Registry} {p q : QueryPlan} {c : PlanCall} (hr : r.Reachable) (hp : Accepted p)
    (hinner : ∀ inner returns imports, c = .subquery inner returns imports → Accepted inner)
    (h : p.call r c = .ok q) : Accepted q

variable {r : Registry} {p q : QueryPlan}

theorem Written.accepted (h : p.Written) : p.Accepted := by
  induction h with
  | new _ h =>
    obtain ⟨t, _, rfl⟩ := new_eq_ok h
    exact .forType t
  | call hr _ _ h ihp ihinner => exact .call hr ihp ihinner h

theorem Accepted.selection (h : p.Accepted) (hq : p.Contains q) : q.selection.Accepted := by
  induction h generalizing q with
  | forType root =>
    rw [contains_forType hq]
    exact Selection.accepted_forType root
  | @call r p p' c hr _ _ h ihp ihinner =>
    rcases contains_call h hq with rfl | hq | ⟨inner, returns, imports, rfl, hq⟩
    · exact (ihp (.self p)).call hr h
    · exact ihp hq
    · exact ihinner inner returns imports rfl hq

/-- Where a plan is written at registered types, these have targets. -/
theorem Written.hasTargets (h : p.Written) (hq : p.Contains q) : q.root.HasTargets := by
  induction h generalizing q with
  | new hr h =>
    obtain ⟨t, ht, rfl⟩ := new_eq_ok h
    rw [contains_forType hq]
    exact hr.hasTargets_of_nodeType ht
  | @call r p p' c _ _ _ h ihp ihinner =>
    rcases contains_call h hq with rfl | hq | ⟨inner, returns, imports, rfl, hq⟩
    · rw [root_call h]
      exact ihp (.self p)
    · exact ihp hq
    · exact ihinner inner returns imports rfl hq

/-- A plan misses a target only where one of the traversals does that it is made of. -/
theorem fails_compilePlan_missing {names : String → Prop} (hr : r.Reachable)
    (h : ∀ q, p.Contains q → q.selection.Accepted ∧
      ∀ name, q.selection.MissesTarget name → names name)
    (space : String) (imports : List String) (ending : Ending) :
    Compile.Fails (Halt.MissesOnly names) (compilePlan r space imports ending p) := by
  induction p using QueryPlan.induction generalizing space imports ending with
  | mk s qs ih =>
    obtain ⟨hs, hnames⟩ := h _ (.self _)
    exact fails_compilePlan_of (fun _ _ => trivial) (hs.fails_scope hr hnames imports)
      (fun q hq => ih q hq fun q' hq' => h q' (.inner hq hq')) space ending

theorem Accepted.missesTarget (h : p.Accepted) (hr : r.Reachable) {ending : Ending} {name : String}
    (hmissing : p.compileTo r ending = .error (.panic (.firstTarget name))) :
    ∃ q, p.Contains q ∧ q.selection.MissesTarget name := by
  have hfails : Fails (Halt.MissesOnly fun name => ∃ q, p.Contains q ∧
      q.selection.MissesTarget name) (p.compileTo r ending) :=
    .bind (fails_compilePlan_missing hr
      (fun q hq => ⟨h.selection hq, fun name hname => ⟨q, hq, hname⟩⟩) "" [] ending .empty)
      fun _ _ => .ok _
  exact hfails _ hmissing

/-- What compiling an accepted plan looks up without a check is there, but for one case.

* It panics only for the first target of a hop, and there only for a traversal without an alias that
  is the single hop over a relationship for which the root lacks targets.
* So compiling, to a query or to a count, ends with a statement or with an error wherever the roots
  have targets, as they have where they are registered.
* No path is empty, be it a traversal or hidden, and hidden paths have targets all the way.
* Wherever the binder comes to, the positions of bindings that it goes by are in range; and in the
  finished scope every parent comes before its child. -/
theorem compile_looks_up (hp : p.Accepted) (hr : r.Reachable) :
    (∀ ending name, p.compileTo r ending = .error (.panic (.firstTarget name)) →
      ∃ q, p.Contains q ∧ q.selection.MissesTarget name) ∧
    ((p.Written ∨ ∀ q, p.Contains q → q.root.HasTargets) → ∀ ending,
      (∃ c, p.compileTo r ending = .ok c) ∨ ∃ e, p.compileTo r ending = .error (.error e)) ∧
    (∀ q, p.Contains q →
      (∀ path ∈ q.selection.paths, path.steps ≠ []) ∧
      ∀ hidden, q.selection.filterPaths r = .ok hidden →
        ∀ path ∈ hidden, path.steps ≠ [] ∧ ∀ step ∈ path.steps, step.hop.targets ≠ []) ∧
    ∀ q, p.Contains q → ∀ imports scope,
      (∀ progress, q.selection.ComesTo r imports scope progress → scope.InRange progress) ∧
      (q.selection.scope r imports = .ok scope → scope.InRange ⟨none, none, false⟩) := by
  refine ⟨fun ending name => hp.missesTarget hr, fun hroots ending => ?_, fun q hq => ?_,
    fun q _ imports scope => ⟨fun _ => Selection.ComesTo.inRange, Selection.inRange_scope⟩⟩
  · cases hrun : p.compileTo r ending with
    | ok c => exact .inl ⟨c, rfl⟩
    | error halt =>
      cases halt with
      | error e => exact .inr ⟨e, rfl⟩
      | panic missed =>
        obtain ⟨name⟩ := missed
        obtain ⟨q, hq, hlacks, _⟩ := hp.missesTarget hr hrun
        have htargets : q.root.HasTargets := by
          rcases hroots with hwritten | hroots
          · exact hwritten.hasTargets hq
          · exact hroots q hq
        exact (htargets.not_lacksTargets name hlacks).elim
  · have haccepted := hp.selection hq
    refine ⟨fun path hpath => ?_, fun hidden hhidden => haccepted.targets_filterPaths hr hhidden⟩
    obtain ⟨_, _, _, _, _, hresolve⟩ := haccepted.paths path hpath
    exact PathSpec.steps_ne_nil hresolve

end QueryPlan

namespace Sample

/-- Coffees have suppliers, but there is no type of them. -/
def unsupplied : NodeType :=
  (NodeType.new "Coffee").withRelationship
    ⟨"suppliers", [], "SUPPLIED_BY", .outgoing, .zeroOrMore, .strict, none⟩

/-- What the query and the count of a traversal to suppliers panic for. -/
def missed : Except Error (Option (Panic × Panic)) := do
  let p ← (QueryPlan.forType unsupplied).call .empty (.traverse "suppliers" .default .fetch)
  match p.compile .empty, p.compileCount .empty with
  | .error (.panic query), .error (.panic count) => return some (query, count)
  | _, _ => return none

/-- A traversal to suppliers that are of no type. -/
theorem exists_unsupplied : ∃ p, (QueryPlan.forType unsupplied).call .empty
    (.traverse "suppliers" .default .fetch) = .ok p ∧ p.Accepted ∧
      p.compile .empty = .error (.panic (.firstTarget "suppliers")) ∧
      p.compileCount .empty = .error (.panic (.firstTarget "suppliers")) := by
  have hrun : missed.toOption =
      some (some (.firstTarget "suppliers", .firstTarget "suppliers")) := by
    decide +kernel
  obtain ⟨p, hcall, hrun⟩ := bind_eq_ok.1 (eq_ok_of_toOption hrun)
  have haccepted : p.Accepted :=
    .call .empty (.forType unsupplied) (c := .traverse ..) nofun hcall
  refine ⟨p, hcall, haccepted, ?_⟩
  split at hrun
  · next hcompile hcount =>
    obtain ⟨rfl, rfl⟩ := Prod.mk.inj (Option.some.inj (pure_eq_ok.1 hrun))
    exact ⟨hcompile, hcount⟩
  · cases pure_eq_ok.1 hrun

end Sample

namespace QueryPlan

theorem compile_looks_up_unsupplied :
    ∃ p : QueryPlan, p.Accepted ∧ Registry.Reachable .empty ∧
      p.compile .empty = .error (.panic (.firstTarget "suppliers")) ∧
      ∃ q, p.Contains q ∧ q.selection.MissesTarget "suppliers" := by
  obtain ⟨p, _, hp, hcompile, _⟩ := Sample.exists_unsupplied
  exact ⟨p, hp, .empty, hcompile, (compile_looks_up hp .empty).1 .result "suppliers" hcompile⟩

/-- Neither the query nor the count is compiled where a traversal misses a target. -/
theorem target_missed :
    ∃ p, (forType Sample.unsupplied).call .empty (.traverse "suppliers" .default .fetch) = .ok p ∧
      p.compile .empty = .error (.panic (.firstTarget "suppliers")) ∧
      p.compileCount .empty = .error (.panic (.firstTarget "suppliers")) := by
  obtain ⟨p, hcall, _, hcompile, hcount⟩ := Sample.exists_unsupplied
  exact ⟨p, hcall, hcompile, hcount⟩

end QueryPlan

end GraphMapper
