import GraphMapper.Proofs.Compile.Sharing

/-!
# What traversals ask for

A traversal may name its last node, it is matched mandatorily unless it is
optional, and it asks for nodes and relationships to be returned.  What a
traversal binds itself it binds as it asks (`QueryPlan.traversals_served`).

A step that is shared keeps what the traversal that has bound it asked for.  A
later one gets its nodes and relationships if that one asked for them too, and
is matched mandatorily if that one was; the name that it gives to a shared step
is lost (`QueryPlan.shared_step_asked_twice`).
-/

namespace GraphMapper

/-! ## Bindings of stops -/

/-- A binding with all that the step it is made of asks for. -/
structure Binding.Serves (b : Binding) (e : Placed) : Prop where
  hops : b.hops = e.step.hops
  alias? : b.alias? = e.step.alias?
  var : b.var = e.var
  edgeVar : b.edgeVar = e.edgeVar
  includeNode : b.includeNode = e.step.includeNode
  includeEdge : b.includeEdge = e.step.includeEdge

/-- A step that asks for nothing to be returned. -/
def PathStep.Silent (step : PathStep) : Prop :=
  step.includeNode = false ∧ step.includeEdge = false

theorem PathSpec.silent_stepsOf {options : TraverseOptions} {done : List String}
    {hops : List (String × Hop)} : ∀ step ∈ stepsOf options .filterOnly done hops, step.Silent := by
  induction hops generalizing done with
  | nil => exact fun step hstep => absurd hstep List.not_mem_nil
  | cons hop rest ih =>
    intro step hstep
    rcases List.mem_cons.1 hstep with rfl | hstep
    · exact ⟨rfl, rfl⟩
    · exact ih step hstep

/-- The hidden path of a filter asks for nothing to be returned. -/
theorem PathSpec.silent_forFilter {r : Registry} {root : NodeType} {hops : List String}
    {path : PathSpec} (h : forFilter r root hops = .ok path) :
    ∀ step ∈ path.steps, step.Silent := by
  obtain ⟨visible, hvisible, rfl⟩ := forFilter_eq_ok h
  obtain ⟨_, _, _, _, _, rfl⟩ := resolve_eq_ok hvisible
  exact silent_stepsOf

section

variable {rootVar : String} {shared : List String} {paths : List PathSpec}
  {tour : List (List Stop)} {first scope : Scope}

/-- There is a binding for every placed step. -/
theorem Toured.serving (h : Toured rootVar shared paths tour)
    (hsilent : ∀ path ∈ paths, path.hidden = true → ∀ step ∈ path.steps, step.Silent)
    (htours : first.Tours paths tour scope) {e : Placed}
    (he : e ∈ (freshStops tour.flatten).map Stop.bound) : ∃ b ∈ scope.bindings, b.Serves e := by
  obtain ⟨stop, hstop, rfl⟩ := List.mem_map.1 he
  obtain ⟨path, hpath, hstep, q, hbinding⟩ := htours.binding.2 stop hstop
  rw [← h.placed hstop] at hstep hbinding
  -- A hidden path returns nothing, but its steps do not ask for it either.
  have hreturned {asked : Bool} (hasked : path.hidden = true → asked = false) :
      (asked && !path.hidden) = asked := by
    cases hhidden : path.hidden with
    | false => exact Bool.and_true asked
    | true => rw [hasked hhidden, Bool.false_and]
  refine ⟨_, hbinding, rfl, rfl, rfl, rfl, ?_, ?_⟩
  · exact hreturned fun hhidden => (hsilent path hpath hhidden _ hstep).1
  · exact hreturned fun hhidden => (hsilent path hpath hhidden _ hstep).2

end

/-! ## Names -/

/-- The alias of a binding refers to that binding, so that no other one has it. -/
theorem Selection.bindingOfKey?_of_alias {r : Registry} {s : Selection} {imports : List String}
    {scope : Scope} (hscope : s.scope r imports = .ok scope) {b : Binding}
    (hb : b ∈ scope.bindings) {name : String} (hname : b.alias? = some name) :
    scope.bindingOfKey? name = some b := by
  obtain ⟨_, _, _, hplaces⟩ := Scope.places_scope hscope
  have hvar {b : Binding} (hb : b ∈ scope.bindings) (hname : b.alias? = some name) :
      b.var = name := by
    obtain ⟨e, he, hplaced⟩ := exists_of_mem_forall₂ hplaces.chained.forall₂.flip hb
    rw [hplaced.var]
    exact Placed.var_of_alias he (hplaced.alias?.symm.trans hname)
  have hsome : (scope.bindings.find? fun b => b.alias? == some name).isSome = true :=
    List.find?_isSome.2 ⟨b, hb, beq_iff_eq.2 hname⟩
  obtain ⟨b', hfound⟩ := Option.isSome_iff_exists.1 hsome
  have hb' := List.mem_of_find?_eq_some hfound
  have hname' : b'.alias? = some name := by
    have htest := List.find?_some hfound
    exact beq_iff_eq.1 htest
  -- Both have the alias for their variable, and no variable is bound twice.
  obtain rfl := List.inj_on_of_nodup_map (List.nodup_cons.1 hplaces.distinct).2 hb' hb
    ((hvar hb' hname').trans (hvar hb hname).symm)
  unfold Scope.bindingOfKey?
  rw [hfound]
  rfl

/-! ## Columns -/

/-- What a binding returns are columns of a plan without transforms. -/
theorem QueryPlan.column_of_binding {r : Registry} {p : QueryPlan} {c : CompiledQuery}
    {scope : Scope} (h : p.compile r = .ok c) (hscope : p.selection.scope r [] = .ok scope)
    (hplain : p.selection.transforms = []) {b : Binding} (hb : b ∈ scope.bindings) :
    (b.includeNode = true → ∃ n : NodeColumn, n.key = b.key ∧ ⟨b.var, .node n⟩ ∈ c.shape.columns) ∧
      (b.includeEdge = true → ⟨b.edgeVar, .edge b.key⟩ ∈ c.shape.columns) := by
  obtain ⟨last, outputs, hbindings, htransformed, houtputs, _, hshape⟩ := outputs_compile h hscope
  obtain ⟨projections, _, rfl⟩ := Selection.planOutputs_eq_ok houtputs
  have hnone : last.transformed?.isSome = false := by
    rw [htransformed, hplain]
    rfl
  rw [hnone, if_neg Bool.false_ne_true] at hshape
  rw [← hbindings] at hb
  rw [hshape]
  refine ⟨fun hnode => ?_, fun hedge => ?_⟩
  · have hcolumn : Selection.columnOf (Selection.nodeOutput last b) ∈
        (Selection.plainOutputs last projections).map Selection.columnOf :=
      Selection.mem_columns_of_binding hb (Selection.nodeOutput_mem last hnode)
    refine ⟨_, ?_, hcolumn⟩
    rfl
  · exact Selection.mem_columns_of_binding hb (Selection.mem_bindingOutputs.2 (.inr ⟨hedge, rfl⟩))

/-! ## Plans -/

/-- What a path of a compiled plan asks for, and what it gets.

* There is a binding for every stop, with what the step asks for that was placed there.
* The alias of a step that the path has placed refers to its binding.
* If the path is not optional, and nothing is that it shares, its steps are matched mandatorily.
* The nodes and edges that it asks for are columns of a plan without transforms, if those that it
shares were asked for where they were placed. -/
structure Served (p : QueryPlan) (c : CompiledQuery) (scope : Scope)
    (fragments : List (Cypher.Pattern × Bool)) (path : PathSpec) (stops : List Stop) : Prop where
  steps : stops.map Stop.step = path.steps
  bound : ∀ stop ∈ stops, ∃ b ∈ scope.bindings, b.Serves stop.bound
  named : ∀ stop ∈ stops, stop.fresh = true → ∀ name, stop.step.alias? = some name →
    (∃ b, scope.bindingOfKey? name = some b ∧ b.alias? = some name ∧ b.hops = stop.step.hops) ∧
      scope.reference .projections (.node name) = .ok ⟨stop.bound.var, []⟩ ∧
      scope.reference .projections (.edge name) = .ok ⟨stop.bound.edgeVar, []⟩
  matched : (∀ step ∈ path.steps, step.optional = false) →
    (∀ stop ∈ stops, stop.fresh = false → stop.bound.optional = false) →
    ∀ stop ∈ stops, ∃ f ∈ fragments, f.2 = false ∧ stop.bound.link ∈ f.1.links
  nodes : p.selection.transforms = [] → ∀ stop ∈ stops, stop.step.includeNode = true →
    (stop.fresh = false → stop.bound.step.includeNode = true) →
    ∃ n : NodeColumn, n.key = stop.bound.step.alias?.getD stop.step.chain ∧
      ⟨stop.bound.var, .node n⟩ ∈ c.shape.columns
  edges : p.selection.transforms = [] → ∀ stop ∈ stops, stop.step.includeEdge = true →
    (stop.fresh = false → stop.bound.step.includeEdge = true) →
    ⟨stop.bound.edgeVar, .edge (stop.bound.step.alias?.getD stop.step.chain)⟩ ∈ c.shape.columns

namespace Stop.Stands

variable {rootVar : String} {shared : List String} {hidden : Bool} {placed : List Placed}
  {stop : Stop} {scope : Scope} {b : Binding}

/-- What a step asks for was asked for where it stands, if it was asked for by the path that has
placed it. -/
theorem asked (h : stop.Stands rootVar shared hidden placed) {asks : PathStep → Bool}
    (hasks : asks stop.step = true)
    (hgiven : stop.fresh = false → asks stop.bound.step = true) :
    asks stop.bound.step = true := by
  cases hfresh : stop.fresh with
  | false => exact hgiven hfresh
  | true =>
    rw [(h.fresh hfresh).1]
    exact hasks

/-- The alias of a step that its path has placed refers to what it is bound to. -/
theorem named (h : stop.Stands rootVar shared hidden placed) {r : Registry} {s : Selection}
    {imports : List String} (hscope : s.scope r imports = .ok scope) (hb : b ∈ scope.bindings)
    (hserves : b.Serves stop.bound) (hfresh : stop.fresh = true) {name : String}
    (hname : stop.step.alias? = some name) :
    (∃ b, scope.bindingOfKey? name = some b ∧ b.alias? = some name ∧ b.hops = stop.step.hops) ∧
      scope.reference .projections (.node name) = .ok ⟨stop.bound.var, []⟩ ∧
      scope.reference .projections (.edge name) = .ok ⟨stop.bound.edgeVar, []⟩ := by
  have hstep := (h.fresh hfresh).1
  have hbinding : b.alias? = some name := by rw [hserves.alias?, hstep, hname]
  have hfound := Selection.bindingOfKey?_of_alias hscope hb hbinding
  have hplain := (Scope.Introduces.of_scope hscope).plain.1
  refine ⟨⟨b, hfound, hbinding, ?_⟩, ?_, ?_⟩
  · rw [hserves.hops, hstep]
  · simp only [Scope.reference, hfound, hplain, hserves.var]
  · simp only [Scope.reference, hfound, hplain, hserves.edgeVar]

/-- The columns of what a stop stands on. -/
theorem columns (h : stop.Stands rootVar shared hidden placed) {r : Registry} {p : QueryPlan}
    {c : CompiledQuery} (hcompile : p.compile r = .ok c)
    (hscope : p.selection.scope r [] = .ok scope) (hb : b ∈ scope.bindings)
    (hserves : b.Serves stop.bound) (hplain : p.selection.transforms = []) :
    (stop.bound.step.includeNode = true →
        ∃ n : NodeColumn, n.key = stop.bound.step.alias?.getD stop.step.chain ∧
          ⟨stop.bound.var, .node n⟩ ∈ c.shape.columns) ∧
      (stop.bound.step.includeEdge = true →
        ⟨stop.bound.edgeVar, .edge (stop.bound.step.alias?.getD stop.step.chain)⟩ ∈
          c.shape.columns) := by
  have hkey : b.key = stop.bound.step.alias?.getD stop.step.chain := by
    rw [Binding.key, Binding.chain, hserves.alias?, hserves.hops, h.hops, PathStep.chain]
  have hcolumns := QueryPlan.column_of_binding hcompile hscope hplain hb
  rwa [hserves.includeNode, hserves.includeEdge, hserves.var, hserves.edgeVar, hkey] at hcolumns

end Stop.Stands

/-- Every traversal of a plan is bound, matched and returned as it asks, as far as it shares nothing
that was asked for less. -/
theorem QueryPlan.traversals_served {r₀ r : Registry} {root : String} {p₀ p : QueryPlan}
    {history : List (Registry × PlanCall)} {c : CompiledQuery} (hr₀ : r₀.Reachable)
    (hr : r.Reachable) (hhistory : ∀ c ∈ history, c.1.Reachable)
    (hnew : QueryPlan.new r₀ root = .ok p₀) (hcalls : p₀.calls history = .ok p)
    (hcompile : p.compile r = .ok c) :
    ∃ first scope hidden fragments tour, Scope.start p.selection [] = .ok first ∧
      p.selection.scope r [] = .ok scope ∧ p.selection.filterPaths r = .ok hidden ∧
      first.Tours (p.selection.paths ++ hidden) tour scope ∧
      Cypher.readMatches c.query = some fragments ∧
      c.shape.columns.map Column.name = Cypher.returnedBy c.query ∧
      List.Forall₂ (Served p c scope fragments) (p.selection.paths ++ hidden) tour := by
  obtain ⟨binder, hrun, _⟩ := compileTo_eq_ok hcompile
  obtain ⟨first, scope, hidden, tour, hstart, hscope, hhidden, htour, htours, hread, _⟩ :=
    tour_compilePlan hr₀ hr hhistory hnew hcalls hrun
  obtain ⟨_, _, _, _, _, hdescribes⟩ := describes_compile hcompile
  have htoured : Toured p.root.variableName p.selection.shared (p.selection.paths ++ hidden) tour :=
    htour ▸ .of_steady (steady_paths hnew hcalls hhidden)
  have hplaced : place p.root.variableName p.selection.shared (p.selection.paths ++ hidden) =
      (freshStops tour.flatten).map Stop.bound := htour ▸ place_eq
  have hsilent : ∀ path ∈ p.selection.paths ++ hidden, path.hidden = true →
      ∀ step ∈ path.steps, step.Silent := by
    intro path hpath hhides
    rcases List.mem_append.1 hpath with hpath | hpath
    · rw [visible_paths hnew hcalls path hpath] at hhides
      cases hhides
    · exact Selection.filterPaths_forall (fun _ _ => PathSpec.silent_forFilter) hhidden path hpath
  refine ⟨first, scope, hidden, _, tour, hstart, hscope, hhidden, htours, hread, hdescribes.names,
    htoured.stops.imp ?_⟩
  rintro path stops ⟨⟨before, hstops⟩, hstands⟩
  rw [← hplaced] at hstands
  have hserving : ∀ stop ∈ stops, ∃ b ∈ scope.bindings, b.Serves stop.bound := fun stop hstop =>
    htoured.serving hsilent htours (hplaced ▸ (hstands stop hstop).bound)
  refine ⟨?_, hserving, fun stop hstop hfresh name hname => ?_,
    fun hmandatory hshared stop hstop => ?_, fun hplain stop hstop hasks hgiven => ?_,
    fun hplain stop hstop hasks hgiven => ?_⟩
  · rw [hstops, Walk.map_step_stops]
  · obtain ⟨b, hb, hserves⟩ := hserving stop hstop
    exact (hstands stop hstop).named hscope hb hserves hfresh hname
  · have hnone : stop.bound.optional = false := by
      subst hstops
      exact Walk.optional_stops rfl hmandatory hshared stop hstop
    exact mandatory_compilePlan (uniform_calls hnew hcalls) hrun hhidden (hstands stop hstop).bound
      hnone
  · obtain ⟨b, hb, hserves⟩ := hserving stop hstop
    have hcolumns := (hstands stop hstop).columns hcompile hscope hb hserves hplain
    exact hcolumns.1 ((hstands stop hstop).asked hasks hgiven)
  · obtain ⟨b, hb, hserves⟩ := hserving stop hstop
    have hcolumns := (hstands stop hstop).columns hcompile hscope hb hserves hplain
    exact hcolumns.2 ((hstands stop hstop).asked hasks hgiven)

theorem QueryPlan.traversals_served_traversed :
    ∃ r p₀ p c first scope hidden fragments tour, Registry.Reachable r ∧
      QueryPlan.new r "Coffee" = .ok p₀ ∧ p₀.calls (Sample.traversed r) = .ok p ∧
      p.compile r = .ok c ∧ Scope.start p.selection [] = .ok first ∧
      p.selection.scope r [] = .ok scope ∧ p.selection.filterPaths r = .ok hidden ∧
      first.Tours (p.selection.paths ++ hidden) tour scope ∧
      Cypher.readMatches c.query = some fragments ∧
      c.shape.columns.map Column.name = Cypher.returnedBy c.query ∧
      List.Forall₂ (Served p c scope fragments) (p.selection.paths ++ hidden) tour := by
  obtain ⟨r, p₀, p, c, hreachable, hhistory, hnew, hcalls, hcompile⟩ := Sample.compiles_traversed
  obtain ⟨first, scope, hidden, fragments, tour, hserved⟩ :=
    QueryPlan.traversals_served hreachable hreachable hhistory hnew hcalls hcompile
  exact ⟨r, p₀, p, c, first, scope, hidden, fragments, tour, hreachable, hnew, hcalls, hcompile,
    hserved⟩

/-- Two traversals of one shared chain: the first is optional and returns nothing, the second is
mandatory, names what it reaches and returns it. -/
def Sample.askedTwice (r : Registry) : List (Registry × PlanCall) :=
  [(r, .traverse "suppliers" ⟨none, true, false, false⟩ .fetch),
    (r, .traverse "suppliers" ⟨some "s", false, true, true⟩ .fetch), (r, .share ["suppliers"])]

/-- The statement and the columns of the two traversals, and whether an annotation is refused that
refers to the second one by its alias. -/
def Sample.askedTwiceAnswers : Except Halt (String × List Column × Bool) := do
  let r ← registered
  let p₀ ← QueryPlan.new r "Coffee"
  let p ← p₀.calls (askedTwice r)
  let c ← p.compile r
  let q ← p.call r (.annotate "supplier" (.ref (.node "s")))
  return (c.text, c.shape.columns, match q.compile r with
    | .error (.error (.unboundFieldPath name .projections)) => name == "s"
    | _ => false)

/-- All that the second traversal asks for is lost: its supplier is matched optionally and not
returned, and there is nothing that its name refers to. -/
theorem QueryPlan.shared_step_asked_twice :
    ∃ r p₀ p c q, Registry.Reachable r ∧ QueryPlan.new r "Coffee" = .ok p₀ ∧
      p₀.calls (Sample.askedTwice r) = .ok p ∧ p.compile r = .ok c ∧
      c.text = "MATCH (coffee:Coffee) OPTIONAL MATCH " ++
        "(coffee)-[r1:SUPPLIED_BY]->(supplier_suppliers_1:Supplier) RETURN coffee" ∧
      c.shape.columns = [⟨"coffee", .root⟩] ∧
      p.call r (.annotate "supplier" (.ref (.node "s"))) = .ok q ∧
      q.compile r = .error (.error (.unboundFieldPath "s" .projections)) := by
  have hrun : Sample.askedTwiceAnswers.toOption =
      some ("MATCH (coffee:Coffee) OPTIONAL MATCH " ++
        "(coffee)-[r1:SUPPLIED_BY]->(supplier_suppliers_1:Supplier) RETURN coffee",
        [⟨"coffee", .root⟩], true) := by
    decide +kernel
  obtain ⟨r, hr, hrun⟩ := lift_bind_eq_ok.1 (eq_ok_of_toOption hrun)
  obtain ⟨p₀, hnew, hrun⟩ := lift_bind_eq_ok.1 hrun
  obtain ⟨p, hcalls, hrun⟩ := lift_bind_eq_ok.1 hrun
  obtain ⟨c, hcompile, hrun⟩ := bind_eq_ok.1 hrun
  obtain ⟨q, hannotate, hrun⟩ := lift_bind_eq_ok.1 hrun
  obtain ⟨htext, hrun⟩ := Prod.mk.inj (pure_eq_ok.1 hrun)
  obtain ⟨hcolumns, hunbound⟩ := Prod.mk.inj hrun
  refine ⟨r, p₀, p, c, q, Sample.reachable_registered hr, hnew, hcalls, hcompile, htext, hcolumns,
    hannotate, ?_⟩
  split at hunbound
  · next name hfails => rw [hfails, beq_iff_eq.1 hunbound]
  · cases hunbound

end GraphMapper
