import Mathlib.Data.List.Find
import GraphMapper.Proofs.Compile.Tours
import GraphMapper.Proofs.Plan.Checked
import GraphMapper.Proofs.Text.Fields

/-!
# Chains stand for hops

The compiler knows hops by their chain, the text that has double underscores
between them.  It compares chains where a step may share the variables of an
earlier one, where a filter may need a hidden path, and where a field or a
reference needs a binding.

Names may begin and end in underscores, so that several lists of names may have
one chain, as `made_`, `by` and `made`, `_by` have.  Of the lists that texts are
accepted for, and of what these begin with, no two have
(`Reparsed.joinDouble_inj`), and a name is the chain of the hops that it is
parsed as (`Reparsed.joinDouble_eq_iff`).

So a compiler that goes by the hops themselves, and never writes them down to
find something, does the same.  `Scope.bindPathByHops`,
`Selection.filterPathsByHops` and `Selection.scopeByHops` are its parts, and
`QueryPlan.chains_identify_hops` is the main statement.
-/

namespace GraphMapper

/-! ## Searches -/

/-- Properties that are the same on a list hold of some item alike. -/
theorem any_congr {α : Type} {p q : α → Bool} {as : List α} (h : ∀ a ∈ as, p a = q a) :
    as.any p = as.any q := by
  have hmap (p : α → Bool) : as.any p = (as.map p).any id := (List.any_map (p := id)).symm
  rw [hmap, hmap, List.map_congr_left h]

theorem findIdx?_congr {α : Type} {p q : α → Bool} {as : List α} (h : ∀ a ∈ as, p a = q a) :
    as.findIdx? p = as.findIdx? q := by
  have hmap (p : α → Bool) : as.findIdx? p = (as.map p).findIdx? id :=
    (List.findIdx?_map (p := id)).symm
  rw [hmap, hmap, List.map_congr_left h]

/-! ## Accepted hops -/

/-- Hops that some text is accepted for, be it as hops or as a field. -/
inductive AcceptedHops : List String → Prop where
  | hops {text : List Char} {hops : List String} (h : parseHops text = .ok hops) : AcceptedHops hops
  | field {text : List Char} {f : FieldPath} (h : FieldPath.parse text = .ok f) :
    AcceptedHops f.hops

/-- Hops that are parsed from their chain. -/
def Reparsed (hops : List String) : Prop := parseHops (Text.joinDouble hops).toList = .ok hops

/-- Whether a name is parsed as some hops. -/
def spells (name : String) (hops : List String) : Bool :=
  (parseHops name.toList).toOption == some hops

theorem spells_iff {name : String} {hops : List String} :
    spells name hops = true ↔ parseHops name.toList = .ok hops := by
  constructor
  · intro h
    exact eq_ok_of_toOption (beq_iff_eq.1 h)
  · intro h
    rw [spells, h]
    exact beq_self_eq_true _

namespace Reparsed

variable {hops hops' : List String} {name : String}

/-- What parsed hops begin with is parsed from its chain. -/
theorem of_parseHops {text : List Char} (h : parseHops text = .ok hops) (hbegins : hops' <+: hops)
    (hne : hops' ≠ []) : Reparsed hops' := by
  obtain ⟨-, hlegible, hfew, hnames⟩ := parseHops_eq_ok_iff.1 h
  exact parseHops_eq_ok_iff.2 ⟨rfl, hlegible.of_prefix hbegins hne, hbegins.length_le.trans hfew,
    fun hop hmem => hnames hop (hbegins.subset hmem)⟩

theorem of_accepted (h : AcceptedHops hops) (hbegins : hops' <+: hops) (hne : hops' ≠ []) :
    Reparsed hops' := by
  cases h with
  | hops h => exact of_parseHops h hbegins hne
  | field h => exact of_parseHops (FieldPath.parseHops_of_parse h (hbegins.ne_nil hne)) hbegins hne

/-- A name is the chain of the hops that it is parsed as. -/
theorem joinDouble_eq_iff (h : Reparsed hops) :
    Text.joinDouble hops = name ↔ parseHops name.toList = .ok hops := by
  constructor
  · rintro rfl
    exact h
  · intro hname
    exact String.toList_inj.1 (parseHops_eq_ok_iff.1 hname).1

theorem joinDouble_inj (h : Reparsed hops) (h' : Reparsed hops') :
    Text.joinDouble hops = Text.joinDouble hops' ↔ hops = hops' := by
  rw [h.joinDouble_eq_iff, h', Except.ok.injEq, eq_comm]

theorem joinDouble_beq (h : Reparsed hops) (name : String) :
    (Text.joinDouble hops == name) = spells name hops := by
  rw [Bool.eq_iff_iff, beq_iff_eq, spells_iff, h.joinDouble_eq_iff]

theorem joinDouble_beq_joinDouble (h : Reparsed hops) (h' : Reparsed hops') :
    (Text.joinDouble hops == Text.joinDouble hops') = (hops == hops') := by
  rw [Bool.eq_iff_iff, beq_iff_eq, beq_iff_eq, h.joinDouble_inj h']

end Reparsed

/-! ## Binding by hops -/

namespace Scope

/-- The first binding along some hops. -/
def bindingOfHops? (s : Scope) (hops : List String) : Option Binding :=
  s.bindings.find? fun b => b.hops == hops

/-- Whether a binding is shared by name: by a name that is parsed as its hops, or by its alias. -/
def isSharedByHops (s : Scope) (b : Binding) : Bool :=
  s.selection.shared.any (spells · b.hops) ||
    (match b.alias? with
      | some name => s.selection.shared.contains name
      | none => false)

/-- The position of an earlier binding along the hops of a step, whose variables the step takes
over. -/
def reusableByHops? (s : Scope) (step : PathStep) (hidden : Bool) : Option Nat :=
  s.bindings.findIdx? fun b => b.hops == step.hops && (hidden || s.isSharedByHops b)

/-- Binds a step, to the variables of an earlier one along its hops where they are shared. -/
def bindStepByHops (hidden : Bool) (state : Scope × Progress) (step : PathStep) :
    Except Halt (Scope × Progress) :=
  let (s, p) := state
  match s.reusableByHops? step hidden with
  | some i =>
    let optional := (s.bindings[i]?.map Binding.optional).getD false
    .ok (s.flush p.pattern?, ⟨some i, none, p.afterOptional || optional⟩)
  | none => s.bindNew p step hidden

/-- Binds every step of a path, going by hops. -/
def bindPathByHops (s : Scope) (path : PathSpec) : Except Halt Scope := do
  let (s, p) ← path.steps.foldlM (bindStepByHops path.hidden) (s, ⟨none, none, false⟩)
  return s.flush p.pattern?

end Scope

/-- The path that only binds the hops of a filter, which are not parsed for it. -/
def PathSpec.forFilterByHops (r : Registry) (root : NodeType) (hops : List String) :
    Except Error PathSpec := do
  let spec ← ofHops r root (Text.joinDouble hops) hops TraverseOptions.default .filterOnly
  return { spec with hidden := true }

namespace Selection

/-- The first shared name that is neither parsed as the hops of a step nor its alias. -/
def unknownSharedByHops? (s : Selection) : Option String :=
  s.shared.find? fun name =>
    !s.paths.any fun p => p.steps.any fun step => spells name step.hops || step.alias? == some name

/-- The paths that bind the hops of filters which no path goes along yet. -/
def filterPathsByHops (r : Registry) (s : Selection) : Except Error (List PathSpec) :=
  s.conditions.foldlM (fun hidden c =>
    let f := c.field
    if f.hops = [] ∨ f.onRelationship = true ∨
        (s.paths ++ hidden).any fun p => p.steps.any fun step => step.hops == f.hops then
      .ok hidden
    else do
      return hidden ++ [← PathSpec.forFilterByHops r s.root f.hops]) []

/-- The scope of a selection with all its paths bound, going by hops. -/
def scopeByHops (r : Registry) (s : Selection) (imports : List String) : Except Halt Scope := do
  let scope ← Scope.start s imports
  match s.unknownSharedByHops? with
  | some name => throw (.error (.compile (.unknownShared name)))
  | none => pure ()
  (s.paths ++ (← s.filterPathsByHops r)).foldlM Scope.bindPathByHops scope

end Selection

/-! ## Chains and hops lead to the same -/

/-- A path whose steps go along hops that are parsed from their chains. -/
def PathSpec.Spelled (p : PathSpec) : Prop := ∀ step ∈ p.steps, Reparsed step.hops

/-- A scope whose bindings lie along hops that are parsed from their chains. -/
def Scope.Spelled (s : Scope) : Prop := ∀ b ∈ s.bindings, Reparsed b.hops

namespace PathSpec

variable {r : Registry} {root : NodeType} {spec : PathSpec}

theorem spelled_of_resolve {expr : String} {options : TraverseOptions} {mode : PathMode}
    (h : resolve r root expr options mode = .ok spec) : spec.Spelled := by
  obtain ⟨names, hnames, hfollows⟩ := follows_of_resolve h
  intro step hstep
  obtain ⟨hbegins, hne⟩ := hfollows.exists_step.1 ⟨step, hstep, rfl⟩
  exact .of_parseHops hnames hbegins hne

theorem spelled_of_forFilter {hops : List String} (h : forFilter r root hops = .ok spec) :
    spec.Spelled := by
  obtain ⟨visible, hvisible, rfl⟩ := forFilter_eq_ok h
  have hspelled : visible.Spelled := spelled_of_resolve hvisible
  exact hspelled

/-- The hidden path that is parsed from a chain is that of the hops. -/
theorem forFilter_eq {hops : List String} (h : Reparsed hops) :
    forFilter r root hops = forFilterByHops r root hops := by
  have hresolve : resolve r root (Text.joinDouble hops) TraverseOptions.default .filterOnly =
      ofHops r root (Text.joinDouble hops) hops TraverseOptions.default .filterOnly := by
    unfold resolve
    rw [h]
    rfl
  rw [forFilter, hresolve, forFilterByHops]

theorem any_chain_eq {paths : List PathSpec} (hpaths : ∀ p ∈ paths, p.Spelled)
    {hops : List String} (h : Reparsed hops) :
    (paths.any fun p => p.steps.any fun step => step.chain == Text.joinDouble hops) =
      paths.any fun p => p.steps.any fun step => step.hops == hops :=
  any_congr fun p hp => any_congr fun step hstep =>
    (hpaths p hp step hstep).joinDouble_beq_joinDouble h

end PathSpec

namespace Scope

variable {s s' : Scope} {p p' : Progress}

/-- The binding of a chain is that of the hops that the chain is parsed as. -/
theorem Spelled.bindingOfChain?_eq (h : s.Spelled) (name : String) :
    s.bindingOfChain? name = (parseHops name.toList).toOption.bind s.bindingOfHops? := by
  have hchain : ∀ b ∈ s.bindings, (b.chain == name) = spells name b.hops := fun b hb =>
    (h b hb).joinDouble_beq name
  rw [bindingOfChain?, List.find?_congr hchain]
  cases hname : parseHops name.toList with
  | error e => simp [spells, hname, Except.toOption]
  | ok hops =>
    refine List.find?_congr fun b _ => ?_
    rw [Bool.eq_iff_iff, spells_iff, hname, Except.ok.injEq, beq_iff_eq, eq_comm]

theorem Spelled.isShared_eq (h : s.Spelled) {b : Binding} (hb : b ∈ s.bindings) :
    s.isShared b = s.isSharedByHops b := by
  have hlisted : s.selection.shared.contains b.chain = s.selection.shared.any (spells · b.hops) := by
    rw [List.contains_eq_any_beq]
    exact any_congr fun name _ => (h b hb).joinDouble_beq name
  exact congrArg (· || _) hlisted

theorem Spelled.reusable?_eq (h : s.Spelled) {step : PathStep} (hstep : Reparsed step.hops)
    (hidden : Bool) : s.reusable? step hidden = s.reusableByHops? step hidden := by
  refine findIdx?_congr fun b hb => ?_
  rw [h.isShared_eq hb]
  exact congrArg (· && _) ((h b hb).joinDouble_beq_joinDouble hstep)

theorem Spelled.bindStep_eq (h : s.Spelled) {step : PathStep} (hstep : Reparsed step.hops)
    (hidden : Bool) : bindStep hidden (s, p) step = bindStepByHops hidden (s, p) step := by
  have hsame : s.reusable? step hidden = s.reusableByHops? step hidden := h.reusable?_eq hstep hidden
  unfold bindStep bindStepByHops
  dsimp only
  exact hsame ▸ rfl

theorem Spelled.of_bindStep (h : s.Spelled) {step : PathStep} (hstep : Reparsed step.hops)
    {hidden : Bool} (hrun : bindStep hidden (s, p) step = .ok (s', p')) : s'.Spelled := by
  obtain ⟨hbindings, _⟩ | ⟨var, edgeVar, _, _, hbindings, _⟩ := declared_bindStep hrun
  · rw [Scope.Spelled, hbindings]
    exact h
  · rw [Scope.Spelled, hbindings]
    exact List.forall_mem_append.2 ⟨h, List.forall_mem_singleton.2 hstep⟩

theorem Spelled.bindPath_eq (h : s.Spelled) {path : PathSpec} (hpath : path.Spelled) :
    s.bindPath path = s.bindPathByHops path := by
  have hsteps : path.steps.foldlM (bindStep path.hidden) (s, ⟨none, none, false⟩) =
      path.steps.foldlM (bindStepByHops path.hidden) (s, ⟨none, none, false⟩) :=
    foldlM_congr (P := fun state : Scope × Progress => state.1.Spelled) h
      (fun step hstep _ _ hs hrun => hs.of_bindStep (hpath step hstep) hrun)
      fun step hstep _ hs => hs.bindStep_eq (hpath step hstep) path.hidden
  rw [bindPath, hsteps, bindPathByHops]

theorem Spelled.of_bindPath (h : s.Spelled) {path : PathSpec} (hpath : path.Spelled)
    (hrun : s.bindPath path = .ok s') : s'.Spelled := by
  obtain ⟨s₁, q, hsteps, rfl⟩ := bindPath_eq_ok hrun
  have hbound : s₁.Spelled :=
    foldlM_invariant (P := fun state : Scope × Progress => state.1.Spelled) h
      (fun step hstep _ _ hs hrun => hs.of_bindStep (hpath step hstep) hrun) hsteps
  rw [Scope.Spelled, flush_bindings]
  exact hbound

theorem spelled_of_start {selection : Selection} {imports : List String}
    (h : start selection imports = .ok s) : s.Spelled := by
  obtain ⟨declared, rfl, _⟩ := start_eq_ok h
  exact fun b hb => absurd hb List.not_mem_nil

end Scope

namespace Selection

variable {r : Registry} {s : Selection}

/-- A selection whose paths and filters go along hops that are parsed from their chains. -/
structure Spelled (s : Selection) : Prop where
  paths : ∀ path ∈ s.paths, path.Spelled
  fields : ∀ c ∈ s.conditions, c.field.hops ≠ [] → Reparsed c.field.hops

namespace Spelled

/-- Another filter adds hops that are parsed from their chains, if it was parsed. -/
theorem fields_append (h : s.Spelled) {s' : Selection} {p : Predicate} (hparsed : p.Parsed)
    (hs' : s'.conditions = s.conditions ++ p.conditions) :
    ∀ c ∈ s'.conditions, c.field.hops ≠ [] → Reparsed c.field.hops := by
  intro c hc hne
  rw [hs'] at hc
  rcases List.mem_append.1 hc with hc | hc
  · exact h.fields c hc hne
  · obtain ⟨text, htext⟩ := hparsed c hc
    exact FieldPath.parseHops_of_parse htext hne

theorem unknownShared?_eq (h : s.Spelled) : s.unknownShared? = s.unknownSharedByHops? := by
  refine List.find?_congr fun name _ => congrArg not ?_
  refine any_congr fun path hpath => any_congr fun step hstep => ?_
  exact congrArg (· || _) ((h.paths path hpath step hstep).joinDouble_beq name)

theorem filterPaths_eq (h : s.Spelled) (r : Registry) :
    s.filterPaths r = s.filterPathsByHops r := by
  refine foldlM_congr (P := fun hidden : List PathSpec => ∀ path ∈ hidden, path.Spelled)
    (fun path hpath => absurd hpath List.not_mem_nil) (fun c _ hidden hidden' hhidden hrun => ?_)
    fun c hc hidden hhidden => ?_
  · dsimp only at hrun
    split at hrun
    · obtain rfl := Except.ok.inj hrun
      exact hhidden
    · obtain ⟨spec, hspec, hrun⟩ := bind_eq_ok.1 hrun
      obtain rfl := pure_eq_ok.1 hrun
      have hpath : spec.Spelled := PathSpec.spelled_of_forFilter hspec
      exact List.forall_mem_append.2 ⟨hhidden, List.forall_mem_singleton.2 hpath⟩
  · dsimp only
    by_cases hnil : c.field.hops = []
    · rw [if_pos (.inl hnil), if_pos (.inl hnil)]
    · have hfield := h.fields c hc hnil
      have hpaths : ∀ path ∈ s.paths ++ hidden, path.Spelled :=
        List.forall_mem_append.2 ⟨h.paths, hhidden⟩
      rw [FieldPath.chain, PathSpec.any_chain_eq hpaths hfield, PathSpec.forFilter_eq hfield]

theorem paths_append (h : s.Spelled) {hidden : List PathSpec}
    (hhidden : s.filterPaths r = .ok hidden) : ∀ path ∈ s.paths ++ hidden, path.Spelled :=
  List.forall_mem_append.2
    ⟨h.paths, filterPaths_forall (fun _ _ => PathSpec.spelled_of_forFilter) hhidden⟩

/-- The bindings of a scope lie along parsed hops. -/
theorem scope (h : s.Spelled) {imports : List String} {scope : Scope}
    (hscope : s.scope r imports = .ok scope) : scope.Spelled := by
  obtain ⟨first, hidden, hstart, _, hhidden, hpaths⟩ := scope_eq_ok hscope
  exact foldlM_invariant (P := Scope.Spelled) (Scope.spelled_of_start hstart)
    (fun path hpath _ _ hs hrun => hs.of_bindPath (h.paths_append hhidden path hpath) hrun) hpaths

theorem scope_eq (h : s.Spelled) (r : Registry) (imports : List String) :
    s.scope r imports = s.scopeByHops r imports := by
  unfold Selection.scope scopeByHops
  rw [h.unknownShared?_eq, ← h.filterPaths_eq r]
  cases hstart : Scope.start s imports with
  | error e => rfl
  | ok first =>
    cases s.unknownSharedByHops? with
    | some name => rfl
    | none =>
      cases hhidden : s.filterPaths r with
      | error e => rfl
      | ok hidden =>
        have hpaths := h.paths_append hhidden
        exact foldlM_congr (P := Scope.Spelled) (Scope.spelled_of_start hstart)
          (fun path hpath _ _ hs hrun => hs.of_bindPath (hpaths path hpath) hrun)
          fun path hpath _ hs => hs.bindPath_eq (hpaths path hpath)

end Spelled

end Selection

/-! ## Plans -/

namespace QueryPlan

variable {r : Registry} {p q : QueryPlan}

/-- A call keeps hops parsed from their chains, if its filter was parsed. -/
theorem spelled_call {c : PlanCall} (hp : p.selection.Spelled) (hparsed : c.Parsed)
    (h : p.call r c = .ok q) : q.selection.Spelled := by
  cases does_of_call h with
  | filter | exclude =>
    exact ⟨hp.paths, hp.fields_append hparsed (Selection.conditions_filter _ _)⟩
  | traverse _ _ hspec =>
    have hpath := PathSpec.spelled_of_resolve hspec
    exact ⟨List.forall_mem_append.2 ⟨hp.paths, List.forall_mem_singleton.2 hpath⟩, hp.fields⟩
  | _ => exact ⟨hp.paths, hp.fields⟩

theorem spelled_calls {root : NodeType} {history : List (Registry × PlanCall)}
    (hparsed : ∀ c ∈ history, c.2.Parsed) (hcalls : (forType root).calls history = .ok p) :
    p.selection.Spelled := by
  have hnone : (forType root).selection.Spelled :=
    ⟨fun path hpath => absurd hpath List.not_mem_nil, fun c hc => absurd hc List.not_mem_nil⟩
  exact foldlM_invariant (P := fun p : QueryPlan => p.selection.Spelled) hnone
    (fun c hc _ _ hp hcall => spelled_call hp (hparsed c hc) hcall) hcalls

/-- Of the hops that texts are accepted for, and of what these begin with, each is parsed from its
chain and no two have the same.

So a plan's hidden paths, the steps that share variables, and the binding of a chain are those that
are found by hops; the scopes behind transforms and subqueries have the bindings of the scope
before.  The plans that are spliced into a plan are plans of their own. -/
theorem chains_identify_hops :
    (∀ {whole hops : List String}, AcceptedHops whole → hops <+: whole → hops ≠ [] →
      parseHops (Text.joinDouble hops).toList = .ok hops ∧
        ∀ {whole' hops' : List String}, AcceptedHops whole' → hops' <+: whole' → hops' ≠ [] →
          (Text.joinDouble hops = Text.joinDouble hops' ↔ hops = hops')) ∧
      ∀ {root : NodeType} {history : List (Registry × PlanCall)} {p : QueryPlan},
        (∀ c ∈ history, c.2.Parsed) → (forType root).calls history = .ok p → ∀ r : Registry,
          p.selection.filterPaths r = p.selection.filterPathsByHops r ∧
            ∀ imports, p.selection.scope r imports = p.selection.scopeByHops r imports ∧
              ∀ scope, p.selection.scope r imports = .ok scope →
                ∀ later : Scope, later.bindings = scope.bindings →
                  (∀ name, later.bindingOfChain? name =
                    (parseHops name.toList).toOption.bind later.bindingOfHops?) ∧
                  ∀ text f, FieldPath.parse text = .ok f → f.hops ≠ [] →
                    later.bindingOfChain? f.chain = later.bindingOfHops? f.hops := by
  constructor
  · intro whole hops hwhole hbegins hne
    have hparsed : Reparsed hops := .of_accepted hwhole hbegins hne
    exact ⟨hparsed, fun hwhole' hbegins' hne' =>
      hparsed.joinDouble_inj (.of_accepted hwhole' hbegins' hne')⟩
  · intro root history p hparsed hcalls r
    have hspelled := spelled_calls hparsed hcalls
    refine ⟨hspelled.filterPaths_eq r, fun imports => ⟨hspelled.scope_eq r imports, ?_⟩⟩
    intro scope hscope later hlater
    have hbound : later.Spelled := fun b hb => hspelled.scope hscope b (hlater ▸ hb)
    refine ⟨hbound.bindingOfChain?_eq, fun text f hf hne => ?_⟩
    rw [hbound.bindingOfChain?_eq, FieldPath.chain, FieldPath.parseHops_of_parse hf hne]
    rfl

end QueryPlan

/-! ### A chain with three underscores -/

/-- Coffees that are made in a mill. -/
def Sample.ground : NodeType := linked "Coffee" "made" "Mill" "MADE_IN"

/-- The registry of coffees, of mills and of the people that mills are run by. -/
def Sample.mills : Except Error Registry := do
  let r ← Registry.empty.register ground
  let r ← r.register (linked "Mill" "_by" "Person" "RUN_BY")
  r.register (linked "Person" "made_" "Coffee" "MADE")

/-- A shared hop, and a filter on a hop behind it that begins with an underscore. -/
def Sample.milled (r : Registry) : List (Registry × PlanCall) :=
  [(r, .traverse "made" .default .fetch), (r, .share ["made"]),
    (r, .filter (named ["made", "_by"] "a"))]

theorem QueryPlan.chains_identify_hops_milled :
    parseHops "made___by".toList = .ok ["made", "_by"] ∧
      FieldPath.parse "made__by|since".toList = .ok ⟨["made", "by"], "since", true⟩ ∧
      Text.joinDouble ["made", "_by"] ≠ Text.joinDouble ["made", "by"] ∧
      ∃ r p scope b, (∀ c ∈ Sample.milled r, c.2.Parsed) ∧
        (QueryPlan.forType Sample.ground).calls (Sample.milled r) = .ok p ∧
        p.selection.scope r [] = .ok scope ∧ p.selection.scopeByHops r [] = .ok scope ∧
        scope.bindingOfChain? "made___by" = some b ∧
        scope.bindingOfHops? ["made", "_by"] = some b := by
  have hhops : parseHops "made___by".toList = .ok ["made", "_by"] := rfl
  have hfield : FieldPath.parse "made__by|since".toList = .ok ⟨["made", "by"], "since", true⟩ := rfl
  have hname : FieldPath.parse "made___by__name".toList = .ok ⟨["made", "_by"], "name", false⟩ := rfl
  have hrun : (do
      let r ← Sample.mills
      let p ← (QueryPlan.forType Sample.ground).calls (Sample.milled r)
      let scope ← p.selection.scope r []
      return (scope.bindingOfChain? "made___by").isSome : Except Halt _).toOption = some true := by
    decide +kernel
  obtain ⟨r, _, hrun⟩ := lift_bind_eq_ok.1 (eq_ok_of_toOption hrun)
  obtain ⟨p, hcalls, hrun⟩ := lift_bind_eq_ok.1 hrun
  obtain ⟨scope, hscope, hrun⟩ := bind_eq_ok.1 hrun
  obtain ⟨b, hb⟩ := Option.isSome_iff_exists.1 (pure_eq_ok.1 hrun)
  have hparsed : ∀ c ∈ Sample.milled r, c.2.Parsed := by
    have hfilter : (Sample.named ["made", "_by"] "a").Parsed := by
      intro c hc
      rw [List.mem_singleton.1 hc]
      exact ⟨_, hname⟩
    simpa [Sample.milled, PlanCall.Parsed] using hfilter
  obtain ⟨hchains, hplans⟩ := QueryPlan.chains_identify_hops
  obtain ⟨_, hscopes⟩ := hplans hparsed hcalls r
  obtain ⟨hsame, hfinds⟩ := hscopes []
  obtain ⟨hbound, _⟩ := hfinds scope hscope scope rfl
  refine ⟨hhops, hfield, fun heq => ?_, r, p, scope, b, hparsed, hcalls, hscope, hsame ▸ hscope, hb,
    ?_⟩
  · obtain ⟨_, hchain⟩ := hchains (.hops hhops) List.prefix_rfl (List.cons_ne_nil _ _)
    have hequal := (hchain (.field hfield) List.prefix_rfl (List.cons_ne_nil _ _)).1 heq
    exact absurd hequal (by decide)
  · rw [hbound, hhops] at hb
    exact hb

end GraphMapper
