import GraphMapper.Proofs.Compile.Requests
import GraphMapper.Proofs.Result.Agreement

/-!
# What a key stands for

The nodes and edges that a traversal reaches are collected under its alias, or
else under its hops as they are written, and annotations refer to it by either.
Aliases are kept apart from each other, but not from written hops: a traversal
may take for its alias what another one is collected under (`Mixed`), or may be
referred to by (`Ambiguous`).

Where a name is not taken in both ways it stands for the same hops throughout
(`QueryPlan.keys_identify_hops`).  Where it is, the graphs of a result mix what
the two traversals reach (`QueryPlan.key_of_two_traversals`).
-/

namespace GraphMapper

/-! ## Names of steps -/

/-- What a step is collected under: its alias, or else its hops as they are written. -/
def PathStep.key (step : PathStep) : String := step.alias?.getD step.chain

theorem PathStep.key_eq_iff {step : PathStep} {key : String} :
    step.key = key ↔ step.alias? = some key ∨ step.alias? = none ∧ step.chain = key := by
  unfold PathStep.key
  cases step.alias? <;> simp

/-- A step may be referred to by a name: its alias, or its hops as they are written. -/
def PathStep.Answers (step : PathStep) (name : String) : Prop :=
  step.alias? = some name ∨ step.chain = name

/-- Some step has for its alias what a step along other hops, without an alias, is written as: both
are collected under it. -/
def Mixed (paths : List PathSpec) (key : String) : Prop :=
  ∃ path ∈ paths, ∃ step ∈ path.steps, ∃ path' ∈ paths, ∃ step' ∈ path'.steps,
    step.alias? = some key ∧ step'.alias? = none ∧ step'.chain = key ∧ step'.hops ≠ step.hops

/-- Some step has a name for its alias that other hops are written as. -/
def Ambiguous (paths : List PathSpec) (name : String) : Prop :=
  ∃ path ∈ paths, ∃ step ∈ path.steps, ∃ path' ∈ paths, ∃ step' ∈ path'.steps,
    step.alias? = some name ∧ step'.chain = name ∧ step'.hops ≠ step.hops

instance (paths : List PathSpec) (key : String) : Decidable (Mixed paths key) :=
  inferInstanceAs (Decidable (∃ path ∈ paths, ∃ step ∈ path.steps, ∃ path' ∈ paths,
    ∃ step' ∈ path'.steps, step.alias? = some key ∧ step'.alias? = none ∧ step'.chain = key ∧
      step'.hops ≠ step.hops))

instance (paths : List PathSpec) (name : String) : Decidable (Ambiguous paths name) :=
  inferInstanceAs (Decidable (∃ path ∈ paths, ∃ step ∈ path.steps, ∃ path' ∈ paths,
    ∃ step' ∈ path'.steps, step.alias? = some name ∧ step'.chain = name ∧ step'.hops ≠ step.hops))

/-- Paths whose chains can be read back, with aliases that are given once. -/
structure NamesApart (paths : List PathSpec) : Prop where
  legible : ∀ path ∈ paths, ∀ step ∈ path.steps, Legible step.hops
  aliases : ∀ path ∈ paths, ∀ step ∈ path.steps, ∀ path' ∈ paths, ∀ step' ∈ path'.steps,
    ∀ name, step.alias? = some name → step'.alias? = some name → step.hops = step'.hops

namespace NamesApart

variable {paths : List PathSpec} {path path' : PathSpec} {step step' : PathStep}

theorem hops_eq_of_chain (h : NamesApart paths) (hpath : path ∈ paths) (hstep : step ∈ path.steps)
    (hpath' : path' ∈ paths) (hstep' : step' ∈ path'.steps) (hchain : step.chain = step'.chain) :
    step.hops = step'.hops :=
  (h.legible path hpath step hstep).eq_of_joinDouble_eq (h.legible path' hpath' step' hstep') hchain

/-- Steps of one key go along the same hops, unless two are mixed under it. -/
theorem hops_eq_of_key (h : NamesApart paths) {key : String} (hkey : ¬ Mixed paths key)
    (hpath : path ∈ paths) (hstep : step ∈ path.steps) (hpath' : path' ∈ paths)
    (hstep' : step' ∈ path'.steps) (hstepKey : step.key = key) (hstepKey' : step'.key = key) :
    step.hops = step'.hops := by
  by_contra hne
  rcases PathStep.key_eq_iff.1 hstepKey with halias | ⟨hnone, hchain⟩ <;>
    rcases PathStep.key_eq_iff.1 hstepKey' with halias' | ⟨hnone', hchain'⟩
  · exact hne (h.aliases path hpath step hstep path' hpath' step' hstep' key halias halias')
  · exact hkey ⟨path, hpath, step, hstep, path', hpath', step', hstep', halias, hnone', hchain',
      Ne.symm hne⟩
  · exact hkey ⟨path', hpath', step', hstep', path, hpath, step, hstep, halias', hnone, hchain, hne⟩
  · exact hne (h.hops_eq_of_chain hpath hstep hpath' hstep' (hchain.trans hchain'.symm))

/-- Steps of one name go along the same hops, unless the name is ambiguous. -/
theorem hops_eq_of_answers (h : NamesApart paths) {name : String} (hname : ¬ Ambiguous paths name)
    (hpath : path ∈ paths) (hstep : step ∈ path.steps) (hpath' : path' ∈ paths)
    (hstep' : step' ∈ path'.steps) (hanswers : step.Answers name) (hanswers' : step'.Answers name) :
    step.hops = step'.hops := by
  by_contra hne
  rcases hanswers with halias | hchain <;> rcases hanswers' with halias' | hchain'
  · exact hne (h.aliases path hpath step hstep path' hpath' step' hstep' name halias halias')
  · exact hname ⟨path, hpath, step, hstep, path', hpath', step', hstep', halias, hchain',
      Ne.symm hne⟩
  · exact hname ⟨path', hpath', step', hstep', path, hpath, step, hstep, halias', hchain, hne⟩
  · exact hne (h.hops_eq_of_chain hpath hstep hpath' hstep' (hchain.trans hchain'.symm))

theorem of_append {more : List PathSpec} (h : NamesApart (paths ++ more)) : NamesApart paths where
  legible path hpath := h.legible path (List.mem_append_left _ hpath)
  aliases path hpath step hstep path' hpath' :=
    h.aliases path (List.mem_append_left _ hpath) step hstep path' (List.mem_append_left _ hpath')

end NamesApart

/-- Only the last step of a resolved path has an alias, the one that was asked for. -/
theorem PathSpec.getLast?_of_alias {options : TraverseOptions} {mode : PathMode}
    {done : List String} {hops : List (String × Hop)} {step : PathStep} {name : String}
    (hstep : step ∈ stepsOf options mode done hops) (hname : step.alias? = some name) :
    (stepsOf options mode done hops).getLast? = some step ∧ options.alias? = some name := by
  induction hops generalizing done with
  | nil => cases hstep
  | cons hop rest ih =>
    rcases List.mem_cons.1 hstep with rfl | hstep
    · cases rest with
      | nil => exact ⟨rfl, hname⟩
      | cons => cases hname
    · obtain ⟨hlast, halias⟩ := ih hstep
      refine ⟨?_, halias⟩
      rw [stepsOf, List.getLast?_cons, hlast]
      rfl

namespace QueryPlan

variable {r₀ r : Registry} {root : String} {p₀ p : QueryPlan}
  {history : List (Registry × PlanCall)}

/-- A step with an alias is the last one of its path, whose alias that is. -/
theorem alias?_of_step (hnew : QueryPlan.new r₀ root = .ok p₀) (hcalls : p₀.calls history = .ok p)
    {path : PathSpec} (hpath : path ∈ p.selection.paths) {step : PathStep}
    (hstep : step ∈ path.steps) {name : String} (hname : step.alias? = some name) :
    path.steps.getLast? = some step ∧ path.alias? = some name := by
  obtain ⟨_, _, options, _, hspec⟩ := resolved_calls hnew hcalls path hpath
  obtain ⟨_, _, _, _, _, rfl⟩ := PathSpec.resolve_eq_ok hspec
  obtain ⟨hlast, _⟩ := PathSpec.getLast?_of_alias hstep hname
  refine ⟨hlast, ?_⟩
  rw [PathSpec.alias?, hlast]
  exact hname

/-- No two traversals have the same alias. -/
theorem aliases_calls (hnew : QueryPlan.new r₀ root = .ok p₀) (hcalls : p₀.calls history = .ok p) :
    ∀ path ∈ p.selection.paths, ∀ path' ∈ p.selection.paths, ∀ name,
      path.alias? = some name → path'.alias? = some name → path = path' := by
  obtain ⟨t, _, rfl⟩ := new_eq_ok hnew
  refine calls_invariant (P := fun p => ∀ path ∈ p.selection.paths, ∀ path' ∈ p.selection.paths,
    ∀ name, path.alias? = some name → path'.alias? = some name → path = path')
    (fun path hpath => absurd hpath List.not_mem_nil) ?_ hcalls
  intro r c p q hp hdoes
  cases hdoes with
  | @traverse s qs expr options mode spec _ free hspec =>
    have hfresh : ∀ path ∈ s.paths, ∀ name, spec.alias? = some name → path.alias? ≠ some name := by
      intro path hpath name hname htaken
      obtain ⟨_, _, _, _, _, rfl⟩ := PathSpec.resolve_eq_ok hspec
      obtain ⟨step, hlast, halias⟩ := Option.bind_eq_some_iff.1 hname
      have hgiven := (PathSpec.getLast?_of_alias (List.mem_of_getLast? hlast) halias).2
      have hany : s.aliasTaken name = true :=
        Bool.or_eq_true_iff.2 (.inl (List.any_eq_true.2 ⟨path, hpath, beq_iff_eq.2 htaken⟩))
      rw [free name hgiven] at hany
      cases hany
    intro path hpath path' hpath' name hname hname'
    rcases List.mem_append.1 hpath with hpath | hpath <;>
      rcases List.mem_append.1 hpath' with hpath' | hpath'
    · exact hp path hpath path' hpath' name hname hname'
    · rw [List.mem_singleton.1 hpath'] at hname'
      exact absurd hname (hfresh path hpath name hname')
    · rw [List.mem_singleton.1 hpath] at hname
      exact absurd hname' (hfresh path' hpath' name hname)
    · rw [List.mem_singleton.1 hpath, List.mem_singleton.1 hpath']
  | _ => exact hp

/-- The names of a plan's traversals are kept apart, those of hidden paths as well. -/
theorem namesApart (hnew : QueryPlan.new r₀ root = .ok p₀) (hcalls : p₀.calls history = .ok p)
    {hidden : List PathSpec} (hhidden : p.selection.filterPaths r = .ok hidden) :
    NamesApart (p.selection.paths ++ hidden) := by
  have hsteady := steady_paths hnew hcalls hhidden
  refine ⟨fun path hpath => (hsteady path hpath).legible, ?_⟩
  have hdeclared {path : PathSpec} (hpath : path ∈ p.selection.paths ++ hidden) {step : PathStep}
      (hstep : step ∈ path.steps) {name : String} (hname : step.alias? = some name) :
      path ∈ p.selection.paths := by
    refine (List.mem_append.1 hpath).resolve_right fun hpath => ?_
    rw [(Selection.alias?_filterPaths hhidden path hpath).2 step hstep] at hname
    cases hname
  intro path hpath step hstep path' hpath' step' hstep' name hname hname'
  obtain ⟨hlast, halias⟩ :=
    alias?_of_step hnew hcalls (hdeclared hpath hstep hname) hstep hname
  obtain ⟨hlast', halias'⟩ :=
    alias?_of_step hnew hcalls (hdeclared hpath' hstep' hname') hstep' hname'
  obtain rfl := aliases_calls hnew hcalls path (hdeclared hpath hstep hname) path'
    (hdeclared hpath' hstep' hname') name halias halias'
  rw [Option.some.inj (hlast.symm.trans hlast')]

end QueryPlan

/-! ## Bindings and their names -/

/-- The bindings of a scope are made of the steps of its paths. -/
theorem Selection.made_scope {r : Registry} {s : Selection} {imports : List String} {scope : Scope}
    {hidden : List PathSpec} (hscope : s.scope r imports = .ok scope)
    (hhidden : s.filterPaths r = .ok hidden) :
    ∀ b ∈ scope.bindings, ∃ path ∈ s.paths ++ hidden, ∃ step ∈ path.steps, ∃ var edgeVar q,
      b = Scope.newBinding step path.hidden var edgeVar q := by
  obtain ⟨first, hidden', hstart, _, hhidden', hpaths⟩ := scope_eq_ok hscope
  cases hhidden.symm.trans hhidden'
  obtain ⟨declared, rfl, _⟩ := Scope.start_eq_ok hstart
  refine foldlM_invariant (P := fun scope : Scope => ∀ b ∈ scope.bindings,
    ∃ path ∈ s.paths ++ hidden, ∃ step ∈ path.steps, ∃ var edgeVar q,
      b = Scope.newBinding step path.hidden var edgeVar q)
    (fun b hb => absurd hb List.not_mem_nil) (fun path hpath s₁ s₂ hs₁ hrun => ?_) hpaths
  obtain ⟨s₃, q, hsteps, rfl⟩ := Scope.bindPath_eq_ok hrun
  rw [Scope.flush_bindings]
  refine foldlM_invariant (P := fun state : Scope × Scope.Progress => ∀ b ∈ state.1.bindings,
    ∃ path ∈ s.paths ++ hidden, ∃ step ∈ path.steps, ∃ var edgeVar q,
      b = Scope.newBinding step path.hidden var edgeVar q) hs₁ ?_ hsteps
  rintro step hstep ⟨s₄, q₄⟩ ⟨s₅, q₅⟩ hs₄ hbind b hb
  obtain ⟨hbindings, _⟩ | ⟨var, edgeVar, _, _, hbindings, _⟩ := Scope.declared_bindStep hbind
  · rw [hbindings] at hb
    exact hs₄ b hb
  · rw [hbindings] at hb
    rcases List.mem_append.1 hb with hb | hb
    · exact hs₄ b hb
    · exact ⟨path, hpath, step, hstep, var, edgeVar, q₄, List.mem_singleton.1 hb⟩

/-- A binding that returns something is made of a step of a traversal, with its key. -/
theorem Selection.exists_step_of_returned {r : Registry} {s : Selection} {imports : List String}
    {scope : Scope} {hidden : List PathSpec} (hscope : s.scope r imports = .ok scope)
    (hhidden : s.filterPaths r = .ok hidden) {b : Binding} (hb : b ∈ scope.bindings)
    (hreturned : b.includeNode = true ∨ b.includeEdge = true) :
    ∃ path ∈ s.paths, ∃ step ∈ path.steps, step.hops = b.hops ∧ step.key = b.key := by
  obtain ⟨path, hpath, step, hstep, var, edgeVar, q, rfl⟩ := made_scope hscope hhidden b hb
  have hvisible : path.hidden = false := by
    rcases hreturned with hnode | hedge
    · exact Bool.not_eq_true' _ ▸ (Bool.and_eq_true_iff.1 hnode).2
    · exact Bool.not_eq_true' _ ▸ (Bool.and_eq_true_iff.1 hedge).2
  refine ⟨path, (List.mem_append.1 hpath).resolve_right fun hpath => ?_, step, hstep, rfl, rfl⟩
  have hhides := (alias?_filterPaths hhidden path hpath).1
  rw [hvisible] at hhides
  cases hhides

/-- What a name refers to has it for its alias, or is written so. -/
theorem Scope.answers_of_bindingOfKey? {s : Scope} {key : String} {b : Binding}
    (h : s.bindingOfKey? key = some b) : b.alias? = some key ∨ b.chain = key := by
  unfold bindingOfKey? at h
  cases hfind : s.bindings.find? fun b => b.alias? == some key with
  | some b' =>
    rw [hfind] at h
    obtain rfl := Option.some.inj h
    exact .inl (by simpa using List.find?_some hfind)
  | none =>
    rw [hfind] at h
    have hfound : s.bindings.find? (fun b => b.chain == key) = some b := h
    exact .inr (by simpa using List.find?_some hfound)

theorem Scope.bindingOfKey?_congr {s s' : Scope} (h : s.bindings = s'.bindings) (key : String) :
    s.bindingOfKey? key = s'.bindingOfKey? key := by
  unfold bindingOfKey? bindingOfChain?
  rw [h]

/-- What a name stands for in a scope: the one binding that has it for its alias, and where there is
none, a binding that is written so. -/
structure Scope.StandsFor (s : Scope) (name : String) (b : Binding) : Prop where
  found : s.bindingOfKey? name = some b
  answers : b.alias? = some name ∨ b.chain = name
  alone : ∀ b' ∈ s.bindings, b'.alias? = some name → b' = b

theorem Selection.standsFor_of_bindingOfKey? {r : Registry} {s : Selection} {imports : List String}
    {scope : Scope} (hscope : s.scope r imports = .ok scope) {name : String} {b : Binding}
    (h : scope.bindingOfKey? name = some b) : scope.StandsFor name b where
  found := h
  answers := Scope.answers_of_bindingOfKey? h
  alone _ hb' hname := Option.some.inj ((bindingOfKey?_of_alias hscope hb' hname).symm.trans h)

/-! ## References -/

/-- The name of the traversal that a reference, or the property it reads, is about. -/
def VarRef.key? : VarRef → Option String
  | .node key | .edge key => some key
  | .property of _ => of.key?
  | .root | .name _ => none

/-- The variable of a binding that a reference to it uses. -/
def VarRef.variable (b : Binding) : VarRef → String
  | .edge _ => b.edgeVar
  | .property of _ => of.variable b
  | .node _ | .root | .name _ => b.var

/-- The reference that an expression is made of. -/
def Expr.reference {Ref : Type} : Expr Ref → Ref
  | .ref v => v
  | .apply _ arg => arg.reference

/-- A reference by a name is one to the variable of the binding that the name refers to. -/
theorem Scope.binding_of_reference {s : Scope} {site : UseSite} {v : VarRef}
    {ref : Cypher.Reference} {key : String} (h : s.reference site v = .ok ref)
    (hkey : v.key? = some key) : ∃ b, s.bindingOfKey? key = some b ∧ ref.var = v.variable b := by
  induction v generalizing ref with
  | root => cases hkey
  | name => cases hkey
  | node =>
    obtain rfl := Option.some.inj hkey
    unfold reference at h
    split at h
    · next b hb _ =>
      cases h
      exact ⟨b, hb, rfl⟩
    · cases h
  | edge =>
    obtain rfl := Option.some.inj hkey
    unfold reference at h
    split at h
    · next b hb _ =>
      cases h
      exact ⟨b, hb, rfl⟩
    · cases h
  | property of name ih =>
    obtain ⟨_, _, h⟩ := bind_eq_ok.1 h
    obtain ⟨inner, hinner, h⟩ := bind_eq_ok.1 h
    obtain rfl := pure_eq_ok.1 h
    exact (ih hinner hkey :)

theorem Expr.reference_of_resolve {Ref Ref' : Type} {f : Ref → Except Error Ref'} {e : Expr Ref}
    {e' : Expr Ref'} (h : e.resolve f = .ok e') : f e.reference = .ok e'.reference := by
  induction e generalizing e' with
  | ref v =>
    obtain ⟨_, hv, h⟩ := bind_eq_ok.1 h
    obtain rfl := pure_eq_ok.1 h
    exact hv
  | apply g arg ih =>
    obtain ⟨_, harg, h⟩ := bind_eq_ok.1 h
    obtain rfl := pure_eq_ok.1 h
    exact (ih harg :)

/-! ## Columns -/

/-- The key under which what a column holds is collected. -/
def Column.key? (c : Column) : Option String :=
  match c.kind with
  | .node n => some n.key
  | .edge key => some key
  | .root | .projection => none

/-- A column that a binding returns its node or its edge in. -/
inductive Binding.Fills (b : Binding) : Column → Prop
  | node {n : NodeColumn} (key : n.key = b.key) : Fills b ⟨b.var, .node n⟩
  | edge : Fills b ⟨b.edgeVar, .edge b.key⟩

/-- A column of what is reached along some hops. -/
def Scope.ReachedAlong (s : Scope) (hops : List String) (column : Column) : Prop :=
  ∃ b ∈ s.bindings, b.Fills column ∧ b.hops = hops

namespace Binding.Fills

variable {b b' : Binding} {column : Column}

theorem key? (h : b.Fills column) : column.key? = some b.key := by
  cases h with
  | node key => exact congrArg some key
  | edge => rfl

theorem name_mem (h : b.Fills column) : column.name ∈ b.vars := by
  cases h with
  | node => exact List.mem_cons_self
  | edge => exact List.mem_cons_of_mem _ List.mem_cons_self

end Binding.Fills

/-- No two bindings of a scope have a variable in common. -/
theorem Scope.Distinct.eq_of_mem_vars {s : Scope} (h : s.Distinct) {b b' : Binding}
    (hb : b ∈ s.bindings) (hb' : b' ∈ s.bindings) {v : String} (hv : v ∈ b.vars)
    (hv' : v ∈ b'.vars) : b = b' := by
  have hdisjoint := (List.nodup_flatMap.1 (List.nodup_cons.1 h.nodup).2).2
  have : Std.Symm (Function.onFun List.Disjoint Binding.vars) :=
    ⟨fun _ _ h _ hv hv' => h hv' hv⟩
  by_contra hne
  exact hdisjoint.forall hb hb' hne hv hv'

/-- A column is reached along no more than one chain of hops. -/
theorem Scope.ReachedAlong.unique {s : Scope} (hs : s.Distinct) {hops hops' : List String}
    {column : Column} (h : s.ReachedAlong hops column) (h' : s.ReachedAlong hops' column) :
    hops = hops' := by
  obtain ⟨b, hb, hfills, rfl⟩ := h
  obtain ⟨b', hb', hfills', rfl⟩ := h'
  rw [hs.eq_of_mem_vars hb hb' hfills.name_mem hfills'.name_mem]

namespace Selection

variable {s : Selection} {scope : Scope} {outputs : List Output} {taken : List String}

/-- Every column with a key is filled by a binding that returns something. -/
theorem exists_fills (h : s.planOutputs scope taken = .ok outputs) {column : Column}
    (hcolumn : column ∈ outputs.map columnOf) {key : String} (hkey : column.key? = some key) :
    ∃ b ∈ scope.bindings, b.Fills column ∧ (b.includeNode = true ∨ b.includeEdge = true) := by
  obtain ⟨projections, hprojections, rfl⟩ := planOutputs_eq_ok h
  obtain ⟨o, ho, rfl⟩ := List.mem_map.1 hcolumn
  have hprojected (ho : o ∈ projections) : False := by
    rw [Column.key?, columnOf, hprojections o ho] at hkey
    cases hkey
  split at ho
  · exact (hprojected ho).elim
  · rcases List.mem_append.1 ho with ho | ho
    · rcases List.mem_cons.1 ho with rfl | ho
      · cases hkey
      · obtain ⟨b, hb, ho⟩ := List.mem_flatMap.1 ho
        obtain ⟨hinclude, rfl⟩ | ⟨hinclude, rfl⟩ := mem_bindingOutputs.1 ho
        · exact ⟨b, hb, .node rfl, .inl hinclude⟩
        · exact ⟨b, hb, .edge, .inr hinclude⟩
    · exact (hprojected ho).elim

/-- Every annotation of a plan of its own is returned. -/
theorem exists_annotated (h : s.planOutputs scope taken = .ok outputs) {a : Annotation}
    (ha : a ∈ s.annotations) :
    ∃ e, scope.expr a.expr = .ok e ∧ .computed e a.name ∈ outputs.map Prod.fst := by
  obtain ⟨annotations, hannotations, h⟩ := bind_eq_ok.1 h
  obtain rfl := pure_eq_ok.1 h
  obtain ⟨o, ho, hannotated⟩ := exists_of_mem_forall₂ (forall₂_of_mapM hannotations).flip ha
  obtain ⟨e, he, rfl⟩ := annotated_eq_ok hannotated
  exact ⟨e, he, List.mem_map_of_mem (f := Prod.fst) (List.mem_append_right _ ho)⟩

end Selection

/-! ## Graphs -/

/-- What a graph has under a key is what some rows hold in certain columns. -/
structure Subgraph.TakenFrom (r : Registry) (output : QueryOutput) (columns : Column → Prop)
    (key : String) (g : Subgraph) : Prop where
  neighbors : ∀ e ∈ g.neighborsOf key, ∃ row ∈ output.rows, ∃ column, columns column ∧
    ∃ raw, output.node? row column.name = some raw ∧ r.entity raw = .ok e
  edges : ∀ d ∈ g.edgesOf key, ∃ row ∈ output.rows, ∃ column, columns column ∧
    ∃ raw, output.edge? row column.name = some raw ∧ r.edge raw = .ok d
  links : ∀ l ∈ g.links, l.key = key → ∃ row ∈ output.rows, ∃ column, columns column ∧
    ∃ raw, output.node? row column.name = some raw ∧ raw.id = l.child

/-- What a graph has under a key comes from the columns of that key. -/
theorem Subgraph.takenFrom_of_subgraphs {r : Registry} {output : QueryOutput} {shape : ResultShape}
    {graphs : List Subgraph} (h : r.subgraphs output shape = .ok graphs)
    (hedges : ∀ column ∈ shape.columns, ∀ n e, column.kind = .node n → n.edge? = some e →
      ⟨e, .edge n.key⟩ ∈ shape.columns) (key : String) {g : Subgraph} (hg : g ∈ graphs) :
    g.TakenFrom r output (fun column => column ∈ shape.columns ∧ column.key? = some key) key := by
  obtain ⟨_, _, _, _, hgathered, harrives⟩ := Registry.subgraphs_gathered h
  have hcollects := (hgathered.holds g hg).collects fun a => harrives g.root.id a
  -- An arrival takes its node from a column of its key, and its edge from the column beside it.
  have hcolumn {a : Arrival} (ha : output.Arrives shape g.root.id a) :
      ∃ row ∈ output.rows, ∃ column ∈ shape.columns, ∃ n, column.kind = .node n ∧ n.key = a.key ∧
        output.node? row column.name = some a.child ∧
        a.edge? = n.edge?.bind (output.edge? row) := by
    obtain ⟨row, hrow, _, _, _, _, _, column, hcolumn, n, hn, ha⟩ := ha
    obtain ⟨child, hchild, ha⟩ := Option.bind_eq_some_iff.1 ha
    obtain ⟨parent, _, ha⟩ := Option.bind_eq_some_iff.1 ha
    obtain rfl := Option.some.inj ha
    exact ⟨row, hrow, column, hcolumn, n, hn, rfl, hchild, rfl⟩
  have hkeyed {column : Column} {n : NodeColumn} (hn : column.kind = .node n) :
      column.key? = some n.key := by
    rw [Column.key?, hn]
  refine ⟨fun e he => ?_, fun d hd => ?_, fun l hl hkey => ?_⟩
  · obtain ⟨a, ha, rfl, hentity⟩ := hcollects.neighbors_resolved key e he
    obtain ⟨row, hrow, column, hmem, n, hn, hkey, hnode, _⟩ := hcolumn ha
    exact ⟨row, hrow, column, ⟨hmem, hkey ▸ hkeyed hn⟩, a.child, hnode, hentity⟩
  · obtain ⟨a, raw, ha, rfl, hraw, hedge⟩ := hcollects.edges_resolved key d hd
    obtain ⟨row, hrow, column, hmem, n, hn, hkey, _, hbeside⟩ := hcolumn ha
    obtain ⟨e, he, hcell⟩ := Option.bind_eq_some_iff.1 (hbeside.symm.trans hraw)
    exact ⟨row, hrow, ⟨e, .edge n.key⟩, ⟨hedges column hmem n e hn he, congrArg some hkey⟩, raw,
      hcell, hedge⟩
  · obtain ⟨a, ha, rfl⟩ := (hcollects.mem_links l).1 hl
    obtain ⟨row, hrow, column, hmem, n, hn, hkey', hnode, _⟩ := hcolumn ha
    exact ⟨row, hrow, column, ⟨hmem, (hkeyed hn).trans (congrArg some (hkey'.trans hkey))⟩, a.child,
      hnode, rfl⟩

theorem Subgraph.TakenFrom.mono {r : Registry} {output : QueryOutput}
    {columns columns' : Column → Prop} {key : String} {g : Subgraph}
    (h : g.TakenFrom r output columns key)
    (hcolumns : ∀ column, columns column → columns' column) :
    g.TakenFrom r output columns' key where
  neighbors e he := by
    obtain ⟨row, hrow, column, hcolumn, hcell⟩ := h.neighbors e he
    exact ⟨row, hrow, column, hcolumns column hcolumn, hcell⟩
  edges d hd := by
    obtain ⟨row, hrow, column, hcolumn, hcell⟩ := h.edges d hd
    exact ⟨row, hrow, column, hcolumns column hcolumn, hcell⟩
  links l hl hkey := by
    obtain ⟨row, hrow, column, hcolumn, hcell⟩ := h.links l hl hkey
    exact ⟨row, hrow, column, hcolumns column hcolumn, hcell⟩

/-! ## Plans -/

namespace QueryPlan

variable {r₀ r : Registry} {root : String} {p₀ p : QueryPlan}
  {history : List (Registry × PlanCall)} {c : CompiledQuery}

/-- The columns of a key under which no two traversals are mixed are reached along the same hops. -/
theorem exists_hops_of_key (hnew : QueryPlan.new r₀ root = .ok p₀)
    (hcalls : p₀.calls history = .ok p) (hcompile : p.compile r = .ok c) {scope : Scope}
    (hscope : p.selection.scope r [] = .ok scope) {hidden : List PathSpec}
    (hhidden : p.selection.filterPaths r = .ok hidden) {key : String}
    (hkey : ¬ Mixed p.selection.paths key) :
    ∃ hops, ∀ column ∈ c.shape.columns, column.key? = some key →
      scope.ReachedAlong hops column := by
  obtain ⟨last, outputs, hbindings, _, houtputs, _, hshape⟩ := outputs_compile hcompile hscope
  have hapart := (namesApart hnew hcalls hhidden).of_append
  have hfilled {column : Column} (hcolumn : column ∈ c.shape.columns)
      (hcolumnKey : column.key? = some key) : ∃ b ∈ scope.bindings, b.Fills column ∧
        ∃ path ∈ p.selection.paths, ∃ step ∈ path.steps, step.hops = b.hops ∧ step.key = key := by
    obtain ⟨b, hb, hfills, hreturned⟩ :=
      Selection.exists_fills houtputs (hshape ▸ hcolumn) hcolumnKey
    rw [hbindings] at hb
    refine ⟨b, hb, hfills, ?_⟩
    obtain rfl : b.key = key := Option.some.inj (hfills.key?.symm.trans hcolumnKey)
    exact Selection.exists_step_of_returned hscope hhidden hb hreturned
  by_cases hsome : ∃ column ∈ c.shape.columns, column.key? = some key
  · obtain ⟨column, hcolumn, hcolumnKey⟩ := hsome
    obtain ⟨b, _, _, path, hpath, step, hstep, hhops, hstepKey⟩ := hfilled hcolumn hcolumnKey
    refine ⟨b.hops, fun column' hcolumn' hcolumnKey' => ?_⟩
    obtain ⟨b', hb', hfills', path', hpath', step', hstep', hhops', hstepKey'⟩ :=
      hfilled hcolumn' hcolumnKey'
    refine ⟨b', hb', hfills', ?_⟩
    rw [← hhops, ← hhops']
    exact hapart.hops_eq_of_key hkey hpath' hstep' hpath hstep hstepKey' hstepKey
  -- No column has the key, and any hops will do.
  · exact ⟨[], fun column hcolumn hcolumnKey => (hsome ⟨column, hcolumn, hcolumnKey⟩).elim⟩

/-- An annotation that refers to a name that is not ambiguous is computed from the variable of the
binding that the name stands for, which is along the hops of every step of that name. -/
theorem exists_denoted (hnew : QueryPlan.new r₀ root = .ok p₀) (hcalls : p₀.calls history = .ok p)
    (hcompile : p.compile r = .ok c) {scope : Scope} (hscope : p.selection.scope r [] = .ok scope)
    {hidden : List PathSpec} (hhidden : p.selection.filterPaths r = .ok hidden) {a : Annotation}
    (ha : a ∈ p.selection.annotations) {key : String} (hrefers : a.expr.reference.key? = some key)
    (hkey : ¬ Ambiguous (p.selection.paths ++ hidden) key) {path : PathSpec}
    (hpath : path ∈ p.selection.paths) {step : PathStep} (hstep : step ∈ path.steps)
    (hanswers : step.Answers key) :
    ∃ b ∈ scope.bindings, b.hops = step.hops ∧ scope.StandsFor key b ∧
      ∃ items e, .returning items ∈ c.query ∧ .computed e a.name ∈ items ∧
        e.reference.var = a.expr.reference.variable b := by
  obtain ⟨last, outputs, hbindings, _, houtputs, hitems, _⟩ := outputs_compile hcompile hscope
  obtain ⟨e, he, hcomputed⟩ := Selection.exists_annotated houtputs ha
  obtain ⟨b, hb, hvar⟩ := Scope.binding_of_reference (Expr.reference_of_resolve he) hrefers
  rw [Scope.bindingOfKey?_congr hbindings] at hb
  have hstands := Selection.standsFor_of_bindingOfKey? hscope hb
  have hmem := Scope.bindingOfKey?_mem hb
  refine ⟨b, hmem, ?_, hstands, _, e, hitems, hcomputed, hvar⟩
  obtain ⟨path', hpath', step', hstep', var, edgeVar, q, rfl⟩ :=
    Selection.made_scope hscope hhidden b hmem
  exact (namesApart hnew hcalls hhidden).hops_eq_of_answers hkey hpath' hstep'
    (List.mem_append_left _ hpath) hstep hstands.answers hanswers

/-- A name stands for the same hops wherever a compiled plan uses it, unless it is the alias of one
traversal and another one is written so.

* Every column is reached along no more than one chain of hops.
* Where no two traversals are mixed under a key, its columns are all reached along the same hops,
and what the graphs of a result have under it, they have from these columns.
* An annotation that refers to a traversal by its alias or by its hops is computed from the variable
of the binding that the name stands for, the one that has it for its alias if there is one, and this
binding is along these hops; here a name may be ambiguous for the hidden paths of filters as well.
-/
theorem keys_identify_hops (hnew : QueryPlan.new r₀ root = .ok p₀)
    (hcalls : p₀.calls history = .ok p) (hcompile : p.compile r = .ok c) :
    ∃ hidden scope, p.selection.filterPaths r = .ok hidden ∧ p.selection.scope r [] = .ok scope ∧
      (∀ column hops hops', scope.ReachedAlong hops column → scope.ReachedAlong hops' column →
        hops = hops') ∧
      (∀ key, ¬ Mixed p.selection.paths key → ∃ hops,
        (∀ column ∈ c.shape.columns, column.key? = some key → scope.ReachedAlong hops column) ∧
        ∀ (r' : Registry) output graphs, r'.subgraphs output c.shape = .ok graphs → ∀ g ∈ graphs,
          g.TakenFrom r' output
            (fun column => column ∈ c.shape.columns ∧ scope.ReachedAlong hops column) key) ∧
      ∀ a ∈ p.selection.annotations, ∀ key, a.expr.reference.key? = some key →
        ¬ Ambiguous (p.selection.paths ++ hidden) key →
        ∀ path ∈ p.selection.paths, ∀ step ∈ path.steps, step.Answers key →
          ∃ b ∈ scope.bindings, b.hops = step.hops ∧ scope.StandsFor key b ∧
            ∃ items e, .returning items ∈ c.query ∧ .computed e a.name ∈ items ∧
              e.reference.var = a.expr.reference.variable b := by
  obtain ⟨hidden, scope, hhidden, hscope, _, hdescribes⟩ := describes_compile hcompile
  refine ⟨hidden, scope, hhidden, hscope, fun column hops hops' h h' => ?_, fun key hkey => ?_,
    fun a ha key hrefers hkey path hpath step hstep hanswers => ?_⟩
  · exact h.unique (.of_scope hscope) h'
  · obtain ⟨hops, hreached⟩ := exists_hops_of_key hnew hcalls hcompile hscope hhidden hkey
    refine ⟨hops, hreached, fun r' output graphs hgraphs g hg => ?_⟩
    refine (Subgraph.takenFrom_of_subgraphs hgraphs hdescribes.edges key hg).mono ?_
    exact fun column ⟨hcolumn, hcolumnKey⟩ => ⟨hcolumn, hreached column hcolumn hcolumnKey⟩
  · exact exists_denoted hnew hcalls hcompile hscope hhidden ha hrefers hkey hpath hstep hanswers

end QueryPlan

namespace Sample

/-- Coffees have suppliers, and roasters besides. -/
def roasted : Except Error Registry := do
  let coffee := (linked "Coffee" "suppliers" "Supplier" "SUPPLIED_BY").withRelationship
    ⟨"roasters", ["Roaster"], "ROASTED_BY", .outgoing, .zeroOrMore, .soft, none⟩
  let r ← Registry.empty.register coffee
  let r ← r.register ((NodeType.new "Supplier").withProperty name)
  r.register ((NodeType.new "Roaster").withProperty name)

theorem reachable_roasted {r : Registry} (h : roasted = .ok r) : r.Reachable := by
  obtain ⟨r₁, h₁, h⟩ := bind_eq_ok.1 h
  obtain ⟨r₂, h₂, h₃⟩ := bind_eq_ok.1 h
  exact .register (.register (.register .empty h₁) h₂) h₃

/-- To the suppliers, to the roasters under the alias that is taken, and a count by the name of the
suppliers. -/
def suppliersCounted (taken : String) (r : Registry) : List (Registry × PlanCall) :=
  [(r, .traverse "suppliers" .default .fetch),
    (r, .traverse "roasters" ⟨some taken, false, true, true⟩ .fetch),
    (r, .annotate "n" (.apply (.count false) (.ref (.node "suppliers"))))]

/-- The plan with its registry and its statement. -/
def countedSuppliers (taken : String) :
    Except Halt (Registry × QueryPlan × QueryPlan × CompiledQuery) := do
  let r ← roasted
  let p₀ ← QueryPlan.new r "Coffee"
  let p ← p₀.calls (suppliersCounted taken r)
  return (r, p₀, p, ← p.compile r)

theorem countedSuppliers_eq_ok {taken : String} {r : Registry} {p₀ p : QueryPlan}
    {c : CompiledQuery} (h : countedSuppliers taken = .ok (r, p₀, p, c)) : r.Reachable ∧
      QueryPlan.new r "Coffee" = .ok p₀ ∧ p₀.calls (suppliersCounted taken r) = .ok p ∧
      p.compile r = .ok c := by
  obtain ⟨_, hr, h⟩ := lift_bind_eq_ok.1 h
  obtain ⟨_, hnew, h⟩ := lift_bind_eq_ok.1 h
  obtain ⟨_, hcalls, h⟩ := lift_bind_eq_ok.1 h
  obtain ⟨_, hcompile, h⟩ := bind_eq_ok.1 h
  cases pure_eq_ok.1 h
  exact ⟨reachable_roasted hr, hnew, hcalls, hcompile⟩

/-- A coffee with its supplier and its roaster. -/
def roastedOutput : QueryOutput :=
  ⟨["coffee", "supplier_suppliers_1", "r1", "suppliers", "suppliers_rel", "n"],
    [[.node ⟨"c", ["Coffee"], []⟩, .node ⟨"s", ["Supplier"], []⟩,
      .edge ⟨"1", "SUPPLIED_BY", "c", "s", []⟩, .node ⟨"t", ["Roaster"], []⟩,
      .edge ⟨"2", "ROASTED_BY", "c", "t", []⟩, .value (.int 1)]]⟩

end Sample

theorem QueryPlan.keys_identify_hops_roasted :
    ∃ r p₀ p c scope, Registry.Reachable r ∧ QueryPlan.new r "Coffee" = .ok p₀ ∧
      p₀.calls (Sample.suppliersCounted "t" r) = .ok p ∧ p.compile r = .ok c ∧
      p.selection.scope r [] = .ok scope ∧
      (∃ column ∈ c.shape.columns, column.key? = some "suppliers") ∧
      (∃ hops, (∀ column ∈ c.shape.columns, column.key? = some "suppliers" →
          scope.ReachedAlong hops column) ∧
        ∀ (r' : Registry) output graphs, r'.subgraphs output c.shape = .ok graphs → ∀ g ∈ graphs,
          g.TakenFrom r' output
            (fun column => column ∈ c.shape.columns ∧ scope.ReachedAlong hops column)
            "suppliers") ∧
      ∃ b ∈ scope.bindings, b.hops = ["suppliers"] ∧ scope.StandsFor "suppliers" b ∧
        ∃ items e, .returning items ∈ c.query ∧ .computed e "n" ∈ items ∧
          e.reference.var = b.var := by
  have hrun : (do
      let (r, _, p, c) ← Sample.countedSuppliers "t"
      let hidden ← p.selection.filterPaths r
      return (decide (∃ column ∈ c.shape.columns, column.key? = some "suppliers"),
        decide (Mixed p.selection.paths "suppliers"),
        decide (Ambiguous (p.selection.paths ++ hidden) "suppliers"),
        decide (∃ path ∈ p.selection.paths, ∃ step ∈ path.steps,
          step.chain = "suppliers" ∧ step.hops = ["suppliers"]),
        p.selection.annotations)).toOption =
      some (true, false, false, true,
        [⟨"n", .apply (.count false) (.ref (.node "suppliers"))⟩]) := by
    decide +kernel
  obtain ⟨⟨r, p₀, p, c⟩, hplan, hrun⟩ := bind_eq_ok.1 (eq_ok_of_toOption hrun)
  obtain ⟨hidden, hhidden, hrun⟩ := lift_bind_eq_ok.1 hrun
  obtain ⟨hsome, hrun⟩ := Prod.mk.inj (pure_eq_ok.1 hrun)
  obtain ⟨hapart, hrun⟩ := Prod.mk.inj hrun
  obtain ⟨hclear, hrun⟩ := Prod.mk.inj hrun
  obtain ⟨hstep, hannotations⟩ := Prod.mk.inj hrun
  obtain ⟨hreachable, hnew, hcalls, hcompile⟩ := Sample.countedSuppliers_eq_ok hplan
  obtain ⟨hidden', scope, hhidden', hscope, _, hkeys, hdenotes⟩ :=
    QueryPlan.keys_identify_hops hnew hcalls hcompile
  cases hhidden.symm.trans hhidden'
  obtain ⟨path, hpath, step, hstep, hchain, hhops⟩ := of_decide_eq_true hstep
  refine ⟨r, p₀, p, c, scope, hreachable, hnew, hcalls, hcompile, hscope, of_decide_eq_true hsome,
    hkeys "suppliers" (of_decide_eq_false hapart), ?_⟩
  rw [← hhops]
  exact hdenotes _ (hannotations ▸ List.mem_singleton_self _) "suppliers" rfl
    (of_decide_eq_false hclear) path hpath step hstep (.inr hchain)

/-- Roasters under the alias that the suppliers are written as: the columns of both have one key,
the graph of a coffee has both under it, and by the name of the suppliers the roasters are
counted. -/
theorem QueryPlan.key_of_two_traversals :
    ∃ r p₀ p c scope graphs, Registry.Reachable r ∧ QueryPlan.new r "Coffee" = .ok p₀ ∧
      p₀.calls (Sample.suppliersCounted "suppliers" r) = .ok p ∧ p.compile r = .ok c ∧
      p.selection.scope r [] = .ok scope ∧
      c.text = "MATCH (coffee:Coffee)-[r1:SUPPLIED_BY]->(supplier_suppliers_1:Supplier), " ++
        "(coffee)-[suppliers_rel:ROASTED_BY]->(suppliers:Roaster) RETURN coffee, " ++
        "supplier_suppliers_1, r1, suppliers, suppliers_rel, count(suppliers) AS n" ∧
      (∃ column ∈ c.shape.columns, column.key? = some "suppliers" ∧
        scope.ReachedAlong ["suppliers"] column) ∧
      (∃ column ∈ c.shape.columns, column.key? = some "suppliers" ∧
        scope.ReachedAlong ["roasters"] column) ∧
      r.subgraphs Sample.roastedOutput c.shape = .ok graphs ∧
      graphs.map (fun g => (g.neighborsOf "suppliers").map Entity.id) = [["s", "t"]] := by
  have hrun : (do
      let (r, _, p, c) ← Sample.countedSuppliers "suppliers"
      let scope ← p.selection.scope r []
      return (c.shape.columns,
        scope.bindings.map fun b : Binding => (b.var, b.key, b.hops))).toOption =
      some ([⟨"coffee", .root⟩,
          ⟨"supplier_suppliers_1", .node ⟨"suppliers", "suppliers", none, some "r1"⟩⟩,
          ⟨"r1", .edge "suppliers"⟩,
          ⟨"suppliers", .node ⟨"suppliers", "roasters", none, some "suppliers_rel"⟩⟩,
          ⟨"suppliers_rel", .edge "suppliers"⟩, ⟨"n", .projection⟩],
        [("supplier_suppliers_1", "suppliers", ["suppliers"]),
          ("suppliers", "suppliers", ["roasters"])]) := by
    decide +kernel
  have hread : (do
      let (r, _, _, c) ← Sample.countedSuppliers "suppliers"
      let graphs ← r.subgraphs Sample.roastedOutput c.shape
      return (c.text, graphs.map fun g : Subgraph =>
        (g.neighborsOf "suppliers").map Entity.id)).toOption =
      some ("MATCH (coffee:Coffee)-[r1:SUPPLIED_BY]->(supplier_suppliers_1:Supplier), " ++
        "(coffee)-[suppliers_rel:ROASTED_BY]->(suppliers:Roaster) RETURN coffee, " ++
        "supplier_suppliers_1, r1, suppliers, suppliers_rel, count(suppliers) AS n",
        [["s", "t"]]) := by
    decide +kernel
  obtain ⟨⟨r, p₀, p, c⟩, hplan, hrun⟩ := bind_eq_ok.1 (eq_ok_of_toOption hrun)
  obtain ⟨scope, hscope, hrun⟩ := bind_eq_ok.1 hrun
  obtain ⟨hcolumns, hbindings⟩ := Prod.mk.inj (pure_eq_ok.1 hrun)
  obtain ⟨_, hplan', hread⟩ := bind_eq_ok.1 (eq_ok_of_toOption hread)
  cases hplan.symm.trans hplan'
  obtain ⟨graphs, hgraphs, hread⟩ := lift_bind_eq_ok.1 hread
  obtain ⟨htext, hneighbors⟩ := Prod.mk.inj (pure_eq_ok.1 hread)
  obtain ⟨hreachable, hnew, hcalls, hcompile⟩ := Sample.countedSuppliers_eq_ok hplan
  have hreached (v : String) (n : NodeColumn) (hops : List String) (hn : n.key = "suppliers")
      (hcolumn : ⟨v, .node n⟩ ∈ c.shape.columns)
      (hmem : (v, "suppliers", hops) ∈ scope.bindings.map fun b => (b.var, b.key, b.hops)) :
      ∃ column ∈ c.shape.columns, column.key? = some "suppliers" ∧
        scope.ReachedAlong hops column := by
    obtain ⟨b, hb, heq⟩ := List.mem_map.1 hmem
    obtain ⟨rfl, hrest⟩ := Prod.mk.inj heq
    obtain ⟨hkey, rfl⟩ := Prod.mk.inj hrest
    exact ⟨_, hcolumn, congrArg some hn, b, hb, .node (hn.trans hkey.symm), rfl⟩
  rw [hcolumns, hbindings] at hreached
  refine ⟨r, p₀, p, c, scope, graphs, hreachable, hnew, hcalls, hcompile, hscope, htext,
    ?_, ?_, hgraphs, hneighbors⟩
  · rw [hcolumns]
    exact hreached "supplier_suppliers_1" ⟨"suppliers", "suppliers", none, some "r1"⟩ _ rfl
      (by simp) List.mem_cons_self
  · rw [hcolumns]
    exact hreached "suppliers" ⟨"suppliers", "roasters", none, some "suppliers_rel"⟩ _ rfl
      (by simp) (List.mem_cons_of_mem _ List.mem_cons_self)

end GraphMapper
