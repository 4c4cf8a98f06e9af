import GraphMapper.Proofs.Compile.Columns
import GraphMapper.Proofs.Plan.Checked
import GraphMapper.Proofs.Text.Fields

/-!
# Fields of filters are resolved

What is checked when a filter is written is found when it is compiled.  The
compiler looks bindings up by the written form of their hops; hops are legible,
so this is the binding of a step with the same hops, and the step has the hop
that the check walked to (`Scope.Binds`, `LeadsTo`).

Only properties of relationships may miss a binding, as no path is hidden for
them: they are found where a traversal has a step with their hops, or the hidden
path of another filter passes by (`Selection.compileCondition_unbound_iff`).
-/

namespace GraphMapper

/-! ## Folds -/

section Folds

variable {ε σ α : Type} {f : σ → α → Except ε σ} {R : List α → σ → Prop} {as : List α} {s : σ}

/-- A fold succeeds if every step does, on what the items before it leave. -/
theorem foldlM_total (hs : R [] s)
    (hstep : ∀ done, ∀ a ∈ as, ∀ s, R done s → ∃ s', f s a = .ok s' ∧ R (done ++ [a]) s') :
    ∃ s', as.foldlM f s = .ok s' ∧ R as s' := by
  have hrest (done rest : List α) (hall : ∀ a ∈ rest, a ∈ as) (s : σ) (hs : R done s) :
      ∃ s', rest.foldlM f s = .ok s' ∧ R (done ++ rest) s' := by
    induction rest generalizing done s with
    | nil => exact ⟨s, rfl, by rwa [List.append_nil]⟩
    | cons a rest ih =>
      obtain ⟨s₁, hs₁, hR⟩ := hstep done a (hall a List.mem_cons_self) s hs
      obtain ⟨s', hs', hR'⟩ :=
        ih (done ++ [a]) (fun a' ha' => hall a' (List.mem_cons_of_mem a ha')) s₁ hR
      refine ⟨s', ?_, by rwa [List.append_assoc] at hR'⟩
      rw [List.foldlM_cons]
      exact bind_eq_ok.2 ⟨s₁, hs₁, hs'⟩
  exact hrest [] as (fun _ ha => ha) s hs

end Folds

/-! ## Paths for filters -/

namespace Selection

variable {r : Registry} {s : Selection}

/-- What the hidden paths are for some of the comparisons. -/
structure Hides (r : Registry) (s : Selection) (done : List Condition) (hidden : List PathSpec) :
    Prop where
  made : ∀ p ∈ hidden, ∃ c ∈ s.conditions, c.field.onRelationship = false ∧
    p.Follows r s.root c.field.hops
  covers : ∀ c ∈ done, c.field.hops ≠ [] → c.field.onRelationship = false →
    ∃ p ∈ s.paths ++ hidden, ∃ step ∈ p.steps, step.chain = c.field.chain

/-- A checked field that has hops was walked. -/
theorem walk_of_checkField {f : FieldPath} (h : s.checkField r f = .ok ()) (hne : f.hops ≠ []) :
    ∃ walked, walk r s.root f.hops = .ok walked := by
  unfold checkField at h
  rw [if_neg hne] at h
  obtain ⟨walked, hwalk, _⟩ := bind_eq_ok.1 h
  exact ⟨walked, hwalk⟩

namespace Checked

theorem legible (h : s.Checked r) {c : Condition} (hc : c ∈ s.conditions)
    (hne : c.field.hops ≠ []) : Legible c.field.hops := by
  obtain ⟨text, htext⟩ := h.parsed c hc
  exact FieldPath.legible_of_parse htext hne

/-- Every node property that is compared gets a path, if none leads to it yet. -/
theorem filterPaths (h : s.Checked r) :
    ∃ hidden, s.filterPaths r = .ok hidden ∧ s.Hides r s.conditions hidden := by
  refine foldlM_total (R := s.Hides r) ⟨nofun, nofun⟩ fun done c hc hidden hhides => ?_
  dsimp only
  split
  · next hskip =>
    refine ⟨hidden, rfl, hhides.made, fun c' hc' hne hnode => ?_⟩
    rcases List.mem_append.1 hc' with hc' | hc'
    · exact hhides.covers c' hc' hne hnode
    · obtain rfl := List.mem_singleton.1 hc'
      obtain hnil | hrelationship | hcovered := hskip
      · exact absurd hnil hne
      · rw [hnode] at hrelationship
        cases hrelationship
      · simpa only [List.any_eq_true, beq_iff_eq] using hcovered
  · next hskip =>
    simp only [not_or, Bool.not_eq_true] at hskip
    obtain ⟨hne, hnode, _⟩ := hskip
    obtain ⟨walked, hwalk⟩ := walk_of_checkField (h.filters c hc) hne
    obtain ⟨text, htext⟩ := h.parsed c hc
    obtain ⟨spec, hspec⟩ :=
      PathSpec.exists_forFilter (FieldPath.parseHops_of_parse htext hne) hwalk
    have hfollows : spec.Follows r s.root c.field.hops :=
      PathSpec.follows_of_forFilter (h.legible hc hne) hspec
    refine ⟨hidden ++ [spec], bind_eq_ok.2 ⟨spec, hspec, rfl⟩, ?_, fun c' hc' hne' hnode' => ?_⟩
    · intro p hp
      rcases List.mem_append.1 hp with hp | hp
      · exact hhides.made p hp
      · rw [List.mem_singleton.1 hp]
        exact ⟨c, hc, hnode, hfollows⟩
    · rw [← List.append_assoc]
      rcases List.mem_append.1 hc' with hc' | hc'
      · obtain ⟨p, hp, hstep⟩ := hhides.covers c' hc' hne' hnode'
        exact ⟨p, List.mem_append_left _ hp, hstep⟩
      · obtain rfl := List.mem_singleton.1 hc'
        obtain ⟨step, hstep, hhops⟩ := hfollows.exists_step.2 ⟨List.prefix_rfl, hne⟩
        exact ⟨spec, List.mem_append_right _ List.mem_cons_self, step, hstep,
          congrArg Text.joinDouble hhops⟩

/-- The paths of a selection, hidden ones included, follow their hops. -/
theorem follows (h : s.Checked r) {done : List Condition} {hidden : List PathSpec}
    (hhides : s.Hides r done hidden) {p : PathSpec} (hp : p ∈ s.paths ++ hidden) :
    ∃ names, p.Follows r s.root names := by
  rcases List.mem_append.1 hp with hp | hp
  · exact h.paths p hp
  · obtain ⟨c, _, _, hfollows⟩ := hhides.made p hp
    exact ⟨c.field.hops, hfollows⟩

/-- The hops that some path has a step for: those of a traversal's step, and those on the way to
a node property that is compared. -/
theorem exists_step_iff (h : s.Checked r) {hidden : List PathSpec}
    (hhides : s.Hides r s.conditions hidden) {hops : List String} (hlegible : Legible hops) :
    (∃ p ∈ s.paths ++ hidden, ∃ step ∈ p.steps, step.chain = Text.joinDouble hops) ↔
      (∃ p ∈ s.paths, ∃ step ∈ p.steps, step.chain = Text.joinDouble hops) ∨
        ∃ c ∈ s.conditions, c.field.onRelationship = false ∧ hops <+: c.field.hops := by
  constructor
  · rintro ⟨p, hp, step, hstep, hchain⟩
    rcases List.mem_append.1 hp with hp | hp
    · exact .inl ⟨p, hp, step, hstep, hchain⟩
    · obtain ⟨c, hc, hnode, hfollows⟩ := hhides.made p hp
      obtain rfl : step.hops = hops :=
        (hfollows.legible_step hstep).eq_of_joinDouble_eq hlegible hchain
      exact .inr ⟨c, hc, hnode, (hfollows.exists_step.1 ⟨step, hstep, rfl⟩).1⟩
  · rintro (⟨p, hp, hstep⟩ | ⟨c, hc, hnode, hprefix⟩)
    · exact ⟨p, List.mem_append_left _ hp, hstep⟩
    · have hne : c.field.hops ≠ [] := by
        intro hnil
        rw [hnil, List.prefix_nil] at hprefix
        exact hlegible.ne_nil hprefix
      obtain ⟨p, hp, step, hstep, hchain⟩ := hhides.covers c hc hne hnode
      obtain ⟨names, hfollows⟩ := h.follows hhides hp
      have heq : step.hops = c.field.hops :=
        (hfollows.legible_step hstep).eq_of_joinDouble_eq (h.legible hc hne) hchain
      -- The path that leads to the property has a step for the way there as well.
      have hway : hops <+: names := by
        rw [← heq] at hprefix
        exact hprefix.trans (hfollows.exists_step.1 ⟨step, hstep, rfl⟩).1
      obtain ⟨step', hstep', rfl⟩ := hfollows.exists_step.2 ⟨hway, hlegible.ne_nil⟩
      exact ⟨p, hp, step', hstep', rfl⟩

end Checked

end Selection

/-! ## Bindings -/

/-- The bindings of a scope are made of some steps, and each of these has one with its hops. -/
structure Scope.Binds (s : Scope) (steps : List PathStep) : Prop where
  made : ∀ b ∈ s.bindings, ∃ step ∈ steps, b.hops = step.hops ∧ b.targets = step.hop.targets ∧
    b.model? = step.hop.model?
  bound : ∀ step ∈ steps, ∃ b ∈ s.bindings, b.chain = step.chain

namespace Scope.Binds

variable {s s' : Scope} {p p' : Scope.Progress} {steps : List PathStep}

theorem bindStep (h : s.Binds steps) {hidden : Bool} {step : PathStep}
    (hrun : Scope.bindStep hidden (s, p) step = .ok (s', p')) :
    s'.Binds (steps ++ [step]) ∧ s'.selection = s.selection := by
  have hearlier (b : Binding) (hb : b ∈ s.bindings) : ∃ step' ∈ steps ++ [step],
      b.hops = step'.hops ∧ b.targets = step'.hop.targets ∧ b.model? = step'.hop.model? := by
    obtain ⟨step', hstep', heq⟩ := h.made b hb
    exact ⟨step', List.mem_append_left _ hstep', heq⟩
  unfold Scope.bindStep Scope.reusable? at hrun
  dsimp only at hrun
  split at hrun
  · next i hi =>
    obtain ⟨rfl, rfl⟩ := Prod.mk.inj (Except.ok.inj hrun)
    obtain ⟨hlt, hserves, _⟩ := List.findIdx?_eq_some_iff_getElem.1 hi
    refine ⟨⟨by rwa [flush_bindings], fun step' hstep' => ?_⟩, flush_selection _ _⟩
    rw [flush_bindings]
    rcases List.mem_append.1 hstep' with hstep' | hstep'
    · exact h.bound step' hstep'
    · rw [List.mem_singleton.1 hstep']
      exact ⟨s.bindings[i], List.getElem_mem hlt,
        beq_iff_eq.1 (Bool.and_eq_true_iff.1 hserves).1⟩
  · obtain ⟨pattern, s₁, var, edgeVar, hopen, _, _, _, _, rfl, _⟩ := bindNew_eq_ok hrun
    obtain ⟨hbindings, _, _, hselection⟩ := s.openPattern_keeps p (step.optional || p.afterOptional)
    rw [hopen] at hbindings hselection
    refine ⟨⟨fun b hb => ?_, fun step' hstep' => ?_⟩, hselection⟩
    · rcases List.mem_append.1 hb with hb | hb
      · rw [hbindings] at hb
        exact hearlier b hb
      · rw [List.mem_singleton.1 hb]
        exact ⟨step, List.mem_append_right _ List.mem_cons_self, rfl, rfl, rfl⟩
    · rcases List.mem_append.1 hstep' with hstep' | hstep'
      · obtain ⟨b, hb, hchain⟩ := h.bound step' hstep'
        rw [← hbindings] at hb
        exact ⟨b, List.mem_append_left _ hb, hchain⟩
      · rw [List.mem_singleton.1 hstep']
        exact ⟨_, List.mem_append_right _ List.mem_cons_self, rfl⟩

theorem foldlM_bindStep (h : s.Binds steps) {hidden : Bool} {path : List PathStep}
    (hrun : path.foldlM (Scope.bindStep hidden) (s, p) = .ok (s', p')) :
    s'.Binds (steps ++ path) ∧ s'.selection = s.selection := by
  induction path generalizing s p steps with
  | nil =>
    obtain ⟨rfl, rfl⟩ := Prod.mk.inj (pure_eq_ok.1 hrun)
    exact ⟨by rwa [List.append_nil], rfl⟩
  | cons step rest ih =>
    rw [List.foldlM_cons] at hrun
    obtain ⟨⟨s₁, p₁⟩, hstep, hrest⟩ := bind_eq_ok.1 hrun
    obtain ⟨h₁, hselection₁⟩ := h.bindStep hstep
    obtain ⟨h', hselection⟩ := ih h₁ hrest
    rw [List.append_assoc] at h'
    exact ⟨h', hselection.trans hselection₁⟩

theorem foldlM_bindPath (h : s.Binds steps) {paths : List PathSpec}
    (hrun : paths.foldlM Scope.bindPath s = .ok s') :
    s'.Binds (steps ++ paths.flatMap PathSpec.steps) ∧ s'.selection = s.selection := by
  induction paths generalizing s steps with
  | nil =>
    obtain rfl := pure_eq_ok.1 hrun
    exact ⟨by rwa [List.flatMap_nil, List.append_nil], rfl⟩
  | cons path rest ih =>
    rw [List.foldlM_cons] at hrun
    obtain ⟨s₁, hs₁, hrest⟩ := bind_eq_ok.1 hrun
    obtain ⟨s₂, p, hsteps, rfl⟩ := bindPath_eq_ok hs₁
    obtain ⟨h₂, hselection₂⟩ := h.foldlM_bindStep hsteps
    have hflushed : (s₂.flush p.pattern?).Binds (steps ++ path.steps) :=
      ⟨by rw [flush_bindings]; exact h₂.made, by rw [flush_bindings]; exact h₂.bound⟩
    obtain ⟨h', hselection⟩ := ih hflushed hrest
    rw [List.append_assoc] at h'
    exact ⟨h', hselection.trans ((flush_selection _ _).trans hselection₂)⟩

end Scope.Binds

/-- The bindings of a selection are those of its paths, hidden ones included. -/
theorem Selection.binds_scope {r : Registry} {s : Selection} {imports : List String}
    {scope : Scope} {hidden : List PathSpec} (hhidden : s.filterPaths r = .ok hidden)
    (h : s.scope r imports = .ok scope) :
    scope.Binds ((s.paths ++ hidden).flatMap PathSpec.steps) ∧ scope.selection = s := by
  obtain ⟨scope₁, hidden', hstart, _, hhidden', hpaths⟩ := scope_eq_ok h
  cases hhidden.symm.trans hhidden'
  obtain ⟨declared, rfl, _⟩ := Scope.start_eq_ok hstart
  have hstart : Scope.Binds ⟨s, s.root.variableName, imports.contains s.root.variableName, [],
      declared, [], none, [], []⟩ [] :=
    ⟨fun b hb => absurd hb List.not_mem_nil, fun step hstep => absurd hstep List.not_mem_nil⟩
  exact hstart.foldlM_bindPath hpaths

/-! ## Fields -/

namespace Selection

variable {r : Registry} {s : Selection} {scope : Scope} {imports : List String}

/-- A comparison with a property of a relationship that no traversal leads over, nor the way to
a node property that is compared. -/
structure Strays (s : Selection) (c : Condition) : Prop where
  onRelationship : c.field.onRelationship = true
  untraversed : ∀ path ∈ s.paths, ∀ step ∈ path.steps, step.chain ≠ c.field.chain
  unpassed : ∀ c' ∈ s.conditions, c'.field.onRelationship = false → ¬ c.field.hops <+: c'.field.hops

theorem property_of_checkField {f : FieldPath} (h : s.checkField r f = .ok ()) (hnil : f.hops = []) :
    ∃ p, s.root.property? f.property = some p := by
  unfold checkField at h
  rw [if_pos hnil] at h
  split at h
  · exact absurd h throw_ne_ok
  · next hsome => exact Option.ne_none_iff_exists'.1 fun hnone => hsome (Option.isNone_iff_eq_none.2 hnone)

/-- A checked field is declared where its hops lead. -/
theorem declares_of_checkField {f : FieldPath} {hop : Hop} (h : s.checkField r f = .ok ())
    (hleads : LeadsTo r s.root f.hops hop) :
    if f.onRelationship then ∃ p, hop.model?.bind (·.property? f.property) = some p
    else ∃ p, hop.targets.findSome? (·.property? f.property) = some p := by
  obtain ⟨walked, hwalk, hlast⟩ := hleads
  unfold checkField at h
  rw [if_neg (LeadsTo.ne_nil ⟨walked, hwalk, hlast⟩), hwalk] at h
  obtain ⟨_, hok, h⟩ := bind_eq_ok.1 h
  cases hok
  rw [hlast] at h
  dsimp only at h
  cases hon : f.onRelationship with
  | true =>
    rw [hon, if_pos rfl] at h
    rw [if_pos rfl]
    cases hmodel : hop.model? with
    | none =>
      rw [hmodel] at h
      exact absurd h throw_ne_ok
    | some model =>
      rw [hmodel] at h
      dsimp only at h
      split at h
      · exact absurd h throw_ne_ok
      · next hsome =>
        rw [Option.bind_some]
        exact Option.ne_none_iff_exists'.1 fun hnone => hsome (Option.isNone_iff_eq_none.2 hnone)
  | false =>
    rw [hon, if_neg Bool.false_ne_true] at h
    rw [if_neg Bool.false_ne_true]
    split at h
    · exact absurd h throw_ne_ok
    · next hsome =>
      refine Option.ne_none_iff_exists'.1 fun hnone => hsome ?_
      rw [List.findSome?_eq_none_iff] at hnone
      exact List.all_eq_true.2 fun t ht => Option.isNone_iff_eq_none.2 (hnone t ht)

namespace Checked

/-- The binding of some hops has what walking them leads to. -/
theorem leadsTo_binding (h : s.Checked r) {hidden : List PathSpec}
    (hhides : s.Hides r s.conditions hidden)
    (hbinds : scope.Binds ((s.paths ++ hidden).flatMap PathSpec.steps)) {b : Binding}
    (hb : b ∈ scope.bindings) {hops : List String} (hlegible : Legible hops)
    (hchain : b.chain = Text.joinDouble hops) :
    ∃ hop, LeadsTo r s.root hops hop ∧ b.targets = hop.targets ∧ b.model? = hop.model? := by
  obtain ⟨step, hstep, hhops, htargets, hmodel⟩ := hbinds.made b hb
  obtain ⟨p, hp, hstep⟩ := List.mem_flatMap.1 hstep
  obtain ⟨names, hfollows⟩ := h.follows hhides hp
  have heq : step.hops = hops := by
    refine (hfollows.legible_step hstep).eq_of_joinDouble_eq hlegible ?_
    rw [← hhops]
    exact hchain
  exact ⟨step.hop, heq ▸ hfollows.leadsTo hstep, htargets, hmodel⟩

/-- A comparison finds its binding unless it strays. -/
theorem exists_binding_iff (h : s.Checked r) {hidden : List PathSpec}
    (hhides : s.Hides r s.conditions hidden)
    (hbinds : scope.Binds ((s.paths ++ hidden).flatMap PathSpec.steps)) {c : Condition}
    (hc : c ∈ s.conditions) (hne : c.field.hops ≠ []) :
    (∃ b ∈ scope.bindings, b.chain = c.field.chain) ↔ ¬ s.Strays c := by
  have hlegible := h.legible hc hne
  have hsteps : (∃ b ∈ scope.bindings, b.chain = c.field.chain) ↔
      ∃ p ∈ s.paths ++ hidden, ∃ step ∈ p.steps, step.chain = c.field.chain := by
    constructor
    · rintro ⟨b, hb, hchain⟩
      obtain ⟨step, hstep, hhops, _⟩ := hbinds.made b hb
      obtain ⟨p, hp, hstep⟩ := List.mem_flatMap.1 hstep
      refine ⟨p, hp, step, hstep, ?_⟩
      rw [← hchain]
      exact congrArg Text.joinDouble hhops.symm
    · rintro ⟨p, hp, step, hstep, hchain⟩
      obtain ⟨b, hb, hbchain⟩ := hbinds.bound step (List.mem_flatMap.2 ⟨p, hp, hstep⟩)
      exact ⟨b, hb, hbchain.trans hchain⟩
  rw [hsteps, show c.field.chain = Text.joinDouble c.field.hops from rfl,
    h.exists_step_iff hhides hlegible]
  constructor
  · rintro (⟨p, hp, step, hstep, hchain⟩ | ⟨c', hc', hnode, hprefix⟩) hstrays
    · exact hstrays.untraversed p hp step hstep hchain
    · exact hstrays.unpassed c' hc' hnode hprefix
  · intro hstrays
    by_contra hnone
    rw [not_or] at hnone
    refine hstrays ⟨?_, fun p hp step hstep hchain => hnone.1 ⟨p, hp, step, hstep, hchain⟩,
      fun c' hc' hnode hprefix => hnone.2 ⟨c', hc', hnode, hprefix⟩⟩
    rw [← Bool.not_eq_false]
    exact fun hnode => hnone.2 ⟨c, hc, hnode, List.prefix_rfl⟩

/-- The field of a comparison is found, or the comparison strays. -/
theorem field (h : s.Checked r) (hscope : s.scope r imports = .ok scope) {c : Condition}
    (hc : c ∈ s.conditions) :
    (¬ s.Strays c ∧ ∃ lhs p, scope.field c.field .filters = .ok (lhs, p)) ∨
      (s.Strays c ∧
        scope.field c.field .filters = .error (.unboundFieldPath c.field.text .filters)) := by
  obtain ⟨hidden, hhidden, hhides⟩ := h.filterPaths
  obtain ⟨hbinds, hselection⟩ := binds_scope hhidden hscope
  have hplain : scope.transformed?.isSome = false := by
    rw [(Scope.Introduces.of_scope hscope).plain.1]
    rfl
  have hcheck := h.filters c hc
  unfold Scope.field
  rw [hplain]
  by_cases hnil : c.field.hops = []
  · obtain ⟨p, hp⟩ := property_of_checkField hcheck hnil
    refine .inl ⟨fun hstrays => ?_, ⟨scope.rootVar, p.storageName⟩, p, ?_⟩
    · obtain ⟨text, htext⟩ := h.parsed c hc
      exact (FieldPath.readable_of_parse htext).1.relationship hstrays.onRelationship hnil
    · rw [hselection]
      simp [hnil, hp]
  · have hbinding := h.exists_binding_iff hhides hbinds hc hnil
    cases hfind : scope.bindingOfChain? c.field.chain with
    | none =>
      refine .inr ⟨?_, by simp [hnil]⟩
      by_contra hstrays
      obtain ⟨b, hb, hchain⟩ := hbinding.2 hstrays
      have hnone := List.find?_eq_none.1 hfind b hb
      exact hnone (beq_iff_eq.2 hchain)
    | some b =>
      have hb : b ∈ scope.bindings := List.mem_of_find?_eq_some hfind
      have hchain : b.chain = c.field.chain := by simpa using List.find?_some hfind
      obtain ⟨hop, hleads, htargets, hmodel⟩ :=
        h.leadsTo_binding hhides hbinds hb (h.legible hc hnil) hchain
      have hdeclares := declares_of_checkField hcheck hleads
      refine .inl ⟨hbinding.1 ⟨b, hb, hchain⟩, ?_⟩
      cases hon : c.field.onRelationship with
      | true =>
        rw [hon, if_pos rfl] at hdeclares
        obtain ⟨p, hp⟩ := hdeclares
        exact ⟨⟨b.edgeVar, p.storageName⟩, p, by simp [hnil, hmodel, hp]⟩
      | false =>
        rw [hon, if_neg Bool.false_ne_true] at hdeclares
        obtain ⟨p, hp⟩ := hdeclares
        exact ⟨⟨b.var, p.storageName⟩, p, by simp [hnil, htargets, hp]⟩

end Checked

end Selection

end GraphMapper
