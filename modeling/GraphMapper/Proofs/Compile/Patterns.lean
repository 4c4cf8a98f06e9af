import GraphMapper.Proofs.Cypher.Fragments
import GraphMapper.Proofs.Plan.Names

/-!
# Patterns bind every new step once

Every step of a path either stands for a step that an earlier path has bound,
and whose variables it shares, or it is new.  `place` says which steps are new,
what each leads on from, and whether it is optional or follows an optional one;
it knows nothing of patterns.

The patterns that are matched, read back as chains of edges, then have exactly
one edge for each new step (`QueryPlan.patterns_draw_new_steps`).  `Renders` is
the invariant behind it: what is written so far, the pattern still open
included, draws what is placed so far.  The new steps have names for their
variables, so that the text of what draws them can be read.
-/

namespace GraphMapper

/-! ## Placing steps -/

/-- A step that is bound to variables of its own. -/
structure Placed where
  step : PathStep
  /-- The variable of the step before it on its path, or of the root. -/
  source : String
  var : String
  edgeVar : String
  /-- The step is optional or follows an optional one. -/
  optional : Bool

/-- The edge that has to be written for a new step. -/
def Placed.link (e : Placed) : Cypher.Link :=
  ⟨some e.source,
    ⟨some e.edgeVar, e.step.hop.relationship.relType, e.step.hop.relationship.direction, []⟩,
    ⟨some e.var, some (e.step.hop.targets.map NodeType.label)⟩⟩

/-- Whether a step on a later path stands for one placed already. -/
def Placed.servesAs (shared : List String) (hidden : Bool) (step : PathStep) (e : Placed) : Bool :=
  e.step.chain == step.chain &&
    (hidden || (shared.contains e.step.chain ||
      (match e.step.alias? with
        | some name => shared.contains name
        | none => false)))

/-- The variable of a new step after some others: its alias, or one made for it. -/
def PathStep.newVar (step : PathStep) (count : Nat) : String :=
  step.alias?.getD
    ((step.hop.targets.head?.map NodeType.variableName).getD "" ++ "_" ++ step.chain ++ "_" ++
      toString (count + 1))

/-- The edge variable of a new step after some others. -/
def PathStep.newEdgeVar (step : PathStep) (count : Nat) : String :=
  match step.alias? with
  | some name => name ++ "_rel"
  | none => "r" ++ toString (count + 1)

/-- How far a path is walked. -/
structure Walk where
  placed : List Placed
  /-- The variable reached. -/
  here : String
  /-- An optional step lies behind. -/
  behind : Bool

namespace Walk

/-- Walks one step: onto a step that serves, or onto a new one. -/
def next (shared : List String) (hidden : Bool) (w : Walk) (step : PathStep) : Walk :=
  match w.placed.find? (Placed.servesAs shared hidden step) with
  | some e => ⟨w.placed, e.var, w.behind || step.optional || e.optional⟩
  | none =>
    let count := w.placed.length
    let optional := w.behind || step.optional
    ⟨w.placed ++ [⟨step, w.here, step.newVar count, step.newEdgeVar count, optional⟩],
      step.newVar count, optional⟩

/-- The steps placed after one path more. -/
def path (rootVar : String) (shared : List String) (placed : List Placed) (p : PathSpec) :
    List Placed :=
  (p.steps.foldl (next shared p.hidden) ⟨placed, rootVar, false⟩).placed

end Walk

/-- The new steps of some paths, in the order in which they are bound. -/
def place (rootVar : String) (shared : List String) (paths : List PathSpec) : List Placed :=
  paths.foldl (Walk.path rootVar shared) []

/-- A new step with names for its variables. -/
structure Placed.Named (e : Placed) : Prop where
  var : IsName e.var
  edgeVar : IsName e.edgeVar

namespace PathStep.Named

variable {step : PathStep}

theorem newVar (h : step.Named) (count : Nat) : IsName (step.newVar count) := by
  unfold PathStep.newVar
  cases halias : step.alias? with
  | some name => exact h.aliased name halias
  | none =>
    have hglue : IsName "_" := IsName.of_isIdentifier rfl
    have htarget : IsStem ((step.hop.targets.head?.map NodeType.variableName).getD "") := by
      cases htargets : step.hop.targets with
      | nil => exact .inl rfl
      | cons t _ =>
        exact .inr (h.hop.targets t (htargets ▸ List.mem_cons_self)).variableName
    exact (((htarget.append hglue).append h.chain).append hglue.word).append (IsWord.of_nat _)

theorem newEdgeVar (h : step.Named) (count : Nat) : IsName (step.newEdgeVar count) := by
  unfold PathStep.newEdgeVar
  cases halias : step.alias? with
  | some name => exact (h.aliased name halias).append (IsWord.of_isIdentifier rfl)
  | none =>
    have hr : IsName "r" := IsName.of_isIdentifier rfl
    exact hr.append (IsWord.of_nat _)

end PathStep.Named

namespace Walk

variable {shared : List String}

theorem named_next {hidden : Bool} {w : Walk} {step : PathStep} (hw : ∀ e ∈ w.placed, e.Named)
    (hstep : step.Named) : ∀ e ∈ (w.next shared hidden step).placed, e.Named := by
  unfold next
  split
  · exact hw
  · intro e he
    rcases List.mem_append.1 he with he | he
    · exact hw e he
    · rw [List.mem_singleton.1 he]
      exact ⟨hstep.newVar _, hstep.newEdgeVar _⟩

theorem named_path {rootVar : String} {placed : List Placed} {p : PathSpec}
    (hplaced : ∀ e ∈ placed, e.Named) (hp : p.Named) :
    ∀ e ∈ path rootVar shared placed p, e.Named :=
  List.foldlRecOn p.steps (next shared p.hidden) (motive := fun w => ∀ e ∈ w.placed, e.Named)
    hplaced fun _ hw step hstep => named_next hw (hp step hstep)

end Walk

theorem named_place {rootVar : String} {shared : List String} {paths : List PathSpec}
    (h : ∀ p ∈ paths, p.Named) : ∀ e ∈ place rootVar shared paths, e.Named :=
  List.foldlRecOn paths (Walk.path rootVar shared) (motive := fun placed => ∀ e ∈ placed, e.Named)
    (fun e he => by cases he) fun _ hplaced p hp => Walk.named_path hplaced (h p hp)

/-! ## The invariant -/

/-- Whether a node is a variable written with labels. -/
def Cypher.NodePattern.isLabelled (var : String) (n : Cypher.NodePattern) : Bool :=
  n.var? == some var && n.labels?.isSome

/-- The new steps that are optional, or those that are not. -/
def Placed.ofKind (optional : Bool) (placed : List Placed) : List Placed :=
  placed.filter fun e => e.optional == optional

/-- What a binding records of a step. -/
structure Binding.Records (b : Binding) (e : Placed) : Prop where
  hops : b.hops = e.step.hops
  alias? : b.alias? = e.step.alias?
  var : b.var = e.var
  optional : b.optional = e.optional

/-- The patterns written so far, the optional ones or the others. -/
def Scope.fragments (s : Scope) : Bool → List Cypher.Pattern
  | true => s.optional
  | false => s.mandatory

/-- The variables that are bound before the first pattern of a kind: the mandatory patterns come
first. -/
def boundBefore (rootVar : String) (placed : List Placed) : Bool → List String
  | true => rootVar :: (Placed.ofKind false placed).map Placed.var
  | false => [rootVar]

/-- The patterns of a scope draw some placed steps. -/
structure Renders (imported : Bool) (s : Scope) (placed : List Placed) : Prop where
  bindings : List.Forall₂ Binding.Records s.bindings placed
  distinct : (s.rootVar :: placed.map Placed.var).Nodup
  declared : ∀ v ∈ s.rootVar :: placed.map Placed.var, v ∈ s.declared
  links : ∀ o, (s.fragments o).flatMap Cypher.Pattern.links =
    (Placed.ofKind o placed).map Placed.link
  connected : ∀ o, Cypher.Connected (boundBefore s.rootVar placed o) (s.fragments o)
  labelled : ∀ o, ((s.fragments o).flatMap Cypher.Pattern.nodes).filter
      (Cypher.NodePattern.isLabelled s.rootVar) =
    if !o && s.rootLabelled && !imported then [⟨some s.rootVar, some [s.selection.root.label]⟩]
    else []
  imported : imported = true → s.rootLabelled = true

namespace Scope

variable (s : Scope) (x? : Option (Cypher.Pattern × Bool))

@[simp] theorem flush_bindings : (s.flush x?).bindings = s.bindings := by
  rcases x? with _ | ⟨_, _ | _⟩ <;> rfl

@[simp] theorem flush_declared : (s.flush x?).declared = s.declared := by
  rcases x? with _ | ⟨_, _ | _⟩ <;> rfl

@[simp] theorem flush_rootVar : (s.flush x?).rootVar = s.rootVar := by
  rcases x? with _ | ⟨_, _ | _⟩ <;> rfl

@[simp] theorem flush_rootLabelled : (s.flush x?).rootLabelled = s.rootLabelled := by
  rcases x? with _ | ⟨_, _ | _⟩ <;> rfl

@[simp] theorem flush_selection : (s.flush x?).selection = s.selection := by
  rcases x? with _ | ⟨_, _ | _⟩ <;> rfl

theorem fragments_flush (p : Cypher.Pattern) (o o' : Bool) :
    (s.flush (some (p, o))).fragments o' =
      if o = o' then s.fragments o' ++ [p] else s.fragments o' := by
  cases o <;> cases o' <;> rfl

end Scope

namespace Placed

theorem ofKind_append (o : Bool) (placed : List Placed) (e : Placed) :
    ofKind o (placed ++ [e]) = if e.optional = o then ofKind o placed ++ [e] else ofKind o placed := by
  unfold ofKind
  rw [List.filter_append]
  by_cases ho : e.optional = o
  · simp [ho]
  · simp [ho]

theorem mem_ofKind {o : Bool} {placed : List Placed} {e : Placed} :
    e ∈ ofKind o placed ↔ e ∈ placed ∧ e.optional = o := by
  simp [ofKind]

/-- Patterns that draw some new steps reach the variables of these. -/
theorem reached_of_links {ps : List Cypher.Pattern} {es : List Placed}
    (h : ps.flatMap Cypher.Pattern.links = es.map link) :
    ps.flatMap Cypher.Pattern.reached = es.map var := by
  have hreached : ps.flatMap Cypher.Pattern.reached =
      (ps.flatMap Cypher.Pattern.links).filterMap fun l => l.target.var? :=
    List.filterMap_flatMap.symm
  rw [hreached, h, List.filterMap_map]
  exact List.filterMap_eq_map_iff_forall_eq_some.2 fun e _ => rfl

end Placed

namespace Renders

variable {imported : Bool} {s : Scope} {placed : List Placed}

theorem boundBefore_subset {rootVar : String} {e : Placed} {o : Bool} :
    boundBefore rootVar placed o ⊆ boundBefore rootVar (placed ++ [e]) o := by
  cases o with
  | false => exact List.Subset.refl _
  | true =>
    refine List.cons_subset_cons _ (List.map_subset _ ?_)
    intro e' he'
    rw [Placed.mem_ofKind] at he' ⊢
    exact ⟨List.mem_append_left _ he'.1, he'.2⟩

/-- The variables that a pattern of a kind may start at. -/
theorem mem_known {rootVar v : String} {o : Bool}
    (hv : v = rootVar ∨ ∃ e ∈ placed, e.var = v ∧ (e.optional = true → o = true)) :
    v ∈ boundBefore rootVar placed o ++ (Placed.ofKind o placed).map Placed.var := by
  obtain rfl | ⟨e, he, rfl, ho⟩ := hv
  · cases o <;> exact List.mem_cons_self
  · refine List.mem_append.2 ?_
    by_cases hkind : e.optional = o
    · exact .inr (List.mem_map_of_mem (Placed.mem_ofKind.2 ⟨he, hkind⟩))
    · -- An optional pattern may start at a variable of a mandatory one.
      cases o with
      | false => exact absurd (Bool.eq_false_iff.2 fun htrue => by cases ho htrue) hkind
      | true =>
        have hfalse : e.optional = false := Bool.eq_false_iff.2 hkind
        refine .inl (List.mem_cons_of_mem _ ?_)
        exact List.mem_map_of_mem (Placed.mem_ofKind.2 ⟨he, hfalse⟩)

theorem connected_flush (h : Renders imported s placed) {p : Cypher.Pattern} {v : String}
    {o : Bool} (hstart : p.start.var? = some v)
    (hv : v = s.rootVar ∨ ∃ e ∈ placed, e.var = v ∧ (e.optional = true → o = true)) (o' : Bool) :
    Cypher.Connected (boundBefore s.rootVar placed o')
      ((s.flush (some (p, o))).fragments o') := by
  rw [Scope.fragments_flush]
  by_cases ho : o = o'
  · subst ho
    rw [if_pos rfl, Cypher.Connected.append_iff, Placed.reached_of_links (h.links o)]
    exact ⟨h.connected o, ⟨v, mem_known hv, hstart⟩, trivial⟩
  · rw [if_neg ho]
    exact h.connected o'

/-- A pattern that starts at a known variable may be opened: it draws nothing yet. -/
theorem open_bound (h : Renders imported s placed) {v : String} {o : Bool}
    (hv : v = s.rootVar ∨ ∃ e ∈ placed, e.var = v ∧ (e.optional = true → o = true)) :
    Renders imported (s.flush (some (.node (.bound v), o))) placed where
  bindings := by simpa using h.bindings
  distinct := by simpa using h.distinct
  declared := by simpa using h.declared
  links o' := by
    rw [← h.links o', Scope.fragments_flush]
    by_cases ho : o = o' <;> simp [ho]
  connected o' := by
    rw [Scope.flush_rootVar]
    exact h.connected_flush (p := .node (.bound v)) rfl hv o'
  labelled o' := by
    simp only [Scope.flush_rootVar, Scope.flush_rootLabelled, Scope.flush_selection]
    rw [← h.labelled o', Scope.fragments_flush]
    by_cases ho : o = o' <;>
      simp [ho, Cypher.NodePattern.isLabelled, Cypher.NodePattern.bound]
  imported := by simpa using h.imported

/-- The first mandatory pattern at the root writes the root's label. -/
theorem open_root (h : Renders imported s placed) (hlabel : s.rootLabelled = false) :
    Renders imported
      (Scope.flush { s with rootLabelled := true } (some (s.rootPattern, false))) placed where
  bindings := by simpa using h.bindings
  distinct := by simpa using h.distinct
  declared := by simpa using h.declared
  links o' := by
    rw [← h.links o', Scope.fragments_flush]
    cases o' <;> simp [Scope.fragments, Scope.rootPattern]
  connected o' := by
    have hconnected := h.connected_flush (p := s.rootPattern) (o := false) rfl (.inl rfl) o'
    rw [Scope.fragments_flush] at hconnected ⊢
    rw [Scope.flush_rootVar]
    exact hconnected
  labelled o' := by
    have himported : imported = false := by
      refine Bool.eq_false_iff.2 fun htrue => ?_
      rw [h.imported htrue] at hlabel
      cases hlabel
    have hold := h.labelled o'
    simp only [hlabel, Bool.and_false, Bool.false_and, Bool.false_eq_true, if_false] at hold
    rw [Scope.fragments_flush]
    cases o' with
    | false =>
      rw [if_pos rfl, List.flatMap_append, List.filter_append]
      refine (congrArg (· ++ _) hold).trans ?_
      simp [Scope.rootPattern, Cypher.NodePattern.isLabelled, himported]
    | true =>
      rw [if_neg Bool.false_ne_true]
      exact hold
  imported := by simp

/-- A pattern goes on from a known variable. -/
theorem startPattern (h : Renders imported s placed) {at? : Option Nat} {here : String}
    {o : Bool} (hhere : here = ((at?.bind (s.bindings[·]?)).map Binding.var).getD s.rootVar)
    (hv : here = s.rootVar ∨ ∃ e ∈ placed, e.var = here ∧ (e.optional = true → o = true)) :
    Renders imported ((s.startPattern at? o).2.flush (some ((s.startPattern at? o).1, o))) placed ∧
      (s.startPattern at? o).1.end? = some here ∧
      (s.startPattern at? o).2.bindings = s.bindings ∧
      (s.startPattern at? o).2.selection = s.selection ∧
      (s.startPattern at? o).2.rootVar = s.rootVar := by
  unfold Scope.startPattern
  cases hb : at?.bind (s.bindings[·]?) with
  | some b =>
    simp only [hb, Option.map_some, Option.getD_some] at hhere
    subst hhere
    exact ⟨h.open_bound hv, rfl, rfl, rfl, rfl⟩
  | none =>
    simp only [hb, Option.map_none, Option.getD_none] at hhere
    subst hhere
    by_cases hlabel : (!o && !s.rootLabelled) = true
    · rw [if_pos hlabel]
      obtain ⟨ho, hroot⟩ := Bool.and_eq_true_iff.1 hlabel
      rw [Bool.not_eq_true'] at ho hroot
      subst ho
      exact ⟨h.open_root hroot, rfl, rfl, rfl, rfl⟩
    · rw [if_neg hlabel]
      exact ⟨h.open_bound hv, rfl, rfl, rfl, rfl⟩

/-- An edge to new variables draws a new step. -/
theorem extend {p : Cypher.Pattern} {o : Bool} {e : Placed} {b : Binding}
    (h : Renders imported (s.flush (some (p, o))) placed) (hend : p.end? = some e.source)
    (hrecords : b.Records e) (ho : e.optional = o) (hvar : e.var ∉ s.declared) :
    Renders imported
      (Scope.flush
        { s with declared := s.declared ++ [e.var] ++ [e.edgeVar], bindings := s.bindings ++ [b] }
        (some (p.extend (Scope.edgePattern e.step.hop (some e.edgeVar))
          ⟨some e.var, some (Scope.targetLabels e.step.hop)⟩, o)))
      (placed ++ [e]) where
  bindings := by
    have hbindings := h.bindings
    rw [Scope.flush_bindings] at hbindings ⊢
    exact List.rel_append hbindings (.cons hrecords .nil)
  distinct := by
    have hdistinct := h.distinct
    have hdeclared := h.declared
    rw [Scope.flush_rootVar] at hdistinct hdeclared ⊢
    rw [List.map_append, ← List.cons_append, List.nodup_append]
    refine ⟨hdistinct, List.nodup_singleton _, ?_⟩
    rintro v hv w hw rfl
    obtain rfl := List.mem_singleton.1 hw
    rw [Scope.flush_declared] at hdeclared
    exact hvar (hdeclared _ hv)
  declared := by
    have hdeclared := h.declared
    rw [Scope.flush_rootVar, Scope.flush_declared] at hdeclared ⊢
    intro v hv
    rw [List.map_append, ← List.cons_append] at hv
    rcases List.mem_append.1 hv with hv | hv
    · exact List.mem_append_left _ (List.mem_append_left _ (hdeclared v hv))
    · exact List.mem_append_left _ (List.mem_append_right _ hv)
  links o' := by
    have hlinks := h.links o'
    rw [Scope.fragments_flush] at hlinks ⊢
    rw [Placed.ofKind_append, ho]
    by_cases hkind : o = o'
    · rw [if_pos hkind] at hlinks ⊢
      rw [if_pos hkind, List.map_append, ← hlinks]
      simp [Scope.fragments, hend, Placed.link, Scope.edgePattern, Scope.targetLabels]
    · rw [if_neg hkind] at hlinks ⊢
      rw [if_neg hkind]
      exact hlinks
  connected o' := by
    have hconnected := h.connected o'
    rw [Scope.flush_rootVar, Scope.fragments_flush] at hconnected ⊢
    have hmono := hconnected.mono (boundBefore_subset (e := e))
    by_cases hkind : o = o'
    · rw [if_pos hkind] at hmono ⊢
      exact hmono.extend_last
    · rw [if_neg hkind] at hmono ⊢
      exact hmono
  labelled o' := by
    have hlabelled := h.labelled o'
    have hroot : s.rootVar ≠ e.var := by
      have hdeclared := h.declared
      rw [Scope.flush_rootVar, Scope.flush_declared] at hdeclared
      rintro heq
      exact hvar (heq ▸ hdeclared _ List.mem_cons_self)
    simp only [Scope.flush_rootVar, Scope.flush_rootLabelled, Scope.flush_selection] at hlabelled ⊢
    rw [← hlabelled, Scope.fragments_flush, Scope.fragments_flush]
    by_cases hkind : o = o'
    · rw [if_pos hkind, if_pos hkind]
      simp [Scope.fragments, Cypher.NodePattern.isLabelled, hroot.symm]
    · rw [if_neg hkind, if_neg hkind]
      rfl
  imported := by
    have himported := h.imported
    rw [Scope.flush_rootLabelled] at himported ⊢
    exact himported

end Renders

/-! ## One step -/

/-- A scope and the place reached on a path whose steps are all optional or all not, against a
walk. -/
structure Tracks (imported optional : Bool) (s : Scope) (p : Scope.Progress) (w : Walk) :
    Prop where
  renders : Renders imported (s.flush p.pattern?) w.placed
  here : w.here = ((p.at?.bind (s.bindings[·]?)).map Binding.var).getD s.rootVar
  reached : w.here = s.rootVar ∨
    ∃ e ∈ w.placed, e.var = w.here ∧ (e.optional = true → p.afterOptional = true)
  pending : ∀ pattern o, p.pattern? = some (pattern, o) → pattern.end? = some w.here
  behind : optional = true ∨ p.afterOptional = w.behind

/-- A binding serves a step exactly when the placed step that it is made of does. -/
theorem Placed.servesAs_eq {b : Binding} {e : Placed} (hhops : b.hops = e.step.hops)
    (halias : b.alias? = e.step.alias?) (s : Scope) (hidden : Bool) (step : PathStep) :
    e.servesAs s.selection.shared hidden step =
      (b.chain == step.chain && (hidden || s.isShared b)) := by
  unfold Placed.servesAs Scope.isShared Binding.chain PathStep.chain
  rw [hhops]
  cases halias' : e.step.alias? with
  | none => simp only [halias, halias']
  | some name => simp only [halias, halias']

/-- The first binding that serves a step is made of the first placed step that does. -/
theorem serving_of_forall₂ {R : Binding → Placed → Prop}
    (hhops : ∀ b e, R b e → b.hops = e.step.hops)
    (halias : ∀ b e, R b e → b.alias? = e.step.alias?) {bs : List Binding} {es : List Placed}
    (h : List.Forall₂ R bs es) (s : Scope) (hidden : Bool) (step : PathStep) :
    (bs.findIdx? (fun b => b.chain == step.chain && (hidden || s.isShared b)) = none ∧
        es.find? (Placed.servesAs s.selection.shared hidden step) = none) ∨
      ∃ i b e, bs.findIdx? (fun b => b.chain == step.chain && (hidden || s.isShared b)) = some i ∧
        bs[i]? = some b ∧ es.find? (Placed.servesAs s.selection.shared hidden step) = some e ∧
        e ∈ es ∧ R b e := by
  induction h with
  | nil => exact .inl ⟨rfl, rfl⟩
  | @cons b e bs es hbe _ ih =>
    have hserves := Placed.servesAs_eq (hhops b e hbe) (halias b e hbe) s hidden step
    by_cases hb : (b.chain == step.chain && (hidden || s.isShared b)) = true
    · refine .inr ⟨0, b, e, ?_, rfl, ?_, List.mem_cons_self, hbe⟩
      · rw [List.findIdx?_cons, if_pos hb]
      · rw [List.find?_cons_of_pos (hserves.trans hb)]
    · have hfind : (e :: es).find? (Placed.servesAs s.selection.shared hidden step) =
          es.find? (Placed.servesAs s.selection.shared hidden step) :=
        List.find?_cons_of_neg (by rw [hserves]; exact hb)
      rw [List.findIdx?_cons, if_neg hb, hfind]
      obtain ⟨hnone, hnone'⟩ | ⟨i, b', e', hi, hb', he', hmem, hrecords⟩ := ih
      · exact .inl ⟨by rw [hnone]; rfl, hnone'⟩
      · refine .inr ⟨i + 1, b', e', by rw [hi]; rfl, hb', he', ?_, hrecords⟩
        exact List.mem_cons_of_mem e hmem

namespace Tracks

variable {imported optional : Bool} {s s' : Scope} {p p' : Scope.Progress} {w : Walk}

/-- The pattern that the next step goes on with draws no more than is placed, and ends where the
walk stands. -/
theorem openPattern (h : Tracks imported optional s p w) {o : Bool}
    (ho : p.afterOptional = true → o = true) :
    Renders imported ((s.openPattern p o).2.flush (some ((s.openPattern p o).1, o))) w.placed ∧
      (s.openPattern p o).1.end? = some w.here ∧
      (s.openPattern p o).2.bindings = s.bindings ∧
      (s.openPattern p o).2.selection = s.selection ∧
      (s.openPattern p o).2.rootVar = s.rootVar := by
  have hv : w.here = s.rootVar ∨
      ∃ e ∈ w.placed, e.var = w.here ∧ (e.optional = true → o = true) := by
    obtain hroot | ⟨e, he, hvar, hopt⟩ := h.reached
    · exact .inl hroot
    · exact .inr ⟨e, he, hvar, fun htrue => ho (hopt htrue)⟩
  have hrenders := h.renders
  have hhere := h.here
  rcases hp : p.pattern? with _ | ⟨pattern, o'⟩
  · have hopen : s.openPattern p o = s.startPattern p.at? o := by
      simp only [Scope.openPattern, hp]
    rw [hp] at hrenders
    rw [hopen]
    exact hrenders.startPattern hhere hv
  · rw [hp] at hrenders
    by_cases hoo : o' = o
    · subst hoo
      have hopen : s.openPattern p o' = (pattern, s) := by
        simp only [Scope.openPattern, hp, if_true]
      rw [hopen]
      exact ⟨hrenders, h.pending _ _ hp, rfl, rfl, rfl⟩
    · have hopen : s.openPattern p o =
          (s.flush (some (pattern, o'))).startPattern p.at? o := by
        simp only [Scope.openPattern, hp, hoo, if_false]
      have hhere' : w.here =
          ((p.at?.bind ((s.flush (some (pattern, o'))).bindings[·]?)).map Binding.var).getD
            (s.flush (some (pattern, o'))).rootVar := by
        rw [Scope.flush_bindings, Scope.flush_rootVar]
        exact hhere
      rw [← Scope.flush_rootVar s (some (pattern, o'))] at hv
      obtain ⟨hrenders', hend, hbindings, hselection, hroot⟩ := hrenders.startPattern hhere' hv
      rw [Scope.flush_bindings] at hbindings
      rw [Scope.flush_selection] at hselection
      rw [Scope.flush_rootVar] at hroot
      rw [hopen]
      exact ⟨hrenders', hend, hbindings, hselection, hroot⟩

theorem placed_length (h : Tracks imported optional s p w) :
    s.bindings.length = w.placed.length := by
  have hbindings := h.renders.bindings
  rw [Scope.flush_bindings] at hbindings
  exact hbindings.length_eq

theorem newVar_of_nodeVar {step : PathStep} {var : String} {count : Nat}
    (h : s.nodeVar step = .ok var) (hcount : s.bindings.length = count) :
    var = step.newVar count := by
  unfold PathStep.newVar
  obtain halias | ⟨halias, t, ts, htargets, rfl⟩ := Scope.nodeVar_eq_ok h
  · rw [halias]
    rfl
  · rw [halias, htargets, hcount]
    rfl

theorem newEdgeVar_eq {step : PathStep} {count : Nat} (hcount : s.bindings.length = count) :
    step.newEdgeVar count = s.edgeVar step := by
  unfold Scope.edgeVar PathStep.newEdgeVar
  cases step.alias? with
  | none => rw [hcount]
  | some name => rfl

/-- A step that nothing serves is placed at the end of the pattern that is open. -/
theorem bindNew {hidden : Bool} {step : PathStep} (h : Tracks imported optional s p w)
    (hstep : step.optional = optional) (hrun : s.bindNew p step hidden = .ok (s', p')) :
    Tracks imported optional s' p'
        ⟨w.placed ++ [⟨step, w.here, step.newVar w.placed.length,
          step.newEdgeVar w.placed.length, w.behind || step.optional⟩],
          step.newVar w.placed.length, w.behind || step.optional⟩ ∧
      s'.selection = s.selection ∧ s'.rootVar = s.rootVar := by
  obtain ⟨pattern, s₁, var, edgeVar, hopen, hvar, hedge, hfresh, _, rfl, rfl⟩ :=
    Scope.bindNew_eq_ok hrun
  obtain ⟨hrenders, hend, hsame, hselection, hroot⟩ := h.openPattern
    (o := step.optional || p.afterOptional) (by intro hafter; rw [hafter, Bool.or_true])
  rw [hopen] at hrenders hend hsame hselection hroot
  have hcount : s₁.bindings.length = w.placed.length := by rw [hsame, h.placed_length]
  obtain rfl := newVar_of_nodeVar hvar hcount
  obtain rfl : step.newEdgeVar w.placed.length = edgeVar := (newEdgeVar_eq hcount).trans hedge
  have hoptional : (step.optional || p.afterOptional) = (w.behind || step.optional) := by
    obtain rfl | hbehind := h.behind
    · rw [hstep, Bool.true_or, Bool.or_true]
    · rw [hbehind, Bool.or_comm]
  have hrecords : (Scope.newBinding step hidden (step.newVar w.placed.length)
      (step.newEdgeVar w.placed.length) p).Records
        ⟨step, w.here, step.newVar w.placed.length, step.newEdgeVar w.placed.length,
          w.behind || step.optional⟩ := ⟨rfl, rfl, rfl, hoptional⟩
  refine ⟨⟨?_, ?_, ?_, ?_, ?_⟩, hselection, hroot⟩
  · exact hrenders.extend hend hrecords hoptional.symm hfresh
  · simp [Scope.newBinding]
  · exact .inr ⟨_, List.mem_append_right _ (List.mem_singleton_self _), rfl,
      fun he => hoptional.trans he⟩
  · rintro pattern' o hp
    obtain ⟨rfl, _⟩ := Prod.mk.inj (Option.some.inj hp)
    exact Cypher.Pattern.end?_extend
  · exact .inr hoptional

/-- A step that is served only moves on. -/
theorem moveTo {step : PathStep} {i : Nat} {b : Binding} {e : Placed}
    (h : Tracks imported optional s p w) (hstep : step.optional = optional)
    (hb : s.bindings[i]? = some b) (hmem : e ∈ w.placed) (hrecords : b.Records e) :
    Tracks imported optional (s.flush p.pattern?) ⟨some i, none, p.afterOptional || b.optional⟩
      ⟨w.placed, e.var, w.behind || step.optional || e.optional⟩ := by
  refine ⟨h.renders, ?_, ?_, ?_, ?_⟩
  · simp only [Scope.flush_bindings, Option.bind_some, hb, Option.map_some, Option.getD_some,
      hrecords.var]
  · refine .inr ⟨e, hmem, rfl, fun he => ?_⟩
    simp only [hrecords.optional, he, Bool.or_true]
  · rintro pattern o hp
    cases hp
  · obtain rfl | hbehind := h.behind
    · exact .inl rfl
    · by_cases hpath : optional = true
      · exact .inl hpath
      · right
        rw [Bool.not_eq_true] at hpath
        rw [hpath] at hstep
        simp only [hrecords.optional, hbehind, hstep, Bool.or_false]

/-- Binding a step walks it. -/
theorem bindStep {hidden : Bool} {step : PathStep} (h : Tracks imported optional s p w)
    (hstep : step.optional = optional) (hrun : Scope.bindStep hidden (s, p) step = .ok (s', p')) :
    Tracks imported optional s' p' (w.next s.selection.shared hidden step) ∧
      s'.selection = s.selection ∧ s'.rootVar = s.rootVar := by
  have hbindings := h.renders.bindings
  rw [Scope.flush_bindings] at hbindings
  unfold Scope.bindStep Scope.reusable? at hrun
  unfold Walk.next
  obtain ⟨hnone, hfind⟩ | ⟨i, b, e, hsome, hb, hfind, hmem, hrecords⟩ :=
    serving_of_forall₂ (fun _ _ h => h.hops) (fun _ _ h => h.alias?) hbindings s hidden step
  · simp only [hnone] at hrun
    simp only [hfind]
    exact h.bindNew hstep hrun
  · simp only [hsome, hb, Option.map_some, Option.getD_some] at hrun
    simp only [hfind]
    obtain ⟨rfl, rfl⟩ := Prod.mk.inj (Except.ok.inj hrun)
    exact ⟨h.moveTo hstep hb hmem hrecords, Scope.flush_selection _ _, Scope.flush_rootVar _ _⟩

end Tracks

/-! ## Whole paths -/

section Paths

variable {imported optional : Bool} {s s' : Scope} {p p' : Scope.Progress} {w : Walk}

/-- Binding the steps of a path walks it. -/
theorem Tracks.foldlM {hidden : Bool} {steps : List PathStep}
    (h : Tracks imported optional s p w) (hsteps : ∀ step ∈ steps, step.optional = optional)
    (hrun : steps.foldlM (Scope.bindStep hidden) (s, p) = .ok (s', p')) :
    Tracks imported optional s' p' (steps.foldl (Walk.next s.selection.shared hidden) w) ∧
      s'.selection = s.selection ∧ s'.rootVar = s.rootVar := by
  induction steps generalizing s p w with
  | nil =>
    obtain ⟨rfl, rfl⟩ := Prod.mk.inj (pure_eq_ok.1 hrun)
    exact ⟨h, rfl, rfl⟩
  | cons step rest ih =>
    rw [List.foldlM_cons] at hrun
    obtain ⟨⟨s₁, p₁⟩, hstep, hrest⟩ := bind_eq_ok.1 hrun
    obtain ⟨h₁, hselection, hroot⟩ := h.bindStep (hsteps step List.mem_cons_self) hstep
    obtain ⟨h', hselection', hroot'⟩ :=
      ih h₁ (fun step' hs => hsteps step' (List.mem_cons_of_mem step hs)) hrest
    rw [hselection] at h' hselection'
    exact ⟨h', hselection', hroot'.trans hroot⟩

/-- Binding a path draws its new steps. -/
theorem Renders.bindPath {placed : List Placed} {path : PathSpec}
    (h : Renders imported s placed) (hpath : path.Uniform) (hrun : s.bindPath path = .ok s') :
    Renders imported s' (Walk.path s.rootVar s.selection.shared placed path) ∧
      s'.selection = s.selection ∧ s'.rootVar = s.rootVar := by
  obtain ⟨o, ho⟩ := hpath
  obtain ⟨s₁, p, hsteps, rfl⟩ := Scope.bindPath_eq_ok hrun
  have hstart : Tracks imported o s ⟨none, none, false⟩ ⟨placed, s.rootVar, false⟩ :=
    ⟨h, rfl, .inl rfl, by simp, .inr rfl⟩
  obtain ⟨htracks, hselection, hroot⟩ := hstart.foldlM ho hsteps
  refine ⟨htracks.renders, ?_, ?_⟩
  · rw [Scope.flush_selection, hselection]
  · rw [Scope.flush_rootVar, hroot]

theorem Renders.bindPaths {placed : List Placed} {paths : List PathSpec}
    (h : Renders imported s placed) (hpaths : ∀ path ∈ paths, path.Uniform)
    (hrun : paths.foldlM Scope.bindPath s = .ok s') :
    Renders imported s' (paths.foldl (Walk.path s.rootVar s.selection.shared) placed) ∧
      s'.selection = s.selection ∧ s'.rootVar = s.rootVar := by
  induction paths generalizing s placed with
  | nil =>
    obtain rfl := pure_eq_ok.1 hrun
    exact ⟨h, rfl, rfl⟩
  | cons path rest ih =>
    rw [List.foldlM_cons] at hrun
    obtain ⟨s₁, hs₁, hrest⟩ := bind_eq_ok.1 hrun
    obtain ⟨h₁, hselection, hroot⟩ := h.bindPath (hpaths path List.mem_cons_self) hs₁
    obtain ⟨h', hselection', hroot'⟩ :=
      ih h₁ (fun path' hp => hpaths path' (List.mem_cons_of_mem path hp)) hrest
    rw [hselection, hroot] at h'
    exact ⟨h', hselection'.trans hselection, hroot'.trans hroot⟩

theorem Renders.start {selection : Selection} {imports : List String}
    (h : Scope.start selection imports = .ok s) :
    Renders (imports.contains selection.root.variableName) s [] ∧ s.selection = selection ∧
      s.rootVar = selection.root.variableName := by
  obtain ⟨declared, rfl, hdeclared⟩ := Scope.start_eq_ok h
  refine ⟨⟨.nil, ?_, ?_, ?_, ?_, ?_, ?_⟩, rfl, rfl⟩
  · exact List.nodup_singleton _
  · intro v hv
    rw [hdeclared]
    exact .inl (List.mem_singleton.1 hv)
  · intro o
    cases o <;> rfl
  · intro o
    cases o <;> trivial
  · intro o
    cases o <;> cases imports.contains selection.root.variableName <;> rfl
  · exact id

end Paths

/-! ## What is matched -/

/-- Some fragments draw the new steps of some paths.

* One edge for each new step, from where its path stood.
* Every fragment starts at the root or at a variable that an earlier one reaches, and this is so
  already among the mandatory ones.
* The label of the root is written once, or never if the root is imported.
* No mandatory fragment goes through an optional step or one behind it. -/
structure Draws (imported : Bool) (root : NodeType) (placed : List Placed)
    (fs : List (Cypher.Pattern × Bool)) : Prop where
  edges : (fs.flatMap fun f => f.1.links).Perm (placed.map Placed.link)
  distinct : (root.variableName :: placed.map Placed.var).Nodup
  connected : Cypher.Connected [root.variableName] (fs.map Prod.fst)
  matchConnected : Cypher.Connected [root.variableName] ((fs.filter fun f => !f.2).map Prod.fst)
  labelled : (fs.flatMap fun f => f.1.nodes).filter
      (Cypher.NodePattern.isLabelled root.variableName) =
    if imported then [] else [⟨some root.variableName, some [root.label]⟩]
  mandatory : ∀ f ∈ fs, f.2 = false → ∀ e ∈ placed, e.optional = true →
    ∀ n ∈ f.1.nodes, n.var? ≠ some e.var

theorem Selection.fragments_matchClauses (scope : Scope) (early late : List Cypher.Formula) :
    (matchClauses scope early late).flatMap Cypher.Clause.fragments =
      (mandatoryPatterns scope).map (fun p => (p, false)) ++
        scope.optional.map fun p => (p, true) := by
  have hoptional : (scope.optional.map Cypher.Clause.optionalMatching).flatMap
      Cypher.Clause.fragments = scope.optional.map fun p => (p, true) := by
    rw [List.flatMap_map, List.map_eq_flatMap]
    rfl
  have hlate (fs : List Cypher.Formula) :
      (if fs.isEmpty then [] else [Cypher.Clause.lateFilter fs]).flatMap
        Cypher.Clause.fragments = [] := by
    split <;> rfl
  have hearly (fs : List Cypher.Formula) :
      (if fs.isEmpty then [] else [Cypher.Clause.filter fs]).flatMap
        Cypher.Clause.fragments = [] := by
    split <;> rfl
  unfold matchClauses
  by_cases hpatterns : (mandatoryPatterns scope).isEmpty = true
  · simp only [hpatterns, if_true]
    rw [List.flatMap_append, hoptional, hlate, List.isEmpty_iff.1 hpatterns]
    simp
  · simp only [hpatterns, Bool.false_eq_true, if_false, List.cons_append]
    rw [List.flatMap_cons, List.flatMap_append, List.flatMap_append, hearly, hoptional, hlate]
    simp [Cypher.Clause.fragments]

namespace Renders

variable {imported : Bool} {scope : Scope} {placed : List Placed}

theorem links_mandatoryPatterns (h : Renders imported scope placed) :
    (Selection.mandatoryPatterns scope).flatMap Cypher.Pattern.links =
      (Placed.ofKind false placed).map Placed.link := by
  have hlinks := h.links false
  unfold Selection.mandatoryPatterns
  split
  · exact hlinks
  · exact hlinks

theorem connected_mandatoryPatterns (h : Renders imported scope placed) :
    Cypher.Connected [scope.rootVar] (Selection.mandatoryPatterns scope) := by
  have hconnected := h.connected false
  unfold Selection.mandatoryPatterns
  split
  · exact hconnected
  · exact ⟨⟨scope.rootVar, List.mem_singleton_self _, rfl⟩, hconnected⟩

theorem labelled_mandatoryPatterns (h : Renders imported scope placed) :
    ((Selection.mandatoryPatterns scope).flatMap Cypher.Pattern.nodes).filter
        (Cypher.NodePattern.isLabelled scope.rootVar) =
      if imported then [] else [⟨some scope.rootVar, some [scope.selection.root.label]⟩] := by
  have hlabelled := h.labelled false
  unfold Selection.mandatoryPatterns
  by_cases hroot : scope.rootLabelled = true
  · rw [if_pos hroot]
    refine hlabelled.trans ?_
    cases imported <;> simp [hroot]
  · have himported : imported = false := Bool.eq_false_iff.2 fun htrue => hroot (h.imported htrue)
    rw [if_neg hroot, List.flatMap_cons, List.filter_append]
    refine (congrArg (_ ++ ·) hlabelled).trans ?_
    simp [hroot, himported, Scope.rootPattern, Cypher.NodePattern.isLabelled]

/-- The mandatory patterns go through the root and mandatory steps only. -/
theorem var_mandatoryPatterns (h : Renders imported scope placed) {p : Cypher.Pattern}
    (hp : p ∈ Selection.mandatoryPatterns scope) {n : Cypher.NodePattern} (hn : n ∈ p.nodes) :
    n.var? = some scope.rootVar ∨ ∃ e ∈ Placed.ofKind false placed, n.var? = some e.var := by
  have hlinks := h.links_mandatoryPatterns
  rw [Cypher.Pattern.nodes_eq] at hn
  rcases List.mem_cons.1 hn with rfl | hn
  · obtain ⟨v, hv, hstart⟩ := h.connected_mandatoryPatterns.start_mem hp
    rw [Placed.reached_of_links hlinks] at hv
    rcases List.mem_append.1 hv with hv | hv
    · rw [List.mem_singleton.1 hv] at hstart
      exact .inl hstart
    · obtain ⟨e, he, rfl⟩ := List.mem_map.1 hv
      exact .inr ⟨e, he, hstart⟩
  · obtain ⟨l, hl, rfl⟩ := List.mem_map.1 hn
    have hl' : l ∈ (Placed.ofKind false placed).map Placed.link := by
      rw [← hlinks]
      exact List.mem_flatMap.2 ⟨p, hp, hl⟩
    obtain ⟨e, he, rfl⟩ := List.mem_map.1 hl'
    exact .inr ⟨e, he, rfl⟩

/-- What renders some new steps draws them, once the root's label is written. -/
theorem draws (h : Renders imported scope placed)
    (hroot : scope.rootVar = scope.selection.root.variableName) :
    Draws imported scope.selection.root placed
      ((Selection.mandatoryPatterns scope).map (fun p => (p, false)) ++
        scope.optional.map fun p => (p, true)) := by
  have hoptional : scope.optional.flatMap Cypher.Pattern.links =
      (Placed.ofKind true placed).map Placed.link := h.links true
  have hmandatory := h.connected_mandatoryPatterns
  have hdistinct := h.distinct
  refine ⟨?_, ?_, ?_, ?_, ?_, ?_⟩
  · rw [List.flatMap_append, List.flatMap_map, List.flatMap_map, hoptional,
      h.links_mandatoryPatterns, ← List.map_append]
    refine List.Perm.map _ ?_
    have hkinds := List.filter_append_perm (fun e : Placed => e.optional == false) placed
    refine List.Perm.trans (List.Perm.of_eq ?_) hkinds
    refine congrArg (_ ++ ·) (List.filter_congr fun e _ => ?_)
    cases e.optional <;> rfl
  · rw [← hroot]
    exact hdistinct
  · have hreached := Placed.reached_of_links h.links_mandatoryPatterns
    have hfirst : ((Selection.mandatoryPatterns scope).map (fun p => (p, false))).map Prod.fst =
        Selection.mandatoryPatterns scope := by
      rw [List.map_map]
      exact List.map_id _
    have hsecond : (scope.optional.map (fun p => (p, true))).map Prod.fst = scope.optional := by
      rw [List.map_map]
      exact List.map_id _
    rw [← hroot, List.map_append, hfirst, hsecond, Cypher.Connected.append_iff, hreached]
    exact ⟨hmandatory, h.connected true⟩
  · have hfilter : (((Selection.mandatoryPatterns scope).map (fun p => (p, false)) ++
        scope.optional.map fun p => (p, true)).filter fun f => !f.2).map Prod.fst =
          Selection.mandatoryPatterns scope := by
      simp [List.filter_append, List.filter_map, Function.comp_def]
    rw [hfilter, ← hroot]
    exact hmandatory
  · rw [List.flatMap_append, List.flatMap_map, List.flatMap_map, List.filter_append, ← hroot]
    have hunlabelled := h.labelled true
    simp only [Bool.not_true, Bool.false_and, Bool.false_eq_true, if_false] at hunlabelled
    refine (congrArg (_ ++ ·) hunlabelled).trans ?_
    rw [List.append_nil]
    exact h.labelled_mandatoryPatterns
  · rintro f hf hflag e he hopt n hn hvar
    have hp : f.1 ∈ Selection.mandatoryPatterns scope := by
      rcases List.mem_append.1 hf with hf | hf
      · obtain ⟨p, hp, rfl⟩ := List.mem_map.1 hf
        exact hp
      · obtain ⟨p, hp, rfl⟩ := List.mem_map.1 hf
        cases hflag
    obtain ⟨hfresh, hnodup⟩ := List.nodup_cons.1 hdistinct
    obtain hroot' | ⟨e', he', hvar'⟩ := h.var_mandatoryPatterns hp hn
    · rw [hvar] at hroot'
      rw [← Option.some.inj hroot'] at hfresh
      exact hfresh (List.mem_map_of_mem he)
    · obtain ⟨he', hmandatory'⟩ := Placed.mem_ofKind.1 he'
      rw [hvar] at hvar'
      obtain rfl := List.inj_on_of_nodup_map hnodup he he' (Option.some.inj hvar')
      rw [hopt] at hmandatory'
      cases hmandatory'

end Renders

/-- What draws well-named steps can be read. -/
theorem Draws.legible {imported : Bool} {root : NodeType} {placed : List Placed}
    {fs : List (Cypher.Pattern × Bool)} (h : Draws imported root placed fs) (hroot : root.Named)
    (hplaced : ∀ e ∈ placed, e.Named) : ∀ f ∈ fs, f.1.Legible := by
  have hdrawn : ∀ l ∈ fs.flatMap fun f => f.1.links, ∃ e ∈ placed, e.link = l := fun l hl =>
    List.mem_map.1 (h.edges.mem_iff.1 hl)
  intro f hf
  refine Cypher.Pattern.Legible.of_links ?_ fun l hl => ?_
  · obtain ⟨v, hv, hstart⟩ := h.connected.start_mem (List.mem_map_of_mem hf)
    refine ⟨v, hstart, ?_⟩
    rcases List.mem_append.1 hv with hv | hv
    · rw [List.mem_singleton.1 hv]
      exact hroot.variableName
    · obtain ⟨p, hp, hv⟩ := List.mem_flatMap.1 hv
      obtain ⟨l, hl, hv⟩ := List.mem_filterMap.1 hv
      obtain ⟨f', hf', rfl⟩ := List.mem_map.1 hp
      obtain ⟨e, he, rfl⟩ := hdrawn l (List.mem_flatMap.2 ⟨f', hf', hl⟩)
      rw [← Option.some.inj hv]
      exact (hplaced e he).var
  · obtain ⟨e, he, rfl⟩ := hdrawn l (List.mem_flatMap.2 ⟨f, hf, hl⟩)
    obtain ⟨hvar, hedge⟩ := hplaced e he
    exact ⟨⟨⟨_, rfl, hedge⟩, rfl⟩, ⟨_, rfl, hvar⟩⟩

theorem Cypher.fragments_of_narrows {c : Cypher.Clause} (h : c.narrows = false) :
    c.fragments = [] := by
  cases c <;> first | rfl | cases h

/-- The clauses of a plan match the patterns of a scope that renders the new steps of its paths and
of the hidden paths of its filters, and none of them matches nothing. -/
theorem QueryPlan.renders_compilePlan {r : Registry} {p : QueryPlan} {space : String}
    {imports : List String} {ending : Ending} {clauses : List Cypher.Clause}
    {shape : ResultShape} {b b' : Binder}
    (hpaths : ∀ path ∈ p.selection.paths, path.Uniform)
    (hrun : compilePlan r space imports ending p b = .ok ((clauses, shape), b')) :
    (∀ c ∈ clauses, c ≠ .matching []) ∧ ∃ hidden scope, p.selection.filterPaths r = .ok hidden ∧
      Renders (imports.contains p.root.variableName) scope
        (place p.root.variableName p.selection.shared (p.selection.paths ++ hidden)) ∧
      scope.selection = p.selection ∧ scope.rootVar = p.root.variableName ∧
      clauses.flatMap Cypher.Clause.fragments =
        (Selection.mandatoryPatterns scope).map (fun p => (p, false)) ++
          scope.optional.map fun p => (p, true) := by
  obtain ⟨scope, matched, b₁, others, hscope, hmatched, rfl, hothers⟩ := compilePlan_eq_matched hrun
  obtain ⟨early, late, rfl⟩ := Selection.exists_matchClauses hmatched
  obtain ⟨scope₁, hidden, hstart, _, hhidden, hbound⟩ := Selection.scope_eq_ok hscope
  have huniform : ∀ path ∈ p.selection.paths ++ hidden, path.Uniform := by
    intro path hpath
    rcases List.mem_append.1 hpath with hpath | hpath
    · exact hpaths path hpath
    · exact Selection.uniform_filterPaths hhidden path hpath
  obtain ⟨hrenders, hselection₁, hroot₁⟩ := Renders.start hstart
  obtain ⟨hrenders, hselection, hroot⟩ := hrenders.bindPaths huniform hbound
  rw [hselection₁] at hrenders hselection
  rw [hroot₁] at hrenders hroot
  refine ⟨fun c hc => ?_, hidden, scope, hhidden, hrenders, hselection, hroot, ?_⟩
  · rcases List.mem_append.1 hc with hc | hc
    · obtain ⟨hne, rfl⟩ | ⟨_, _, rfl⟩ | rfl | rfl | rfl := Selection.mem_matchClauses hc
      · exact fun h => hne (Cypher.Clause.matching.inj h)
      all_goals exact Cypher.Clause.noConfusion
    · rintro rfl
      exact Bool.noConfusion (hothers _ hc)
  · have hnone : others.flatMap Cypher.Clause.fragments = [] :=
      List.flatMap_eq_nil_iff.2 fun c hc => Cypher.fragments_of_narrows (hothers c hc)
    rw [List.flatMap_append, hnone, List.append_nil, Selection.fragments_matchClauses]

/-- The clauses of a plan draw the new steps of its paths and of the hidden paths of its filters,
and none of them matches nothing. -/
theorem QueryPlan.draws_compilePlan {r : Registry} {p : QueryPlan} {space : String}
    {imports : List String} {ending : Ending} {clauses : List Cypher.Clause}
    {shape : ResultShape} {b b' : Binder}
    (hpaths : ∀ path ∈ p.selection.paths, path.Uniform)
    (hrun : compilePlan r space imports ending p b = .ok ((clauses, shape), b')) :
    (∀ c ∈ clauses, c ≠ .matching []) ∧ ∃ hidden, p.selection.filterPaths r = .ok hidden ∧
      Draws (imports.contains p.root.variableName) p.root
        (place p.root.variableName p.selection.shared (p.selection.paths ++ hidden))
        (clauses.flatMap Cypher.Clause.fragments) := by
  obtain ⟨hne, hidden, scope, hhidden, hrenders, hselection, hroot, hfragments⟩ :=
    renders_compilePlan hpaths hrun
  have hdraws := hrenders.draws (by rw [hroot, hselection]; rfl)
  rw [hselection, ← hfragments] at hdraws
  exact ⟨hne, hidden, hhidden, hdraws⟩

/-- New steps that are neither optional nor behind an optional one are drawn by a mandatory
pattern. -/
theorem QueryPlan.mandatory_compilePlan {r : Registry} {p : QueryPlan} {space : String}
    {imports : List String} {ending : Ending} {clauses : List Cypher.Clause}
    {shape : ResultShape} {b b' : Binder} {hidden : List PathSpec} {e : Placed}
    (hpaths : ∀ path ∈ p.selection.paths, path.Uniform)
    (hrun : compilePlan r space imports ending p b = .ok ((clauses, shape), b'))
    (hhidden : p.selection.filterPaths r = .ok hidden)
    (he : e ∈ place p.root.variableName p.selection.shared (p.selection.paths ++ hidden))
    (hmandatory : e.optional = false) :
    ∃ f ∈ clauses.flatMap Cypher.Clause.fragments, f.2 = false ∧ e.link ∈ f.1.links := by
  obtain ⟨_, hidden', scope, hhidden', hrenders, _, _, hfragments⟩ :=
    renders_compilePlan hpaths hrun
  cases hhidden.symm.trans hhidden'
  have hlink : e.link ∈ (Selection.mandatoryPatterns scope).flatMap Cypher.Pattern.links := by
    rw [hrenders.links_mandatoryPatterns]
    exact List.mem_map_of_mem (Placed.mem_ofKind.2 ⟨he, hmandatory⟩)
  obtain ⟨pattern, hpattern, hlink⟩ := List.mem_flatMap.1 hlink
  refine ⟨(pattern, false), ?_, rfl, hlink⟩
  rw [hfragments]
  exact List.mem_append_left _ (List.mem_map_of_mem hpattern)

/-- The patterns of a statement, read back as chains of edges from the text of its clauses, have
exactly one edge for every new step of the plan's paths, the hidden ones of its filters included.

The plan stands on its own or is spliced into another one that hands it `imports`. -/
theorem QueryPlan.patterns_draw_new_steps {r₀ r : Registry} {root : String} {p₀ p : QueryPlan}
    {history : List (Registry × PlanCall)} {space : String} {imports : List String}
    {ending : Ending} {clauses : List Cypher.Clause} {shape : ResultShape} {b b' : Binder}
    (hr₀ : r₀.Reachable) (hr : r.Reachable) (hhistory : ∀ c ∈ history, c.1.Reachable)
    (hnew : QueryPlan.new r₀ root = .ok p₀) (hcalls : p₀.calls history = .ok p)
    (hrun : compilePlan r space imports ending p b = .ok ((clauses, shape), b')) :
    ∃ hidden fragments, p.selection.filterPaths r = .ok hidden ∧
      Cypher.readMatches clauses = some fragments ∧
      Draws (imports.contains p.root.variableName) p.root
        (place p.root.variableName p.selection.shared (p.selection.paths ++ hidden)) fragments := by
  obtain ⟨hne, hidden, hhidden, hdraws⟩ := draws_compilePlan (uniform_calls hnew hcalls) hrun
  have hnamed : p.selection.Named :=
    (Selection.named_of_new hr₀.named hnew).calls (fun c hc => (hhistory c hc).named) hcalls
  have hpaths : ∀ path ∈ p.selection.paths ++ hidden, path.Named := by
    intro path hpath
    rcases List.mem_append.1 hpath with hpath | hpath
    · exact hnamed.paths path hpath
    · exact Selection.named_filterPaths hr.named hhidden path hpath
  have hlegible := hdraws.legible hnamed.root (named_place hpaths)
  exact ⟨hidden, _, hhidden, Cypher.readMatches_eq hne hlegible, hdraws⟩

/-- A shared mandatory hop, an optional path that goes on from it, a path of its own, and a filter
on hops that no path declares. -/
def Sample.traversed (r : Registry) : List (Registry × PlanCall) :=
  [(r, .traverse "suppliers" ⟨some "s", false, true, true⟩ .fetch),
    (r, .share ["suppliers"]),
    (r, .traverse "suppliers__country__coffees" ⟨none, true, true, true⟩ .fetch),
    (r, .traverse "suppliers__country" ⟨none, false, false, false⟩ .fetch),
    (r, .filter (named ["suppliers", "country", "coffees", "suppliers"] "a"))]

theorem Sample.compiles_traversed :
    ∃ r p₀ p c, Registry.Reachable r ∧ (∀ call ∈ Sample.traversed r, call.1.Reachable) ∧
      QueryPlan.new r "Coffee" = .ok p₀ ∧ p₀.calls (Sample.traversed r) = .ok p ∧
      p.compile r = .ok c := by
  have hrun : (do
      let r ← Sample.registered
      let p₀ ← QueryPlan.new r "Coffee"
      let p ← p₀.calls (Sample.traversed r)
      let c ← p.compile r
      pure (r, c) : Except Halt _).isOk = true := by
    decide +kernel
  obtain ⟨_, hrun⟩ := exists_eq_ok hrun
  obtain ⟨r, hr, hrun⟩ := lift_bind_eq_ok.1 hrun
  obtain ⟨p₀, hnew, hrun⟩ := lift_bind_eq_ok.1 hrun
  obtain ⟨p, hcalls, hrun⟩ := lift_bind_eq_ok.1 hrun
  obtain ⟨c, hcompile, _⟩ := bind_eq_ok.1 hrun
  have hreachable := Sample.reachable_registered hr
  refine ⟨r, p₀, p, c, hreachable, ?_, hnew, hcalls, hcompile⟩
  simp [Sample.traversed, hreachable]

theorem QueryPlan.patterns_draw_new_steps_traversed :
    ∃ r p₀ p clauses shape b' hidden fragments, Registry.Reachable r ∧
      QueryPlan.new r "Coffee" = .ok p₀ ∧ p₀.calls (Sample.traversed r) = .ok p ∧
      compilePlan r "" [] .result p .empty = .ok ((clauses, shape), b') ∧
      p.selection.filterPaths r = .ok hidden ∧ Cypher.readMatches clauses = some fragments ∧
      Draws false p.root
        (place p.root.variableName p.selection.shared (p.selection.paths ++ hidden)) fragments := by
  have hrun : (do
      let r ← Sample.registered
      let p₀ ← QueryPlan.new r "Coffee"
      let p ← p₀.calls (Sample.traversed r)
      let run ← compilePlan r "" [] .result p .empty
      pure (r, run) : Except Halt _).isOk = true := by
    decide +kernel
  obtain ⟨_, hrun⟩ := exists_eq_ok hrun
  obtain ⟨r, hr, hrun⟩ := lift_bind_eq_ok.1 hrun
  obtain ⟨p₀, hnew, hrun⟩ := lift_bind_eq_ok.1 hrun
  obtain ⟨p, hcalls, hrun⟩ := lift_bind_eq_ok.1 hrun
  obtain ⟨⟨⟨clauses, shape⟩, b'⟩, hrun, _⟩ := bind_eq_ok.1 hrun
  have hreachable := Sample.reachable_registered hr
  have hhistory : ∀ c ∈ Sample.traversed r, c.1.Reachable := by
    simp [Sample.traversed, hreachable]
  obtain ⟨hidden, fragments, hhidden, hread, hdraws⟩ :=
    QueryPlan.patterns_draw_new_steps hreachable hreachable hhistory hnew hcalls hrun
  exact ⟨r, p₀, p, clauses, shape, b', hidden, fragments, hreachable, hnew, hcalls, hrun, hhidden,
    hread, hdraws⟩

end GraphMapper
