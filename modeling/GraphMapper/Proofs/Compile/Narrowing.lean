import GraphMapper.Proofs.Compile.Counts
import GraphMapper.Proofs.Plan.Checked

/-!
# Filtering, sorting and paging

A plan that is filtered, sorted or paged further returns what it returned
before, in the same columns (`QueryPlan.calls_keep_returned`).

Binding the paths of a plan reads nothing of its selection but the root and what
is shared (`Scope.selecting`), so both plans bind the paths of the first one
alike.  The second then binds the paths that its new filters need, and its scope
extends that of the first (`Scope.Extends`): whatever is found in a scope is
found unchanged in one that extends it, and the bindings that come on top return
nothing.
-/

namespace GraphMapper

/-! ## Binding paths for another selection -/

namespace Scope

/-- A scope of another selection. -/
def selecting (s : Scope) (t : Selection) : Scope := { s with selection := t }

/-- Selections that paths are bound for alike. -/
structure BoundAlike (s t : Selection) : Prop where
  root : t.root = s.root
  shared : t.shared = s.shared

variable {s s' : Scope} {t : Selection} {p p' : Progress} {hidden : Bool} {step : PathStep}

@[simp] theorem selecting_bindings : (s.selecting t).bindings = s.bindings := rfl

@[simp] theorem selecting_rootVar : (s.selecting t).rootVar = s.rootVar := rfl

@[simp] theorem selecting_rootLabelled : (s.selecting t).rootLabelled = s.rootLabelled := rfl

@[simp] theorem selecting_declared : (s.selecting t).declared = s.declared := rfl

theorem flush_selecting (x? : Option (Cypher.Pattern × Bool)) :
    (s.selecting t).flush x? = (s.flush x?).selecting t := by
  unfold flush
  split <;> rfl

theorem startPattern_selecting (h : BoundAlike s.selection t) (at? : Option Nat) (o : Bool) :
    (s.selecting t).startPattern at? o =
      ((s.startPattern at? o).1, (s.startPattern at? o).2.selecting t) := by
  have hroot : (s.selecting t).rootPattern = s.rootPattern := by
    unfold rootPattern
    rw [show (s.selecting t).selection.root = s.selection.root from h.root, selecting_rootVar]
  unfold startPattern
  rw [hroot, selecting_bindings, selecting_rootLabelled, selecting_rootVar]
  cases at?.bind (s.bindings[·]?) with
  | some b => rfl
  | none => cases !o && !s.rootLabelled <;> rfl

theorem openPattern_selecting (h : BoundAlike s.selection t) (o : Bool) :
    (s.selecting t).openPattern p o =
      ((s.openPattern p o).1, (s.openPattern p o).2.selecting t) := by
  unfold openPattern
  split
  · split
    · rfl
    · rw [flush_selecting]
      refine startPattern_selecting ?_ p.at? o
      rwa [flush_selection]
  · exact startPattern_selecting h p.at? o

theorem declare_selecting {name : String} (hrun : s.declare name = .ok s') :
    (s.selecting t).declare name = .ok (s'.selecting t) := by
  obtain ⟨hfresh, rfl⟩ := declare_eq_ok hrun
  unfold declare
  rw [selecting_declared, if_neg (by rwa [List.contains_iff_mem])]
  rfl

/-- A new step is bound alike. -/
theorem bindNew_selecting (h : BoundAlike s.selection t)
    (hrun : s.bindNew p step hidden = .ok (s', p')) :
    (s.selecting t).bindNew p step hidden = .ok (s'.selecting t, p') := by
  simp only [bindNew] at hrun ⊢
  rw [openPattern_selecting h]
  obtain ⟨var, hvar, hrun⟩ := bind_eq_ok.1 hrun
  obtain ⟨s₁, hs₁, hrun⟩ := lift_bind_eq_ok.1 hrun
  obtain ⟨s₂, hs₂, hrun⟩ := lift_bind_eq_ok.1 hrun
  obtain ⟨rfl, rfl⟩ := Prod.mk.inj (pure_eq_ok.1 hrun)
  exact bind_eq_ok.2 ⟨var, hvar, lift_bind_eq_ok.2 ⟨_, declare_selecting hs₁,
    lift_bind_eq_ok.2 ⟨_, declare_selecting hs₂, rfl⟩⟩⟩

/-- A step is bound alike, and leaves the selection as it is. -/
theorem bindStep_selecting (h : BoundAlike s.selection t)
    (hrun : bindStep hidden (s, p) step = .ok (s', p')) :
    bindStep hidden (s.selecting t, p) step = .ok (s'.selecting t, p') ∧
      s'.selection = s.selection := by
  have hshared (b : Binding) : (s.selecting t).isShared b = s.isShared b := by
    unfold isShared
    rw [show (s.selecting t).selection.shared = s.selection.shared from h.shared]
  have hreusable : (s.selecting t).reusable? step hidden = s.reusable? step hidden := by
    unfold reusable?
    simp only [hshared, selecting_bindings]
  unfold bindStep at hrun ⊢
  simp only [hreusable]
  cases hfound : s.reusable? step hidden with
  | some i =>
    simp only [hfound] at hrun ⊢
    obtain ⟨rfl, rfl⟩ := Prod.mk.inj (Except.ok.inj hrun)
    rw [flush_selecting, flush_selection]
    exact ⟨rfl, rfl⟩
  | none =>
    simp only [hfound] at hrun ⊢
    obtain ⟨_, s₁, _, _, hopen, _, _, _, _, hs', _⟩ := bindNew_eq_ok hrun
    obtain ⟨_, _, _, hselection⟩ := s.openPattern_keeps p (step.optional || p.afterOptional)
    rw [hopen] at hselection
    exact ⟨bindNew_selecting h hrun, by rw [hs']; exact hselection⟩

theorem foldlM_bindStep_selecting {steps : List PathStep} (h : BoundAlike s.selection t)
    (hrun : steps.foldlM (bindStep hidden) (s, p) = .ok (s', p')) :
    steps.foldlM (bindStep hidden) (s.selecting t, p) = .ok (s'.selecting t, p') ∧
      s'.selection = s.selection := by
  induction steps generalizing s p with
  | nil =>
    obtain ⟨rfl, rfl⟩ := Prod.mk.inj (pure_eq_ok.1 hrun)
    exact ⟨rfl, rfl⟩
  | cons step rest ih =>
    rw [List.foldlM_cons] at hrun ⊢
    obtain ⟨⟨s₁, p₁⟩, hstep, hrest⟩ := bind_eq_ok.1 hrun
    obtain ⟨hstep', hselection⟩ := bindStep_selecting h hstep
    obtain ⟨hrest', hselection'⟩ := ih (by rwa [hselection]) hrest
    exact ⟨bind_eq_ok.2 ⟨_, hstep', hrest'⟩, hselection'.trans hselection⟩

/-- Paths are bound alike, and leave the selection as it is. -/
theorem bindPaths_selecting {paths : List PathSpec} (h : BoundAlike s.selection t)
    (hrun : paths.foldlM bindPath s = .ok s') :
    paths.foldlM bindPath (s.selecting t) = .ok (s'.selecting t) ∧
      s'.selection = s.selection := by
  induction paths generalizing s with
  | nil =>
    obtain rfl := pure_eq_ok.1 hrun
    exact ⟨rfl, rfl⟩
  | cons path rest ih =>
    rw [List.foldlM_cons] at hrun ⊢
    obtain ⟨s₁, hs₁, hrest⟩ := bind_eq_ok.1 hrun
    obtain ⟨s₂, p, hsteps, rfl⟩ := bindPath_eq_ok hs₁
    obtain ⟨hsteps', hselection⟩ := foldlM_bindStep_selecting h hsteps
    obtain ⟨hrest', hselection'⟩ := ih (by rwa [flush_selection, hselection]) hrest
    rw [← flush_selecting] at hrest'
    refine ⟨bind_eq_ok.2 ⟨_, bind_eq_ok.2 ⟨_, hsteps', rfl⟩, hrest'⟩, ?_⟩
    rw [hselection', flush_selection, hselection]

theorem start_selecting {u : Selection} {imports : List String} (h : BoundAlike u t)
    (hrun : start u imports = .ok s) : start t imports = .ok (s.selecting t) ∧ s.selection = u := by
  have hdeclare {names : List String} {s s' : Scope} (hrun : names.foldlM declare s = .ok s') :
      names.foldlM declare (s.selecting t) = .ok (s'.selecting t) := by
    induction names generalizing s with
    | nil =>
      obtain rfl := pure_eq_ok.1 hrun
      rfl
    | cons name rest ih =>
      rw [List.foldlM_cons] at hrun ⊢
      obtain ⟨s₁, hs₁, hrest⟩ := bind_eq_ok.1 hrun
      exact bind_eq_ok.2 ⟨_, declare_selecting hs₁, ih hrest⟩
  obtain ⟨_, hs, _⟩ := start_eq_ok hrun
  refine ⟨?_, by rw [hs]⟩
  simp only [start] at hrun ⊢
  rw [h.root]
  obtain ⟨s₁, himports, hrun⟩ := bind_eq_ok.1 hrun
  refine bind_eq_ok.2 ⟨_, hdeclare himports, ?_⟩
  split at hrun
  · next himported =>
    obtain rfl := pure_eq_ok.1 hrun
    rw [if_pos himported]
    rfl
  · next himported =>
    rw [if_neg himported]
    exact declare_selecting hrun

end Scope

/-! ## Scopes that extend others -/

/-- A binding that returns nothing and has no name of its own. -/
structure Binding.IsHidden (b : Binding) : Prop where
  alias? : b.alias? = none
  includeNode : b.includeNode = false
  includeEdge : b.includeEdge = false

/-- A scope like another one, but for more names that are declared, hidden bindings on top, and what
its selection says apart from the root. -/
structure Scope.Extends (s s' : Scope) : Prop where
  root : s'.selection.root = s.selection.root
  rootVar : s'.rootVar = s.rootVar
  declared : s.declared ⊆ s'.declared
  extra : s'.extra = s.extra
  transformed? : s'.transformed? = s.transformed?
  bindings : ∃ hidden, s'.bindings = s.bindings ++ hidden ∧ ∀ b ∈ hidden, b.IsHidden

namespace Scope

section Hidden

variable {s s₁ s₂ : Scope} {t : Selection} {p p' : Progress} {step : PathStep}

theorem extends_selecting (h : t.root = s.selection.root) : s.Extends (s.selecting t) :=
  ⟨h, rfl, List.Subset.refl _, rfl, rfl, [], (List.append_nil _).symm, nofun⟩

theorem Extends.flush (h : s.Extends s₁) (x? : Option (Cypher.Pattern × Bool)) :
    s.Extends (s₁.flush x?) := by
  unfold Scope.flush
  split <;> exact ⟨h.root, h.rootVar, h.declared, h.extra, h.transformed?, h.bindings⟩

/-- A step of a hidden path puts nothing but a hidden binding on top. -/
theorem Extends.bindStep (h : s.Extends s₁) (halias : step.alias? = none)
    (hrun : Scope.bindStep true (s₁, p) step = .ok (s₂, p')) : s.Extends s₂ := by
  unfold Scope.bindStep at hrun
  dsimp only at hrun
  split at hrun
  · obtain ⟨rfl, rfl⟩ := Prod.mk.inj (Except.ok.inj hrun)
    exact h.flush p.pattern?
  · obtain ⟨_, s₃, var, edgeVar, hopen, _, _, _, _, rfl, _⟩ := bindNew_eq_ok hrun
    obtain ⟨_, _, _, hs₃⟩ := s₁.openPattern_eq p (step.optional || p.afterOptional)
    rw [hopen] at hs₃
    dsimp only at hs₃
    subst hs₃
    obtain ⟨hidden, hbindings, hall⟩ := h.bindings
    refine ⟨h.root, h.rootVar, fun v hv => ?_, h.extra, h.transformed?,
      hidden ++ [newBinding step true var edgeVar p], ?_, fun b hb => ?_⟩
    · exact List.mem_append_left _ (List.mem_append_left _ (h.declared hv))
    · rw [← List.append_assoc, ← hbindings]
    · rcases List.mem_append.1 hb with hb | hb
      · exact hall b hb
      · rw [List.mem_singleton.1 hb]
        exact ⟨halias, Bool.and_false _, Bool.and_false _⟩

/-- A path that a filter needs puts nothing but hidden bindings on top. -/
theorem Extends.bindPath (h : s.Extends s₁) {path : PathSpec} (hhidden : path.hidden = true)
    (halias : ∀ step ∈ path.steps, step.alias? = none) (hrun : s₁.bindPath path = .ok s₂) :
    s.Extends s₂ := by
  obtain ⟨s₃, p, hsteps, rfl⟩ := bindPath_eq_ok hrun
  rw [hhidden] at hsteps
  have hextends : s.Extends s₃ :=
    foldlM_invariant (P := fun state : Scope × Progress => s.Extends state.1) h
      (fun step hstep _ _ hstate hrun => hstate.bindStep (halias step hstep) hrun) hsteps
  exact hextends.flush p.pattern?

end Hidden

/-! ## What is found in a scope -/

namespace Extends

variable {s s' : Scope} (h : s.Extends s')

include h

theorem find?_bindings {f : Binding → Bool} {b : Binding} (hb : s.bindings.find? f = some b) :
    s'.bindings.find? f = some b := by
  obtain ⟨hidden, hbindings, _⟩ := h.bindings
  rw [hbindings, List.find?_append, hb]
  rfl

/-- A key is the key of the same binding; hidden ones have no alias that could come before. -/
theorem bindingOfKey? {key : String} {b : Binding} (hb : s.bindingOfKey? key = some b) :
    s'.bindingOfKey? key = some b := by
  unfold Scope.bindingOfKey? at hb ⊢
  cases halias : s.bindings.find? fun b => b.alias? == some key with
  | some b' =>
    rw [halias] at hb
    rw [h.find?_bindings halias]
    exact hb
  | none =>
    rw [halias] at hb
    obtain ⟨hidden, hbindings, hall⟩ := h.bindings
    have hnone : s'.bindings.find? (fun b => b.alias? == some key) = none := by
      rw [hbindings, List.find?_append, halias, Option.none_or, List.find?_eq_none]
      intro b' hb'
      rw [(hall b' hb').alias?]
      exact Bool.false_ne_true
    rw [hnone]
    exact h.find?_bindings hb

theorem isVisible {name : String} (hname : s.isVisible name = true) : s'.isVisible name = true := by
  unfold Scope.isVisible at hname ⊢
  rw [h.extra, h.transformed?]
  simp only [Bool.or_eq_true, List.contains_iff_mem] at hname ⊢
  refine hname.imp_left fun hmem => ?_
  cases htransformed : s.transformed? with
  | some names =>
    rw [htransformed] at hmem
    exact hmem
  | none =>
    rw [htransformed] at hmem
    exact h.declared hmem

/-- A property that a reference names is stored under the same name. -/
theorem storageName {site : UseSite} {of : VarRef} {target : Cypher.Reference} {property : String}
    (hrun : s.reference site of = .ok target) :
    s'.storageName of property = s.storageName of property := by
  unfold Scope.storageName
  cases of with
  | root => rw [h.root]
  | name | property => rfl
  | node key | edge key =>
    rw [reference] at hrun
    split at hrun
    · next b hb _ => simp only [hb, h.bindingOfKey? hb]
    · cases hrun

/-- A reference is resolved alike. -/
theorem reference {site : UseSite} {of : VarRef} {target : Cypher.Reference}
    (hrun : s.reference site of = .ok target) : s'.reference site of = .ok target := by
  induction of generalizing target with
  | root =>
    rw [Scope.reference] at hrun ⊢
    rw [h.transformed?, h.rootVar]
    exact hrun
  | node key | edge key =>
    rw [Scope.reference] at hrun ⊢
    split at hrun
    · next b hb hplain => rw [h.bindingOfKey? hb, h.transformed?, hplain]; exact hrun
    · cases hrun
  | name name =>
    rw [Scope.reference] at hrun ⊢
    split at hrun
    · next hvisible => rw [if_pos (h.isVisible hvisible)]; exact hrun
    · cases hrun
  | property of name ih =>
    rw [Scope.reference] at hrun ⊢
    obtain ⟨_, hname, hrun⟩ := bind_eq_ok.1 hrun
    obtain ⟨inner, hinner, hrun⟩ := bind_eq_ok.1 hrun
    refine bind_eq_ok.2 ⟨_, hname, bind_eq_ok.2 ⟨inner, ih hinner, ?_⟩⟩
    rw [h.storageName hinner]
    exact hrun

theorem expr {e : Expr VarRef} {e' : Expr Cypher.Reference} (hrun : s.expr e = .ok e') :
    s'.expr e = .ok e' := by
  unfold Scope.expr at hrun ⊢
  induction e generalizing e' with
  | ref of =>
    obtain ⟨target, htarget, hrun⟩ := bind_eq_ok.1 hrun
    exact bind_eq_ok.2 ⟨target, h.reference htarget, hrun⟩
  | apply f arg ih =>
    obtain ⟨arg', harg, hrun⟩ := bind_eq_ok.1 hrun
    exact bind_eq_ok.2 ⟨arg', ih harg, hrun⟩

end Extends

end Scope

/-! ## What is returned -/

/-- A binding's parent comes before it. -/
def Scope.ParentsFirst (s : Scope) : Prop :=
  ∀ (i j : Nat) (b : Binding), s.bindings[i]? = some b → b.parent? = some j → j < i

namespace Scope.Extends

variable {s s' : Scope}

/-- The walk up the parents of a binding does not leave the bindings that come before it. -/
theorem returnedParent? (h : s.Extends s') (hfirst : s.ParentsFirst) {i fuel fuel' : Nat}
    (hi : i < s.bindings.length) (hfuel : i < fuel) (hfuel' : i < fuel') :
    s'.returnedParent? fuel' (some i) = s.returnedParent? fuel (some i) := by
  obtain ⟨hidden, hbindings, _⟩ := h.bindings
  induction i using Nat.strongRecOn generalizing fuel fuel' with
  | ind i ih =>
    obtain ⟨fuel, rfl⟩ := Nat.exists_eq_succ_of_ne_zero (Nat.ne_zero_of_lt hfuel)
    obtain ⟨fuel', rfl⟩ := Nat.exists_eq_succ_of_ne_zero (Nat.ne_zero_of_lt hfuel')
    have hb : s.bindings[i]? = some s.bindings[i] := List.getElem?_eq_getElem hi
    have hb' : s'.bindings[i]? = some s.bindings[i] := by
      rw [hbindings, List.getElem?_append_left hi, hb]
    rw [Scope.returnedParent?, Scope.returnedParent?, hb, hb']
    dsimp only
    split
    · rfl
    · cases hparent : s.bindings[i].parent? with
      | none => cases fuel <;> cases fuel' <;> rfl
      | some j =>
        have hj : j < i := hfirst i j _ hb hparent
        exact ih j hj (Nat.lt_trans hj hi) (Nat.lt_of_lt_of_le hj (Nat.le_of_lt_succ hfuel))
          (Nat.lt_of_lt_of_le hj (Nat.le_of_lt_succ hfuel'))

/-- The bindings return the same, and those on top nothing. -/
theorem bindingOutputs (h : s.Extends s') (hfirst : s.ParentsFirst) :
    s'.bindings.flatMap (Selection.bindingOutputs s') =
      s.bindings.flatMap (Selection.bindingOutputs s) := by
  obtain ⟨hidden, hbindings, hall⟩ := h.bindings
  have hnone : hidden.flatMap (Selection.bindingOutputs s') = [] := by
    refine List.flatMap_eq_nil_iff.2 fun b hb => ?_
    simp [Selection.bindingOutputs, (hall b hb).includeNode, (hall b hb).includeEdge]
  rw [hbindings, List.flatMap_append, hnone, List.append_nil]
  refine List.flatMap_congr fun b hb => ?_
  have hparent : s'.returnedParent? s'.bindings.length b.parent? =
      s.returnedParent? s.bindings.length b.parent? := by
    obtain ⟨i, hi⟩ := List.mem_iff_getElem?.1 hb
    have hlt := (List.getElem?_eq_some_iff.1 hi).1
    cases hj : b.parent? with
    | none => cases s.bindings.length <;> cases s'.bindings.length <;> rfl
    | some j =>
      have hj : j < s.bindings.length := Nat.lt_trans (hfirst i j b hi hj) hlt
      refine h.returnedParent? hfirst hj hj (Nat.lt_of_lt_of_le hj ?_)
      rw [hbindings, List.length_append]
      exact Nat.le_add_right _ _
  simp only [Selection.bindingOutputs, hparent]

end Scope.Extends

namespace Selection

variable {s t : Selection} {scope scope' : Scope}

/-- Selections that return the same where paths and subqueries are bound alike. -/
structure ReturnsAlike (s t : Selection) : Prop where
  mode? : t.mode? = s.mode?
  annotations : t.annotations = s.annotations
  transforms : t.transforms = s.transforms

theorem annotated_alike (h : scope.Extends scope') {a : Annotation} {o : Output}
    (ho : annotated scope a = .ok o) : annotated scope' a = .ok o := by
  obtain ⟨e, he, ho⟩ := bind_eq_ok.1 ho
  exact bind_eq_ok.2 ⟨e, h.expr he, ho⟩

/-- A plan of its own returns the same. -/
theorem planOutputs_alike (hst : ReturnsAlike s t) (h : scope.Extends scope')
    (hfirst : scope.ParentsFirst) {taken : List String} {outputs : List Output}
    (hrun : s.planOutputs scope taken = .ok outputs) :
    t.planOutputs scope' taken = .ok outputs := by
  unfold planOutputs transformReturns at hrun ⊢
  rw [hst.annotations, hst.transforms, h.transformed?, h.rootVar, h.bindingOutputs hfirst]
  obtain ⟨annotations, hannotations, hrun⟩ := bind_eq_ok.1 hrun
  exact bind_eq_ok.2 ⟨annotations, mapM_eq_ok_of_imp (fun _ _ => annotated_alike h) hannotations, hrun⟩

/-- A subquery hands out the same. -/
theorem handedOut_alike (hst : ReturnsAlike s t) (h : scope.Extends scope') {name : String}
    {o : Output} (hrun : s.handedOut scope name = .ok o) : t.handedOut scope' name = .ok o := by
  unfold handedOut at hrun ⊢
  rw [hst.annotations]
  split at hrun
  · exact annotated_alike h hrun
  · split at hrun
    · next hvisible => rwa [if_pos (h.isVisible hvisible)]
    · cases hrun

theorem shapeOf_alike (hst : ReturnsAlike s t) (h : scope.Extends scope') (own : Bool)
    (outputs : List Output) : t.shapeOf scope' own outputs = s.shapeOf scope own outputs := by
  unfold shapeOf
  rw [h.transformed?, h.rootVar, hst.mode?]

/-- A transform carries the same forward. -/
theorem extends_compileTransforms (h : scope.Extends scope') {ts : List Transform}
    {stages stages' : List Cypher.Clause} {scope₁ scope₁' : Scope}
    (hrun : compileTransforms scope ts = .ok (stages, scope₁))
    (hrun' : compileTransforms scope' ts = .ok (stages', scope₁')) : scope₁.Extends scope₁' := by
  induction ts generalizing scope scope' stages stages' with
  | nil =>
    obtain ⟨_, rfl⟩ := compileTransforms_nil_eq_ok hrun
    obtain ⟨_, rfl⟩ := compileTransforms_nil_eq_ok hrun'
    exact h
  | cons t rest ih =>
    obtain ⟨_, scope₂, _, hfirst, hrest, _⟩ := compileTransforms_cons_eq_ok hrun
    obtain ⟨_, scope₂', _, hfirst', hrest', _⟩ := compileTransforms_cons_eq_ok hrun'
    obtain ⟨_, _, _, rfl, _⟩ := compileTransform_eq_ok hfirst
    obtain ⟨_, _, _, rfl, _⟩ := compileTransform_eq_ok hfirst'
    refine ih ?_ hrest hrest'
    exact ⟨h.root, h.rootVar, h.declared, h.extra, rfl, h.bindings⟩

end Selection

section Subqueries

variable {r : Registry} {space space' : String} {scope scope' : Scope} {b b' b₁ b₁' : Binder}

theorem extends_takeReturns (h : scope.Extends scope') {names : List String}
    {scope₁ scope₁' : Scope} (hrun : takeReturns scope names = .ok scope₁)
    (hrun' : takeReturns scope' names = .ok scope₁') : scope₁.Extends scope₁' := by
  induction names generalizing scope scope' with
  | nil =>
    cases hrun
    cases hrun'
    exact h
  | cons name rest ih =>
    rw [takeReturns] at hrun hrun'
    split at hrun
    · cases hrun
    · split at hrun'
      · cases hrun'
      · refine ih ?_ hrun hrun'
        exact ⟨h.root, h.rootVar, h.declared, by rw [h.extra], h.transformed?, h.bindings⟩

theorem extends_compileSubqueries (h : scope.Extends scope') {number : Nat}
    {qs : List (Subquery QueryPlan)} {calls calls' : List Cypher.Clause} {scope₁ scope₁' : Scope}
    (hrun : compileSubqueries r space number scope qs b = .ok ((calls, scope₁), b₁))
    (hrun' : compileSubqueries r space number scope' qs b' = .ok ((calls', scope₁'), b₁')) :
    scope₁.Extends scope₁' := by
  induction qs generalizing number scope scope' calls calls' b b' with
  | nil =>
    obtain ⟨_, rfl, _⟩ := compileSubqueries_nil_eq_ok hrun
    obtain ⟨_, rfl, _⟩ := compileSubqueries_nil_eq_ok hrun'
    exact h
  | cons q rest ih =>
    obtain ⟨_, _, _, scope₂, _, _, _, htake, hrest, _⟩ := compileSubqueries_cons_eq_ok hrun
    obtain ⟨_, _, _, scope₂', _, _, _, htake', hrest', _⟩ := compileSubqueries_cons_eq_ok hrun'
    exact ih (extends_takeReturns h htake htake') hrest hrest'

end Subqueries

/-! ## Endings -/

namespace Cypher

/-- Whether a clause is a RETURN. -/
def Clause.isReturn : Clause → Bool
  | .returning _ => true
  | _ => false

/-- The RETURN of a statement, without those of the statements nested in it. -/
def returnOf (q : Query) : Query := q.filter Clause.isReturn

/-- Clauses that make rows return nothing. -/
theorem returnOf_append {front rest : Query} (hfront : ∀ c ∈ front, c.makesRows) :
    returnOf (front ++ rest) = returnOf rest := by
  rw [returnOf, List.filter_append, List.filter_eq_nil_iff.2, List.nil_append, returnOf]
  intro c hc
  have hrows := hfront c hc
  cases c <;> first | exact Bool.false_ne_true | cases hrows

end Cypher

namespace Selection

variable {s t : Selection} {scope scope' : Scope} {space : String} {b b' : Binder}

theorem returnOf_compileReturn {outputs : List Output} {clauses : List Cypher.Clause}
    (h : s.compileReturn scope space outputs b = .ok (clauses, b')) :
    Cypher.returnOf clauses = [.returning (outputs.map Prod.fst)] := by
  obtain ⟨_, _, order, page, _, _, rfl⟩ := compileReturn_eq_ok h
  cases order.isEmpty <;> cases page.isEmpty <;> rfl

/-- A plan ends with the same RETURN and the same shape. -/
theorem compileEnding_alike (hst : ReturnsAlike s t) (h : scope.Extends scope')
    (hfirst : scope.ParentsFirst) {taken : List String} {ending : Ending}
    {last last' : List Cypher.Clause} {shape shape' : ResultShape} {b₁ b₁' : Binder}
    (hrun : s.compileEnding scope space taken ending b = .ok ((last, shape), b₁))
    (hrun' : t.compileEnding scope' space taken ending b' = .ok ((last', shape'), b₁')) :
    shape' = shape ∧ ∃ items, Cypher.returnOf last = [.returning items] ∧
      Cypher.returnOf last' = [.returning items] := by
  cases ending with
  | result =>
    obtain ⟨outputs, houtputs, hreturn, rfl⟩ := compileEnding_result_eq_ok hrun
    obtain ⟨outputs', houtputs', hreturn', rfl⟩ := compileEnding_result_eq_ok hrun'
    obtain rfl := Except.ok.inj ((planOutputs_alike hst h hfirst houtputs).symm.trans houtputs')
    exact ⟨shapeOf_alike hst h true outputs, _, returnOf_compileReturn hreturn,
      returnOf_compileReturn hreturn'⟩
  | count =>
    obtain ⟨_, page, _, rfl, rfl⟩ := compileCount_eq_ok hrun
    obtain ⟨_, page', _, rfl, rfl⟩ := compileCount_eq_ok hrun'
    rw [hst.mode?, h.rootVar]
    exact ⟨rfl, _, rfl, rfl⟩
  | handOut names =>
    obtain ⟨outputs, houtputs, hreturn, rfl⟩ := compileEnding_handOut_eq_ok hrun
    obtain ⟨outputs', houtputs', hreturn', rfl⟩ := compileEnding_handOut_eq_ok hrun'
    have hsame := mapM_eq_ok_of_imp (fun _ _ => handedOut_alike hst h) houtputs
    obtain rfl := Except.ok.inj (hsame.symm.trans houtputs')
    exact ⟨shapeOf_alike hst h false outputs, _, returnOf_compileReturn hreturn,
      returnOf_compileReturn hreturn'⟩

end Selection

/-! ## Calls -/

/-- Whether a call only says which rows there are, and in which order. -/
def PlanCall.picksRows : PlanCall → Bool
  | filter _ | exclude _ | has _ _ | orderBy _ | skip _ | limit _ => true
  | traverse _ _ _ | share _ | annotate _ _ | transform _ | subquery _ _ _ => false

/-- A plan like another one, but for which rows it picks. -/
structure QueryPlan.Narrows (p q : QueryPlan) : Prop where
  subqueries : q.subqueries = p.subqueries
  paths : q.selection.paths = p.selection.paths
  bound : Scope.BoundAlike p.selection q.selection
  returned : Selection.ReturnsAlike p.selection q.selection
  conditions : p.selection.conditions <+: q.selection.conditions

namespace QueryPlan.Narrows

variable {r : Registry} {p q q' : QueryPlan}

theorem refl (p : QueryPlan) : p.Narrows p :=
  ⟨rfl, rfl, ⟨rfl, rfl⟩, ⟨rfl, rfl, rfl⟩, List.prefix_rfl⟩

/-- A filter is added behind those that are there. -/
theorem conditions_filter (s : Selection) (pred : Predicate) :
    s.conditions <+: Selection.conditions { s with
      predicate? := some (match s.predicate? with
        | some q => Predicate.all [q, pred]
        | none => pred) } := by
  unfold Selection.conditions
  cases s.predicate? with
  | none => exact List.nil_prefix
  | some q =>
    show q.conditions <+: (Predicate.all [q, pred]).conditions
    rw [Predicate.conditions_all]
    exact List.prefix_append q.conditions _

/-- A call that picks rows keeps what is bound and returned. -/
theorem call (h : p.Narrows q) {c : PlanCall} (hc : c.picksRows = true)
    (hrun : q.call r c = .ok q') : p.Narrows q' := by
  obtain ⟨hsubqueries, hpaths, hbound, hreturned, hconditions⟩ := h
  cases QueryPlan.does_of_call hrun with
  | filter | exclude =>
    exact ⟨hsubqueries, hpaths, ⟨hbound.root, hbound.shared⟩,
      ⟨hreturned.mode?, hreturned.annotations, hreturned.transforms⟩,
      hconditions.trans (conditions_filter _ _)⟩
  | has | orderBy | skip | limit =>
    exact ⟨hsubqueries, hpaths, ⟨hbound.root, hbound.shared⟩,
      ⟨hreturned.mode?, hreturned.annotations, hreturned.transforms⟩, hconditions⟩
  | traverse | share | annotate | transform | subquery => cases hc

/-- The hidden paths of the first plan come first, and the others have no aliases. -/
theorem filterPaths (h : p.Narrows q) {hidden hidden' : List PathSpec}
    (hrun : p.selection.filterPaths r = .ok hidden)
    (hrun' : q.selection.filterPaths r = .ok hidden') :
    ∃ added, hidden' = hidden ++ added ∧
      ∀ path ∈ added, path.hidden = true ∧ ∀ step ∈ path.steps, step.alias? = none := by
  obtain ⟨more, hmore⟩ := h.conditions
  unfold Selection.filterPaths at hrun hrun'
  rw [h.paths, h.bound.root] at hrun'
  change q.selection.conditions.foldlM _ [] = _ at hrun'
  rw [← hmore, List.foldlM_append] at hrun'
  obtain ⟨hidden₁, hfirst, hrest⟩ := bind_eq_ok.1 hrun'
  obtain rfl : hidden = hidden₁ := Except.ok.inj (hrun.symm.trans hfirst)
  refine foldlM_invariant (P := fun hidden' : List PathSpec => ∃ added, hidden' = hidden ++ added ∧
    ∀ path ∈ added, path.hidden = true ∧ ∀ step ∈ path.steps, step.alias? = none)
    ⟨[], (List.append_nil _).symm, nofun⟩ ?_ hrest
  rintro c _ _ hidden₂ ⟨added, rfl, hadded⟩ hstep
  dsimp only at hstep
  split at hstep
  · obtain rfl := Except.ok.inj hstep
    exact ⟨added, rfl, hadded⟩
  · obtain ⟨path, hpath, hstep⟩ := bind_eq_ok.1 hstep
    obtain rfl := pure_eq_ok.1 hstep
    refine ⟨added ++ [path], List.append_assoc .., fun path' hpath' => ?_⟩
    rcases List.mem_append.1 hpath' with hpath' | hpath'
    · exact hadded path' hpath'
    · rw [List.mem_singleton.1 hpath']
      exact PathSpec.alias?_forFilter hpath

/-- The scope extends that of the first plan. -/
theorem scope (h : p.Narrows q) {imports : List String} {scope scope' : Scope}
    (hrun : p.selection.scope r imports = .ok scope)
    (hrun' : q.selection.scope r imports = .ok scope') : scope.Extends scope' := by
  obtain ⟨scope₁, hidden, hstart, _, hhidden, hpaths⟩ := Selection.scope_eq_ok hrun
  obtain ⟨scope₁', hidden', hstart', _, hhidden', hpaths'⟩ := Selection.scope_eq_ok hrun'
  obtain ⟨added, rfl, hadded⟩ := h.filterPaths hhidden hhidden'
  obtain ⟨hstarted, hselection⟩ := Scope.start_selecting h.bound hstart
  obtain rfl := Except.ok.inj (hstarted.symm.trans hstart')
  have hbound : Scope.BoundAlike scope₁.selection q.selection := by
    rw [hselection]
    exact h.bound
  obtain ⟨hbinds, hselection'⟩ := Scope.bindPaths_selecting hbound hpaths
  rw [h.paths, ← List.append_assoc, List.foldlM_append] at hpaths'
  obtain ⟨scope₂, hscope₂, hrest⟩ := bind_eq_ok.1 hpaths'
  obtain rfl := Except.ok.inj (hbinds.symm.trans hscope₂)
  have hextends : scope.Extends (scope.selecting q.selection) :=
    Scope.extends_selecting (by rw [hselection', hselection, h.bound.root])
  exact foldlM_invariant hextends
    (fun path hpath _ _ hs hrun => hs.bindPath (hadded path hpath).1 (hadded path hpath).2 hrun)
    hrest

end QueryPlan.Narrows

/-- Filtering, sorting and paging a plan do not change what it returns: if the plan compiles before
and after, for its result or for its count, the shape and the RETURN are the same.  The paths that
the new filters need are bound after all others, under names of their own, and return nothing; so
whatever was bound before, and every annotation, keeps its variable. -/
theorem QueryPlan.calls_keep_returned {r : Registry} {p q : QueryPlan}
    {history : List (Registry × PlanCall)} {ending : Ending} {c c' : CompiledQuery}
    (hpick : ∀ call ∈ history, call.2.picksRows = true) (hcalls : p.calls history = .ok q)
    (hc : p.compileTo r ending = .ok c) (hc' : q.compileTo r ending = .ok c') :
    c'.shape = c.shape ∧
      (∃ items, Cypher.returnOf c.query = [.returning items] ∧
        Cypher.returnOf c'.query = [.returning items]) ∧
      ∃ scope scope' hidden, p.selection.scope r [] = .ok scope ∧
        q.selection.scope r [] = .ok scope' ∧ scope'.rootVar = scope.rootVar ∧
        scope'.bindings = scope.bindings ++ hidden ∧ ∀ b ∈ hidden, b.IsHidden := by
  have hnarrows : p.Narrows q := foldlM_invariant (QueryPlan.Narrows.refl p)
    (fun call hcall _ _ h hrun => h.call (hpick call hcall) hrun) hcalls
  obtain ⟨binder, hrun, _⟩ := compileTo_eq_ok hc
  obtain ⟨binder', hrun', _⟩ := compileTo_eq_ok hc'
  obtain ⟨s, qs⟩ := p
  obtain ⟨t, qs'⟩ := q
  obtain rfl : qs' = qs := hnarrows.subqueries
  obtain ⟨front, scope₁, b₁, calls, scope₂, b₂, last, hfront, hsub, hlast, hquery⟩ :=
    compilePlan_eq_ok hrun
  obtain ⟨front', scope₁', b₁', calls', scope₂', b₂', last', hfront', hsub', hlast', hquery'⟩ :=
    compilePlan_eq_ok hrun'
  obtain ⟨scope, _, _, hscope, _, hstages, _⟩ := Selection.compileFront_eq_ok hfront
  obtain ⟨scope', _, _, hscope', _, hstages', _⟩ := Selection.compileFront_eq_ok hfront'
  have hextends : scope.Extends scope' := hnarrows.scope hscope hscope'
  have hextends₁ : scope₁.Extends scope₁' := by
    rw [show t.transforms = s.transforms from hnarrows.returned.transforms] at hstages'
    exact Selection.extends_compileTransforms hextends hstages hstages'
  have hextends₂ : scope₂.Extends scope₂' := extends_compileSubqueries hextends₁ hsub hsub'
  have hfirst : scope₂.ParentsFirst := by
    obtain ⟨_, _, _, hplaces⟩ := Scope.places_scope hscope
    intro i j b hb
    rw [(keeps_compileSubqueries hsub).1, (Selection.keeps_compileTransforms hstages).1] at hb
    exact hplaces.chained.parent_lt hb
  obtain ⟨hshape, items, hitems, hitems'⟩ :=
    Selection.compileEnding_alike hnarrows.returned hextends₂ hfirst hlast hlast'
  have hrows {t : Selection} {front calls : List Cypher.Clause} {scope₁ scope₂ : Scope}
      {b b₁ b₂ : Binder} (hfront : t.compileFront r "" [] b = .ok ((front, scope₁), b₁))
      (hsub : compileSubqueries r "" 1 scope₁ qs' b₁ = .ok ((calls, scope₂), b₂)) :
      ∀ d ∈ front ++ calls, d.makesRows := by
    intro d hd
    rcases List.mem_append.1 hd with hd | hd
    · exact Selection.makesRows_compileFront hfront d hd
    · exact makesRows_compileSubqueries hsub d hd
  refine ⟨hshape, ⟨items, ?_, ?_⟩, ?_⟩
  · rw [hquery, Cypher.returnOf_append (hrows hfront hsub), hitems]
  · rw [hquery', Cypher.returnOf_append (hrows hfront' hsub'), hitems']
  · obtain ⟨hidden, hbindings, hhidden⟩ := hextends.bindings
    exact ⟨scope, scope', hidden, hscope, hscope', hextends.rootVar, hbindings, hhidden⟩

namespace Sample

/-- A traversal, and a projection of the node that it reaches. -/
def labelled (r : Registry) : List (Registry × PlanCall) :=
  [(r, .traverse "suppliers" .default .fetch),
    (r, .annotate "label" (.ref (.property (.node "suppliers") "name")))]

/-- A filter that needs a hidden path, a check, an ordering and a page. -/
def picked (r : Registry) : List (Registry × PlanCall) :=
  [(r, .filter (named ["suppliers", "country"] "a")), (r, .exclude (named [] "b")),
    (r, .has "suppliers".toList true), (r, .orderBy "-name".toList), (r, .skip 2), (r, .limit 5)]

end Sample

theorem QueryPlan.calls_keep_returned_picked :
    ∃ (r : Registry) (p q : QueryPlan) (c c' : CompiledQuery), p.calls (Sample.picked r) = .ok q ∧
      p.compile r = .ok c ∧ q.compile r = .ok c' ∧ c'.shape = c.shape ∧
      ∃ items, Cypher.returnOf c.query = [.returning items] ∧
        Cypher.returnOf c'.query = [.returning items] := by
  have hrun : (do
      let r ← Sample.registered
      let p₀ ← QueryPlan.new r "Coffee"
      let p ← p₀.calls (Sample.labelled r)
      let q ← p.calls (Sample.picked r)
      let _ ← p.compile r
      q.compile r : Except Halt _).isOk = true := by
    decide +kernel
  obtain ⟨_, hrun⟩ := exists_eq_ok hrun
  obtain ⟨r, _, hrun⟩ := lift_bind_eq_ok.1 hrun
  obtain ⟨p₀, _, hrun⟩ := lift_bind_eq_ok.1 hrun
  obtain ⟨p, _, hrun⟩ := lift_bind_eq_ok.1 hrun
  obtain ⟨q, hq, hrun⟩ := lift_bind_eq_ok.1 hrun
  obtain ⟨c, hc, hc'⟩ := bind_eq_ok.1 hrun
  have hpick : ∀ call ∈ Sample.picked r, call.2.picksRows = true := by
    simp [Sample.picked, PlanCall.picksRows]
  obtain ⟨hshape, hitems, _⟩ := QueryPlan.calls_keep_returned hpick hq hc hc'
  exact ⟨r, p, q, c, _, hq, hc, hc', hshape, hitems⟩

end GraphMapper
