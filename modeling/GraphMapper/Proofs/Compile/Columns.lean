import GraphMapper.Proofs.Compile.Scoping
import GraphMapper.Proofs.Result.Lookup

/-!
# Shapes describe what is returned

The shape that a plan compiles to says what the items of its RETURN are
(`QueryPlan.shape_describes_return`).

A column names the column of its parent, the nearest step before it whose node
is returned.  The compiler finds it by walking up the bindings, so bindings are
related to the steps that the paths place (`Chained`): each leads on from an
earlier one, and the walk is a search among the steps that lead to it.
-/

namespace GraphMapper

/-! ## Steps and those before them -/

/-- The variable of a step and those of the steps before it on its path, the nearest first.  The
steps placed are given from the last one on. -/
def lineage : List Placed → String → List String
  | [], _ => []
  | e :: earlier, v => if e.var = v then v :: lineage earlier e.source else lineage earlier v

/-- The variables of the steps before one on its path, the nearest first. -/
def Placed.ancestors (placed : List Placed) (e : Placed) : List String :=
  lineage placed.reverse e.source

theorem lineage_of_not_mem {es : List Placed} {v : String} (h : v ∉ es.map Placed.var) :
    lineage es v = [] := by
  induction es with
  | nil => rfl
  | cons e earlier ih =>
    have hv : e.var ≠ v := fun heq => h (heq ▸ List.mem_cons_self)
    rw [lineage, if_neg hv]
    exact ih fun hmem => h (List.mem_cons_of_mem _ hmem)

/-! ## Bindings and the steps they are made of -/

/-- A binding that is made of a placed step, after some others. -/
structure Binding.Places (rootVar : String) (earlier : List Binding) (b : Binding) (e : Placed) :
    Prop where
  hops : b.hops = e.step.hops
  alias? : b.alias? = e.step.alias?
  hop : b.hop = e.step.name
  var : b.var = e.var
  edgeVar : b.edgeVar = e.edgeVar
  source : (b.parent? = none ∧ e.source = rootVar) ∨
    ∃ (j : Nat) (b' : Binding), b.parent? = some j ∧ earlier[j]? = some b' ∧ e.source = b'.var

/-- The bindings made of placed steps, each leading on from the root or from an earlier one. -/
inductive Chained (rootVar : String) : List Binding → List Placed → Prop
  | nil : Chained rootVar [] []
  | snoc {bs : List Binding} {es : List Placed} {b : Binding} {e : Placed}
    (h : Chained rootVar bs es) (hb : b.Places rootVar bs e) :
    Chained rootVar (bs ++ [b]) (es ++ [e])

namespace Chained

variable {rootVar : String} {bs : List Binding} {es : List Placed}

theorem length_eq (h : Chained rootVar bs es) : bs.length = es.length := by
  induction h with
  | nil => rfl
  | snoc _ _ ih => rw [List.length_append, List.length_append, ih]; rfl

/-- Every binding is made of a step, and leads on from the root or from a binding. -/
theorem forall₂ (h : Chained rootVar bs es) :
    List.Forall₂ (Binding.Places rootVar bs) bs es := by
  induction h with
  | nil => exact .nil
  | @snoc bs es b e _ hb ih =>
    have hmore {b' : Binding} {e' : Placed} (h : b'.Places rootVar bs e') :
        b'.Places rootVar (bs ++ [b]) e' := by
      refine { h with source := h.source.imp_right ?_ }
      rintro ⟨j, b'', hj, hb'', hsource⟩
      have hlt := (List.getElem?_eq_some_iff.1 hb'').1
      exact ⟨j, b'', hj, by rw [List.getElem?_append_left hlt]; exact hb'', hsource⟩
    exact List.rel_append (ih.imp fun _ _ => hmore) (.cons (hmore hb) .nil)

theorem map_var (h : Chained rootVar bs es) : bs.map Binding.var = es.map Placed.var := by
  induction h with
  | nil => rfl
  | snoc _ hb ih => rw [List.map_append, List.map_append, ih, List.map_singleton, hb.var]; rfl

/-- A binding's parent comes before it, so that walking up the parents ends. -/
theorem parent_lt (h : Chained rootVar bs es) {i j : Nat} {b : Binding} (hb : bs[i]? = some b)
    (hj : b.parent? = some j) : j < i := by
  induction h with
  | nil => cases hb
  | @snoc bs es b' e h' hplaces ih =>
    rcases Nat.lt_trichotomy i bs.length with hi | rfl | hi
    · rw [List.getElem?_append_left hi] at hb
      exact ih hb
    · rw [List.getElem?_concat_length] at hb
      obtain rfl := Option.some.inj hb
      obtain ⟨hnone, _⟩ | ⟨k, b'', hk, hb'', _⟩ := hplaces.source
      · rw [hnone] at hj
        cases hj
      · obtain rfl := Option.some.inj (hk.symm.trans hj)
        exact (List.getElem?_eq_some_iff.1 hb'').1
    · rw [List.getElem?_eq_none (by rw [List.length_append]; exact hi)] at hb
      cases hb

/-- The node of a variable is returned. -/
def isReturned (bs : List Binding) (v : String) : Bool :=
  bs.any fun b => b.var == v && b.includeNode

theorem isReturned_var {b : Binding} (hmem : b ∈ bs) (hdistinct : (bs.map Binding.var).Nodup) :
    isReturned bs b.var = b.includeNode := by
  cases hinclude : b.includeNode with
  | true => exact List.any_eq_true.2 ⟨b, hmem, by simp [hinclude]⟩
  | false =>
    refine List.any_eq_false.2 fun b' hb' htrue => ?_
    obtain ⟨hvar, hinclude'⟩ := Bool.and_eq_true_iff.1 htrue
    obtain rfl := List.inj_on_of_nodup_map hdistinct hb' hmem (beq_iff_eq.1 hvar)
    rw [hinclude] at hinclude'
    cases hinclude'

/-- Walking up the parents from a binding finds the nearest step, from its own on, whose node is
returned. -/
theorem returnedParent?_eq {s : Scope} {rest : List Binding} (h : Chained rootVar bs es)
    (hs : s.bindings = bs ++ rest) (hdistinct : (s.bindings.map Binding.var).Nodup)
    (hroot : rootVar ∉ s.bindings.map Binding.var) {i fuel : Nat} {b : Binding}
    (hb : bs[i]? = some b) (hfuel : i < fuel) :
    s.returnedParent? fuel (some i) =
      (lineage es.reverse b.var).find? (isReturned s.bindings) := by
  induction h generalizing i fuel b rest with
  | nil => cases hb
  | @snoc bs es b' e h' hplaces ih =>
    have hs' : s.bindings = bs ++ ([b'] ++ rest) := by rw [hs, List.append_assoc]
    obtain ⟨fuel, rfl⟩ := Nat.exists_eq_succ_of_ne_zero (Nat.ne_of_gt (Nat.zero_lt_of_lt hfuel))
    rw [List.reverse_append, List.reverse_singleton, List.singleton_append]
    rcases Nat.lt_trichotomy i bs.length with hi | rfl | hi
    · -- A later step has another variable, and does not change the chain.
      rw [List.getElem?_append_left hi] at hb
      have hvar : e.var ≠ b.var := by
        rw [← hplaces.var]
        intro heq
        rw [hs', List.map_append, List.nodup_append] at hdistinct
        exact hdistinct.2.2 b.var (List.mem_map_of_mem (List.mem_of_getElem? hb)) b'.var
          List.mem_cons_self heq.symm
      rw [lineage, if_neg hvar]
      exact ih hs' hb hfuel
    · rw [List.getElem?_concat_length] at hb
      obtain rfl := Option.some.inj hb
      have hget : s.bindings[bs.length]? = some b' := by
        rw [hs', List.getElem?_append_right (Nat.le_refl _), Nat.sub_self]
        rfl
      have hmem : b' ∈ s.bindings := List.mem_of_getElem? hget
      have hwalk : s.returnedParent? (fuel + 1) (some bs.length) =
          if b'.includeNode then some b'.var else s.returnedParent? fuel b'.parent? := by
        rw [Scope.returnedParent?, hget]
      rw [hwalk, lineage, if_pos hplaces.var.symm, List.find?_cons, isReturned_var hmem hdistinct]
      cases b'.includeNode with
      | true => rfl
      | false =>
        rw [if_neg Bool.false_ne_true]
        obtain ⟨hnone, hsource⟩ | ⟨j, b'', hj, hb'', hsource⟩ := hplaces.source
        · have hfirst : rootVar ∉ es.reverse.map Placed.var := by
            rw [List.map_reverse, List.mem_reverse, ← h'.map_var]
            intro hmem'
            rw [hs', List.map_append] at hroot
            exact hroot (List.mem_append_left _ hmem')
          rw [hnone, hsource, lineage_of_not_mem hfirst]
          cases fuel <;> rfl
        · have hlt : j < bs.length := (List.getElem?_eq_some_iff.1 hb'').1
          rw [hj, hsource]
          exact ih hs' hb'' (Nat.lt_of_lt_of_le hlt (Nat.le_of_lt_succ hfuel))
    · rw [List.getElem?_eq_none (by rw [List.length_append]; exact hi)] at hb
      cases hb

end Chained

/-! ## Paths place their steps -/

/-- Opening a pattern finishes another one, or labels the root. -/
theorem Scope.openPattern_eq (s : Scope) (p : Scope.Progress) (o : Bool) :
    ∃ rootLabelled mandatory optional,
      (s.openPattern p o).2 = { s with rootLabelled, mandatory, optional } := by
  have hstart (s : Scope) (at? : Option Nat) : ∃ rootLabelled,
      (s.startPattern at? o).2 = { s with rootLabelled } := by
    unfold Scope.startPattern
    split
    · exact ⟨_, rfl⟩
    · split <;> exact ⟨_, rfl⟩
  have hflush (x? : Option (Cypher.Pattern × Bool)) : ∃ mandatory optional,
      s.flush x? = { s with mandatory, optional } := by
    unfold Scope.flush
    split <;> exact ⟨_, _, rfl⟩
  unfold Scope.openPattern
  split
  · split
    · exact ⟨_, _, _, rfl⟩
    · obtain ⟨mandatory, optional, hs⟩ := hflush p.pattern?
      obtain ⟨rootLabelled, hlabelled⟩ := hstart (s.flush p.pattern?) p.at?
      rw [hs] at hlabelled ⊢
      exact ⟨rootLabelled, mandatory, optional, hlabelled⟩
  · obtain ⟨rootLabelled, hlabelled⟩ := hstart s p.at?
    exact ⟨rootLabelled, _, _, hlabelled⟩

/-- What opening a pattern leaves as it is. -/
theorem Scope.openPattern_keeps (s : Scope) (p : Scope.Progress) (o : Bool) :
    (s.openPattern p o).2.bindings = s.bindings ∧ (s.openPattern p o).2.rootVar = s.rootVar ∧
      (s.openPattern p o).2.declared = s.declared ∧
      (s.openPattern p o).2.selection = s.selection := by
  obtain ⟨_, _, _, h⟩ := s.openPattern_eq p o
  rw [h]
  exact ⟨rfl, rfl, rfl, rfl⟩

/-- The bindings of a scope are made of some placed steps, and their node variables are declared,
each once. -/
structure Scope.Places (s : Scope) (placed : List Placed) : Prop where
  chained : Chained s.rootVar s.bindings placed
  distinct : (s.rootVar :: s.bindings.map Binding.var).Nodup
  declared : ∀ v ∈ s.rootVar :: s.bindings.map Binding.var, v ∈ s.declared

/-- A scope and the place reached on a path, against a walk. -/
structure Scope.Reaches (s : Scope) (p : Scope.Progress) (w : Walk) : Prop where
  places : s.Places w.placed
  here : (p.at? = none ∧ w.here = s.rootVar) ∨
    ∃ (j : Nat) (b : Binding), p.at? = some j ∧ s.bindings[j]? = some b ∧ w.here = b.var

namespace Scope

variable {s s' : Scope} {p p' : Progress} {w : Walk} {placed : List Placed}

theorem Places.flush (h : s.Places placed) (x? : Option (Cypher.Pattern × Bool)) :
    (s.flush x?).Places placed where
  chained := by simpa using h.chained
  distinct := by simpa using h.distinct
  declared := by simpa using h.declared

/-- A new step is placed behind the one reached. -/
theorem Reaches.bindNew {hidden : Bool} {step : PathStep} (h : s.Reaches p w)
    (hrun : s.bindNew p step hidden = .ok (s', p')) :
    s'.Reaches p' ⟨w.placed ++ [⟨step, w.here, step.newVar w.placed.length,
        step.newEdgeVar w.placed.length, w.behind || step.optional⟩],
      step.newVar w.placed.length, w.behind || step.optional⟩ ∧
      s'.selection = s.selection ∧ s'.rootVar = s.rootVar := by
  obtain ⟨pattern, s₁, var, edgeVar, hopen, hvar, hedge, hfresh, _, rfl, rfl⟩ :=
    bindNew_eq_ok hrun
  obtain ⟨hbindings, hroot, hdeclared, hselection⟩ :=
    s.openPattern_keeps p (step.optional || p.afterOptional)
  rw [hopen] at hbindings hroot hdeclared hselection
  obtain ⟨hchained, hdistinct, hdecl⟩ := h.places
  have hcount : s₁.bindings.length = w.placed.length := by rw [hbindings, hchained.length_eq]
  obtain rfl := Tracks.newVar_of_nodeVar hvar hcount
  obtain rfl : step.newEdgeVar w.placed.length = edgeVar :=
    (Tracks.newEdgeVar_eq hcount).trans hedge
  have hsource : (p.at? = none ∧ w.here = s₁.rootVar) ∨
      ∃ (j : Nat) (b : Binding), p.at? = some j ∧ s₁.bindings[j]? = some b ∧ w.here = b.var := by
    rw [hbindings, hroot]
    exact h.here
  rw [← hbindings, ← hroot] at hchained hdistinct hdecl
  rw [← hdeclared] at hdecl
  refine ⟨⟨⟨hchained.snoc ⟨rfl, rfl, rfl, rfl, rfl, hsource⟩, ?_, ?_⟩, ?_⟩, hselection, hroot⟩
  · rw [List.map_append, ← List.cons_append, List.nodup_append]
    refine ⟨hdistinct, List.nodup_singleton _, ?_⟩
    rintro v hv u hu rfl
    obtain rfl := List.mem_singleton.1 hu
    exact hfresh (hdecl _ hv)
  · intro v hv
    rw [List.map_append, ← List.cons_append] at hv
    rcases List.mem_append.1 hv with hv | hv
    · exact List.mem_append_left _ (List.mem_append_left _ (hdecl v hv))
    · exact List.mem_append_left _ (List.mem_append_right _ hv)
  · exact .inr ⟨_, _, rfl, List.getElem?_concat_length, rfl⟩

/-- Binding a step walks it. -/
theorem Reaches.bindStep {hidden : Bool} {step : PathStep} (h : s.Reaches p w)
    (hrun : Scope.bindStep hidden (s, p) step = .ok (s', p')) :
    s'.Reaches p' (w.next s.selection.shared hidden step) ∧ s'.selection = s.selection ∧
      s'.rootVar = s.rootVar := by
  unfold Scope.bindStep Scope.reusable? at hrun
  unfold Walk.next
  obtain ⟨hnone, hfind⟩ | ⟨i, b, e, hsome, hb, hfind, hmem, hplaces⟩ :=
    serving_of_forall₂ (fun _ _ h => h.hops) (fun _ _ h => h.alias?) h.places.chained.forall₂ s
      hidden step
  · simp only [hnone] at hrun
    simp only [hfind]
    exact h.bindNew hrun
  · simp only [hsome] at hrun
    simp only [hfind]
    obtain ⟨rfl, rfl⟩ := Prod.mk.inj (Except.ok.inj hrun)
    refine ⟨⟨h.places.flush _, .inr ⟨i, b, rfl, ?_, hplaces.var.symm⟩⟩,
      Scope.flush_selection _ _, Scope.flush_rootVar _ _⟩
    rw [Scope.flush_bindings]
    exact hb

theorem Reaches.foldlM {hidden : Bool} {steps : List PathStep} (h : s.Reaches p w)
    (hrun : steps.foldlM (Scope.bindStep hidden) (s, p) = .ok (s', p')) :
    s'.Reaches p' (steps.foldl (Walk.next s.selection.shared hidden) w) ∧
      s'.selection = s.selection ∧ s'.rootVar = s.rootVar := by
  induction steps generalizing s p w with
  | nil =>
    obtain ⟨rfl, rfl⟩ := Prod.mk.inj (pure_eq_ok.1 hrun)
    exact ⟨h, rfl, rfl⟩
  | cons step rest ih =>
    rw [List.foldlM_cons] at hrun
    obtain ⟨⟨s₁, p₁⟩, hstep, hrest⟩ := bind_eq_ok.1 hrun
    obtain ⟨h₁, hselection, hroot⟩ := h.bindStep hstep
    obtain ⟨h', hselection', hroot'⟩ := ih h₁ hrest
    rw [hselection] at h' hselection'
    exact ⟨h', hselection', hroot'.trans hroot⟩

/-- Binding some paths places their steps. -/
theorem Places.bindPaths {paths : List PathSpec} (h : s.Places placed)
    (hrun : paths.foldlM Scope.bindPath s = .ok s') :
    s'.Places (paths.foldl (Walk.path s.rootVar s.selection.shared) placed) ∧
      s'.rootVar = s.rootVar := by
  induction paths generalizing s placed with
  | nil =>
    obtain rfl := pure_eq_ok.1 hrun
    exact ⟨h, rfl⟩
  | cons path rest ih =>
    rw [List.foldlM_cons] at hrun
    obtain ⟨s₁, hs₁, hrest⟩ := bind_eq_ok.1 hrun
    obtain ⟨s₂, p, hsteps, rfl⟩ := bindPath_eq_ok hs₁
    have hstart : s.Reaches ⟨none, none, false⟩ ⟨placed, s.rootVar, false⟩ := ⟨h, .inl ⟨rfl, rfl⟩⟩
    obtain ⟨hreaches, hselection, hroot⟩ := hstart.foldlM hsteps
    obtain ⟨h', hroot'⟩ := ih (hreaches.places.flush p.pattern?) hrest
    rw [Scope.flush_rootVar, Scope.flush_selection, hselection, hroot] at h'
    rw [Scope.flush_rootVar, hroot] at hroot'
    exact ⟨h', hroot'⟩

/-- Before its paths are bound a selection has placed nothing. -/
theorem places_start {selection : Selection} {imports : List String}
    (h : start selection imports = .ok s) :
    s.Places [] ∧ s.selection = selection ∧ s.rootVar = selection.root.variableName := by
  obtain ⟨declared, rfl, hdeclared⟩ := start_eq_ok h
  refine ⟨⟨.nil, List.nodup_singleton _, fun v hv => ?_⟩, rfl, rfl⟩
  rw [hdeclared]
  exact .inl (List.mem_singleton.1 hv)

/-- The bindings of a selection are made of the steps that its paths place. -/
theorem places_scope {r : Registry} {selection : Selection} {imports : List String}
    (h : selection.scope r imports = .ok s) :
    s.rootVar = selection.root.variableName ∧ ∃ hidden, selection.filterPaths r = .ok hidden ∧
      s.Places (place selection.root.variableName selection.shared (selection.paths ++ hidden)) := by
  obtain ⟨scope₁, hidden, hstart, _, hhidden, hpaths⟩ := Selection.scope_eq_ok h
  obtain ⟨hfirst, rfl, hroot₁⟩ := places_start hstart
  obtain ⟨hplaces, hroot⟩ := hfirst.bindPaths hpaths
  rw [hroot₁] at hplaces hroot
  exact ⟨hroot, hidden, hhidden, hplaces⟩

end Scope

/-! ## Nearest returned ancestors -/

/-- What the walk up the parents finds is the variable of a returned binding, no later than the
one it starts from. -/
theorem Chained.exists_of_returnedParent? {rootVar : String} {s : Scope} {es : List Placed}
    (h : Chained rootVar s.bindings es) {fuel i : Nat} {v : String}
    (hv : s.returnedParent? fuel (some i) = some v) :
    ∃ (j : Nat) (b : Binding), j ≤ i ∧ s.bindings[j]? = some b ∧ b.includeNode = true ∧ b.var = v := by
  induction fuel generalizing i with
  | zero => cases hv
  | succ fuel ih =>
    rw [Scope.returnedParent?] at hv
    cases hb : s.bindings[i]? with
    | none =>
      rw [hb] at hv
      cases hv
    | some b =>
      simp only [hb] at hv
      split at hv
      · next hinclude => exact ⟨i, b, Nat.le_refl i, hb, hinclude, Option.some.inj hv⟩
      · cases hparent : b.parent? with
        | none =>
          rw [hparent] at hv
          cases fuel <;> cases hv
        | some j =>
          rw [hparent] at hv
          obtain ⟨k, b', hk, hfound⟩ := ih hv
          exact ⟨k, b', Nat.le_of_lt (Nat.lt_of_le_of_lt hk (h.parent_lt hb hparent)), hfound⟩

/-- The parent of a binding's column is the nearest step before it whose node is returned. -/
theorem Chained.returnedParent?_ancestors {s : Scope} {es : List Placed}
    (h : Chained s.rootVar s.bindings es)
    (hdistinct : (s.rootVar :: s.bindings.map Binding.var).Nodup) {b : Binding} {e : Placed}
    (hb : b.Places s.rootVar s.bindings e) :
    s.returnedParent? s.bindings.length b.parent? =
      (e.ancestors es).find? (isReturned s.bindings) := by
  obtain ⟨hroot, hvars⟩ := List.nodup_cons.1 hdistinct
  unfold Placed.ancestors
  obtain ⟨hnone, hsource⟩ | ⟨j, b', hj, hb', hsource⟩ := hb.source
  · have hfirst : s.rootVar ∉ es.reverse.map Placed.var := by
      rw [List.map_reverse, List.mem_reverse, ← h.map_var]
      exact hroot
    rw [hnone, hsource, lineage_of_not_mem hfirst]
    cases s.bindings.length <;> rfl
  · rw [hj, hsource]
    exact h.returnedParent?_eq (List.append_nil _).symm hvars hroot hb'
      (List.getElem?_eq_some_iff.1 hb').1

/-! ## Columns -/

/-- Whether a column holds nodes that a traversal reaches. -/
def Column.isNode (c : Column) : Bool :=
  match c.kind with
  | .node _ => true
  | _ => false

/-- Whether a shape returns the node of a variable that a traversal reaches. -/
def ResultShape.returnsNode (s : ResultShape) (name : String) : Bool :=
  s.columns.any fun c => c.name == name && c.isNode

/-- A shape says what the items of a RETURN are.

* The columns are named as the items, in order, and no name is repeated.
* A root is named unless the plan transforms; it is the first column and the only one of its kind.
* A node's edge column is there, under the same key.
* A node's parent is the nearest step before it whose node is returned, in a column further left. -/
structure ResultShape.Describes (shape : ResultShape) (clauses : List Cypher.Clause)
    (rootVar : String) (transforms : Bool) (placed : List Placed) : Prop where
  names : shape.columns.map Column.name = Cypher.returnedBy clauses
  distinct : (shape.columns.map Column.name).Nodup
  root? : shape.root? = if transforms then none else some rootVar
  first : ∀ v, shape.root? = some v → shape.columns.head? = some ⟨v, .root⟩
  only : shape.columns.filter (fun c => c.kind = .root) =
    (shape.root?.map fun v => ⟨v, .root⟩).toList
  edges : ∀ c ∈ shape.columns, ∀ n e, c.kind = .node n → n.edge? = some e →
    ⟨e, .edge n.key⟩ ∈ shape.columns
  parents : ∀ c ∈ shape.columns, ∀ n, c.kind = .node n → ∃ e ∈ placed, c.name = e.var ∧
    n.key = e.step.alias?.getD e.step.chain ∧ n.hop = e.step.name ∧
    n.parent? = (e.ancestors placed).find? shape.returnsNode
  earlier : ∀ c ∈ shape.columns, ∀ n v, c.kind = .node n → n.parent? = some v →
    ∃ n', [⟨v, .node n'⟩, c].Sublist shape.columns

/-- What earlier items of a list give stands before what later ones give. -/
theorem pair_sublist_flatMap {α β : Type} {f : α → List β} {l : List α} {i j : Nat} {a b : α}
    {x y : β} (ha : l[i]? = some a) (hb : l[j]? = some b) (hij : i < j) (hx : x ∈ f a)
    (hy : y ∈ f b) : [x, y].Sublist (l.flatMap f) := by
  have hleft : a ∈ l.take (i + 1) := by
    refine List.mem_of_getElem? (i := i) ?_
    rw [List.getElem?_take_of_lt (Nat.lt_succ_self i)]
    exact ha
  have hright : b ∈ l.drop (i + 1) := by
    refine List.mem_of_getElem? (i := j - (i + 1)) ?_
    rw [List.getElem?_drop, Nat.add_sub_cancel' hij]
    exact hb
  have hsublist := (List.singleton_sublist.2 (List.mem_flatMap.2 ⟨a, hleft, hx⟩)).append
    (List.singleton_sublist.2 (List.mem_flatMap.2 ⟨b, hright, hy⟩))
  rwa [← List.flatMap_append, List.take_append_drop] at hsublist

namespace Selection

variable {s : Selection} {scope : Scope} {projections outputs : List Output}
  {clauses : List Cypher.Clause} {placed : List Placed}

/-- The column of an output. -/
def columnOf (o : Output) : Column := ⟨o.1.name, o.2⟩

theorem names_shapeOf (own : Bool) :
    (s.shapeOf scope own outputs).columns.map Column.name = outputs.map fun o => o.1.name :=
  List.map_map

/-- The node that a binding returns. -/
def nodeOutput (scope : Scope) (b : Binding) : Output :=
  (.var b.var, .node ⟨b.key, b.hop, scope.returnedParent? scope.bindings.length b.parent?,
    if b.includeEdge then some b.edgeVar else none⟩)

/-- The edge that a binding returns. -/
def edgeOutput (b : Binding) : Output := (.var b.edgeVar, .edge b.key)

theorem mem_bindingOutputs {b : Binding} {o : Output} : o ∈ bindingOutputs scope b ↔
    (b.includeNode = true ∧ o = nodeOutput scope b) ∨
      (b.includeEdge = true ∧ o = edgeOutput b) := by
  unfold bindingOutputs nodeOutput edgeOutput
  cases b.includeNode <;> cases b.includeEdge <;> simp

theorem nodeOutput_mem (scope : Scope) {b : Binding} (h : b.includeNode = true) :
    nodeOutput scope b ∈ bindingOutputs scope b :=
  mem_bindingOutputs.2 (.inl ⟨h, rfl⟩)

/-- What a plan without transforms returns: the root, its bindings, and then projections. -/
def plainOutputs (scope : Scope) (projections : List Output) : List Output :=
  (.var scope.rootVar, .root) :: scope.bindings.flatMap (bindingOutputs scope) ++ projections

/-- A plan of its own returns the root and its bindings, or what its last transform returns, and
then projections. -/
theorem planOutputs_eq_ok {taken : List String} (h : s.planOutputs scope taken = .ok outputs) :
    ∃ projections, (∀ o ∈ projections, o.2 = .projection) ∧
      outputs = if scope.transformed?.isSome then projections
        else plainOutputs scope projections := by
  obtain ⟨annotations, hannotations, h⟩ := bind_eq_ok.1 h
  obtain rfl := pure_eq_ok.1 h
  have hprojected {names : List String} {o : Output} (ho : o ∈ names.map projected) :
      o.2 = .projection := by
    obtain ⟨name, _, rfl⟩ := List.mem_map.1 ho
    rfl
  have hbehind : ∀ o ∈ taken.map projected ++ annotations, o.2 = .projection := by
    intro o ho
    rcases List.mem_append.1 ho with ho | ho
    · exact hprojected ho
    · obtain ⟨a, _, ha⟩ := exists_of_mem_mapM hannotations ho
      obtain ⟨_, _, rfl⟩ := annotated_eq_ok ha
      rfl
  rw [List.append_assoc]
  cases scope.transformed?.isSome with
  | true =>
    refine ⟨_, fun o ho => ?_, rfl⟩
    rcases List.mem_append.1 ho with ho | ho
    · exact hprojected ho
    · exact hbehind o ho
  | false => exact ⟨_, hbehind, rfl⟩

/-- What a binding returns is a column. -/
theorem mem_columns_of_binding {b : Binding} {o : Output} (hb : b ∈ scope.bindings)
    (ho : o ∈ bindingOutputs scope b) :
    columnOf o ∈ (plainOutputs scope projections).map columnOf := by
  refine List.mem_map_of_mem (List.mem_append_left _ (List.mem_cons_of_mem _ ?_))
  exact List.mem_flatMap.2 ⟨b, hb, ho⟩

/-- The node columns are those of the bindings whose nodes are returned. -/
theorem binding_of_nodeColumn (hprojections : ∀ o ∈ projections, o.2 = .projection) {c : Column}
    {n : NodeColumn} (hc : c ∈ (plainOutputs scope projections).map columnOf)
    (hn : c.kind = .node n) :
    ∃ b ∈ scope.bindings, b.includeNode = true ∧ c = columnOf (nodeOutput scope b) := by
  obtain ⟨o, ho, rfl⟩ := List.mem_map.1 hc
  rcases List.mem_append.1 ho with ho | ho
  · rcases List.mem_cons.1 ho with rfl | ho
    · cases hn
    · obtain ⟨b, hb, ho⟩ := List.mem_flatMap.1 ho
      obtain ⟨hinclude, rfl⟩ | ⟨_, rfl⟩ := mem_bindingOutputs.1 ho
      · exact ⟨b, hb, hinclude, rfl⟩
      · cases hn
  · rw [columnOf, hprojections o ho] at hn
    cases hn

/-- The nodes that a shape returns are those that its bindings return. -/
theorem returnsNode_shapeOf (hprojections : ∀ o ∈ projections, o.2 = .projection) (own : Bool) :
    (s.shapeOf scope own (plainOutputs scope projections)).returnsNode =
      Chained.isReturned scope.bindings := by
  funext v
  rw [Bool.eq_iff_iff, ResultShape.returnsNode, Chained.isReturned, List.any_eq_true,
    List.any_eq_true]
  constructor
  · rintro ⟨c, hc, hmatch⟩
    obtain ⟨hname, hkind⟩ := Bool.and_eq_true_iff.1 hmatch
    unfold Column.isNode at hkind
    split at hkind
    · next n hn =>
      obtain ⟨b, hb, hinclude, rfl⟩ := binding_of_nodeColumn hprojections hc hn
      exact ⟨b, hb, Bool.and_eq_true_iff.2 ⟨hname, hinclude⟩⟩
    · cases hkind
  · rintro ⟨b, hb, hmatch⟩
    obtain ⟨hname, hinclude⟩ := Bool.and_eq_true_iff.1 hmatch
    exact ⟨_, mem_columns_of_binding hb (nodeOutput_mem scope hinclude),
      Bool.and_eq_true_iff.2 ⟨hname, rfl⟩⟩

/-- A parent's column stands before those of the nodes reached from it. -/
theorem parent_sublist (hchained : Chained scope.rootVar scope.bindings placed) {b : Binding}
    (hb : b ∈ scope.bindings) (hinclude : b.includeNode = true) {v : String}
    (hv : scope.returnedParent? scope.bindings.length b.parent? = some v) :
    ∃ n, [⟨v, .node n⟩, columnOf (nodeOutput scope b)].Sublist
      ((plainOutputs scope projections).map columnOf) := by
  obtain ⟨i, hi⟩ := List.mem_iff_getElem?.1 hb
  cases hparent : b.parent? with
  | none =>
    rw [hparent] at hv
    cases hlength : scope.bindings.length <;> rw [hlength] at hv <;> cases hv
  | some j =>
    rw [hparent] at hv
    obtain ⟨k, b', hk, hb', hinclude', rfl⟩ := hchained.exists_of_returnedParent? hv
    have hlt : k < i := Nat.lt_of_le_of_lt hk (hchained.parent_lt hi hparent)
    have hpair := pair_sublist_flatMap hb' hi hlt (nodeOutput_mem scope hinclude')
      (nodeOutput_mem scope hinclude)
    have hsublist := (hpair.cons (.var scope.rootVar, .root)).trans
      (List.sublist_append_left _ projections)
    exact ⟨_, hsublist.map columnOf⟩

/-- The columns of the bindings of a plan without transforms stand between the root's and the
projections. -/
theorem describes_plain (hplain : scope.transformed? = none)
    (hchained : Chained scope.rootVar scope.bindings placed)
    (hvars : (scope.rootVar :: scope.bindings.map Binding.var).Nodup)
    (hprojections : ∀ o ∈ projections, o.2 = .projection)
    (hnames : ((plainOutputs scope projections).map fun o => o.1.name) = Cypher.returnedBy clauses)
    (hdistinct : ((plainOutputs scope projections).map fun o => o.1.name).Nodup) :
    (s.shapeOf scope true (plainOutputs scope projections)).Describes clauses scope.rootVar false
      placed := by
  have hroot : (s.shapeOf scope true (plainOutputs scope projections)).root? =
      some scope.rootVar := by
    simp [shapeOf, hplain]
  have hbinding {c : Column} {n : NodeColumn}
      (hc : c ∈ (s.shapeOf scope true (plainOutputs scope projections)).columns)
      (hn : c.kind = .node n) :
      ∃ b ∈ scope.bindings, b.includeNode = true ∧ c = columnOf (nodeOutput scope b) :=
    binding_of_nodeColumn hprojections hc hn
  refine ⟨(names_shapeOf true).trans hnames, ?_, hroot, fun v hv => ?_, ?_,
    fun c hc n e hn he => ?_, fun c hc n hn => ?_, fun c hc n v hn hv => ?_⟩
  · rw [names_shapeOf]
    exact hdistinct
  · rw [hroot] at hv
    rw [← Option.some.inj hv]
    rfl
  · rw [hroot]
    refine congrArg (_ :: ·) (List.filter_eq_nil_iff.2 fun c hc => ?_)
    obtain ⟨o, ho, rfl⟩ := List.mem_map.1 hc
    rcases List.mem_append.1 ho with ho | ho
    · obtain ⟨b, _, ho⟩ := List.mem_flatMap.1 ho
      obtain ⟨_, rfl⟩ | ⟨_, rfl⟩ := mem_bindingOutputs.1 ho
      all_goals simp [nodeOutput, edgeOutput]
    · simp [hprojections o ho]
  · obtain ⟨b, hb, _, rfl⟩ := hbinding hc hn
    obtain rfl := ColumnKind.node.inj hn
    cases hinclude : b.includeEdge with
    | false => simp [hinclude] at he
    | true =>
      simp only [hinclude, if_true] at he
      obtain rfl := Option.some.inj he
      exact mem_columns_of_binding hb (mem_bindingOutputs.2 (.inr ⟨hinclude, rfl⟩))
  · obtain ⟨b, hb, _, rfl⟩ := hbinding hc hn
    obtain rfl := ColumnKind.node.inj hn
    obtain ⟨e, he, hmade⟩ := exists_of_mem_forall₂ hchained.forall₂.flip hb
    refine ⟨e, he, hmade.var, ?_, hmade.hop, ?_⟩
    · rw [Binding.key, Binding.chain, hmade.alias?, hmade.hops]
      rfl
    · rw [returnsNode_shapeOf hprojections]
      exact hchained.returnedParent?_ancestors hvars hmade
  · obtain ⟨b, hb, hinclude, rfl⟩ := hbinding hc hn
    obtain rfl := ColumnKind.node.inj hn
    exact parent_sublist hchained hb hinclude hv

/-- A plan with transforms returns projections only. -/
theorem describes_transformed {rootVar : String}
    (htransformed : scope.transformed?.isSome = true)
    (hprojections : ∀ o ∈ outputs, o.2 = .projection)
    (hnames : (outputs.map fun o => o.1.name) = Cypher.returnedBy clauses)
    (hdistinct : (outputs.map fun o => o.1.name).Nodup) :
    (s.shapeOf scope true outputs).Describes clauses rootVar true placed := by
  have hroot : (s.shapeOf scope true outputs).root? = none := by
    have hsome : scope.transformed?.isNone = false := by
      rw [← Option.not_isSome, htransformed]
      rfl
    simp [shapeOf, hsome]
  have hkind : ∀ c ∈ (s.shapeOf scope true outputs).columns, c.kind = .projection := by
    intro c hc
    obtain ⟨o, ho, rfl⟩ := List.mem_map.1 hc
    exact hprojections o ho
  have hnode {c : Column} {n : NodeColumn} (hc : c ∈ (s.shapeOf scope true outputs).columns)
      (hn : c.kind = .node n) : False := by
    rw [hkind c hc] at hn
    cases hn
  refine ⟨(names_shapeOf true).trans hnames, ?_, hroot, fun v hv => ?_, ?_,
    fun c hc n e hn _ => (hnode hc hn).elim, fun c hc n hn => (hnode hc hn).elim,
    fun c hc n v hn _ => (hnode hc hn).elim⟩
  · rw [names_shapeOf]
    exact hdistinct
  · rw [hroot] at hv
    cases hv
  · rw [hroot]
    refine List.filter_eq_nil_iff.2 fun c hc => ?_
    simp [hkind c hc]

end Selection

/-! ## What later stages leave as it is -/

namespace Selection

variable {scope : Scope}

theorem keeps_compileTransforms {scope' : Scope} {ts : List Transform}
    {stages : List Cypher.Clause} (h : compileTransforms scope ts = .ok (stages, scope')) :
    scope'.bindings = scope.bindings ∧ scope'.rootVar = scope.rootVar ∧
      scope'.transformed?.isSome = (scope.transformed?.isSome || !ts.isEmpty) := by
  induction ts generalizing scope stages with
  | nil =>
    obtain ⟨_, rfl⟩ := compileTransforms_nil_eq_ok h
    simp
  | cons t rest ih =>
    obtain ⟨_, scope₁, stages', hclause, hstages, rfl⟩ := compileTransforms_cons_eq_ok h
    obtain ⟨_, _, _, rfl, _⟩ := compileTransform_eq_ok hclause
    obtain ⟨hbindings, hroot, htransformed⟩ := ih hstages
    refine ⟨hbindings, hroot, ?_⟩
    rw [htransformed]
    simp

end Selection

section Subqueries

variable {r : Registry} {scope scope' : Scope} {space : String} {b b' : Binder}

theorem keeps_takeReturns {names : List String} (h : takeReturns scope names = .ok scope') :
    scope'.bindings = scope.bindings ∧ scope'.rootVar = scope.rootVar ∧
      scope'.transformed? = scope.transformed? := by
  induction names generalizing scope with
  | nil =>
    cases h
    exact ⟨rfl, rfl, rfl⟩
  | cons name rest ih =>
    rw [takeReturns] at h
    split at h
    · cases h
    · have hkept := ih h
      exact hkept

theorem keeps_compileSubqueries {number : Nat} {qs : List (Subquery QueryPlan)}
    {calls : List Cypher.Clause}
    (h : compileSubqueries r space number scope qs b = .ok ((calls, scope'), b')) :
    scope'.bindings = scope.bindings ∧ scope'.rootVar = scope.rootVar ∧
      scope'.transformed? = scope.transformed? := by
  induction qs generalizing number scope calls b with
  | nil =>
    obtain ⟨_, rfl, _⟩ := compileSubqueries_nil_eq_ok h
    exact ⟨rfl, rfl, rfl⟩
  | cons q rest ih =>
    obtain ⟨_, _, b₁, scope₁, calls', _, _, htake, hcalls, _⟩ := compileSubqueries_cons_eq_ok h
    obtain ⟨hbindings, hroot, htransformed⟩ := keeps_takeReturns htake
    obtain ⟨hbindings', hroot', htransformed'⟩ := ih hcalls
    exact ⟨hbindings'.trans hbindings, hroot'.trans hroot, htransformed'.trans htransformed⟩

end Subqueries

/-- Resolving a result that has the columns of a shape does not look for a column in vain. -/
theorem ResultShape.Describes.findsColumns {shape : ResultShape} {clauses : List Cypher.Clause}
    {rootVar : String} {transforms : Bool} {placed : List Placed} {output : QueryOutput}
    (h : shape.Describes clauses rootVar transforms placed)
    (houtput : output.columns = shape.columns.map Column.name) (r : Registry) :
    FindsColumns (r.subgraphs output shape) := by
  have hname {c : Column} (hc : c ∈ shape.columns) : c.name ∈ output.columns := by
    rw [houtput]
    exact List.mem_map_of_mem hc
  refine r.findsColumns_subgraphs (fun v hv => ?_) fun c hc n hn =>
    ⟨hname hc, fun v hv => ?_, fun e he => ?_⟩
  · have hfirst := List.mem_of_mem_head? (h.first v hv)
    exact hname hfirst
  · obtain ⟨n', hsublist⟩ := h.earlier c hc n v hn hv
    have hparent := hsublist.subset List.mem_cons_self
    exact hname hparent
  · have hedge := h.edges c hc n e hn he
    exact hname hedge

/-- What a plan returns are the outputs of the scope behind its subqueries, which has the bindings
of the patterns. -/
theorem QueryPlan.outputs_compile {r : Registry} {p : QueryPlan} {c : CompiledQuery} {scope : Scope}
    (h : p.compile r = .ok c) (hscope : p.selection.scope r [] = .ok scope) :
    ∃ last outputs, last.bindings = scope.bindings ∧
      last.transformed?.isSome = (!p.selection.transforms.isEmpty) ∧
      p.selection.planOutputs last (p.subqueries.flatMap Subquery.returns) = .ok outputs ∧
      .returning (outputs.map Prod.fst) ∈ c.query ∧
      c.shape.columns = outputs.map Selection.columnOf := by
  obtain ⟨binder, hrun, _⟩ := compileTo_eq_ok h
  obtain ⟨s, qs⟩ := p
  obtain ⟨front, scope', b₁, calls, last, b₂, ending, hfront, hcalls, hlast, hquery⟩ :=
    compilePlan_eq_ok hrun
  obtain ⟨scope₁, _, _, hscope₁, _, hstages, _⟩ := Selection.compileFront_eq_ok hfront
  cases hscope.symm.trans hscope₁
  obtain ⟨outputs, houtputs, hreturn, hshape⟩ := Selection.compileEnding_result_eq_ok hlast
  obtain ⟨_, _, order, page, _, _, rfl⟩ := Selection.compileReturn_eq_ok hreturn
  obtain ⟨hbindings, _, htransformed⟩ := Selection.keeps_compileTransforms hstages
  obtain ⟨hbindings', _, htransformed'⟩ := keeps_compileSubqueries hcalls
  refine ⟨last, outputs, hbindings'.trans hbindings, ?_, houtputs, ?_, ?_⟩
  · rw [htransformed', htransformed, (Scope.Introduces.of_scope hscope).plain.1]
    rfl
  · rw [hquery]
    simp
  · rw [hshape]
    rfl

/-- The shape of a plan describes its RETURN, by the steps that the scope of the plan is made of. -/
theorem QueryPlan.describes_compile {r : Registry} {p : QueryPlan} {c : CompiledQuery}
    (h : p.compile r = .ok c) :
    ∃ hidden scope, p.selection.filterPaths r = .ok hidden ∧ p.selection.scope r [] = .ok scope ∧
      scope.Places
        (place p.root.variableName p.selection.shared (p.selection.paths ++ hidden)) ∧
      c.shape.Describes c.query p.root.variableName (!p.selection.transforms.isEmpty)
        (place p.root.variableName p.selection.shared (p.selection.paths ++ hidden)) := by
  obtain ⟨binder, hrun, _⟩ := compileTo_eq_ok h
  obtain ⟨s, qs⟩ := p
  obtain ⟨front, scope', b₁, calls, scope'', b₂, last, hfront, hcalls, hlast, hquery⟩ :=
    compilePlan_eq_ok hrun
  obtain ⟨scope, _, _, hscope, _, hstages, _⟩ := Selection.compileFront_eq_ok hfront
  obtain ⟨outputs, houtputs, hreturn, hshape⟩ := Selection.compileEnding_result_eq_ok hlast
  obtain ⟨hrootVar, hidden, hhidden, hplaces⟩ := Scope.places_scope hscope
  obtain ⟨hbindings, hroot, htransformed⟩ := Selection.keeps_compileTransforms hstages
  obtain ⟨hbindings', hroot', htransformed'⟩ := keeps_compileSubqueries hcalls
  have hnames : (outputs.map fun o => o.1.name) = Cypher.returnedBy c.query := by
    rw [hquery, returnedBy_compilePlan hfront hcalls, Selection.returnedBy_compileReturn hreturn]
  have hdistinct : (outputs.map fun o => o.1.name).Nodup := by
    have hrepeated := (Selection.compileReturn_eq_ok hreturn).1
    exact (Selection.nodup_of_firstRepeated? hrepeated).1
  refine ⟨hidden, scope, hhidden, hscope, hplaces, ?_⟩
  show c.shape.Describes c.query s.root.variableName (!s.transforms.isEmpty)
    (place s.root.variableName s.shared (s.paths ++ hidden))
  have htransforms : (!s.transforms.isEmpty) = scope''.transformed?.isSome := by
    rw [htransformed', htransformed, (Scope.Introduces.of_scope hscope).plain.1]
    rfl
  -- What the patterns bind is there behind the transforms and the subqueries.
  have hchained := hplaces.chained
  have hvars := hplaces.distinct
  rw [← hbindings, ← hbindings', ← hroot, ← hroot'] at hchained hvars
  generalize place s.root.variableName s.shared (s.paths ++ hidden) = placed at hchained ⊢
  obtain ⟨projections, hprojections, rfl⟩ := Selection.planOutputs_eq_ok houtputs
  rw [hshape, htransforms, ← hrootVar, ← hroot, ← hroot']
  cases hsome : scope''.transformed?.isSome with
  | true =>
    rw [hsome, if_pos rfl] at hnames hdistinct
    exact Selection.describes_transformed hsome hprojections hnames hdistinct
  | false =>
    rw [hsome, if_neg Bool.false_ne_true] at hnames hdistinct
    have hplain := Option.isSome_eq_false_iff.1 hsome
    exact Selection.describes_plain (Option.isNone_iff_eq_none.1 hplain) hchained hvars
      hprojections hnames hdistinct

/-- The shape of a plan says what its RETURN returns: its columns are the items, its root is there
unless the plan transforms, and nodes name their edges and their nearest returned ancestors.  The
walk to an ancestor ends, for bindings lead on from earlier ones only; and whatever a result with
these columns holds, resolving it does not look for a column in vain. -/
theorem QueryPlan.shape_describes_return {r : Registry} {p : QueryPlan} {c : CompiledQuery}
    (h : p.compile r = .ok c) :
    (∃ hidden scope, p.selection.filterPaths r = .ok hidden ∧ p.selection.scope r [] = .ok scope ∧
      (∀ (i j : Nat) (b : Binding), scope.bindings[i]? = some b → b.parent? = some j → j < i) ∧
      c.shape.Describes c.query p.root.variableName (!p.selection.transforms.isEmpty)
        (place p.root.variableName p.selection.shared (p.selection.paths ++ hidden))) ∧
    ∀ (r' : Registry) (output : QueryOutput),
      output.columns = c.shape.columns.map Column.name →
        ∀ name, r'.subgraphs output c.shape ≠ .error (.resolution (.noColumn name)) := by
  obtain ⟨hidden, scope, hhidden, hscope, hplaces, hdescribes⟩ := describes_compile h
  refine ⟨⟨hidden, scope, hhidden, hscope, fun i j b => ?_, hdescribes⟩, fun r' output houtput => ?_⟩
  · exact hplaces.chained.parent_lt
  · exact hdescribes.findsColumns houtput r'

theorem QueryPlan.shape_describes_return_traversed :
    ∃ (r : Registry) (p : QueryPlan) (c : CompiledQuery), p.compile r = .ok c ∧
      (∃ hidden scope, p.selection.filterPaths r = .ok hidden ∧
        p.selection.scope r [] = .ok scope ∧
        (∀ (i j : Nat) (b : Binding), scope.bindings[i]? = some b → b.parent? = some j → j < i) ∧
        c.shape.Describes c.query p.root.variableName (!p.selection.transforms.isEmpty)
          (place p.root.variableName p.selection.shared (p.selection.paths ++ hidden))) ∧
      ∀ (r' : Registry) (output : QueryOutput),
        output.columns = c.shape.columns.map Column.name →
          ∀ name, r'.subgraphs output c.shape ≠ .error (.resolution (.noColumn name)) := by
  have hrun : (do
      let r ← Sample.registered
      let p₀ ← QueryPlan.new r "Coffee"
      let p ← p₀.calls (Sample.traversed r)
      p.compile r : Except Halt _).isOk = true := by
    decide +kernel
  obtain ⟨_, hrun⟩ := exists_eq_ok hrun
  obtain ⟨r, _, hrun⟩ := lift_bind_eq_ok.1 hrun
  obtain ⟨p₀, _, hrun⟩ := lift_bind_eq_ok.1 hrun
  obtain ⟨p, _, hc⟩ := lift_bind_eq_ok.1 hrun
  exact ⟨r, p, _, hc, QueryPlan.shape_describes_return hc⟩

end GraphMapper
