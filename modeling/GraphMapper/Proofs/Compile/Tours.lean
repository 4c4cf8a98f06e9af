import GraphMapper.Proofs.Compile.Columns
import GraphMapper.Proofs.Plan.Walks

/-!
# What the steps of paths stand on

On its way through some paths the binder stops once for every step: it comes
from a variable, and comes to a new binding or to one that an earlier path has
made.  The stops are read off a walk (`Walk.tour`), and they are the stops that
the binder makes (`Scope.tours_of_scope`).

The steps that are placed are those of the fresh stops, in order.
-/

namespace GraphMapper

/-- A step of a path, with what it comes to stand on. -/
structure Stop where
  step : PathStep
  /-- The variable that the path uses for the step before, or that of the root. -/
  source : String
  bound : Placed
  /-- The step is placed by this path, and not by an earlier one. -/
  fresh : Bool

/-- The stops that place a step. -/
def freshStops (stops : List Stop) : List Stop := stops.filter Stop.fresh

@[simp] theorem freshStops_append (stops stops' : List Stop) :
    freshStops (stops ++ stops') = freshStops stops ++ freshStops stops' :=
  List.filter_append stops stops'

theorem mem_freshStops {stops : List Stop} {stop : Stop} :
    stop ∈ freshStops stops ↔ stop ∈ stops ∧ stop.fresh = true := List.mem_filter

/-! ## The stops of a walk -/

namespace Walk

/-- The placed step that the next step is, unless one serves. -/
def new (w : Walk) (step : PathStep) : Placed :=
  ⟨step, w.here, step.newVar w.placed.length, step.newEdgeVar w.placed.length,
    w.behind || step.optional⟩

/-- What the next step comes to stand on. -/
def stop (shared : List String) (hidden : Bool) (w : Walk) (step : PathStep) : Stop :=
  match w.placed.find? (Placed.servesAs shared hidden step) with
  | some e => ⟨step, w.here, e, false⟩
  | none => ⟨step, w.here, w.new step, true⟩

/-- The stops of a path, from some place on. -/
def stops (shared : List String) (hidden : Bool) : Walk → List PathStep → List Stop
  | _, [] => []
  | w, step :: rest =>
    w.stop shared hidden step :: stops shared hidden (w.next shared hidden step) rest

/-- The stops of some paths, one path after the other. -/
def tour (rootVar : String) (shared : List String) : List Placed → List PathSpec → List (List Stop)
  | _, [] => []
  | placed, p :: rest =>
    stops shared p.hidden ⟨placed, rootVar, false⟩ p.steps ::
      tour rootVar shared (path rootVar shared placed p) rest

variable {shared : List String} {hidden : Bool} {w : Walk} {step : PathStep} {rootVar : String}

/-- A step stands on the first placed one that serves it, or else is placed. -/
theorem stop_cases (shared : List String) (hidden : Bool) (w : Walk) (step : PathStep) :
    (∃ e ∈ w.placed, e.servesAs shared hidden step = true ∧
        w.stop shared hidden step = ⟨step, w.here, e, false⟩ ∧
        w.next shared hidden step = ⟨w.placed, e.var, w.behind || step.optional || e.optional⟩) ∨
      ((∀ e ∈ w.placed, e.servesAs shared hidden step = false) ∧
        w.stop shared hidden step = ⟨step, w.here, w.new step, true⟩ ∧
        w.next shared hidden step =
          ⟨w.placed ++ [w.new step], (w.new step).var, w.behind || step.optional⟩) := by
  unfold stop next
  cases hfind : w.placed.find? (Placed.servesAs shared hidden step) with
  | some e => exact .inl ⟨e, List.mem_of_find?_eq_some hfind, List.find?_some hfind, rfl, rfl⟩
  | none =>
    refine .inr ⟨fun e he => ?_, rfl, rfl⟩
    exact Bool.eq_false_iff.2 (List.find?_eq_none.1 hfind e he)

@[simp] theorem stop_step : (w.stop shared hidden step).step = step := by
  obtain ⟨_, _, _, hstop, _⟩ | ⟨_, hstop, _⟩ := stop_cases shared hidden w step <;> rw [hstop]

@[simp] theorem stop_source : (w.stop shared hidden step).source = w.here := by
  obtain ⟨_, _, _, hstop, _⟩ | ⟨_, hstop, _⟩ := stop_cases shared hidden w step <;> rw [hstop]

@[simp] theorem next_here : (w.next shared hidden step).here =
    (w.stop shared hidden step).bound.var := by
  obtain ⟨_, _, _, hstop, hnext⟩ | ⟨_, hstop, hnext⟩ := stop_cases shared hidden w step <;>
    rw [hstop, hnext]

theorem next_placed : (w.next shared hidden step).placed =
    w.placed ++ (freshStops [w.stop shared hidden step]).map Stop.bound := by
  obtain ⟨_, _, _, hstop, hnext⟩ | ⟨_, hstop, hnext⟩ := stop_cases shared hidden w step <;>
    simp [hstop, hnext, freshStops]

theorem map_step_stops (steps : List PathStep) :
    (w.stops shared hidden steps).map Stop.step = steps := by
  induction steps generalizing w with
  | nil => rfl
  | cons step rest ih => rw [stops, List.map_cons, stop_step, ih]

theorem step_mem_of_mem_stops {steps : List PathStep} {stop : Stop}
    (h : stop ∈ w.stops shared hidden steps) : stop.step ∈ steps := by
  have hmem := List.mem_map_of_mem (f := Stop.step) h
  rwa [map_step_stops] at hmem

/-- What a fresh stop stands on is made of its step. -/
theorem bound_of_fresh {steps : List PathStep} {stop : Stop}
    (h : stop ∈ w.stops shared hidden steps) (hfresh : stop.fresh = true) :
    ∃ w' : Walk, stop.bound = w'.new stop.step := by
  induction steps generalizing w with
  | nil => cases h
  | cons step rest ih =>
    rcases List.mem_cons.1 h with rfl | h
    · obtain ⟨_, _, _, hstop, _⟩ | ⟨_, hstop, _⟩ := stop_cases shared hidden w step
      · rw [hstop] at hfresh
        cases hfresh
      · exact ⟨w, by rw [hstop]⟩
    · exact ih h

/-- On a path without optional steps nothing optional is bound, unless it is shared. -/
theorem optional_stops {steps : List PathStep} (hbehind : w.behind = false)
    (hsteps : ∀ step ∈ steps, step.optional = false)
    (hshared : ∀ stop ∈ w.stops shared hidden steps, stop.fresh = false →
      stop.bound.optional = false) :
    ∀ stop ∈ w.stops shared hidden steps, stop.bound.optional = false := by
  induction steps generalizing w with
  | nil => exact fun stop hstop => absurd hstop List.not_mem_nil
  | cons step rest ih =>
    have hstep := hsteps step List.mem_cons_self
    have hfirst : (w.stop shared hidden step).bound.optional = false ∧
        (w.next shared hidden step).behind = false := by
      have hserving := hshared _ List.mem_cons_self
      obtain ⟨e, _, _, hstop, hnext⟩ | ⟨_, hstop, hnext⟩ := stop_cases shared hidden w step
      · rw [hstop] at hserving ⊢
        have he : e.optional = false := hserving rfl
        rw [hnext]
        exact ⟨he, by simp only [hbehind, hstep, he, Bool.or_false]⟩
      · rw [hstop, hnext]
        simp only [new, hbehind, hstep, Bool.or_false, and_self]
    intro stop hstop
    rcases List.mem_cons.1 hstop with rfl | hstop
    · exact hfirst.1
    · exact ih hfirst.2 (fun step' h => hsteps step' (List.mem_cons_of_mem step h))
        (fun stop' h => hshared stop' (List.mem_cons_of_mem _ h)) stop hstop

/-- Each stop comes from the variable of the one before. -/
theorem map_source_stops (steps : List PathStep) :
    (w.stops shared hidden steps).map Stop.source =
      (w.here :: (w.stops shared hidden steps).map fun stop => stop.bound.var).dropLast := by
  induction steps generalizing w with
  | nil => rfl
  | cons step rest ih =>
    rw [stops, List.map_cons, List.map_cons, List.dropLast_cons_of_ne_nil (List.cons_ne_nil _ _),
      stop_source, ih, next_here]

/-- What a path places are its fresh stops. -/
theorem placed_foldl_next (steps : List PathStep) :
    (steps.foldl (next shared hidden) w).placed =
      w.placed ++ (freshStops (w.stops shared hidden steps)).map Stop.bound := by
  induction steps generalizing w with
  | nil => exact (List.append_nil _).symm
  | cons step rest ih =>
    rw [List.foldl_cons, ih, next_placed, stops, List.append_assoc, ← List.map_append,
      ← freshStops_append]
    rfl

/-- What a fresh stop on some paths stands on is made of its step. -/
theorem bound_of_fresh_tour {placed : List Placed} {paths : List PathSpec} {stop : Stop}
    (h : stop ∈ freshStops (tour rootVar shared placed paths).flatten) :
    ∃ w' : Walk, stop.bound = w'.new stop.step := by
  obtain ⟨hmem, hfresh⟩ := mem_freshStops.1 h
  clear h
  induction paths generalizing placed with
  | nil => cases hmem
  | cons p rest ih =>
    rw [tour, List.flatten_cons] at hmem
    rcases List.mem_append.1 hmem with hmem | hmem
    · exact bound_of_fresh hmem hfresh
    · exact ih hmem

theorem foldl_path (placed : List Placed) (paths : List PathSpec) :
    paths.foldl (path rootVar shared) placed =
      placed ++ (freshStops (tour rootVar shared placed paths).flatten).map Stop.bound := by
  induction paths generalizing placed with
  | nil => exact (List.append_nil _).symm
  | cons p rest ih =>
    have hpath : path rootVar shared placed p = placed ++
        (freshStops (stops shared p.hidden ⟨placed, rootVar, false⟩ p.steps)).map Stop.bound :=
      placed_foldl_next p.steps
    rw [List.foldl_cons, ih, tour, List.flatten_cons, freshStops_append, List.map_append,
      ← List.append_assoc, ← hpath]

end Walk

/-- What some paths place are their fresh stops. -/
theorem place_eq {rootVar : String} {shared : List String} {paths : List PathSpec} :
    place rootVar shared paths =
      (freshStops (Walk.tour rootVar shared [] paths).flatten).map Stop.bound :=
  Walk.foldl_path [] paths

/-- A placed step with an alias has it for its variable. -/
theorem Placed.var_of_alias {rootVar : String} {shared : List String} {paths : List PathSpec}
    {e : Placed} (he : e ∈ place rootVar shared paths) {name : String}
    (halias : e.step.alias? = some name) : e.var = name := by
  rw [place_eq] at he
  obtain ⟨stop, hstop, rfl⟩ := List.mem_map.1 he
  obtain ⟨w, hbound⟩ := Walk.bound_of_fresh_tour hstop
  rw [hbound] at halias ⊢
  simp only [Walk.new, PathStep.newVar] at halias ⊢
  rw [halias]
  rfl

/-! ## The stops of the binder -/

/-- The variable of a place: that of the binding reached, or that of the root. -/
def Scope.variable (s : Scope) (at? : Option Nat) : String :=
  ((at?.bind (s.bindings[·]?)).map Binding.var).getD s.rootVar

/-- What a stop says of the scope and the place reached before a step and after it. -/
structure Stop.Notes (stop : Stop) (hidden : Bool) (s : Scope) (p : Scope.Progress) (s' : Scope)
    (p' : Scope.Progress) : Prop where
  source : stop.source = s.variable p.at?
  reached : ∃ (i : Nat) (b : Binding), p'.at? = some i ∧ s'.bindings[i]? = some b ∧
    b.var = stop.bound.var ∧ b.edgeVar = stop.bound.edgeVar
  bindings : s'.bindings = s.bindings ++ (freshStops [stop]).map fun stop =>
    Scope.newBinding stop.step hidden stop.bound.var stop.bound.edgeVar p

/-- The binder makes some stops on its way through the steps of a path. -/
inductive Scope.Passes (hidden : Bool) :
    Scope → Scope.Progress → List PathStep → List Stop → Scope → Scope.Progress → Prop
  | nil {s : Scope} {p : Scope.Progress} : Passes hidden s p [] [] s p
  | cons {s s₁ s' : Scope} {p p₁ p' : Scope.Progress} {step : PathStep} {steps : List PathStep}
    {stop : Stop} {stops : List Stop} (run : Scope.bindStep hidden (s, p) step = .ok (s₁, p₁))
    (step_eq : stop.step = step) (notes : stop.Notes hidden s p s₁ p₁)
    (rest : Passes hidden s₁ p₁ steps stops s' p') :
    Passes hidden s p (step :: steps) (stop :: stops) s' p'

/-- The binder makes some stops on its way through some paths. -/
inductive Scope.Tours : Scope → List PathSpec → List (List Stop) → Scope → Prop
  | nil {s : Scope} : Tours s [] [] s
  | cons {s s₁ s' : Scope} {p : Scope.Progress} {path : PathSpec} {paths : List PathSpec}
    {stops : List Stop} {tour : List (List Stop)}
    (passes : Scope.Passes path.hidden s ⟨none, none, false⟩ path.steps stops s₁ p)
    (rest : Tours (s₁.flush p.pattern?) paths tour s') : Tours s (path :: paths) (stops :: tour) s'

namespace Scope

variable {s s' : Scope} {p p' : Progress} {w : Walk} {placed : List Placed} {hidden : Bool}

theorem Reaches.variable_eq (h : s.Reaches p w) : s.variable p.at? = w.here := by
  unfold Scope.variable
  obtain ⟨hnone, hhere⟩ | ⟨j, b, hj, hb, hhere⟩ := h.here
  · rw [hnone, hhere]
    rfl
  · rw [hj, hhere, Option.bind_some, hb]
    rfl

/-- The binder stops where the walk does. -/
theorem Reaches.notes {step : PathStep} (h : s.Reaches p w)
    (hrun : Scope.bindStep hidden (s, p) step = .ok (s', p')) :
    (w.stop s.selection.shared hidden step).Notes hidden s p s' p' := by
  unfold Scope.bindStep Scope.reusable? at hrun
  unfold Walk.stop
  obtain ⟨hnone, hfind⟩ | ⟨i, b, e, hsome, hb, hfind, _, hplaces⟩ :=
    serving_of_forall₂ (fun _ _ h => h.hops) (fun _ _ h => h.alias?) h.places.chained.forall₂ s
      hidden step
  · simp only [hnone] at hrun
    simp only [hfind]
    obtain ⟨pattern, s₁, var, edgeVar, hopen, hvar, hedge, _, _, rfl, rfl⟩ := bindNew_eq_ok hrun
    have hbindings := (s.openPattern_keeps p (step.optional || p.afterOptional)).1
    rw [hopen] at hbindings
    have hcount : s₁.bindings.length = w.placed.length := by
      rw [hbindings, h.places.chained.length_eq]
    obtain rfl := Tracks.newVar_of_nodeVar hvar hcount
    obtain rfl : step.newEdgeVar w.placed.length = edgeVar :=
      (Tracks.newEdgeVar_eq hcount).trans hedge
    refine ⟨h.variable_eq.symm, ⟨_, _, rfl, List.getElem?_concat_length, rfl, rfl⟩, ?_⟩
    rw [hbindings]
    rfl
  · simp only [hsome] at hrun
    simp only [hfind]
    obtain ⟨rfl, rfl⟩ := Prod.mk.inj (Except.ok.inj hrun)
    refine ⟨h.variable_eq.symm, ⟨i, b, rfl, ?_, hplaces.var, hplaces.edgeVar⟩, ?_⟩
    · rw [flush_bindings]
      exact hb
    · rw [flush_bindings]
      exact (List.append_nil _).symm

/-- The stops of a walk are those of the binder on a path. -/
theorem Reaches.passes {steps : List PathStep} (h : s.Reaches p w)
    (hrun : steps.foldlM (Scope.bindStep hidden) (s, p) = .ok (s', p')) :
    Passes hidden s p steps (w.stops s.selection.shared hidden steps) s' p' := by
  induction steps generalizing s p w with
  | nil =>
    obtain ⟨rfl, rfl⟩ := Prod.mk.inj (pure_eq_ok.1 hrun)
    exact .nil
  | cons step rest ih =>
    rw [List.foldlM_cons] at hrun
    obtain ⟨⟨s₁, p₁⟩, hstep, hrest⟩ := bind_eq_ok.1 hrun
    obtain ⟨h₁, hselection, _⟩ := h.bindStep hstep
    have hpasses := ih h₁ hrest
    rw [hselection] at hpasses
    exact .cons hstep Walk.stop_step (h.notes hstep) hpasses

theorem Places.tours {paths : List PathSpec} (h : s.Places placed)
    (hrun : paths.foldlM Scope.bindPath s = .ok s') :
    s.Tours paths (Walk.tour s.rootVar s.selection.shared placed paths) s' := by
  induction paths generalizing s placed with
  | nil =>
    obtain rfl := pure_eq_ok.1 hrun
    exact .nil
  | cons path rest ih =>
    rw [List.foldlM_cons] at hrun
    obtain ⟨s₁, hs₁, hrest⟩ := bind_eq_ok.1 hrun
    obtain ⟨s₂, p, hsteps, rfl⟩ := bindPath_eq_ok hs₁
    have hstart : s.Reaches ⟨none, none, false⟩ ⟨placed, s.rootVar, false⟩ := ⟨h, .inl ⟨rfl, rfl⟩⟩
    obtain ⟨hreaches, hselection, hroot⟩ := hstart.foldlM hsteps
    have htours := ih (hreaches.places.flush p.pattern?) hrest
    rw [flush_rootVar, flush_selection, hselection, hroot] at htours
    exact .cons (hstart.passes hsteps) htours

/-- A fresh stop of a path has made a binding of its step. -/
theorem Passes.binding {steps : List PathStep} {stops : List Stop}
    (h : Passes hidden s p steps stops s' p') : s.bindings ⊆ s'.bindings ∧
      ∀ stop ∈ freshStops stops, stop.step ∈ steps ∧ ∃ q,
        newBinding stop.step hidden stop.bound.var stop.bound.edgeVar q ∈ s'.bindings := by
  induction h with
  | nil => exact ⟨List.Subset.refl _, fun stop hstop => absurd hstop List.not_mem_nil⟩
  | @cons s s₁ s' p p₁ p' step steps stop stops _ hstep hnotes _ ih =>
    obtain ⟨hsubset, hmade⟩ := ih
    rw [hnotes.bindings] at hsubset
    refine ⟨fun b hb => hsubset (List.mem_append_left _ hb), fun stop' hstop' => ?_⟩
    obtain ⟨hmem, hfresh⟩ := mem_freshStops.1 hstop'
    rcases List.mem_cons.1 hmem with rfl | hmem
    · have hnew : stop' ∈ freshStops [stop'] :=
        mem_freshStops.2 ⟨List.mem_singleton_self _, hfresh⟩
      exact ⟨hstep ▸ List.mem_cons_self,
        p, hsubset (List.mem_append_right _ (List.mem_map_of_mem hnew))⟩
    · obtain ⟨hsteps, hbinding⟩ := hmade stop' (mem_freshStops.2 ⟨hmem, hfresh⟩)
      exact ⟨List.mem_cons_of_mem step hsteps, hbinding⟩

/-- A fresh stop has made a binding of its step, on some path. -/
theorem Tours.binding {paths : List PathSpec} {tour : List (List Stop)}
    (h : s.Tours paths tour s') : s.bindings ⊆ s'.bindings ∧
      ∀ stop ∈ freshStops tour.flatten, ∃ path ∈ paths, stop.step ∈ path.steps ∧ ∃ q,
        newBinding stop.step path.hidden stop.bound.var stop.bound.edgeVar q ∈ s'.bindings := by
  induction h with
  | nil => exact ⟨List.Subset.refl _, fun stop hstop => absurd hstop List.not_mem_nil⟩
  | @cons s s₁ s' p path paths stops tour hpasses _ ih =>
    obtain ⟨hsubset, hmade⟩ := ih
    obtain ⟨hsubset₁, hmade₁⟩ := hpasses.binding
    rw [flush_bindings] at hsubset
    refine ⟨fun b hb => hsubset (hsubset₁ hb), fun stop hstop => ?_⟩
    rw [List.flatten_cons, freshStops_append] at hstop
    rcases List.mem_append.1 hstop with hstop | hstop
    · obtain ⟨hstep, q, hq⟩ := hmade₁ stop hstop
      exact ⟨path, List.mem_cons_self, hstep, q, hsubset hq⟩
    · obtain ⟨path', hpath', hbinding⟩ := hmade stop hstop
      exact ⟨path', List.mem_cons_of_mem path hpath', hbinding⟩

/-- The stops of the walk through a plan's paths are those of the binder. -/
theorem tours_of_scope {r : Registry} {selection : Selection} {imports : List String}
    (h : selection.scope r imports = .ok s) :
    ∃ first hidden, start selection imports = .ok first ∧ selection.filterPaths r = .ok hidden ∧
      first.Tours (selection.paths ++ hidden)
        (Walk.tour selection.root.variableName selection.shared [] (selection.paths ++ hidden))
        s := by
  obtain ⟨first, hidden, hstart, _, hhidden, hpaths⟩ := Selection.scope_eq_ok h
  refine ⟨first, hidden, hstart, hhidden, ?_⟩
  obtain ⟨declared, rfl, hdeclared⟩ := start_eq_ok hstart
  have hfirst : Scope.Places ⟨selection, selection.root.variableName,
      imports.contains selection.root.variableName, [], declared, [], none, [], []⟩ [] :=
    ⟨.nil, List.nodup_singleton _,
      fun v hv => (hdeclared v).2 (.inl (List.mem_singleton.1 hv))⟩
  exact hfirst.tours hpaths

end Scope

/-! ## Distinct variables -/

/-- The variables of a binding. -/
def Binding.vars (b : Binding) : List String := [b.var, b.edgeVar]

/-- The variables of a placed step. -/
def Placed.vars (e : Placed) : List String := [e.var, e.edgeVar]

/-- A step that is bound either declares nothing, or the two variables of a binding more. -/
theorem Scope.declared_bindStep {s s' : Scope} {p p' : Progress} {hidden : Bool} {step : PathStep}
    (hrun : Scope.bindStep hidden (s, p) step = .ok (s', p')) :
    (s'.bindings = s.bindings ∧ s'.rootVar = s.rootVar ∧ s'.declared = s.declared) ∨
      ∃ var edgeVar, var ∉ s.declared ∧ edgeVar ∉ s.declared ++ [var] ∧
        s'.bindings = s.bindings ++ [newBinding step hidden var edgeVar p] ∧
        s'.rootVar = s.rootVar ∧ s'.declared = s.declared ++ [var] ++ [edgeVar] := by
  unfold Scope.bindStep at hrun
  dsimp only at hrun
  split at hrun
  · obtain ⟨rfl, rfl⟩ := Prod.mk.inj (Except.ok.inj hrun)
    exact .inl ⟨flush_bindings _ _, flush_rootVar _ _, flush_declared _ _⟩
  · obtain ⟨pattern, s₁, var, edgeVar, hopen, _, _, hvar, hedge, rfl, _⟩ := bindNew_eq_ok hrun
    obtain ⟨hbindings, hroot, hdeclared, _⟩ :=
      s.openPattern_keeps p (step.optional || p.afterOptional)
    rw [hopen] at hbindings hroot hdeclared
    rw [← hbindings, ← hroot, ← hdeclared]
    exact .inr ⟨var, edgeVar, hvar, hedge, rfl, rfl, rfl⟩

/-- The variables of the root and of the bindings are declared, each once. -/
structure Scope.Distinct (s : Scope) : Prop where
  nodup : (s.rootVar :: s.bindings.flatMap Binding.vars).Nodup
  declared : s.rootVar :: s.bindings.flatMap Binding.vars ⊆ s.declared

namespace Scope.Distinct

variable {s s' : Scope} {p p' : Scope.Progress}

theorem flush (h : s.Distinct) (x? : Option (Cypher.Pattern × Bool)) : (s.flush x?).Distinct :=
  ⟨by simpa using h.nodup, by simpa using h.declared⟩

theorem bindStep {hidden : Bool} {step : PathStep} (h : s.Distinct)
    (hrun : Scope.bindStep hidden (s, p) step = .ok (s', p')) : s'.Distinct := by
  obtain ⟨hbindings, hroot, hdeclared⟩ | ⟨var, edgeVar, hvar, hedge, hbindings, hroot, hdeclared⟩ :=
    declared_bindStep hrun
  · constructor
    · rw [hbindings, hroot]
      exact h.nodup
    · rw [hbindings, hroot, hdeclared]
      exact h.declared
  · obtain ⟨hnodup, hsubset⟩ := h
    have hvars : s'.rootVar :: s'.bindings.flatMap Binding.vars =
        (s.rootVar :: s.bindings.flatMap Binding.vars) ++ [var] ++ [edgeVar] := by
      rw [hbindings, hroot, List.flatMap_append]
      simp [newBinding, Binding.vars]
    refine ⟨?_, ?_⟩
    · rw [hvars, List.nodup_append_comm, List.singleton_append, List.nodup_cons,
        List.nodup_append_comm, List.singleton_append, List.nodup_cons]
      refine ⟨fun hmem => ?_, fun hmem => hvar (hsubset hmem), hnodup⟩
      rcases List.mem_append.1 hmem with hmem | hmem
      · exact hedge (List.mem_append_left _ (hsubset hmem))
      · exact hedge (List.mem_append_right _ hmem)
    · rw [hvars, hdeclared]
      intro v hv
      simp only [List.mem_append] at hv ⊢
      exact hv.imp_left fun hv => hv.imp_left fun hv => hsubset hv

/-- The variables of a selection's root and bindings are distinct. -/
theorem of_scope {r : Registry} {selection : Selection} {imports : List String}
    (h : selection.scope r imports = .ok s) : s.Distinct := by
  obtain ⟨first, hidden, hstart, _, _, hpaths⟩ := Selection.scope_eq_ok h
  obtain ⟨declared, rfl, hdeclared⟩ := start_eq_ok hstart
  refine foldlM_invariant ⟨List.nodup_singleton _, fun v hv => ?_⟩ (fun path _ s s' hs hpath => ?_)
    hpaths
  · exact (hdeclared v).2 (.inl (List.mem_singleton.1 hv))
  · obtain ⟨s₁, p, hsteps, rfl⟩ := bindPath_eq_ok hpath
    have hdistinct := foldlM_invariant (P := fun state : Scope × Progress => state.1.Distinct) hs
      (fun _ _ _ _ hstate hstep => hstate.bindStep hstep) hsteps
    exact hdistinct.flush p.pattern?

end Scope.Distinct

/-- The variables of placed steps are those of the bindings made of them. -/
theorem Chained.flatMap_vars {rootVar : String} {bs : List Binding} {placed : List Placed}
    (h : Chained rootVar bs placed) : bs.flatMap Binding.vars = placed.flatMap Placed.vars := by
  induction h with
  | nil => rfl
  | snoc _ hb ih =>
    rw [List.flatMap_append, List.flatMap_append, ih]
    simp [Binding.vars, Placed.vars, hb.var, hb.edgeVar]

/-! ## Plans -/

/-- The binder makes a tour of the paths of a plan and of the hidden ones of its filters, and the
patterns of the statement, read back from its text, have one edge for each fresh stop. -/
theorem QueryPlan.tour_compilePlan {r₀ r : Registry} {root : String} {p₀ p : QueryPlan}
    {history : List (Registry × PlanCall)} {space : String} {imports : List String}
    {ending : Ending} {clauses : List Cypher.Clause} {shape : ResultShape} {b b' : Binder}
    (hr₀ : r₀.Reachable) (hr : r.Reachable) (hhistory : ∀ c ∈ history, c.1.Reachable)
    (hnew : QueryPlan.new r₀ root = .ok p₀) (hcalls : p₀.calls history = .ok p)
    (hrun : compilePlan r space imports ending p b = .ok ((clauses, shape), b')) :
    ∃ first scope hidden tour, Scope.start p.selection imports = .ok first ∧
      p.selection.scope r imports = .ok scope ∧ p.selection.filterPaths r = .ok hidden ∧
      tour = Walk.tour p.root.variableName p.selection.shared [] (p.selection.paths ++ hidden) ∧
      first.Tours (p.selection.paths ++ hidden) tour scope ∧
      Cypher.readMatches clauses = some (clauses.flatMap Cypher.Clause.fragments) ∧
      ((clauses.flatMap Cypher.Clause.fragments).flatMap fun f => f.1.links).Perm
        ((freshStops tour.flatten).map fun stop => stop.bound.link) := by
  obtain ⟨scope, _, _, _, hscope, _⟩ := compilePlan_eq_matched hrun
  obtain ⟨first, hidden, hstart, hhidden, htours⟩ := Scope.tours_of_scope hscope
  obtain ⟨hne, hidden', hhidden', hdraws⟩ := draws_compilePlan (uniform_calls hnew hcalls) hrun
  cases hhidden.symm.trans hhidden'
  have hnamed : p.selection.Named :=
    (Selection.named_of_new hr₀.named hnew).calls (fun c hc => (hhistory c hc).named) hcalls
  have hpaths : ∀ path ∈ p.selection.paths ++ hidden, path.Named := by
    intro path hpath
    rcases List.mem_append.1 hpath with hpath | hpath
    · exact hnamed.paths path hpath
    · exact Selection.named_filterPaths hr.named hhidden path hpath
  have hread := Cypher.readMatches_eq hne (hdraws.legible hnamed.root (named_place hpaths))
  have hedges := hdraws.edges
  rw [place_eq, List.map_map] at hedges
  exact ⟨first, scope, hidden, _, hstart, hscope, hhidden, rfl, htours, hread, hedges⟩

/-- No path of a plan is hidden. -/
theorem QueryPlan.visible_paths {r₀ : Registry} {root : String} {p₀ p : QueryPlan}
    {history : List (Registry × PlanCall)} (hnew : QueryPlan.new r₀ root = .ok p₀)
    (hcalls : p₀.calls history = .ok p) : ∀ path ∈ p.selection.paths, path.hidden = false := by
  intro path hpath
  obtain ⟨_, _, _, _, hspec⟩ := resolved_calls hnew hcalls path hpath
  obtain ⟨_, _, _, _, _, rfl⟩ := PathSpec.resolve_eq_ok hspec
  rfl

end GraphMapper
