import Mathlib.Data.List.Pairwise
import GraphMapper.Proofs.Compile.Narrowing
import GraphMapper.Proofs.Compile.Tours

/-!
# Sharing by name

A plan lists the chains whose variables its traversals share.  A chain that is
listed is bound once, and one that is not, nor any alias on it, is bound by
every traversal anew (`QueryPlan.listed_chains_shared`).

A step that is bound anew leads on from the variable that its traversal has
come to.  A shared one stays where the traversal that bound it put it, which is
the same place if the step before is the root or is listed too; else the second
traversal leaves the step before where it is and goes on elsewhere
(`QueryPlan.shared_step_elsewhere`).
-/

namespace GraphMapper

/-! ## Steps that go on hop by hop -/

/-- Steps of which each goes one hop further than the one before. -/
def Stepwise : List String → List PathStep → Prop
  | _, [] => True
  | done, step :: rest => (∃ name, step.hops = done ++ [name]) ∧ Stepwise step.hops rest

/-- A path that goes on hop by hop, and whose chains are read back. -/
structure PathSpec.Steady (p : PathSpec) : Prop where
  stepwise : Stepwise [] p.steps
  legible : ∀ step ∈ p.steps, Legible step.hops

namespace PathSpec

variable {r : Registry} {root : NodeType} {p : PathSpec}

theorem stepwise_stepsOf {options : TraverseOptions} {mode : PathMode} {done : List String}
    {hops : List (String × Hop)} : Stepwise done (stepsOf options mode done hops) := by
  induction hops generalizing done with
  | nil => trivial
  | cons hop rest ih => exact ⟨⟨hop.1, rfl⟩, ih⟩

theorem steady_of_resolve {expr : String} {options : TraverseOptions} {mode : PathMode}
    (h : resolve r root expr options mode = .ok p) : p.Steady := by
  obtain ⟨_, _, hfollows⟩ := follows_of_resolve h
  obtain ⟨_, _, _, _, _, rfl⟩ := resolve_eq_ok h
  exact ⟨stepwise_stepsOf, fun step hstep => hfollows.legible_step hstep⟩

theorem steady_of_forFilter {hops : List String} (h : forFilter r root hops = .ok p) :
    p.Steady := by
  obtain ⟨visible, hvisible, rfl⟩ := forFilter_eq_ok h
  obtain ⟨hstepwise, hlegible⟩ := steady_of_resolve hvisible
  exact ⟨hstepwise, hlegible⟩

end PathSpec

/-! ## Where steps lead on from -/

/-- The variable that some hops lead to: the root's, or that of a step placed with these hops. -/
def Leads (rootVar : String) (placed : List Placed) (v : String) (hops : List String) : Prop :=
  (hops = [] ∧ v = rootVar) ∨ ∃ e ∈ placed, e.var = v ∧ e.step.hops = hops

theorem Leads.mono {rootVar v : String} {placed placed' : List Placed} {hops : List String}
    (h : Leads rootVar placed v hops) (hsubset : placed ⊆ placed') :
    Leads rootVar placed' v hops :=
  h.imp_right fun ⟨e, he, hvar⟩ => ⟨e, hsubset he, hvar⟩

/-- Placed steps of which no two have a chain that is listed, and each leads on from where its hops
say. -/
structure Orderly (rootVar : String) (shared : List String) (placed : List Placed) : Prop where
  single : placed.Pairwise fun e e' => e.step.chain ∈ shared → e.step.chain ≠ e'.step.chain
  legible : ∀ e ∈ placed, Legible e.step.hops
  leads : ∀ e ∈ placed, Leads rootVar placed e.source e.step.hops.dropLast

/-- What a stop says of the steps that are placed in the end. -/
structure Stop.Stands (rootVar : String) (shared : List String) (hidden : Bool)
    (placed : List Placed) (stop : Stop) : Prop where
  bound : stop.bound ∈ placed
  hops : stop.bound.step.hops = stop.step.hops
  source : Leads rootVar placed stop.source stop.step.hops.dropLast
  fresh : stop.fresh = true → stop.bound.step = stop.step ∧ stop.bound.source = stop.source
  serves : stop.fresh = false → stop.bound.servesAs shared hidden stop.step = true

/-- The stops of a walk along a path, which stand on placed steps. -/
structure Walked (rootVar : String) (shared : List String) (placed : List Placed) (p : PathSpec)
    (stops : List Stop) : Prop where
  walk : ∃ before, stops = Walk.stops shared p.hidden ⟨before, rootVar, false⟩ p.steps
  stands : ∀ stop ∈ stops, stop.Stands rootVar shared p.hidden placed

section

variable {rootVar : String} {shared : List String} {hidden : Bool} {placed placed' : List Placed}
  {w : Walk} {step : PathStep} {stop : Stop}

theorem Stop.Stands.mono (h : stop.Stands rootVar shared hidden placed)
    (hsubset : placed ⊆ placed') : stop.Stands rootVar shared hidden placed' :=
  { h with bound := hsubset h.bound, source := h.source.mono hsubset }

theorem Placed.chain_of_servesAs {e : Placed} (h : e.servesAs shared hidden step = true) :
    e.step.chain = step.chain := beq_iff_eq.1 (Bool.and_eq_true_iff.1 h).1

/-- A placed step whose chain is listed serves every step on that chain. -/
theorem Placed.servesAs_of_listed {e : Placed} (hlisted : e.step.chain ∈ shared)
    (hchain : e.step.chain = step.chain) : e.servesAs shared hidden step = true := by
  have hcontains := List.contains_iff_mem.2 hlisted
  unfold Placed.servesAs
  rw [hcontains, hchain, beq_self_eq_true, Bool.true_or, Bool.or_true, Bool.and_self]

namespace Orderly

theorem nil : Orderly rootVar shared [] where
  single := .nil
  legible _ he := absurd he List.not_mem_nil
  leads _ he := absurd he List.not_mem_nil

/-- Steps on one listed chain are one step. -/
theorem eq_of_listed (h : Orderly rootVar shared placed) {e e' : Placed} (he : e ∈ placed)
    (he' : e' ∈ placed) (hlisted : e.step.chain ∈ shared)
    (hchain : e.step.chain = e'.step.chain) : e = e' := by
  by_contra hne
  have hsymmetric : Std.Symm fun e e' : Placed =>
      e.step.chain ∈ shared → e.step.chain ≠ e'.step.chain :=
    ⟨fun e e' hpair hlisted' hchain' => hpair (hchain' ▸ hlisted') hchain'.symm⟩
  exact h.single.forall he he' hne hlisted hchain

/-- Hops that are those of the root, or listed, lead to one variable. -/
theorem leads_unique (h : Orderly rootVar shared placed) {v v' : String} {hops : List String}
    (hwhere : hops = [] ∨ Text.joinDouble hops ∈ shared) (hv : Leads rootVar placed v hops)
    (hv' : Leads rootVar placed v' hops) : v = v' := by
  obtain ⟨rfl, rfl⟩ | ⟨e, he, rfl, hhops⟩ := hv
  · obtain ⟨_, rfl⟩ | ⟨e', he', _, hhops'⟩ := hv'
    · rfl
    · exact absurd hhops' (h.legible e' he').ne_nil
  · have hne : hops ≠ [] := hhops ▸ (h.legible e he).ne_nil
    obtain ⟨hnil, _⟩ | ⟨e', he', rfl, hhops'⟩ := hv'
    · exact absurd hnil hne
    · have hlisted : e.step.chain ∈ shared := by
        rw [PathStep.chain, hhops]
        exact hwhere.resolve_left hne
      have hchain : e.step.chain = e'.step.chain := by
        rw [PathStep.chain, PathStep.chain, hhops, hhops']
      rw [h.eq_of_listed he he' hlisted hchain]

/-- One step more is placed where the walk stands, unless there is one that serves. -/
theorem next (h : Orderly rootVar shared w.placed) (hidden : Bool)
    (hhere : Leads rootVar w.placed w.here step.hops.dropLast) (hlegible : Legible step.hops) :
    Orderly rootVar shared (w.next shared hidden step).placed ∧
      (w.stop shared hidden step).Stands rootVar shared hidden (w.next shared hidden step).placed ∧
      Leads rootVar (w.next shared hidden step).placed (w.next shared hidden step).here
        step.hops := by
  obtain ⟨e, he, hserves, hstop, hnext⟩ | ⟨hnone, hstop, hnext⟩ :=
    Walk.stop_cases shared hidden w step
  · rw [hstop, hnext]
    have hhops : e.step.hops = step.hops :=
      (h.legible e he).eq_of_joinDouble_eq hlegible (Placed.chain_of_servesAs hserves)
    exact ⟨h, ⟨he, hhops, hhere, nofun, fun _ => hserves⟩, .inr ⟨e, he, rfl, hhops⟩⟩
  · rw [hstop, hnext]
    have hsubset : w.placed ⊆ w.placed ++ [w.new step] := List.subset_append_left _ _
    have hnew : w.new step ∈ w.placed ++ [w.new step] :=
      List.mem_append_right _ (List.mem_singleton_self _)
    refine ⟨⟨?_, fun e he => ?_, fun e he => ?_⟩,
      ⟨hnew, rfl, hhere.mono hsubset, fun _ => ⟨rfl, rfl⟩, nofun⟩, .inr ⟨_, hnew, rfl, rfl⟩⟩
    · refine List.pairwise_append.2 ⟨h.single, List.pairwise_singleton _ _, ?_⟩
      rintro e he e' he' hlisted hchain
      rw [List.mem_singleton.1 he'] at hchain
      have hserves : e.servesAs shared hidden step = true :=
        Placed.servesAs_of_listed hlisted hchain
      rw [hnone e he] at hserves
      cases hserves
    · rcases List.mem_append.1 he with he | he
      · exact h.legible e he
      · rw [List.mem_singleton.1 he]
        exact hlegible
    · rcases List.mem_append.1 he with he | he
      · exact (h.leads e he).mono hsubset
      · rw [List.mem_singleton.1 he]
        exact hhere.mono hsubset

theorem stops {steps : List PathStep} {done : List String} (h : Orderly rootVar shared w.placed)
    (hidden : Bool) (hhere : Leads rootVar w.placed w.here done) (hsteps : Stepwise done steps)
    (hlegible : ∀ step ∈ steps, Legible step.hops) :
    Orderly rootVar shared (steps.foldl (Walk.next shared hidden) w).placed ∧
      ∀ stop ∈ w.stops shared hidden steps,
        stop.Stands rootVar shared hidden (steps.foldl (Walk.next shared hidden) w).placed := by
  induction steps generalizing w done with
  | nil => exact ⟨h, fun stop hmem => absurd hmem List.not_mem_nil⟩
  | cons step rest ih =>
    obtain ⟨⟨name, hhops⟩, hrest⟩ := hsteps
    have hdone : step.hops.dropLast = done := by rw [hhops, List.dropLast_concat]
    rw [← hdone] at hhere
    obtain ⟨h₁, hstop, hhere₁⟩ := h.next hidden hhere (hlegible step List.mem_cons_self)
    obtain ⟨h', hstops⟩ :=
      ih h₁ hhere₁ hrest fun step' hstep => hlegible step' (List.mem_cons_of_mem step hstep)
    refine ⟨h', fun stop hmem => ?_⟩
    rcases List.mem_cons.1 hmem with rfl | hmem
    · refine hstop.mono ?_
      rw [List.foldl_cons, Walk.placed_foldl_next]
      exact List.subset_append_left _ _
    · exact hstops stop hmem

/-- Some paths leave the steps in order, and their stops stand on them. -/
theorem tour {paths : List PathSpec} (h : Orderly rootVar shared placed)
    (hpaths : ∀ p ∈ paths, p.Steady) :
    Orderly rootVar shared (paths.foldl (Walk.path rootVar shared) placed) ∧
      List.Forall₂ (Walked rootVar shared (paths.foldl (Walk.path rootVar shared) placed)) paths
        (Walk.tour rootVar shared placed paths) := by
  induction paths generalizing placed with
  | nil => exact ⟨h, .nil⟩
  | cons p rest ih =>
    obtain ⟨hstepwise, hlegible⟩ := hpaths p List.mem_cons_self
    obtain ⟨h₁, hstops⟩ := Orderly.stops (w := ⟨placed, rootVar, false⟩) h p.hidden
      (.inl ⟨rfl, rfl⟩) hstepwise hlegible
    obtain ⟨h', hrest⟩ := ih h₁ fun p' hp => hpaths p' (List.mem_cons_of_mem p hp)
    refine ⟨h', .cons ⟨⟨_, rfl⟩, fun stop hstop => (hstops stop hstop).mono ?_⟩ hrest⟩
    rw [List.foldl_cons, Walk.foldl_path]
    exact List.subset_append_left _ _

end Orderly

/-- A step that a path has placed leads on from where the path has come to, and so does a shared one
whose way there is the root's or is listed. -/
theorem Stop.Stands.attached (h : stop.Stands rootVar shared hidden placed)
    (hplaced : Orderly rootVar shared placed)
    (hwhere : stop.fresh = true ∨ stop.step.hops.dropLast = [] ∨
      Text.joinDouble stop.step.hops.dropLast ∈ shared) : stop.bound.source = stop.source := by
  rcases hwhere with hfresh | hwhere
  · exact (h.fresh hfresh).2
  · have hleads := hplaced.leads stop.bound h.bound
    rw [h.hops] at hleads
    exact hplaced.leads_unique hwhere hleads h.source

end

/-! ## What paths share -/

/-- A chain that is not listed, nor is any alias that a path gives to a step on it. -/
def Unlisted (shared : List String) (paths : List PathSpec) (chain : String) : Prop :=
  chain ∉ shared ∧ ∀ p ∈ paths, ∀ step ∈ p.steps, step.chain = chain →
    ∀ name, step.alias? = some name → name ∉ shared

/-- A path of a plan, with its stops.

* There is one for each step, and it comes from the variable of the one before, or of the root.
* A traversal stops afresh on a chain that is not listed, nor any alias on it.
* What a stop stands on leads on from where the path has come to, if the path has placed it, or if
  the step before is the root or is listed. -/
structure Route (rootVar : String) (shared : List String) (declared : List PathSpec) (p : PathSpec)
    (stops : List Stop) : Prop where
  steps : stops.map Stop.step = p.steps
  sources : stops.map Stop.source = (rootVar :: stops.map fun stop => stop.bound.var).dropLast
  own : p.hidden = false → ∀ stop ∈ stops, Unlisted shared declared stop.step.chain →
    stop.fresh = true
  attached : ∀ stop ∈ stops, stop.fresh = true ∨ stop.step.hops.dropLast = [] ∨
    Text.joinDouble stop.step.hops.dropLast ∈ shared → stop.bound.source = stop.source

/-- What the traversals of a plan and the hidden paths of its filters share.

* Every stop stands on what a fresh one on its chain has placed, and the fresh ones have variables
  of their own.
* There is one fresh stop on a listed chain, and all others on it stand on what that has placed. -/
structure Shares (rootVar : String) (shared : List String) (declared hidden : List PathSpec)
    (tour : List (List Stop)) : Prop where
  routes : List.Forall₂ (Route rootVar shared declared) (declared ++ hidden) tour
  placed : ∀ stop ∈ freshStops tour.flatten, stop.bound.step = stop.step
  bound : ∀ stop ∈ tour.flatten, ∃ first ∈ freshStops tour.flatten,
    first.step.chain = stop.step.chain ∧ first.bound = stop.bound
  distinct : (rootVar :: (freshStops tour.flatten).flatMap fun stop => stop.bound.vars).Nodup
  listed : ∀ stop ∈ tour.flatten, stop.step.chain ∈ shared → ∃ first,
    (freshStops tour.flatten).filter (fun stop' => stop'.step.chain == stop.step.chain) = [first] ∧
      first.bound = stop.bound

section

variable {rootVar : String} {shared : List String} {declared hidden : List PathSpec}

/-- A step serves a traversal if its chain is listed or its alias is. -/
theorem Placed.listed_of_servesAs {step : PathStep} {e : Placed}
    (h : e.servesAs shared false step = true) :
    e.step.chain ∈ shared ∨ ∃ name, e.step.alias? = some name ∧ name ∈ shared := by
  have hshared := (Bool.and_eq_true_iff.1 h).2
  rw [Bool.false_or, Bool.or_eq_true, List.contains_iff_mem] at hshared
  refine hshared.imp_right fun halias => ?_
  split at halias
  · next name hname => exact ⟨name, hname, List.contains_iff_mem.1 halias⟩
  · cases halias

/-- Items of which no two are there together are one. -/
theorem eq_singleton_of_pairwise {α : Type} {as : List α} {a : α} (ha : a ∈ as)
    (h : as.Pairwise fun _ _ => False) : as = [a] := by
  match as, ha, h with
  | [_], ha, _ => rw [List.mem_singleton.1 ha]
  | _ :: b :: _, _, h => exact ((List.pairwise_cons.1 h).1 b List.mem_cons_self).elim

/-- The stops of some paths, which stand on the steps that the fresh ones have placed. -/
structure Toured (rootVar : String) (shared : List String) (paths : List PathSpec)
    (tour : List (List Stop)) : Prop where
  orderly : Orderly rootVar shared ((freshStops tour.flatten).map Stop.bound)
  stops : List.Forall₂ (Walked rootVar shared ((freshStops tour.flatten).map Stop.bound)) paths tour

namespace Toured

variable {paths : List PathSpec} {tour : List (List Stop)} {stop : Stop}

theorem of_steady (h : ∀ p ∈ paths, p.Steady) :
    Toured rootVar shared paths (Walk.tour rootVar shared [] paths) := by
  have hnil : Orderly rootVar shared [] := .nil
  obtain ⟨horderly, hstops⟩ := hnil.tour h
  have hplace : paths.foldl (Walk.path rootVar shared) [] =
      (freshStops (Walk.tour rootVar shared [] paths).flatten).map Stop.bound := place_eq
  rw [hplace] at horderly hstops
  exact ⟨horderly, hstops⟩

/-- Every stop is one for a step of a path. -/
theorem exists_path (h : Toured rootVar shared paths tour) (hstop : stop ∈ tour.flatten) :
    ∃ p ∈ paths, stop.step ∈ p.steps ∧
      stop.Stands rootVar shared p.hidden ((freshStops tour.flatten).map Stop.bound) := by
  obtain ⟨stops, hstops, hstop⟩ := List.mem_flatten.1 hstop
  obtain ⟨p, hp, ⟨_, heq⟩, hstands⟩ := exists_of_mem_forall₂ h.stops hstops
  refine ⟨p, hp, ?_, hstands stop hstop⟩
  rw [heq] at hstop
  exact Walk.step_mem_of_mem_stops hstop

theorem placed (h : Toured rootVar shared paths tour) (hstop : stop ∈ freshStops tour.flatten) :
    stop.bound.step = stop.step := by
  obtain ⟨hstop, hfresh⟩ := mem_freshStops.1 hstop
  obtain ⟨_, _, _, hstands⟩ := h.exists_path hstop
  exact (hstands.fresh hfresh).1

/-- Every stop stands on what a fresh one on its chain has placed. -/
theorem bound (h : Toured rootVar shared paths tour) (hstop : stop ∈ tour.flatten) :
    ∃ first ∈ freshStops tour.flatten, first.step.chain = stop.step.chain ∧
      first.bound = stop.bound := by
  obtain ⟨_, _, _, hstands⟩ := h.exists_path hstop
  obtain ⟨first, hfirst, heq⟩ := List.mem_map.1 hstands.bound
  refine ⟨first, hfirst, ?_, heq⟩
  rw [← h.placed hfirst, heq, PathStep.chain, hstands.hops, PathStep.chain]

/-- What is placed are steps of the paths. -/
theorem known (h : Toured rootVar shared paths tour) {e : Placed}
    (he : e ∈ (freshStops tour.flatten).map Stop.bound) : ∃ p ∈ paths, e.step ∈ p.steps := by
  obtain ⟨first, hfirst, rfl⟩ := List.mem_map.1 he
  obtain ⟨p, hp, hstep, _⟩ := h.exists_path (mem_freshStops.1 hfirst).1
  exact ⟨p, hp, h.placed hfirst ▸ hstep⟩

/-- There is one fresh stop on a listed chain. -/
theorem listed (h : Toured rootVar shared paths tour) (hstop : stop ∈ tour.flatten)
    (hlisted : stop.step.chain ∈ shared) : ∃ first,
      (freshStops tour.flatten).filter (fun stop' => stop'.step.chain == stop.step.chain) =
        [first] ∧ first.bound = stop.bound := by
  obtain ⟨first, hfirst, hchain, heq⟩ := h.bound hstop
  refine ⟨first, eq_singleton_of_pairwise ?_ ?_, heq⟩
  · exact List.mem_filter.2 ⟨hfirst, beq_iff_eq.2 hchain⟩
  · have hsingle := (List.pairwise_map.1 h.orderly.single).filter
      fun stop' => stop'.step.chain == stop.step.chain
    refine hsingle.imp_of_mem fun ha hb hpair => ?_
    obtain ⟨ha, hachain⟩ := List.mem_filter.1 ha
    obtain ⟨hb, hbchain⟩ := List.mem_filter.1 hb
    rw [beq_iff_eq] at hachain hbchain
    rw [h.placed ha, h.placed hb, hachain, hbchain] at hpair
    exact hpair hlisted rfl

/-- A traversal stops afresh on a chain that is not listed, nor any alias on it. -/
theorem own (h : Toured rootVar shared (declared ++ hidden) tour)
    (halias : ∀ p ∈ hidden, ∀ step ∈ p.steps, step.alias? = none)
    (hstands : stop.Stands rootVar shared false ((freshStops tour.flatten).map Stop.bound))
    (hunlisted : Unlisted shared declared stop.step.chain) : stop.fresh = true := by
  obtain ⟨hchain, haliases⟩ := hunlisted
  by_contra hfresh
  have hserves := hstands.serves (Bool.eq_false_iff.2 hfresh)
  have hsame := Placed.chain_of_servesAs hserves
  obtain hlisted | ⟨name, hname, hlisted⟩ := Placed.listed_of_servesAs hserves
  · exact hchain (hsame ▸ hlisted)
  · obtain ⟨p, hp, hstep⟩ := h.known hstands.bound
    rcases List.mem_append.1 hp with hp | hp
    · exact haliases p hp _ hstep hsame name hname hlisted
    · rw [halias p hp _ hstep] at hname
      cases hname

end Toured

/-- Paths that go on hop by hop share by name, where the variables that they bind are distinct. -/
theorem shares_tour (hsteady : ∀ p ∈ declared ++ hidden, p.Steady)
    (halias : ∀ p ∈ hidden, ∀ step ∈ p.steps, step.alias? = none)
    (hdistinct : (rootVar :: (place rootVar shared (declared ++ hidden)).flatMap
      Placed.vars).Nodup) :
    Shares rootVar shared declared hidden
      (Walk.tour rootVar shared [] (declared ++ hidden)) := by
  have htoured : Toured rootVar shared (declared ++ hidden)
      (Walk.tour rootVar shared [] (declared ++ hidden)) := .of_steady hsteady
  rw [place_eq, List.flatMap_map] at hdistinct
  refine ⟨htoured.stops.imp ?_, fun _ => htoured.placed, fun _ => htoured.bound, hdistinct,
    fun _ => htoured.listed⟩
  rintro p stops ⟨⟨before, hstops⟩, hstands⟩
  refine ⟨?_, ?_, fun hvisible stop hstop hunlisted => ?_, fun stop hstop hwhere => ?_⟩
  · rw [hstops, Walk.map_step_stops]
  · rw [hstops, Walk.map_source_stops]
  · rw [hvisible] at hstands
    exact htoured.own halias (hstands stop hstop) hunlisted
  · exact (hstands stop hstop).attached htoured.orderly hwhere

end

/-! ## Plans -/

/-- The paths of a plan and the hidden ones of its filters go on hop by hop. -/
theorem QueryPlan.steady_paths {r₀ r : Registry} {root : String} {p₀ p : QueryPlan}
    {history : List (Registry × PlanCall)} {hidden : List PathSpec}
    (hnew : QueryPlan.new r₀ root = .ok p₀) (hcalls : p₀.calls history = .ok p)
    (hhidden : p.selection.filterPaths r = .ok hidden) :
    ∀ path ∈ p.selection.paths ++ hidden, path.Steady := by
  intro path hpath
  rcases List.mem_append.1 hpath with hpath | hpath
  · obtain ⟨_, _, _, _, hspec⟩ := resolved_calls hnew hcalls path hpath
    exact PathSpec.steady_of_resolve hspec
  · exact Selection.filterPaths_forall (fun _ _ => PathSpec.steady_of_forFilter) hhidden path hpath

/-- The steps that the paths of a selection place have variables of their own. -/
theorem Scope.nodup_vars {r : Registry} {selection : Selection} {imports : List String}
    {scope : Scope} {hidden : List PathSpec} (h : selection.scope r imports = .ok scope)
    (hhidden : selection.filterPaths r = .ok hidden) :
    (selection.root.variableName :: (place selection.root.variableName selection.shared
      (selection.paths ++ hidden)).flatMap Placed.vars).Nodup := by
  obtain ⟨hroot, hidden', hhidden', hplaces⟩ := places_scope h
  cases hhidden.symm.trans hhidden'
  rw [← hplaces.chained.flatMap_vars, ← hroot]
  exact (Distinct.of_scope h).nodup

/-- The traversals of a plan share what the plan lists: the binder makes a tour of them, the
patterns of the statement, read back from its text, have one edge for each fresh stop of the tour,
and where the stops are fresh is a matter of the names alone. -/
theorem QueryPlan.listed_chains_shared {r₀ r : Registry} {root : String} {p₀ p : QueryPlan}
    {history : List (Registry × PlanCall)} {space : String} {imports : List String}
    {ending : Ending} {clauses : List Cypher.Clause} {shape : ResultShape} {b b' : Binder}
    (hr₀ : r₀.Reachable) (hr : r.Reachable) (hhistory : ∀ c ∈ history, c.1.Reachable)
    (hnew : QueryPlan.new r₀ root = .ok p₀) (hcalls : p₀.calls history = .ok p)
    (hrun : compilePlan r space imports ending p b = .ok ((clauses, shape), b')) :
    ∃ first scope hidden fragments tour,
      Scope.start p.selection imports = .ok first ∧ p.selection.scope r imports = .ok scope ∧
      p.selection.filterPaths r = .ok hidden ∧
      (∀ path ∈ p.selection.paths, path.hidden = false) ∧
      first.Tours (p.selection.paths ++ hidden) tour scope ∧
      Cypher.readMatches clauses = some fragments ∧
      (fragments.flatMap fun f => f.1.links).Perm
        ((freshStops tour.flatten).map fun stop => stop.bound.link) ∧
      Shares p.root.variableName p.selection.shared p.selection.paths hidden tour := by
  obtain ⟨first, scope, hidden, tour, hstart, hscope, hhidden, rfl, htours, hread, hedges⟩ :=
    tour_compilePlan hr₀ hr hhistory hnew hcalls hrun
  have halias : ∀ path ∈ hidden, ∀ step ∈ path.steps, step.alias? = none := fun path hpath =>
    (Selection.alias?_filterPaths hhidden path hpath).2
  have hshares := shares_tour (steady_paths hnew hcalls hhidden) halias
    (Scope.nodup_vars hscope hhidden)
  exact ⟨first, scope, hidden, _, _, hstart, hscope, hhidden, visible_paths hnew hcalls, htours,
    hread, hedges, hshares⟩

theorem QueryPlan.listed_chains_shared_traversed :
    ∃ r p₀ p clauses shape b' first scope hidden fragments tour, Registry.Reachable r ∧
      QueryPlan.new r "Coffee" = .ok p₀ ∧ p₀.calls (Sample.traversed r) = .ok p ∧
      compilePlan r "" [] .result p .empty = .ok ((clauses, shape), b') ∧
      Scope.start p.selection [] = .ok first ∧ p.selection.scope r [] = .ok scope ∧
      p.selection.filterPaths r = .ok hidden ∧
      (∀ path ∈ p.selection.paths, path.hidden = false) ∧
      first.Tours (p.selection.paths ++ hidden) tour scope ∧
      Cypher.readMatches clauses = some fragments ∧
      (fragments.flatMap fun f => f.1.links).Perm
        ((freshStops tour.flatten).map fun stop => stop.bound.link) ∧
      Shares p.root.variableName p.selection.shared p.selection.paths hidden tour := by
  obtain ⟨r, p₀, p, c, hreachable, hhistory, hnew, hcalls, hcompile⟩ := Sample.compiles_traversed
  obtain ⟨b', hrun, _⟩ := compileTo_eq_ok hcompile
  obtain ⟨first, scope, hidden, fragments, tour, hshared⟩ :=
    QueryPlan.listed_chains_shared hreachable hreachable hhistory hnew hcalls hrun
  exact ⟨r, p₀, p, c.query, c.shape, b', first, scope, hidden, fragments, tour, hreachable, hnew,
    hcalls, hrun, hshared⟩

/-- Two traversals of one listed chain, on a way that is not listed. -/
def Sample.listedEnd (r : Registry) : List (Registry × PlanCall) :=
  [(r, .traverse "suppliers__country" .default .fetch),
    (r, .traverse "suppliers__country" .default .fetch), (r, .share ["suppliers__country"])]

/-- The statement of the two traversals, which has no edge from the second supplier. -/
def Sample.listedEndText : String :=
  "MATCH (coffee:Coffee)-[r1:SUPPLIED_BY]->(supplier_suppliers_1:Supplier)" ++
    "-[r2:IN]->(country_suppliers__country_2:Country), " ++
    "(coffee)-[r3:SUPPLIED_BY]->(supplier_suppliers_3:Supplier) " ++
    "RETURN coffee, supplier_suppliers_1, r1, country_suppliers__country_2, r2, " ++
    "supplier_suppliers_3, r3"

/-- The second traversal comes to a supplier of its own, and from there to the country of the first
one's supplier: the shared step is not attached to the variable that this traversal uses for the
step before. -/
theorem QueryPlan.shared_step_elsewhere :
    ∃ r p₀ p c first scope tour, Registry.Reachable r ∧
      QueryPlan.new r "Coffee" = .ok p₀ ∧ p₀.calls (Sample.listedEnd r) = .ok p ∧
      p.compile r = .ok c ∧ Scope.start p.selection [] = .ok first ∧
      p.selection.scope r [] = .ok scope ∧ first.Tours p.selection.paths tour scope ∧
      c.text = Sample.listedEndText ∧
      ∃ stop ∈ tour.flatten, stop.step.chain ∈ p.selection.shared ∧
        stop.bound.var = "country_suppliers__country_2" ∧
        stop.source = "supplier_suppliers_3" ∧ stop.bound.source = "supplier_suppliers_1" := by
  have hrun : (do
      let r ← Sample.registered
      let p₀ ← QueryPlan.new r "Coffee"
      let p ← p₀.calls (Sample.listedEnd r)
      let c ← p.compile r
      let scope ← p.selection.scope r []
      let hidden ← p.selection.filterPaths r
      let stops := (Walk.tour p.root.variableName p.selection.shared []
        (p.selection.paths ++ hidden)).flatten
      return (c.text, hidden.isEmpty, stops.any fun stop =>
        p.selection.shared.contains stop.step.chain &&
          stop.bound.var == "country_suppliers__country_2" &&
          stop.source == "supplier_suppliers_3" &&
          stop.bound.source == "supplier_suppliers_1") : Except Halt _).toOption =
        some (Sample.listedEndText, true, true) := by
    decide +kernel
  obtain ⟨r, hr, hrun⟩ := lift_bind_eq_ok.1 (eq_ok_of_toOption hrun)
  obtain ⟨p₀, hnew, hrun⟩ := lift_bind_eq_ok.1 hrun
  obtain ⟨p, hcalls, hrun⟩ := lift_bind_eq_ok.1 hrun
  obtain ⟨c, hcompile, hrun⟩ := bind_eq_ok.1 hrun
  obtain ⟨scope, hscope, hrun⟩ := bind_eq_ok.1 hrun
  obtain ⟨hidden, hhidden, hrun⟩ := lift_bind_eq_ok.1 hrun
  obtain ⟨htext, hrun⟩ := Prod.mk.inj (pure_eq_ok.1 hrun)
  obtain ⟨hnone, hstop⟩ := Prod.mk.inj hrun
  obtain rfl := List.isEmpty_iff.1 hnone
  obtain ⟨stop, hmem, hstop⟩ := List.any_eq_true.1 hstop
  simp only [Bool.and_eq_true, beq_iff_eq, List.contains_iff_mem] at hstop
  obtain ⟨⟨⟨hlisted, hvar⟩, hsource⟩, hbound⟩ := hstop
  obtain ⟨first, hidden', hstart, hhidden', htours⟩ := Scope.tours_of_scope hscope
  cases hhidden.symm.trans hhidden'
  rw [List.append_nil] at htours hmem
  exact ⟨r, p₀, p, c, first, scope, _, Sample.reachable_registered hr, hnew, hcalls, hcompile,
    hstart, hscope, htours, htext, stop, hmem, hlisted, hvar, hsource, hbound⟩

end GraphMapper
