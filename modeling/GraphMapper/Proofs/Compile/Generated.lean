import Mathlib.Data.List.Duplicate
import GraphMapper.Proofs.Compile.Failures
import GraphMapper.Proofs.Compile.Tours

/-!
# Generated variables clash with the root only

In a plan without aliases and subqueries every new step takes variables that are
made for it.  They end in the number of the step, with an underscore or an `r`
before it, so no two of them are the same, whatever types and hops are called.

The root's variable is its type's name in small letters, and nothing keeps it
from looking like a made one.  Where it does, the plan does not compile; and no
plan of this kind fails for another variable that is bound twice
(`QueryPlan.generated_variables_distinct`).

A name that is declared a second time is a duplicate among the root's variable
and those of the steps placed so far, the new one included (`Scope.Declares`).
Duplicates stay where more steps are placed, so what is known of all the steps
of a plan says what a step may fail for.
-/

namespace GraphMapper

/-! ## Texts and the numbers behind them -/

/-- A text that does not end in a digit. -/
def EndsPlain (s : String) : Prop := ∀ c ∈ s.toList.getLast?, c.isDigit = false

namespace EndsPlain

variable {s t : String}

theorem getLast?_underscore (s : String) : (s ++ "_").toList.getLast? = some '_' := by
  rw [String.toList_append]
  exact List.getLast?_concat

theorem underscore (s : String) : EndsPlain (s ++ "_") := by
  intro c hc
  rw [getLast?_underscore] at hc
  obtain rfl := Option.some.inj hc
  rfl

theorem r : EndsPlain "r" := by
  intro c hc
  obtain rfl := Option.some.inj hc
  rfl

/-- The digits at the end of a text are those of the number behind it. -/
theorem splitAt (h : EndsPlain s) (n : Nat) :
    (s ++ toString n).toList.reverse.takeWhile Char.isDigit = (toString n).toList.reverse ∧
      (s ++ toString n).toList.reverse.dropWhile Char.isDigit = s.toList.reverse := by
  have hdigits : ∀ c ∈ (toString n).toList.reverse, c.isDigit = true := fun c hc =>
    isDigit_of_mem_toString (List.mem_reverse.1 hc)
  rw [String.toList_append, List.reverse_append, List.takeWhile_append_of_pos hdigits,
    List.dropWhile_append_of_pos hdigits]
  cases hs : s.toList.reverse with
  | nil => exact ⟨List.append_nil _, rfl⟩
  | cons c rest =>
    have hc : c.isDigit = false := by
      refine h c ?_
      rw [← List.head?_reverse, hs]
      rfl
    rw [List.takeWhile_cons_of_neg (by rw [hc]; exact Bool.false_ne_true),
      List.dropWhile_cons_of_neg (by rw [hc]; exact Bool.false_ne_true)]
    exact ⟨List.append_nil _, rfl⟩

/-- A text and the number behind it can be told apart. -/
theorem eq_of_append_eq {m n : Nat} (hs : EndsPlain s) (ht : EndsPlain t)
    (h : s ++ toString m = t ++ toString n) : s = t ∧ m = n := by
  obtain ⟨htake, hdrop⟩ := hs.splitAt m
  obtain ⟨htake', hdrop'⟩ := ht.splitAt n
  rw [h] at htake hdrop
  have htext := List.reverse_inj.1 (hdrop.symm.trans hdrop')
  have hnumber := String.toList_inj.1 (List.reverse_inj.1 (htake.symm.trans htake'))
  refine ⟨String.toList_inj.1 htext, Binder.paramName_injective "" ?_⟩
  rw [Binder.paramName, Binder.paramName, hnumber]

theorem ne_append (h : EndsPlain s) (n : Nat) : s ≠ t ++ toString n := by
  intro heq
  have hne : (toString n).toList ≠ [] := by
    rw [Nat.toString_eq_repr, Nat.toList_repr]
    exact Nat.toDigits_ne_nil
  have hlast := List.getLast?_eq_getLast_of_ne_nil hne
  have hdigit := isDigit_of_mem_toString (List.getLast_mem hne)
  rw [h _ (by rw [heq, String.toList_append, List.getLast?_append, hlast]; rfl)] at hdigit
  cases hdigit

end EndsPlain

/-! ## The variables of steps without aliases -/

/-- A placed step whose variables are made for it, with its number. -/
structure Placed.Generated (e : Placed) (number : Nat) : Prop where
  var : e.var = (e.step.hop.targets.head?.map NodeType.variableName).getD "" ++ "_" ++
    e.step.chain ++ "_" ++ toString number
  edgeVar : e.edgeVar = "r" ++ toString number

/-- Placed steps whose variables are made for them, each with its place for a number. -/
def AllGenerated (placed : List Placed) : Prop :=
  ∀ (i : Nat) (e : Placed), placed[i]? = some e → e.Generated (i + 1)

namespace Placed.Generated

variable {e e' : Placed} {m n : Nat}

theorem of_new {w : Walk} {step : PathStep} (h : step.alias? = none) :
    (w.new step).Generated (w.placed.length + 1) := by
  constructor
  · simp only [Walk.new, PathStep.newVar, h]
    rfl
  · simp only [Walk.new, PathStep.newEdgeVar, h]

/-- A made variable is a text without digits at its end, with the number of its step behind it. -/
theorem of_mem_vars (h : e.Generated n) {v : String} (hv : v ∈ e.vars) :
    ∃ s, EndsPlain s ∧ v = s ++ toString n := by
  rcases List.mem_cons.1 hv with rfl | hv
  · exact ⟨_, .underscore _, h.var⟩
  · rw [List.mem_singleton.1 hv]
    exact ⟨"r", .r, h.edgeVar⟩

theorem nodup_vars (h : e.Generated n) : e.vars.Nodup := by
  have hne : e.var ≠ e.edgeVar := by
    rw [h.var, h.edgeVar]
    intro heq
    obtain ⟨htext, _⟩ := (EndsPlain.underscore _).eq_of_append_eq .r heq
    have hlast := congrArg (fun s : String => s.toList.getLast?) htext
    rw [EndsPlain.getLast?_underscore] at hlast
    exact absurd (Option.some.inj hlast) (by decide)
  exact List.nodup_cons.2 ⟨fun hmem => hne (List.mem_singleton.1 hmem), List.nodup_singleton _⟩

theorem disjoint_vars (h : e.Generated m) (h' : e'.Generated n) (hmn : m ≠ n) :
    e.vars.Disjoint e'.vars := by
  intro v hv hv'
  obtain ⟨s, hs, rfl⟩ := h.of_mem_vars hv
  obtain ⟨t, ht, heq⟩ := h'.of_mem_vars hv'
  exact hmn (hs.eq_of_append_eq ht heq).2

end Placed.Generated

namespace AllGenerated

variable {placed : List Placed}

theorem nil : AllGenerated [] := fun _ _ h => by cases h

theorem snoc (h : AllGenerated placed) {e : Placed} (he : e.Generated (placed.length + 1)) :
    AllGenerated (placed ++ [e]) := by
  intro i e' he'
  rcases Nat.lt_trichotomy i placed.length with hi | rfl | hi
  · rw [List.getElem?_append_left hi] at he'
    exact h i e' he'
  · rw [List.getElem?_concat_length] at he'
    exact Option.some.inj he' ▸ he
  · rw [List.getElem?_eq_none (by rw [List.length_append]; exact hi)] at he'
    cases he'

theorem next {shared : List String} {hidden : Bool} {w : Walk} {step : PathStep}
    (h : AllGenerated w.placed) (hstep : step.alias? = none) :
    AllGenerated (w.next shared hidden step).placed := by
  obtain ⟨_, _, _, _, hnext⟩ | ⟨_, _, hnext⟩ := Walk.stop_cases shared hidden w step
  · rw [hnext]
    exact h
  · rw [hnext]
    exact h.snoc (.of_new hstep)

/-- Steps without aliases are placed with variables that are made for them. -/
theorem place {rootVar : String} {shared : List String} {paths : List PathSpec}
    (h : ∀ path ∈ paths, ∀ step ∈ path.steps, step.alias? = none) :
    AllGenerated (place rootVar shared paths) := by
  refine List.foldlRecOn paths (Walk.path rootVar shared) nil fun placed hplaced path hpath => ?_
  have hstart : AllGenerated (⟨placed, rootVar, false⟩ : Walk).placed := hplaced
  exact List.foldlRecOn path.steps (Walk.next shared path.hidden)
    (motive := fun w => AllGenerated w.placed) hstart
    fun w hw step hstep => hw.next (h path hpath step hstep)

/-- Made variables are distinct. -/
theorem nodup (h : AllGenerated placed) : (placed.flatMap Placed.vars).Nodup := by
  refine List.nodup_flatMap.2 ⟨fun e he => ?_, List.pairwise_iff_getElem.2 fun i j hi hj hlt => ?_⟩
  · obtain ⟨i, hi⟩ := List.mem_iff_getElem?.1 he
    exact (h i e hi).nodup_vars
  · exact (h i _ (List.getElem?_eq_getElem hi)).disjoint_vars
      (h j _ (List.getElem?_eq_getElem hj)) (by omega)

/-- Made variables end in digits. -/
theorem not_mem (h : AllGenerated placed) {v : String} (hv : EndsPlain v) :
    v ∉ placed.flatMap Placed.vars := by
  intro hmem
  obtain ⟨e, he, hmem⟩ := List.mem_flatMap.1 hmem
  obtain ⟨i, hi⟩ := List.mem_iff_getElem?.1 he
  obtain ⟨s, _, heq⟩ := (h i e hi).of_mem_vars hmem
  exact hv.ne_append _ heq

end AllGenerated

/-! ## What a step may fail for -/

/-- What compiling may end with, variables that are bound twice only if they are among some. -/
def Halt.TwiceOnly (names : String → Prop) : Halt → Prop
  | .error (.compile (.boundTwice name)) => names name
  | _ => True

theorem Error.Plain.twiceOnly {names : String → Prop} (e : Error) (h : e.Plain) :
    (Halt.error e).TwiceOnly names := by
  unfold Halt.TwiceOnly
  split
  · next heq =>
    cases heq
    exact h.elim
  · trivial

namespace Scope

variable {s s' : Scope} {p p' : Progress} {w : Walk} {placed : List Placed}

/-- Nothing is declared but the root and the variables of the bindings. -/
def DeclaresBound (s : Scope) : Prop := s.declared = s.rootVar :: s.bindings.flatMap Binding.vars

namespace DeclaresBound

theorem flush (h : s.DeclaresBound) (x? : Option (Cypher.Pattern × Bool)) :
    (s.flush x?).DeclaresBound := by
  unfold DeclaresBound at h ⊢
  simpa using h

theorem bindStep {hidden : Bool} {step : PathStep} (h : s.DeclaresBound)
    (hrun : Scope.bindStep hidden (s, p) step = .ok (s', p')) : s'.DeclaresBound := by
  unfold DeclaresBound at h ⊢
  obtain ⟨hbindings, hroot, hdeclared⟩ | ⟨var, edgeVar, _, _, hbindings, hroot, hdeclared⟩ :=
    declared_bindStep hrun
  · rw [hdeclared, hroot, hbindings, h]
  · rw [hdeclared, hroot, hbindings, h, List.flatMap_append]
    simp [newBinding, Binding.vars]

end DeclaresBound

section

variable {names : String → Prop} {hidden : Bool} {taken : List Placed}
  (hnames : ∀ v, List.Duplicate v (s.rootVar :: taken.flatMap Placed.vars) → names v)

include hnames

/-- A step fails for a variable only if that is a duplicate, with the step placed. -/
theorem fails_bindStep {step : PathStep} (h : s.Reaches p w) (hdeclares : s.DeclaresBound)
    (htaken : (w.next s.selection.shared hidden step).placed <+: taken) :
    Fails (Halt.TwiceOnly names) (Scope.bindStep hidden (s, p) step) := by
  unfold Scope.bindStep Scope.reusable?
  unfold Walk.next at htaken
  obtain ⟨hnone, hfind⟩ | ⟨i, b, e, hsome, _⟩ :=
    serving_of_forall₂ (fun _ _ h => h.hops) (fun _ _ h => h.alias?) h.places.chained.forall₂ s
      hidden step
  · simp only [hnone]
    simp only [hfind] at htaken
    unfold bindNew
    dsimp only
    obtain ⟨hbindings, _, hdeclared, _⟩ := s.openPattern_keeps p (step.optional || p.afterOptional)
    have hcount : (s.openPattern p (step.optional || p.afterOptional)).2.bindings.length =
        w.placed.length := by
      rw [hbindings, h.places.chained.length_eq]
    -- What is declared when the step is bound, and then its own variables.
    have hsublist : (s.declared ++ [step.newVar w.placed.length] ++
        [step.newEdgeVar w.placed.length]).Sublist (s.rootVar :: taken.flatMap Placed.vars) := by
      obtain ⟨later, rfl⟩ := htaken
      rw [hdeclares, h.places.chained.flatMap_vars, List.flatMap_append, List.flatMap_append,
        List.append_assoc, List.cons_append, List.append_assoc]
      exact ((List.Sublist.refl _).append (List.sublist_append_left _ _)).cons_cons s.rootVar
    have hduplicate {v : String} {l l' : List String} (hv : v ∈ l) (hv' : v ∈ l') :
        List.Duplicate v (l ++ l') :=
      List.duplicate_iff_sublist.2
        ((List.singleton_sublist.2 hv).append (List.singleton_sublist.2 hv'))
    refine .bind (fails_nodeVar _ fun _ _ => trivial) fun var hvar => ?_
    obtain rfl := Tracks.newVar_of_nodeVar hvar hcount
    rw [← Tracks.newEdgeVar_eq hcount]
    refine .bind (.lift (fails_declare _ fun hmem => ?_)) fun s₂ hs₂ => ?_
    · rw [hdeclared] at hmem
      have hvars := (List.sublist_append_left _ _).trans hsublist
      exact hnames _ ((hduplicate hmem List.mem_cons_self).mono_sublist hvars)
    · obtain ⟨_, rfl⟩ := declare_eq_ok (lift_eq_ok.1 hs₂)
      refine .bind (.lift (fails_declare _ fun hmem => ?_)) fun _ _ => .ok _
      rw [hdeclared] at hmem
      exact hnames _ ((hduplicate hmem List.mem_cons_self).mono_sublist hsublist)
  · simp only [hsome]
    exact .ok _

theorem fails_bindSteps {steps : List PathStep} (h : s.Reaches p w) (hdeclares : s.DeclaresBound)
    (htaken : (steps.foldl (Walk.next s.selection.shared hidden) w).placed <+: taken) :
    Fails (Halt.TwiceOnly names) (steps.foldlM (Scope.bindStep hidden) (s, p)) := by
  induction steps generalizing s p w with
  | nil => exact .ok _
  | cons step rest ih =>
    rw [List.foldlM_cons]
    have hnext : (w.next s.selection.shared hidden step).placed <+:
        (rest.foldl (Walk.next s.selection.shared hidden)
          (w.next s.selection.shared hidden step)).placed :=
      ⟨_, (Walk.placed_foldl_next rest).symm⟩
    refine .bind (fails_bindStep hnames h hdeclares (hnext.trans htaken)) fun (s₁, p₁) hstep => ?_
    obtain ⟨h₁, hselection, hroot⟩ := h.bindStep hstep
    refine ih (s := s₁) (fun v hv => hnames v (hroot ▸ hv)) h₁ (hdeclares.bindStep hstep) ?_
    rw [hselection]
    exact htaken

theorem fails_bindPaths {paths : List PathSpec} (h : s.Places placed) (hdeclares : s.DeclaresBound)
    (htaken : paths.foldl (Walk.path s.rootVar s.selection.shared) placed <+: taken) :
    Fails (Halt.TwiceOnly names) (paths.foldlM Scope.bindPath s) := by
  induction paths generalizing s placed with
  | nil => exact .ok _
  | cons path rest ih =>
    rw [List.foldlM_cons]
    have hstart : s.Reaches ⟨none, none, false⟩ ⟨placed, s.rootVar, false⟩ := ⟨h, .inl ⟨rfl, rfl⟩⟩
    have hfirst : Walk.path s.rootVar s.selection.shared placed path <+:
        rest.foldl (Walk.path s.rootVar s.selection.shared)
          (Walk.path s.rootVar s.selection.shared placed path) :=
      ⟨_, (Walk.foldl_path _ rest).symm⟩
    refine .bind (.bind (fails_bindSteps hnames hstart hdeclares (hfirst.trans htaken))
      fun _ _ => .ok _) fun s₁ hs₁ => ?_
    obtain ⟨s₂, p, hsteps, rfl⟩ := bindPath_eq_ok hs₁
    obtain ⟨hreaches, hselection, hroot⟩ := hstart.foldlM hsteps
    have hdeclares₂ := foldlM_invariant (P := fun state : Scope × Progress => state.1.DeclaresBound)
      hdeclares (fun _ _ _ _ hstate hstep => hstate.bindStep hstep) hsteps
    refine ih (s := s₂.flush p.pattern?) (fun v hv => hnames v ?_)
      (hreaches.places.flush p.pattern?) (hdeclares₂.flush p.pattern?) ?_
    · rw [flush_rootVar, hroot] at hv
      exact hv
    · rw [flush_rootVar, hroot, flush_selection, hselection]
      exact htaken

end

end Scope

/-! ## Plans without aliases -/

/-- The new steps of a selection, with those of some hidden paths. -/
def Selection.placed (s : Selection) (hidden : List PathSpec) : List Placed :=
  place s.root.variableName s.shared (s.paths ++ hidden)

/-- A scope fails for a variable that is bound twice only if that is a duplicate. -/
theorem Selection.fails_scope_of {r : Registry} {s : Selection} {names : String → Prop}
    (hnames : ∀ hidden, s.filterPaths r = .ok hidden → ∀ v,
      List.Duplicate v (s.root.variableName :: (s.placed hidden).flatMap Placed.vars) → names v) :
    Fails (Halt.TwiceOnly names) (s.scope r []) := by
  have hstart : Scope.start s [] = .ok ⟨s, s.root.variableName, false, [], [s.root.variableName],
      [], none, [], []⟩ := rfl
  have hfirst : Scope.Places ⟨s, s.root.variableName, false, [], [s.root.variableName], [], none,
      [], []⟩ [] := ⟨.nil, List.nodup_singleton _, fun v hv => hv⟩
  unfold scope
  rw [hstart]
  refine .bind (.ok _) fun scope hscope => ?_
  obtain rfl := Except.ok.inj hscope
  cases s.unknownShared? with
  | some name => exact .error trivial
  | none =>
    refine .bind (.lift (s.fails_filterPaths Error.Plain.twiceOnly)) fun hidden hhidden => ?_
    exact Scope.fails_bindPaths (hnames hidden (lift_eq_ok.1 hhidden)) hfirst rfl List.prefix_rfl

namespace QueryPlan

variable {r : Registry} {p : QueryPlan}

/-- Only the scope of a plan without subqueries may bind a variable twice. -/
theorem fails_compileTo_of {names : String → Prop} (hqs : p.subqueries = [])
    (hscope : Fails (Halt.TwiceOnly names) (p.selection.scope r [])) (ending : Ending) :
    Fails (Halt.TwiceOnly names) (p.compileTo r ending) := by
  obtain ⟨s, qs⟩ := p
  obtain rfl : qs = [] := hqs
  exact .bind (fails_compilePlan_of Error.Plain.twiceOnly hscope
    (fun _ hq => absurd hq List.not_mem_nil) "" ending .empty) fun _ _ => .ok _

end QueryPlan

/-- A call that gives no alias and splices no plan in. -/
def PlanCall.Unaliased : PlanCall → Prop
  | .traverse _ options _ => options.alias? = none
  | .subquery .. => False
  | _ => True

namespace QueryPlan

variable {r r₀ : Registry} {root : String} {p p₀ : QueryPlan}
  {history : List (Registry × PlanCall)}

/-- A plan without subqueries, and without aliases on its paths. -/
structure Unaliased (p : QueryPlan) : Prop where
  subqueries : p.subqueries = []
  paths : ∀ path ∈ p.selection.paths, ∀ step ∈ path.steps, step.alias? = none

theorem unaliased_calls (hnew : QueryPlan.new r₀ root = .ok p₀) (hcalls : p₀.calls history = .ok p)
    (hplain : ∀ c ∈ history, c.2.Unaliased) : p.Unaliased := by
  obtain ⟨t, _, rfl⟩ := new_eq_ok hnew
  refine foldlM_invariant (P := Unaliased)
    ⟨rfl, fun _ hpath => absurd hpath List.not_mem_nil⟩ (fun c hc p q hp hcall => ?_) hcalls
  have hplain := hplain c hc
  obtain ⟨r, call⟩ := c
  cases does_of_call hcall with
  | traverse _ _ hspec =>
    refine ⟨hp.subqueries, fun path hpath => ?_⟩
    rcases List.mem_append.1 hpath with hpath | hpath
    · exact hp.paths path hpath
    · rw [List.mem_singleton.1 hpath]
      obtain ⟨_, _, _, _, _, rfl⟩ := PathSpec.resolve_eq_ok hspec
      exact PathSpec.alias?_stepsOf hplain
  | subquery => exact hplain.elim
  | _ => exact ⟨hp.subqueries, hp.paths⟩

/-- The steps of a plan without aliases are placed with variables that are made for them. -/
theorem Unaliased.generated (h : p.Unaliased) {hidden : List PathSpec}
    (hhidden : p.selection.filterPaths r = .ok hidden) :
    AllGenerated (p.selection.placed hidden) := by
  refine .place fun path hpath => ?_
  rcases List.mem_append.1 hpath with hpath | hpath
  · exact h.paths path hpath
  · exact (Selection.alias?_filterPaths hhidden path hpath).2

/-- A plan compiles only if its root's variable is not that of a step. -/
theorem root_not_mem_of_compileTo {ending : Ending} {c : CompiledQuery}
    (h : p.compileTo r ending = .ok c) {hidden : List PathSpec}
    (hhidden : p.selection.filterPaths r = .ok hidden) :
    p.root.variableName ∉ (p.selection.placed hidden).flatMap Placed.vars := by
  obtain ⟨binder, hrun, _⟩ := compileTo_eq_ok h
  obtain ⟨scope, _, _, _, hscope, _⟩ := compilePlan_eq_matched hrun
  obtain ⟨hroot, hidden', hhidden', hplaces⟩ := Scope.places_scope hscope
  obtain rfl := Except.ok.inj (hhidden.symm.trans hhidden')
  have hnodup := (Scope.Distinct.of_scope hscope).nodup
  rw [hroot, hplaces.chained.flatMap_vars] at hnodup
  exact (List.nodup_cons.1 hnodup).1

/-- The variables that are made for the steps of a plan without aliases and subqueries are distinct,
whatever its types and hops are called.

* Each ends in the number of its step, behind an underscore or an `r`, and no two are the same.
* If the root's variable is among them, the plan compiles neither to a query nor to a count.
* The plan is refused for a variable that is bound twice only if that is the root's, and it is among
  them.
* So a plan is never refused for that if its root's variable does not end in a digit. -/
theorem generated_variables_distinct (hnew : QueryPlan.new r₀ root = .ok p₀)
    (hcalls : p₀.calls history = .ok p) (hplain : ∀ c ∈ history, c.2.Unaliased) :
    (∀ hidden, p.selection.filterPaths r = .ok hidden →
      AllGenerated (p.selection.placed hidden) ∧
      ((p.selection.placed hidden).flatMap Placed.vars).Nodup ∧
      (p.root.variableName ∈ (p.selection.placed hidden).flatMap Placed.vars →
        ∀ ending c, p.compileTo r ending ≠ .ok c)) ∧
    (∀ ending v, p.compileTo r ending = .error (.error (.compile (.boundTwice v))) →
      v = p.root.variableName ∧ ∃ hidden, p.selection.filterPaths r = .ok hidden ∧
        v ∈ (p.selection.placed hidden).flatMap Placed.vars) ∧
    (EndsPlain p.root.variableName →
      ∀ ending v, p.compileTo r ending ≠ .error (.error (.compile (.boundTwice v)))) := by
  have hunaliased := unaliased_calls hnew hcalls hplain
  have htwice : ∀ ending v, p.compileTo r ending = .error (.error (.compile (.boundTwice v))) →
      v = p.root.variableName ∧ ∃ hidden, p.selection.filterPaths r = .ok hidden ∧
        v ∈ (p.selection.placed hidden).flatMap Placed.vars := by
    have hscope : Fails (Halt.TwiceOnly fun v => v = p.root.variableName ∧
        ∃ hidden, p.selection.filterPaths r = .ok hidden ∧
          v ∈ (p.selection.placed hidden).flatMap Placed.vars) (p.selection.scope r []) := by
      refine Selection.fails_scope_of fun hidden hhidden v hv => ?_
      rcases List.duplicate_cons_iff.1 hv with ⟨rfl, hmem⟩ | hv
      · exact ⟨rfl, hidden, hhidden, hmem⟩
      · have hnodup := (hunaliased.generated hhidden).nodup
        exact absurd hv (List.nodup_iff_forall_not_duplicate.1 hnodup v)
    exact fun ending v hrun => fails_compileTo_of hunaliased.subqueries hscope ending _ hrun
  refine ⟨fun hidden hhidden => ?_, htwice, fun hroot ending v hrun => ?_⟩
  · have hgenerated := hunaliased.generated hhidden
    exact ⟨hgenerated, hgenerated.nodup,
      fun hmem ending c hc => root_not_mem_of_compileTo hc hhidden hmem⟩
  · obtain ⟨rfl, hidden, hhidden, hmem⟩ := htwice ending v hrun
    exact (hunaliased.generated hhidden).not_mem hroot hmem

end QueryPlan

namespace Sample

/-- Things of some type have suppliers. -/
def supplied (type : String) : Except Error Registry := do
  let r ← Registry.empty.register (linked type "suppliers" "Supplier" "SUPPLIED_BY")
  r.register ((NodeType.new "Supplier").withProperty name)

theorem reachable_supplied {type : String} {r : Registry} (h : supplied type = .ok r) :
    r.Reachable := by
  obtain ⟨r₁, h₁, h₂⟩ := bind_eq_ok.1 h
  exact .register (.register .empty h₁) h₂

/-- To the suppliers, and to them again by a filter of their names. -/
def toSuppliers (r : Registry) : List (Registry × PlanCall) :=
  [(r, .traverse "suppliers" .default .fetch), (r, .filter (named ["suppliers"] "a"))]

theorem unaliased_toSuppliers (r : Registry) : ∀ c ∈ toSuppliers r, c.2.Unaliased := by
  simp [toSuppliers, PlanCall.Unaliased, TraverseOptions.default]

end Sample

theorem QueryPlan.generated_variables_distinct_supplied :
    ∃ r p₀ p, Registry.Reachable r ∧ QueryPlan.new r "Coffee" = .ok p₀ ∧
      p₀.calls (Sample.toSuppliers r) = .ok p ∧
      p.selection.filterPaths r = .ok [] ∧
      (p.selection.placed []).flatMap Placed.vars = ["supplier_suppliers_1", "r1"] ∧
      AllGenerated (p.selection.placed []) ∧
      ((p.selection.placed []).flatMap Placed.vars).Nodup ∧
      ∀ ending v, p.compileTo r ending ≠ .error (.error (.compile (.boundTwice v))) := by
  have hrun : (do
      let r ← Sample.supplied "Coffee"
      let p₀ ← QueryPlan.new r "Coffee"
      let p ← p₀.calls (Sample.toSuppliers r)
      let hidden ← p.selection.filterPaths r
      return (p.root.variableName, hidden.length,
        (p.selection.placed hidden).flatMap Placed.vars)).toOption =
      some ("coffee", 0, ["supplier_suppliers_1", "r1"]) := by
    decide +kernel
  obtain ⟨r, hr, hrun⟩ := bind_eq_ok.1 (eq_ok_of_toOption hrun)
  obtain ⟨p₀, hnew, hrun⟩ := bind_eq_ok.1 hrun
  obtain ⟨p, hcalls, hrun⟩ := bind_eq_ok.1 hrun
  obtain ⟨hidden, hhidden, hrun⟩ := bind_eq_ok.1 hrun
  obtain ⟨hroot, hrun⟩ := Prod.mk.inj (pure_eq_ok.1 hrun)
  obtain ⟨hlength, hvars⟩ := Prod.mk.inj hrun
  obtain rfl := List.length_eq_zero_iff.1 hlength
  obtain ⟨hdistinct, _, hplain⟩ := QueryPlan.generated_variables_distinct (r := r) hnew hcalls
    (Sample.unaliased_toSuppliers r)
  obtain ⟨hgenerated, hnodup, _⟩ := hdistinct [] hhidden
  refine ⟨r, p₀, p, Sample.reachable_supplied hr, hnew, hcalls, hhidden, hvars, hgenerated, hnodup,
    hplain ?_⟩
  rw [hroot]
  intro c hc
  obtain rfl : 'e' = c := Option.some.inj hc
  rfl

/-- Why compiling a plan to the suppliers of some type is refused. -/
def Sample.faultOf (type : String) : Except Halt (Option CompileFault) := do
  let r ← supplied type
  let p₀ ← QueryPlan.new r type
  let p ← p₀.calls (toSuppliers r)
  match p.compile r with
  | .error (.error (.compile fault)) => return some fault
  | _ => return none

/-- A type may be called like the first edge. -/
theorem QueryPlan.root_bound_twice :
    ∃ r p₀ p, Registry.Reachable r ∧ QueryPlan.new r "R1" = .ok p₀ ∧
      p₀.calls (Sample.toSuppliers r) = .ok p ∧ (∀ c ∈ Sample.toSuppliers r, c.2.Unaliased) ∧
      p.compile r = .error (.error (.compile (.boundTwice "r1"))) := by
  have hrun : (Sample.faultOf "R1").toOption = some (some (.boundTwice "r1")) := by
    decide +kernel
  obtain ⟨r, hr, hrun⟩ := lift_bind_eq_ok.1 (eq_ok_of_toOption hrun)
  obtain ⟨p₀, hnew, hrun⟩ := lift_bind_eq_ok.1 hrun
  obtain ⟨p, hcalls, hrun⟩ := lift_bind_eq_ok.1 hrun
  refine ⟨r, p₀, p, Sample.reachable_supplied hr, hnew, hcalls, Sample.unaliased_toSuppliers r, ?_⟩
  split at hrun
  · next fault hfault =>
    obtain rfl := Option.some.inj (pure_eq_ok.1 hrun)
    exact hfault
  · cases pure_eq_ok.1 hrun

end GraphMapper
