import GraphMapper.Proofs.Compile.Filters
import GraphMapper.Proofs.Compile.Parameters
import GraphMapper.Proofs.Compile.Patterns
import GraphMapper.Proofs.Cypher.Scoping

/-!
# Compiled statements are well scoped

Every variable that a clause uses is in scope there, and no clause introduces a
name that is in scope already (`QueryPlan.clauses_well_scoped`).

Three lookups of the compiler have to agree with the order in which clauses are
written.  `Scope.Introduces` says what the patterns bind: it is kept along every
path, so that the mandatory patterns are well scoped before the optional ones.
`Scope.Shows` says that the names a scope lets through are those in scope; it is
kept by transforms, which replace them, and by subqueries, which add to them.
-/

namespace GraphMapper

open Cypher (introducedBy PatternsScoped AllScoped)

/-! ## What the patterns of a scope introduce -/

/-- The variables in scope after the mandatory patterns. -/
def Scope.matched (imports : List String) (s : Scope) : List String :=
  imports ++ introducedBy (Selection.mandatoryPatterns s)

/-- The patterns of a scope introduce what is declared.

* A name is declared exactly if it is imported or some pattern introduces it.
* The mandatory patterns are well scoped after the imports, and the optional ones after them.
* The root and the variables of mandatory bindings are in scope after the mandatory patterns.
* Before the root is labelled nothing is mandatory.
* No transform and no subquery has changed the scope. -/
structure Scope.Introduces (imports : List String) (s : Scope) : Prop where
  declared : ∀ v, v ∈ s.declared ↔ v ∈ s.matched imports ++ introducedBy s.optional
  mandatory : PatternsScoped imports (Selection.mandatoryPatterns s)
  optional : PatternsScoped (s.matched imports) s.optional
  root : s.rootVar ∈ s.matched imports
  bound : ∀ b ∈ s.bindings, b.var ∈ s.declared ∧ b.edgeVar ∈ s.declared
  bindings : ∀ b ∈ s.bindings, b.optional = false →
    b.var ∈ s.matched imports ∧ b.edgeVar ∈ s.matched imports
  unlabelled : s.rootLabelled = false → s.mandatory = [] ∧ ∀ b ∈ s.bindings, b.optional = true
  plain : s.transformed? = none ∧ s.extra = []

namespace Scope.Introduces

variable {imports : List String} {s : Scope}

/-- A mandatory pattern stands behind the others, once the root is labelled. -/
theorem mandatoryPatterns_flush (hroot : s.rootLabelled = true) (p : Cypher.Pattern) :
    Selection.mandatoryPatterns (s.flush (some (p, false))) =
      Selection.mandatoryPatterns s ++ [p] := by
  unfold Selection.mandatoryPatterns
  rw [Scope.flush_rootLabelled, hroot]
  rfl

theorem start {selection : Selection} (h : Scope.start selection imports = .ok s) :
    Introduces imports s := by
  obtain ⟨declared, rfl, hdeclared⟩ := Scope.start_eq_ok h
  have hbindings (P : Binding → Prop) : ∀ b ∈ ([] : List Binding), P b := by simp
  by_cases hroot : imports.contains selection.root.variableName = true
  · have hmem : selection.root.variableName ∈ imports := List.contains_iff_mem.1 hroot
    rw [hroot]
    refine ⟨fun v => ?_, trivial, trivial, ?_, hbindings _, hbindings _, by simp, rfl, rfl⟩
    · rw [hdeclared]
      refine Iff.trans ⟨?_, .inr⟩ (by simp [Scope.matched, Selection.mandatoryPatterns, introducedBy])
      rintro (rfl | hv)
      · exact hmem
      · exact hv
    · exact List.mem_append_left _ hmem
  · have hmem : selection.root.variableName ∉ imports := fun hmem =>
      hroot (List.contains_iff_mem.2 hmem)
    rw [Bool.eq_false_iff.2 hroot]
    have hpattern : Cypher.Pattern.introduced
        (.node ⟨some selection.root.variableName, some [selection.root.label]⟩) =
          [selection.root.variableName] := rfl
    refine ⟨fun v => ?_, ⟨⟨?_, ?_, ?_⟩, trivial⟩, trivial, ?_, hbindings _, hbindings _,
      fun _ => ⟨rfl, hbindings _⟩, rfl, rfl⟩
    · rw [hdeclared]
      simp [Scope.matched, Selection.mandatoryPatterns, introducedBy, Scope.rootPattern, hpattern,
        or_comm]
    · intro v hv
      cases hv
    · exact List.nodup_singleton _
    · intro v hv
      rw [List.mem_singleton.1 hv]
      exact hmem
    · exact List.mem_append_right _ List.mem_cons_self

/-- The variables that a pattern of a kind may refer to. -/
def Knows (imports : List String) (s : Scope) (v : String) : Bool → Prop
  | false => v ∈ s.matched imports
  | true => v ∈ s.declared

theorem scoped_bound {known : List String} {v : String} (hv : v ∈ known) :
    (Cypher.Pattern.node (.bound v)).Scoped known where
  referred w hw := by
    rw [List.mem_singleton.1 hw]
    exact hv
  distinct := .nil
  fresh w hw := by cases hw

/-- A mandatory pattern may be opened if that changes no names in scope. -/
theorem open_mandatory (h : Introduces imports s) {p : Cypher.Pattern}
    (hmatched : (Scope.flush { s with rootLabelled := true } (some (p, false))).matched imports =
      s.matched imports)
    (hscoped : PatternsScoped imports (Selection.mandatoryPatterns
      (Scope.flush { s with rootLabelled := true } (some (p, false))))) :
    Introduces imports (Scope.flush { s with rootLabelled := true } (some (p, false))) := by
  refine ⟨fun w => ?_, hscoped, ?_, ?_, h.bound, ?_, fun hfalse => ?_, h.plain⟩
  · rw [hmatched]
    exact h.declared w
  · rw [hmatched]
    exact h.optional
  · rw [hmatched]
    exact h.root
  · rw [hmatched]
    exact h.bindings
  · cases hfalse

/-- A pattern may be opened at a variable in scope: it introduces nothing yet. -/
theorem open_bound (h : Introduces imports s) {v : String} {o : Bool}
    (hroot : o = false → s.rootLabelled = true) (hv : Knows imports s v o) :
    Introduces imports (s.flush (some (.node (.bound v), o))) := by
  have hnone : (Cypher.Pattern.node (.bound v)).introduced = [] := rfl
  cases o with
  | true =>
    have hlast : introducedBy (s.optional ++ [.node (.bound v)]) = introducedBy s.optional := by
      rw [Cypher.introducedBy_append_singleton, hnone, List.append_nil]
    refine { h with declared := fun w => ?_, optional := ?_ }
    · show w ∈ s.declared ↔ w ∈ s.matched imports ++ introducedBy (s.optional ++ _)
      rw [hlast]
      exact h.declared w
    · refine PatternsScoped.append_iff.2 ⟨h.optional, ?_, trivial⟩
      exact scoped_bound ((h.declared v).1 hv)
  | false =>
    have hlabelled : s = { s with rootLabelled := true } := by rw [← hroot rfl]
    have hpatterns := mandatoryPatterns_flush (hroot rfl) (.node (.bound v))
    rw [hlabelled] at hpatterns ⊢
    refine h.open_mandatory ?_ ?_
    · rw [Scope.matched, hpatterns, Cypher.introducedBy_append_singleton, hnone, List.append_nil,
        ← hlabelled]
      rfl
    · rw [hpatterns, ← hlabelled]
      exact PatternsScoped.append_iff.2 ⟨h.mandatory, scoped_bound hv, trivial⟩

/-- The first mandatory pattern stands in for the one that only names the root. -/
theorem open_root (h : Introduces imports s) (hlabel : s.rootLabelled = false) :
    Introduces imports
      (Scope.flush { s with rootLabelled := true } (some (s.rootPattern, false))) := by
  have hpatterns : Selection.mandatoryPatterns
      (Scope.flush { s with rootLabelled := true } (some (s.rootPattern, false))) =
        Selection.mandatoryPatterns s := by
    rw [mandatoryPatterns_flush rfl]
    simp [Selection.mandatoryPatterns, hlabel, (h.unlabelled hlabel).1]
  refine h.open_mandatory ?_ ?_
  · rw [Scope.matched, hpatterns]
    rfl
  · rw [hpatterns]
    exact h.mandatory

/-- A pattern goes on from the binding reached, or from the root. -/
theorem startPattern (h : Introduces imports s) {at? : Option Nat} {o : Bool}
    (hat : ∀ b, at?.bind (s.bindings[·]?) = some b → b.optional = true → o = true) :
    Introduces imports
      ((s.startPattern at? o).2.flush (some ((s.startPattern at? o).1, o))) := by
  unfold Scope.startPattern
  cases hb : at?.bind (s.bindings[·]?) with
  | some b =>
    have hmem : b ∈ s.bindings := by
      obtain ⟨i, _, hi⟩ := Option.bind_eq_some_iff.1 hb
      exact List.mem_of_getElem? hi
    refine h.open_bound (fun ho => ?_) ?_
    · refine (Bool.eq_false_or_eq_true s.rootLabelled).resolve_right fun hlabel => ?_
      have hoptional := hat b hb ((h.unlabelled hlabel).2 b hmem)
      rw [hoptional] at ho
      cases ho
    · cases o with
      | true => exact (h.bound b hmem).1
      | false => exact (h.bindings b hmem (Bool.eq_false_iff.2 fun htrue => by cases hat b hb htrue)).1
  | none =>
    by_cases hlabel : (!o && !s.rootLabelled) = true
    · rw [if_pos hlabel]
      obtain ⟨ho, hroot⟩ := Bool.and_eq_true_iff.1 hlabel
      rw [Bool.not_eq_true'] at ho hroot
      subst ho
      exact h.open_root hroot
    · rw [if_neg hlabel]
      refine h.open_bound (fun ho => ?_) ?_
      · rw [ho] at hlabel
        simpa using hlabel
      · cases o with
        | true => exact (h.declared _).2 (List.mem_append_left _ h.root)
        | false => exact h.root

/-- A scope with one binding more. -/
def withBinding (s : Scope) (b : Binding) : Scope :=
  { s with declared := s.declared ++ [b.var] ++ [b.edgeVar], bindings := s.bindings ++ [b] }

/-- A pattern that goes on to the node of a binding. -/
def patternTo (p : Cypher.Pattern) (hop : Hop) (b : Binding) : Cypher.Pattern :=
  p.extend (Scope.edgePattern hop (some b.edgeVar)) ⟨some b.var, some (Scope.targetLabels hop)⟩

theorem introducedBy_patternTo (ps : List Cypher.Pattern) (p : Cypher.Pattern) (hop : Hop)
    (b : Binding) : introducedBy (ps ++ [patternTo p hop b]) =
      introducedBy (ps ++ [p]) ++ [b.edgeVar, b.var] := by
  simp [introducedBy, patternTo, Scope.edgePattern, Cypher.NodePattern.introduced]

section Extend

variable {p : Cypher.Pattern} {o : Bool} {hop : Hop} {b : Binding}

theorem mem_declared_withBinding {v : String} :
    v ∈ (withBinding s b).declared ↔ v ∈ s.declared ∨ v ∈ [b.edgeVar, b.var] := by
  simp [withBinding, or_assoc, or_comm]

theorem bound_withBinding (h : ∀ b' ∈ s.bindings, b'.var ∈ s.declared ∧ b'.edgeVar ∈ s.declared) :
    ∀ b' ∈ (withBinding s b).bindings,
      b'.var ∈ (withBinding s b).declared ∧ b'.edgeVar ∈ (withBinding s b).declared := by
  intro b' hb'
  rw [mem_declared_withBinding, mem_declared_withBinding]
  rcases List.mem_append.1 hb' with hb' | hb'
  · obtain ⟨hvar, hedge⟩ := h b' hb'
    exact ⟨.inl hvar, .inl hedge⟩
  · rw [List.mem_singleton.1 hb']
    exact ⟨.inr (List.mem_cons_of_mem _ List.mem_cons_self), .inr List.mem_cons_self⟩

/-- An optional edge to new variables introduces them behind all others. -/
theorem extend_optional (h : Introduces imports (s.flush (some (p, true))))
    (ho : b.optional = true) (hdistinct : [b.edgeVar, b.var].Nodup)
    (hfresh : ∀ v ∈ [b.edgeVar, b.var], v ∉ s.declared) :
    Introduces imports ((withBinding s b).flush (some (patternTo p hop b, true))) := by
  refine ⟨fun v => ?_, h.mandatory, ?_, h.root, bound_withBinding h.bound,
    fun b' hb' hmandatory => ?_, fun hfalse => ⟨(h.unlabelled hfalse).1, fun b' hb' => ?_⟩,
    h.plain⟩
  · have hdeclared : v ∈ s.declared ↔ _ := h.declared v
    show v ∈ (withBinding s b).declared ↔
      v ∈ s.matched imports ++ introducedBy (s.optional ++ [patternTo p hop b])
    rw [mem_declared_withBinding, hdeclared, introducedBy_patternTo, ← List.append_assoc,
      List.mem_append (t := [b.edgeVar, b.var])]
    rfl
  · refine PatternsScoped.extend_last h.optional rfl hdistinct fun v hv hknown => ?_
    exact hfresh v hv ((h.declared v).2 hknown)
  · rcases List.mem_append.1 hb' with hb' | hb'
    · exact h.bindings b' hb' hmandatory
    · rw [List.mem_singleton.1 hb', ho] at hmandatory
      cases hmandatory
  · rcases List.mem_append.1 hb' with hb' | hb'
    · exact (h.unlabelled hfalse).2 b' hb'
    · rw [List.mem_singleton.1 hb']
      exact ho

/-- While a mandatory pattern is being written, the root is labelled. -/
theorem rootLabelled_of_mandatory (h : Introduces imports (s.flush (some (p, false)))) :
    s.rootLabelled = true := by
  refine (Bool.eq_false_or_eq_true s.rootLabelled).resolve_right fun hlabel => ?_
  obtain ⟨hnil, _⟩ := h.unlabelled (by rw [Scope.flush_rootLabelled]; exact hlabel)
  exact List.append_ne_nil_of_right_ne_nil _ (List.cons_ne_nil p []) hnil

/-- The variables of a mandatory edge go behind those of the mandatory patterns, before the
optional ones. -/
theorem matched_extend (hroot : s.rootLabelled = true) :
    ((withBinding s b).flush (some (patternTo p hop b, false))).matched imports =
      (s.flush (some (p, false))).matched imports ++ [b.edgeVar, b.var] := by
  rw [Scope.matched, Scope.matched, mandatoryPatterns_flush hroot,
    mandatoryPatterns_flush (s := withBinding s b) hroot, List.append_assoc]
  exact congrArg (imports ++ ·) (introducedBy_patternTo (Selection.mandatoryPatterns s) p hop b)

/-- A mandatory edge to new variables introduces them before the optional ones. -/
theorem extend_mandatory (h : Introduces imports (s.flush (some (p, false))))
    (hdistinct : [b.edgeVar, b.var].Nodup) (hfresh : ∀ v ∈ [b.edgeVar, b.var], v ∉ s.declared) :
    Introduces imports ((withBinding s b).flush (some (patternTo p hop b, false))) := by
  have hroot := h.rootLabelled_of_mandatory
  have hold {v : String} (hv : v ∈ (s.flush (some (p, false))).matched imports) :
      v ∈ (s.flush (some (p, false))).matched imports ++ [b.edgeVar, b.var] :=
    List.mem_append_left _ hv
  refine ⟨fun v => ?_, ?_, ?_, ?_, bound_withBinding h.bound, fun b' hb' hmandatory' => ?_,
    fun hfalse => ?_, h.plain⟩
  · have hdeclared : v ∈ s.declared ↔ _ := h.declared v
    rw [matched_extend hroot]
    show v ∈ (withBinding s b).declared ↔ v ∈ _ ++ introducedBy s.optional
    rw [mem_declared_withBinding, hdeclared]
    simp only [List.mem_append, or_assoc, or_comm (a := v ∈ [b.edgeVar, b.var])]
    rfl
  · have hmandatory := h.mandatory
    rw [mandatoryPatterns_flush hroot] at hmandatory
    rw [mandatoryPatterns_flush (s := withBinding s b) hroot]
    refine PatternsScoped.extend_last hmandatory rfl hdistinct fun v hv hknown => ?_
    refine hfresh v hv ((h.declared v).2 (List.mem_append_left _ ?_))
    rw [Scope.matched, mandatoryPatterns_flush hroot]
    exact hknown
  · rw [matched_extend hroot]
    refine h.optional.mono (fun v => hold) fun v hv hknown => ?_
    rcases List.mem_append.1 hknown with hknown | hknown
    · exact h.optional.fresh v hv hknown
    · exact hfresh v hknown ((h.declared v).2 (List.mem_append_right _ hv))
  · rw [matched_extend hroot]
    exact hold h.root
  · rw [matched_extend hroot]
    rcases List.mem_append.1 hb' with hb' | hb'
    · obtain ⟨hvar', hedge'⟩ := h.bindings b' hb' hmandatory'
      exact ⟨hold hvar', hold hedge'⟩
    · rw [List.mem_singleton.1 hb']
      exact ⟨List.mem_append_right _ (List.mem_cons_of_mem _ List.mem_cons_self),
        List.mem_append_right _ List.mem_cons_self⟩
  · have hlabel : s.rootLabelled = false := hfalse
    rw [hroot] at hlabel
    cases hlabel

/-- An edge to new variables introduces them. -/
theorem extend (h : Introduces imports (s.flush (some (p, o)))) (ho : b.optional = o)
    (hvar : b.var ∉ s.declared) (hedge : b.edgeVar ∉ s.declared ++ [b.var]) :
    Introduces imports ((withBinding s b).flush (some (patternTo p hop b, o))) := by
  have hdistinct : [b.edgeVar, b.var].Nodup := by
    refine List.nodup_cons.2 ⟨fun hmem => ?_, List.nodup_singleton _⟩
    exact hedge (List.mem_append_right _ hmem)
  have hfresh : ∀ v ∈ [b.edgeVar, b.var], v ∉ s.declared := by
    intro v hv
    rcases List.mem_cons.1 hv with rfl | hv
    · exact fun hmem => hedge (List.mem_append_left _ hmem)
    · rw [List.mem_singleton.1 hv]
      exact hvar
  cases o with
  | true => exact h.extend_optional ho hdistinct hfresh
  | false => exact h.extend_mandatory hdistinct hfresh

end Extend

end Scope.Introduces

/-- A scope on the way along a path: with the pattern that is being written it introduces what is
declared, and an optional binding is only left for optional steps. -/
structure Scope.Introducing (imports : List String) (s : Scope) (p : Scope.Progress) : Prop where
  introduces : Scope.Introduces imports (s.flush p.pattern?)
  reached : ∀ b, p.at?.bind (s.bindings[·]?) = some b → b.optional = true →
    p.afterOptional = true

namespace Scope.Introducing

variable {imports : List String} {s s' : Scope} {p p' : Progress} {step : PathStep} {hidden : Bool}

/-- The pattern that the next step goes on with introduces no more than is declared. -/
theorem openPattern (h : Introducing imports s p) {o : Bool}
    (ho : p.afterOptional = true → o = true) :
    Introduces imports ((s.openPattern p o).2.flush (some ((s.openPattern p o).1, o))) := by
  have hintroduces := h.introduces
  have hat : ∀ b, p.at?.bind (s.bindings[·]?) = some b → b.optional = true → o = true :=
    fun b hb hoptional => ho (h.reached b hb hoptional)
  rcases hp : p.pattern? with _ | ⟨pattern, o'⟩
  · rw [hp] at hintroduces
    have hopen : s.openPattern p o = s.startPattern p.at? o := by
      simp only [Scope.openPattern, hp]
    rw [hopen]
    exact hintroduces.startPattern hat
  · rw [hp] at hintroduces
    by_cases hoo : o' = o
    · subst hoo
      have hopen : s.openPattern p o' = (pattern, s) := by
        simp only [Scope.openPattern, hp, if_true]
      rw [hopen]
      exact hintroduces
    · have hopen : s.openPattern p o = (s.flush (some (pattern, o'))).startPattern p.at? o := by
        simp only [Scope.openPattern, hp, hoo, if_false]
      rw [hopen]
      exact hintroduces.startPattern (by rw [Scope.flush_bindings]; exact hat)

/-- A new step introduces its two variables. -/
theorem bindNew (h : Introducing imports s p)
    (hrun : s.bindNew p step hidden = .ok (s', p')) : Introducing imports s' p' := by
  obtain ⟨pattern, s₁, var, edgeVar, hopen, _, _, hvar, hedge, rfl, rfl⟩ := bindNew_eq_ok hrun
  have hopened := h.openPattern (o := step.optional || p.afterOptional)
    (by intro hafter; rw [hafter, Bool.or_true])
  rw [hopen] at hopened
  refine ⟨?_, fun b hb hoptional => ?_⟩
  · exact hopened.extend (b := newBinding step hidden var edgeVar p) rfl hvar hedge
  · simp only [Option.bind_some, List.getElem?_concat_length] at hb
    cases hb
    exact hoptional

theorem bindStep (h : Introducing imports s p)
    (hrun : Scope.bindStep hidden (s, p) step = .ok (s', p')) : Introducing imports s' p' := by
  unfold Scope.bindStep at hrun
  cases hi : s.reusable? step hidden with
  | none =>
    simp only [hi] at hrun
    exact h.bindNew hrun
  | some i =>
    simp only [hi] at hrun
    obtain ⟨rfl, rfl⟩ := Prod.mk.inj (Except.ok.inj hrun)
    refine ⟨h.introduces, fun b hb hoptional => ?_⟩
    simp only [Option.bind_some, Scope.flush_bindings] at hb
    simp only [hb, Option.map_some, Option.getD_some, hoptional, Bool.or_true]

end Scope.Introducing

namespace Scope.Introduces

variable {imports : List String} {s s' : Scope}

theorem bindPath {path : PathSpec} (h : Introduces imports s) (hrun : s.bindPath path = .ok s') :
    Introduces imports s' := by
  obtain ⟨s₁, p, hsteps, rfl⟩ := bindPath_eq_ok hrun
  have hstart : Introducing imports s ⟨none, none, false⟩ := ⟨h, by simp⟩
  have hfinish := foldlM_invariant (P := fun state => Introducing imports state.1 state.2) hstart
    (fun step _ _ _ hstate hstep => hstate.bindStep hstep) hsteps
  exact hfinish.introduces

/-- Binding the paths of a selection introduces what it declares. -/
theorem of_scope {r : Registry} {selection : Selection} (h : selection.scope r imports = .ok s) :
    Introduces imports s := by
  obtain ⟨scope₁, hidden, hstart, _, _, hpaths⟩ := Selection.scope_eq_ok h
  exact foldlM_invariant (start hstart) (fun _ _ _ _ hs hpath => hs.bindPath hpath) hpaths

end Scope.Introduces

/-! ## Names in scope -/

/-- The variables that are in scope, against those that a scope lets through. -/
structure Scope.Shows (known : List String) (s : Scope) : Prop where
  visible : ∀ v, v ∈ known ↔ s.isVisible v = true
  root : s.transformed? = none → s.rootVar ∈ known
  bindings : s.transformed? = none → ∀ b ∈ s.bindings, b.var ∈ known ∧ b.edgeVar ∈ known

namespace Scope

variable {known imports : List String} {s : Scope} {site : UseSite}

theorem Introduces.shows (h : Introduces imports s) :
    Shows (s.matched imports ++ introducedBy s.optional) s where
  visible v := by
    rw [← h.declared, isVisible, h.plain.1, h.plain.2]
    simp
  root _ := List.mem_append_left _ h.root
  bindings _ b hb := by
    obtain ⟨hvar, hedge⟩ := h.bound b hb
    exact ⟨(h.declared _).1 hvar, (h.declared _).1 hedge⟩

theorem transformed?_of_field {f : FieldPath} {lhs : Cypher.PropertyRef} {p : Property}
    (h : s.field f site = .ok (lhs, p)) : s.transformed? = none := by
  cases htransformed : s.transformed? with
  | none => rfl
  | some names => simp [field, htransformed] at h

namespace Shows

theorem field (h : Shows known s) {f : FieldPath} {lhs : Cypher.PropertyRef} {p : Property}
    (hfield : s.field f site = .ok (lhs, p)) : lhs.var ∈ known := by
  have hplain := transformed?_of_field hfield
  obtain ⟨_, rfl⟩ | ⟨b, hb, hlhs⟩ := field_eq_ok hfield
  · exact h.root hplain
  · obtain ⟨hvar, hedge⟩ := h.bindings hplain b (List.mem_of_find?_eq_some hb)
    obtain ⟨_, _, _, rfl⟩ | ⟨_, _, _, rfl⟩ := hlhs
    · exact hedge
    · exact hvar

theorem reference (h : Shows known s) {v : VarRef} {ref : Cypher.Reference}
    (hrun : s.reference site v = .ok ref) : ref.var ∈ known := by
  induction v generalizing ref with
  | root =>
    simp only [Scope.reference] at hrun
    split at hrun
    · cases hrun
    · next hplain =>
      cases hrun
      exact h.root (Option.not_isSome_iff_eq_none.1 hplain)
  | node key =>
    simp only [Scope.reference] at hrun
    split at hrun
    · next b hb hplain =>
      cases hrun
      exact (h.bindings hplain b (bindingOfKey?_mem hb)).1
    · cases hrun
  | edge key =>
    simp only [Scope.reference] at hrun
    split at hrun
    · next b hb hplain =>
      cases hrun
      exact (h.bindings hplain b (bindingOfKey?_mem hb)).2
    · cases hrun
  | name name =>
    simp only [Scope.reference] at hrun
    split at hrun
    · next hvisible =>
      cases hrun
      exact (h.visible name).2 hvisible
    · cases hrun
  | property of property ih =>
    obtain ⟨_, _, hrun⟩ := bind_eq_ok.1 hrun
    obtain ⟨inner, hinner, hrun⟩ := bind_eq_ok.1 hrun
    obtain rfl := pure_eq_ok.1 hrun
    have hvar := ih hinner
    exact hvar

/-- A compiled expression uses a variable in scope, and groups rows if the plan's does. -/
theorem expr (h : Shows known s) {e : Expr VarRef} {e' : Expr Cypher.Reference}
    (hrun : s.expr e = .ok e') :
    Cypher.exprVar e' ∈ known ∧ e'.isAggregate = e.isAggregate := by
  unfold Scope.expr at hrun
  induction e generalizing e' with
  | ref v =>
    obtain ⟨ref, href, hrun⟩ := bind_eq_ok.1 hrun
    obtain rfl := pure_eq_ok.1 hrun
    exact ⟨h.reference href, rfl⟩
  | apply f arg ih =>
    obtain ⟨arg', harg, hrun⟩ := bind_eq_ok.1 hrun
    obtain rfl := pure_eq_ok.1 hrun
    obtain ⟨hvar, hgroups⟩ := ih harg
    exact ⟨hvar, congrArg (f.groups || ·) hgroups⟩

end Shows

end Scope

/-! ## Filters -/

section Filters

variable {known imports : List String} {scope : Scope} {space : String} {b b' : Binder}

theorem Existence.scoped_formula (hroot : scope.rootVar ∈ known) (e : Existence) :
    (e.formula scope.rootVar).Scoped known := by
  have hpattern : (e.pattern scope.rootVar).Checks known := by
    constructor
    · simp [Existence.pattern, Cypher.Pattern.introduced, Cypher.NodePattern.introduced,
        Cypher.NodePattern.bound, Scope.edgePattern]
    · intro v hv
      simp [Existence.pattern, Cypher.Pattern.referred, Cypher.NodePattern.referred,
        Cypher.NodePattern.bound] at hv
      rw [hv]
      exact hroot
  unfold Existence.formula
  split
  · refine ⟨by simp [Cypher.Formula.vars, Cypher.Formula.atoms], fun p hp => ?_⟩
    rw [List.mem_singleton.1 hp]
    exact hpattern
  · refine ⟨by simp [Cypher.Formula.vars, Cypher.Formula.atoms], fun p hp => ?_⟩
    rw [List.mem_singleton.1 hp]
    exact hpattern

/-- A compiled predicate compares fields only. -/
theorem field_of_mem_vars {p : Predicate} {f : Cypher.Formula}
    (h : compilePredicate scope space p b = .ok (f, b')) : ∀ v ∈ f.vars,
      ∃ field lhs property, scope.field field .filters = .ok (lhs, property) ∧ lhs.var = v := by
  have hcomparisons := (Predicate.compilesTo h).comparisons
  intro v hv
  obtain ⟨a, ha, rfl⟩ := List.mem_map.1 hv
  rw [← Cypher.Formula.comparisons_logic] at ha
  obtain ⟨c, _, lhs, property, lowered, name, hfield, hlower, rfl⟩ :=
    exists_of_mem_forall₂ hcomparisons ha
  refine ⟨c.field, lhs, property, hfield, ?_⟩
  rw [(Condition.lowers_of_lower hlower).lhs_atom]

theorem checks_compilePredicate {p : Predicate} {f : Cypher.Formula}
    (h : compilePredicate scope space p b = .ok (f, b')) : f.logic.checks = [] := by
  rw [(FiltersSay.of_compilesTo (Predicate.compilesTo h)).checks, Predicate.checks_logic]
  rfl

/-- A filter that touches no optional step may stand before the optional patterns. -/
theorem Selection.mem_matched_of_not_touchesOptional {f : Cypher.Formula} {field : FieldPath}
    {lhs : Cypher.PropertyRef} {property : Property} (h : scope.Introduces imports)
    (hearly : touchesOptional scope f = false)
    (hfield : scope.field field .filters = .ok (lhs, property)) (hlhs : lhs.var ∈ f.vars) :
    lhs.var ∈ scope.matched imports := by
  obtain ⟨_, rfl⟩ | ⟨b, hb, hlhs'⟩ := Scope.field_eq_ok hfield
  · exact h.root
  · have hmem := List.mem_of_find?_eq_some hb
    have hmandatory (hvar : lhs.var = b.var ∨ lhs.var = b.edgeVar) : b.optional = false := by
      refine Bool.eq_false_iff.2 fun hoptional => ?_
      have htouches : touchesOptional scope f = true := by
        refine List.any_eq_true.2 ⟨b, hmem, ?_⟩
        rw [hoptional, Bool.true_and, Bool.or_eq_true, List.contains_iff_mem, List.contains_iff_mem]
        rcases hvar with hvar | hvar
        · exact .inl (hvar ▸ hlhs)
        · exact .inr (hvar ▸ hlhs)
      rw [hearly] at htouches
      cases htouches
    obtain ⟨_, _, _, rfl⟩ | ⟨_, _, _, rfl⟩ := hlhs'
    · exact (h.bindings b hmem (hmandatory (.inr rfl))).2
    · exact (h.bindings b hmem (hmandatory (.inl rfl))).1

end Filters

/-! ## Clauses -/

namespace Selection

variable {s : Selection} {known imports : List String} {scope scope' : Scope} {space : String}
  {b b' : Binder}

/-- The clauses that match and filter: early filters see the mandatory patterns, late ones see
everything. -/
theorem scoped_matchClauses {early late : List Cypher.Formula} (h : scope.Introduces imports)
    (hearly : ∀ f ∈ early, f.Scoped (scope.matched imports))
    (hlate : ∀ f ∈ late, f.Scoped (scope.matched imports ++ introducedBy scope.optional)) :
    AllScoped imports (matchClauses scope early late)
      (scope.matched imports ++ introducedBy scope.optional) := by
  have hoptional : AllScoped (scope.matched imports)
      (scope.optional.map Cypher.Clause.optionalMatching)
      (scope.matched imports ++ introducedBy scope.optional) :=
    AllScoped.optionalMatchings h.optional
  unfold matchClauses
  by_cases hpatterns : (mandatoryPatterns scope).isEmpty = true
  · simp only [hpatterns, if_true]
    have himports : scope.matched imports = imports := by
      rw [Scope.matched, List.isEmpty_iff.1 hpatterns]
      exact List.append_nil _
    have hfilters : ∀ f ∈ early ++ late,
        f.Scoped (scope.matched imports ++ introducedBy scope.optional) := by
      intro f hf
      rcases List.mem_append.1 hf with hf | hf
      · exact (hearly f hf).mono (List.subset_append_left _ _)
      · exact hlate f hf
    rw [himports] at hoptional hfilters ⊢
    exact hoptional.append (.optional_clause (.lateFilter hfilters) _)
  · simp only [hpatterns, Bool.false_eq_true, if_false]
    have hfiltered := AllScoped.optional_clause (.filter hearly) early.isEmpty
    have hfilteredLate := AllScoped.optional_clause (.lateFilter hlate) late.isEmpty
    exact .cons (.matching h.mandatory) ((hfiltered.append hoptional).append hfilteredLate)

theorem scoped_compileMatch {clauses : List Cypher.Clause} (h : scope.Introduces imports)
    (hrun : s.compileMatch scope space b = .ok (clauses, b')) :
    AllScoped imports clauses (scope.matched imports ++ introducedBy scope.optional) := by
  have hexistence : ∀ f ∈ s.existence.map (Existence.formula scope.rootVar),
      f.Scoped (scope.matched imports) := by
    intro f hf
    obtain ⟨e, _, rfl⟩ := List.mem_map.1 hf
    exact e.scoped_formula h.root
  obtain ⟨_, _, rfl⟩ | ⟨p, f, _, hf, rfl⟩ := compileMatch_eq_ok hrun
  · exact scoped_matchClauses h hexistence (by simp)
  · have hchecks := checks_compilePredicate hf
    by_cases hlate : touchesOptional scope f = true
    · rw [if_pos hlate]
      refine scoped_matchClauses h hexistence fun g hg => ?_
      rw [List.mem_singleton.1 hg]
      refine ⟨fun v hv => ?_, by simp [hchecks]⟩
      obtain ⟨field, lhs, property, hfield, rfl⟩ := field_of_mem_vars hf v hv
      exact h.shows.field hfield
    · rw [if_neg hlate]
      refine scoped_matchClauses h (fun g hg => ?_) (by simp)
      rcases List.mem_cons.1 hg with rfl | hg
      · refine ⟨fun v hv => ?_, by simp [hchecks]⟩
        obtain ⟨field, lhs, property, hfield, rfl⟩ := field_of_mem_vars hf v hv
        exact mem_matched_of_not_touchesOptional h (Bool.eq_false_iff.2 hlate) hfield hv
      · exact hexistence g hg

/-- The items of a stage use variables in scope, and have the names of the transform's variables,
each once. -/
theorem scoped_stageItems {vars : List TransformVar} {names : List String}
    {items : List (Cypher.Reference × String)} (h : scope.Shows known)
    (hrun : stageItems scope vars names = .ok items) :
    (∀ i ∈ items, i.1.var ∈ known) ∧ items.map Prod.snd = vars.map TransformVar.name ∧
      (items.map Prod.snd).Nodup ∧ ∀ name ∈ items.map Prod.snd, name ∉ names := by
  induction vars generalizing names items with
  | nil =>
    obtain rfl := stageItems_nil_eq_ok hrun
    exact ⟨by simp, rfl, .nil, by simp⟩
  | cons v rest ih =>
    have hfresh : v.name ∉ names := by
      intro hmem
      rw [stageItems, if_pos (List.contains_iff_mem.2 hmem)] at hrun
      obtain ⟨_, hthrow, _⟩ := bind_eq_ok.1 hrun
      exact throw_ne_ok hthrow
    obtain ⟨source, items', hsource, hitems, rfl⟩ := stageItems_cons_eq_ok hrun
    obtain ⟨hsources, hnames, hnodup, hnew⟩ := ih hitems
    refine ⟨fun i hi => ?_, ?_, ?_, fun name hname => ?_⟩
    · rcases List.mem_cons.1 hi with rfl | hi
      · exact h.reference hsource
      · exact hsources i hi
    · rw [List.map_cons, List.map_cons, hnames]
    · rw [List.map_cons]
      refine List.nodup_cons.2 ⟨fun hmem => ?_, hnodup⟩
      exact hnew _ hmem (List.mem_append_right _ (List.mem_singleton_self _))
    · rcases List.mem_cons.1 hname with rfl | hname
      · exact hfresh
      · exact fun hmem => hnew name hname (List.mem_append_left _ hmem)

theorem scoped_compileTransform {t : Transform} {clause : Cypher.Clause} (h : scope.Shows known)
    (hextra : scope.extra = []) (hrun : compileTransform scope t = .ok (clause, scope')) :
    clause.Scoped known (t.vars.map TransformVar.name) ∧
      scope'.Shows (t.vars.map TransformVar.name) ∧ scope'.extra = [] := by
  obtain ⟨items, order, hitems, rfl, horder, rfl⟩ := compileTransform_eq_ok hrun
  obtain ⟨hsources, hnames, hnodup, _⟩ := scoped_stageItems h hitems
  have hafter : Scope.Shows (t.vars.map TransformVar.name)
      { scope with transformed? := some (t.vars.map TransformVar.name) } := by
    refine ⟨fun v => ?_, fun hnone => ?_, fun hnone => ?_⟩
    · simp [Scope.isVisible, hextra]
    · cases hnone
    · cases hnone
  refine ⟨?_, hafter, hextra⟩
  rw [← hnames] at hafter ⊢
  refine .stage hsources hnodup fun o ho => ?_
  obtain ⟨term, _, target, htarget, rfl⟩ := exists_of_mem_forall₂ horder ho
  rw [hnames] at hafter ⊢
  exact hafter.reference htarget

/-- Every transform replaces the scope by its variables. -/
theorem scoped_compileTransforms {ts : List Transform} {stages : List Cypher.Clause}
    (h : scope.Shows known) (hextra : scope.extra = [])
    (hrun : compileTransforms scope ts = .ok (stages, scope')) :
    ∃ after, AllScoped known stages after ∧ scope'.Shows after ∧ (ts = [] → after = known) ∧
      ∀ t, ts.getLast? = some t → ∀ v ∈ t.vars, v.name ∈ after := by
  induction ts generalizing scope known stages with
  | nil =>
    obtain ⟨rfl, rfl⟩ := compileTransforms_nil_eq_ok hrun
    exact ⟨known, .nil, h, fun _ => rfl, fun t ht => by cases ht⟩
  | cons t rest ih =>
    obtain ⟨clause, scope₁, stages', hclause, hstages, rfl⟩ := compileTransforms_cons_eq_ok hrun
    obtain ⟨hscoped, hshows, hextra₁⟩ := scoped_compileTransform h hextra hclause
    obtain ⟨after, hrest, hshows', hsame, hlast⟩ := ih hshows hextra₁ hstages
    refine ⟨after, .cons hscoped hrest, hshows', nofun, fun t' ht' => ?_⟩
    cases rest with
    | nil =>
      obtain rfl := Option.some.inj ht'
      rw [hsame rfl]
      exact fun v hv => List.mem_map_of_mem hv
    | cons t'' rest' => exact hlast t' (by rw [← ht', List.getLast?_cons_cons])

/-! ## Endings -/

theorem nodup_of_firstRepeated? {seen names : List String}
    (h : firstRepeated? seen names = none) : names.Nodup ∧ ∀ name ∈ names, name ∉ seen := by
  induction names generalizing seen with
  | nil => exact ⟨.nil, by simp⟩
  | cons name rest ih =>
    rw [firstRepeated?] at h
    split at h
    · cases h
    · next hseen =>
      rw [List.contains_iff_mem] at hseen
      obtain ⟨hnodup, hnew⟩ := ih h
      refine ⟨List.nodup_cons.2 ⟨fun hmem => hnew name hmem List.mem_cons_self, hnodup⟩, ?_⟩
      intro n hn
      rcases List.mem_cons.1 hn with rfl | hn
      · exact hseen
      · exact fun hmem => hnew n hn (List.mem_cons_of_mem name hmem)

/-- A term of the final ordering uses a variable in scope, and behind a grouping a returned one. -/
theorem source_compileOrder {names : List String} {grouped : Bool} {term : OrderTerm}
    {term' : Cypher.SortTerm} (h : scope.Shows known)
    (hrun : compileOrder scope names grouped term = .ok term') :
    ∀ v, term'.source? = some v → v ∈ known ∧ (grouped = true → v ∈ names) := by
  obtain ⟨rfl, rfl⟩ | ⟨f, descending, lhs, p, rfl, hfield, hgrouped, rfl⟩ :=
    compileOrder_eq_ok hrun
  · exact nofun
  · intro v hv
    obtain rfl := Option.some.inj hv
    exact ⟨h.field hfield, hgrouped⟩

/-- What returns items that are made of variables in scope. -/
theorem scoped_compileReturn {outputs : List Output} {clauses : List Cypher.Clause}
    (h : scope.Shows known) (hsources : ∀ o ∈ outputs, o.1.source ∈ known)
    (hgroups : ∀ o ∈ outputs, o.1.isAggregate = true →
      (s.annotations.any fun a => a.expr.isAggregate) = true)
    (hrun : s.compileReturn scope space outputs b = .ok (clauses, b')) :
    ∃ after, AllScoped known clauses after := by
  obtain ⟨hnames, _, order, page, horder, _, rfl⟩ := compileReturn_eq_ok hrun
  have hitems : (outputs.map Prod.fst).map Cypher.Item.name = outputs.map fun o => o.1.name :=
    List.map_map
  have hreturning : (Cypher.Clause.returning (outputs.map Prod.fst)).Scoped known
      (Cypher.scopeBehind known (outputs.map Prod.fst)) := by
    refine .returning (fun i hi => ?_) ?_
    · obtain ⟨o, ho, rfl⟩ := List.mem_map.1 hi
      exact hsources o ho
    · rw [hitems]
      exact (nodup_of_firstRepeated? hnames).1
  have hordering : ∀ term ∈ order, ∀ v, term.source? = some v →
      v ∈ Cypher.scopeBehind known (outputs.map Prod.fst) := by
    intro term hterm v hv
    obtain ⟨o, _, ho⟩ := exists_of_mem_mapM horder hterm
    obtain ⟨hknown, hgrouped⟩ := source_compileOrder h ho v hv
    unfold Cypher.scopeBehind
    split
    · next haggregate =>
      rw [List.any_map, List.any_eq_true] at haggregate
      obtain ⟨output, houtput, haggregate⟩ := haggregate
      rw [hitems]
      exact hgrouped (hgroups output houtput haggregate)
    · exact List.mem_append_left _ hknown
  have hpaging : (Cypher.Clause.paging page).Scoped
      (Cypher.scopeBehind known (outputs.map Prod.fst))
      (Cypher.scopeBehind known (outputs.map Prod.fst)) := .paging
  have hordered := AllScoped.optional_clause (.ordering hordering) order.isEmpty
  have hpaged := AllScoped.optional_clause hpaging page.isEmpty
  exact ⟨_, AllScoped.append (.cons hreturning hordered) hpaged⟩

theorem source_annotated {a : Annotation} {o : Output} (h : scope.Shows known)
    (hrun : annotated scope a = .ok o) :
    o.1.source ∈ known ∧ o.1.name = a.name ∧ o.1.isAggregate = a.expr.isAggregate := by
  obtain ⟨e, he, rfl⟩ := annotated_eq_ok hrun
  obtain ⟨hsource, hgroups⟩ := h.expr he
  exact ⟨hsource, rfl, hgroups⟩

theorem source_bindingOutputs {bound : Binding} (hvar : bound.var ∈ known)
    (hedge : bound.edgeVar ∈ known) :
    ∀ o ∈ bindingOutputs scope bound, o.1.source ∈ known ∧ o.1.isAggregate = false := by
  intro o ho
  rcases List.mem_append.1 ho with ho | ho
  · split at ho
    · rw [List.mem_singleton.1 ho]
      exact ⟨hvar, rfl⟩
    · cases ho
  · split at ho
    · rw [List.mem_singleton.1 ho]
      exact ⟨hedge, rfl⟩
    · cases ho

/-- A plan of its own returns variables in scope, and its annotations. -/
theorem source_planOutputs {taken : List String} {outputs : List Output} (h : scope.Shows known)
    (hreturns : ∀ name ∈ s.transformReturns, name ∈ known) (htaken : ∀ name ∈ taken, name ∈ known)
    (hrun : s.planOutputs scope taken = .ok outputs) :
    ∀ o ∈ outputs, o.1.source ∈ known ∧ (o.1.isAggregate = true →
      (s.annotations.any fun a => a.expr.isAggregate) = true) := by
  have hprojected (names : List String) (hnames : ∀ name ∈ names, name ∈ known) :
      ∀ o ∈ names.map projected, o.1.source ∈ known ∧ o.1.isAggregate = false := by
    intro o ho
    obtain ⟨name, hname, rfl⟩ := List.mem_map.1 ho
    exact ⟨hnames name hname, rfl⟩
  obtain ⟨annotations, hannotations, hrun⟩ := bind_eq_ok.1 hrun
  obtain rfl := pure_eq_ok.1 hrun
  have hplain {o : Output} (ho : o.1.source ∈ known ∧ o.1.isAggregate = false) :
      o.1.source ∈ known ∧ (o.1.isAggregate = true →
        (s.annotations.any fun a => a.expr.isAggregate) = true) :=
    ⟨ho.1, fun htrue => by rw [ho.2] at htrue; cases htrue⟩
  intro o ho
  rcases List.mem_append.1 ho with ho | ho
  · rcases List.mem_append.1 ho with ho | ho
    · split at ho
      · exact hplain (hprojected _ hreturns o ho)
      · next htransformed =>
        have hnone := Option.not_isSome_iff_eq_none.1 htransformed
        rcases List.mem_cons.1 ho with rfl | ho
        · exact hplain ⟨h.root hnone, rfl⟩
        · obtain ⟨bound, hbound, ho⟩ := List.mem_flatMap.1 ho
          obtain ⟨hvar, hedge⟩ := h.bindings hnone bound hbound
          exact hplain (source_bindingOutputs hvar hedge o ho)
    · exact hplain (hprojected taken htaken o ho)
  · obtain ⟨a, ha, ho⟩ := exists_of_mem_mapM hannotations ho
    obtain ⟨hsource, _, hgroups⟩ := source_annotated h ho
    refine ⟨hsource, fun htrue => List.any_eq_true.2 ⟨a, ha, ?_⟩⟩
    rw [← hgroups]
    exact htrue

/-- A name that is handed out is a variable in scope or an annotation. -/
theorem source_handedOut {name : String} {o : Output} (h : scope.Shows known)
    (hrun : s.handedOut scope name = .ok o) :
    o.1.source ∈ known ∧ o.1.name = name ∧ (o.1.isAggregate = true →
      (s.annotations.any fun a => a.expr.isAggregate) = true) := by
  unfold handedOut at hrun
  split at hrun
  · next a ha =>
    obtain ⟨hsource, hname, hgroups⟩ := source_annotated h hrun
    refine ⟨hsource, ?_, fun htrue => ?_⟩
    · rw [hname]
      have hfound := List.find?_some ha
      exact beq_iff_eq.1 hfound
    · exact List.any_eq_true.2 ⟨a, List.mem_of_find?_eq_some ha, hgroups ▸ htrue⟩
  · split at hrun
    · next hvisible =>
      cases hrun
      exact ⟨(h.visible name).2 hvisible, rfl, nofun⟩
    · cases hrun

/-- The end of a statement uses variables in scope. -/
theorem scoped_compileEnding {taken : List String} {ending : Ending}
    {clauses : List Cypher.Clause} {shape : ResultShape} (h : scope.Shows known)
    (hreturns : ∀ name ∈ s.transformReturns, name ∈ known) (htaken : ∀ name ∈ taken, name ∈ known)
    (hrun : s.compileEnding scope space taken ending b = .ok ((clauses, shape), b')) :
    ∃ after, AllScoped known clauses after := by
  cases ending with
  | result =>
    obtain ⟨outputs, houtputs, hreturn, _⟩ := compileEnding_result_eq_ok hrun
    have hsources := source_planOutputs h hreturns htaken houtputs
    exact scoped_compileReturn h (fun o ho => (hsources o ho).1)
      (fun o ho => (hsources o ho).2) hreturn
  | count =>
    obtain ⟨htransformed, page, _, rfl, _⟩ := compileCount_eq_ok hrun
    refine ⟨_, .cons (.keep (h.root htransformed)) (.singleton (.returning ?_ ?_))⟩
    · intro i hi
      rw [List.mem_singleton.1 hi]
      exact List.mem_singleton_self _
    · exact List.nodup_singleton _
  | handOut names =>
    obtain ⟨outputs, houtputs, hreturn, _⟩ := compileEnding_handOut_eq_ok hrun
    have hsources : ∀ o ∈ outputs, o.1.source ∈ known ∧ (o.1.isAggregate = true →
        (s.annotations.any fun a => a.expr.isAggregate) = true) := by
      intro o ho
      obtain ⟨name, _, ho⟩ := exists_of_mem_mapM houtputs ho
      obtain ⟨hsource, _, hgroups⟩ := source_handedOut h ho
      exact ⟨hsource, hgroups⟩
    exact scoped_compileReturn h (fun o ho => (hsources o ho).1)
      (fun o ho => (hsources o ho).2) hreturn

/-! ## Names that are returned -/

theorem returnedBy_compileReturn {outputs : List Output} {clauses : List Cypher.Clause}
    (hrun : s.compileReturn scope space outputs b = .ok (clauses, b')) :
    Cypher.returnedBy clauses = outputs.map fun o => o.1.name := by
  obtain ⟨_, _, order, page, _, _, rfl⟩ := compileReturn_eq_ok hrun
  have hothers (c : Cypher.Clause) (hc : c.returned = []) (omitted : Bool) :
      Cypher.returnedBy (if omitted then [] else [c]) = [] := by
    cases omitted with
    | true => rfl
    | false => simp [Cypher.returnedBy, hc]
  rw [Cypher.returnedBy, List.cons_append, List.flatMap_cons, List.flatMap_append]
  refine (congrArg₂ (fun x y => _ ++ (x ++ y)) (hothers _ rfl _) (hothers _ rfl _)).trans ?_
  rw [Cypher.Clause.returned, List.map_map, List.append_nil, List.append_nil]
  rfl

/-- A subquery returns the names that it is to hand out. -/
theorem returnedBy_handOut {taken names : List String} {clauses : List Cypher.Clause}
    {shape : ResultShape} (h : scope.Shows known)
    (hrun : s.compileEnding scope space taken (.handOut names) b = .ok ((clauses, shape), b')) :
    Cypher.returnedBy clauses = names := by
  obtain ⟨outputs, houtputs, hreturn, _⟩ := compileEnding_handOut_eq_ok hrun
  have hnamed : List.Forall₂ (· = ·) names (outputs.map fun o => o.1.name) :=
    List.forall₂_map_right_iff.2 <|
      (forall₂_of_mapM houtputs).imp fun name o ho => (source_handedOut h ho).2.1.symm
  rw [List.forall₂_eq_eq_eq] at hnamed
  rw [returnedBy_compileReturn hreturn, hnamed]

theorem returnedBy_compileFront {r : Registry} {imports : List String}
    {front : List Cypher.Clause}
    (h : s.compileFront r space imports b = .ok ((front, scope), b')) :
    Cypher.returnedBy front = [] := by
  obtain ⟨scope₁, matched, stages, _, hmatched, hstages, rfl⟩ := compileFront_eq_ok h
  refine List.flatMap_eq_nil_iff.2 fun c hc => ?_
  rcases List.mem_append.1 hc with hc | hc
  · obtain ⟨early, late, rfl⟩ := exists_matchClauses hmatched
    obtain ⟨_, rfl⟩ | ⟨_, _, rfl⟩ | rfl | rfl | rfl := mem_matchClauses hc
    all_goals rfl
  · obtain ⟨_, _, _, rfl⟩ := stage_of_mem_compileTransforms hstages c hc
    rfl

end Selection

/-! ## Plans -/

section Plans

variable {r : Registry} {known : List String} {scope scope' : Scope} {space : String}
  {b b' : Binder}

theorem returnedBy_compileSubqueries {number : Nat} {qs : List (Subquery QueryPlan)}
    {calls : List Cypher.Clause}
    (hrun : compileSubqueries r space number scope qs b = .ok ((calls, scope'), b')) :
    Cypher.returnedBy calls = [] := by
  induction qs generalizing number scope calls b with
  | nil =>
    obtain ⟨rfl, _⟩ := compileSubqueries_nil_eq_ok hrun
    rfl
  | cons q rest ih =>
    obtain ⟨_, _, _, _, _, _, _, _, hcalls, rfl⟩ := compileSubqueries_cons_eq_ok hrun
    have hrest := ih hcalls
    exact hrest

/-- A statement returns what its end returns. -/
theorem returnedBy_compilePlan {s : Selection} {imports : List String}
    {qs : List (Subquery QueryPlan)} {front calls : List Cypher.Clause} {b₁ b₂ : Binder}
    (hfront : s.compileFront r space imports b = .ok ((front, scope), b₁))
    (hcalls : compileSubqueries r space 1 scope qs b₁ = .ok ((calls, scope'), b₂))
    (last : List Cypher.Clause) :
    Cypher.returnedBy (front ++ calls ++ last) = Cypher.returnedBy last := by
  have hnoneFront := Selection.returnedBy_compileFront hfront
  have hnoneCalls := returnedBy_compileSubqueries hcalls
  unfold Cypher.returnedBy at hnoneFront hnoneCalls ⊢
  rw [List.flatMap_append, List.flatMap_append, hnoneFront, hnoneCalls]
  rfl

theorem mem_of_checkImports {imports : List String} (h : scope.Shows known)
    (hrun : checkImports scope imports = .ok ()) : ∀ name ∈ imports, name ∈ known := by
  unfold checkImports at hrun
  split at hrun
  · cases hrun
  · next hnone =>
    intro name hname
    have hvisible := List.find?_eq_none.1 hnone name hname
    exact (h.visible name).2 (by simpa using hvisible)

/-- The names that a subquery hands out are new, and in scope from then on. -/
theorem shows_takeReturns {names : List String} (h : scope.Shows known)
    (hrun : takeReturns scope names = .ok scope') :
    scope'.Shows (known ++ names) ∧ names.Nodup ∧ ∀ name ∈ names, name ∉ known := by
  induction names generalizing scope known with
  | nil =>
    cases hrun
    rw [List.append_nil]
    exact ⟨h, .nil, by simp⟩
  | cons name rest ih =>
    rw [takeReturns] at hrun
    split at hrun
    · cases hrun
    · next hvisible =>
      have hafter : Scope.Shows (known ++ [name])
          { scope with extra := scope.extra ++ [name] } := by
        refine ⟨fun v => ?_, fun hplain => ?_, fun hplain bound hbound => ?_⟩
        · rw [List.mem_append, h.visible]
          simp [Scope.isVisible, or_assoc]
        · exact List.mem_append_left _ (h.root hplain)
        · obtain ⟨hvar, hedge⟩ := h.bindings hplain bound hbound
          exact ⟨List.mem_append_left _ hvar, List.mem_append_left _ hedge⟩
      obtain ⟨hshows, hnodup, hnew⟩ := ih hafter hrun
      have hname : name ∉ known := fun hmem => hvisible ((h.visible name).1 hmem)
      refine ⟨by rwa [List.append_assoc] at hshows, ?_, fun n hn => ?_⟩
      · refine List.nodup_cons.2 ⟨fun hmem => ?_, hnodup⟩
        exact hnew name hmem (List.mem_append_right _ (List.mem_singleton_self _))
      · rcases List.mem_cons.1 hn with rfl | hn
        · exact hname
        · exact fun hmem => hnew n hn (List.mem_append_left _ hmem)

/-- What a plan compiles to is well scoped after its imports, wherever it is spliced in, and
returns the names that it is to hand out. -/
def RunsScoped (r : Registry) (p : QueryPlan) : Prop :=
  ∀ space imports ending b b' clauses shape,
    compilePlan r space imports ending p b = .ok ((clauses, shape), b') →
      (∃ after, AllScoped imports clauses after) ∧
        ∀ names, ending = .handOut names → Cypher.returnedBy clauses = names

theorem scoped_compileSubqueries {number : Nat} {qs : List (Subquery QueryPlan)}
    {calls : List Cypher.Clause} (ih : ∀ q ∈ qs, RunsScoped r q.plan) (h : scope.Shows known)
    (hrun : compileSubqueries r space number scope qs b = .ok ((calls, scope'), b')) :
    AllScoped known calls (known ++ qs.flatMap Subquery.returns) ∧
      scope'.Shows (known ++ qs.flatMap Subquery.returns) := by
  induction qs generalizing number scope known calls b with
  | nil =>
    obtain ⟨rfl, rfl, _⟩ := compileSubqueries_nil_eq_ok hrun
    rw [List.flatMap_nil, List.append_nil]
    exact ⟨.nil, h⟩
  | cons q rest ihrest =>
    obtain ⟨body, shape, b₁, scope₁, calls', himports, hbody, htake, hcalls, rfl⟩ :=
      compileSubqueries_cons_eq_ok hrun
    obtain ⟨⟨after, hscoped⟩, hreturned⟩ := ih q List.mem_cons_self _ _ _ _ _ _ _ hbody
    have hnames := hreturned _ rfl
    obtain ⟨hshows, hnodup, hnew⟩ := shows_takeReturns h htake
    have hcall : (Cypher.Clause.call q.imports body).Scoped known (known ++ q.returns) := by
      rw [← hnames] at hnodup hnew ⊢
      exact .call (mem_of_checkImports h himports) hscoped hnodup hnew
    obtain ⟨hrest, hshows'⟩ :=
      ihrest (fun q' hq' => ih q' (List.mem_cons_of_mem q hq')) hshows hcalls
    rw [List.flatMap_cons, ← List.append_assoc]
    exact ⟨.cons hcall hrest, hshows'⟩

/-- The front of a statement is well scoped, and leaves in scope what its scope lets through. -/
theorem scoped_compileFront {s : Selection} {imports : List String} {front : List Cypher.Clause}
    (hrun : s.compileFront r space imports b = .ok ((front, scope'), b')) :
    ∃ after, AllScoped imports front after ∧ scope'.Shows after ∧
      ∀ name ∈ s.transformReturns, name ∈ after := by
  obtain ⟨scope, matched, stages, hscope, hmatched, hstages, rfl⟩ :=
    Selection.compileFront_eq_ok hrun
  have hintroduces := Scope.Introduces.of_scope hscope
  have hmatch := Selection.scoped_compileMatch hintroduces hmatched
  obtain ⟨after, hstage, hshows, _, htransformed⟩ :=
    Selection.scoped_compileTransforms hintroduces.shows hintroduces.plain.2 hstages
  refine ⟨after, hmatch.append hstage, hshows, fun name hname => ?_⟩
  unfold Selection.transformReturns at hname
  split at hname
  · cases hname
  · next t ht =>
    obtain ⟨v, hv, rfl⟩ := List.mem_map.1 hname
    exact htransformed t ht v (List.mem_filter.1 hv).1

theorem runsScoped (p : QueryPlan) : RunsScoped r p := by
  induction p using QueryPlan.induction with
  | mk s qs ih =>
    intro space imports ending b b' clauses shape hrun
    obtain ⟨front, scope', b₁, calls, scope'', b₂, last, hfront, hcalls, hlast, rfl⟩ :=
      compilePlan_eq_ok hrun
    have hreturned := returnedBy_compilePlan hfront hcalls last
    obtain ⟨after, hscoped, hshows, hreturns⟩ := scoped_compileFront hfront
    obtain ⟨hcall, hshows'⟩ := scoped_compileSubqueries ih hshows hcalls
    obtain ⟨after', hend⟩ := Selection.scoped_compileEnding hshows'
      (fun name hname => List.mem_append_left _ (hreturns name hname))
      (fun name hname => List.mem_append_right _ hname) hlast
    refine ⟨⟨after', (hscoped.append hcall).append hend⟩, ?_⟩
    rintro names rfl
    rw [hreturned, Selection.returnedBy_handOut hshows' hlast]

end Plans

/-- Where a variable is in scope, no optional pattern behind introduces it: a well-scoped filter
stands behind the optional patterns that its variables come from. -/
theorem Cypher.AllScoped.not_mem_introduced_behind {known after : List String}
    {between rest : List Cypher.Clause} {p : Cypher.Pattern}
    (hbetween : ∀ c ∈ between, c.narrows = true)
    (h : AllScoped known (between ++ .optionalMatching p :: rest) after) :
    ∀ v ∈ known, v ∉ p.introduced := by
  induction between generalizing known with
  | nil =>
    cases h with
    | cons hc _ =>
      cases hc with
      | optionalMatching hp => exact fun v hv hmem => hp.fresh v hmem hv
  | cons c cs ih =>
    cases h with
    | @cons _ known' _ _ _ hc hcs =>
      have hkept : known ⊆ known' := by
        cases hc with
        | matching | optionalMatching => exact List.subset_append_left _ _
        | filter | lateFilter => exact List.Subset.refl _
        | _ => cases hbetween _ List.mem_cons_self
      exact fun v hv => ih (fun c' hc' => hbetween c' (List.mem_cons_of_mem _ hc')) hcs v (hkept hv)

/-- Every compiled statement is well scoped, whatever it ends with: each clause uses variables in
scope only and introduces new names only, in its subqueries to any depth as well. -/
theorem QueryPlan.clauses_well_scoped {r : Registry} {p : QueryPlan} {ending : Ending}
    {c : CompiledQuery} (h : p.compileTo r ending = .ok c) :
    ∃ after, AllScoped [] c.query after := by
  obtain ⟨binder, hrun, _⟩ := compileTo_eq_ok h
  exact (runsScoped p _ _ _ _ _ _ _ hrun).1

namespace Sample

/-- An optional hop with a filter on it, and a transform that carries its node forward. -/
def carried (r : Registry) : List (Registry × PlanCall) :=
  [(r, .traverse "suppliers" ⟨some "s", true, true, true⟩ .fetch),
    (r, .filter (named ["suppliers"] "a")),
    (r, .has "suppliers__country".toList true),
    (r, .transform ⟨[⟨"kept", .node "s", true⟩, ⟨"label", .property .root "name", true⟩], true,
      [⟨.name "label", false⟩]⟩)]

end Sample

theorem QueryPlan.clauses_well_scoped_carried :
    ∃ (r : Registry) (p : QueryPlan) (c : CompiledQuery) (after : List String),
      p.compile r = .ok c ∧ AllScoped [] c.query after := by
  have hrun : (do
      let r ← Sample.registered
      let innermost₀ ← QueryPlan.new r "Country"
      let innermost ← innermost₀.calls [(r, .annotate "grown" (.apply (.count false) (.ref .root)))]
      let inner₀ ← QueryPlan.new r "Supplier"
      let inner₁ ← inner₀.calls (Sample.counted r)
      let inner ← inner₁.call r (.subquery innermost ["grown"] ["supplier"])
      let p₀ ← QueryPlan.new r "Coffee"
      let p₁ ← p₀.calls (Sample.carried r)
      let p ← p₁.call r (.subquery inner ["found", "grown"] ["kept"])
      p.compile r : Except Halt _).isOk = true := by
    decide +kernel
  obtain ⟨_, hrun⟩ := exists_eq_ok hrun
  obtain ⟨r, _, hrun⟩ := lift_bind_eq_ok.1 hrun
  obtain ⟨innermost₀, _, hrun⟩ := lift_bind_eq_ok.1 hrun
  obtain ⟨innermost, _, hrun⟩ := lift_bind_eq_ok.1 hrun
  obtain ⟨inner₀, _, hrun⟩ := lift_bind_eq_ok.1 hrun
  obtain ⟨inner₁, _, hrun⟩ := lift_bind_eq_ok.1 hrun
  obtain ⟨inner, _, hrun⟩ := lift_bind_eq_ok.1 hrun
  obtain ⟨p₀, _, hrun⟩ := lift_bind_eq_ok.1 hrun
  obtain ⟨p₁, _, hrun⟩ := lift_bind_eq_ok.1 hrun
  obtain ⟨p, _, hc⟩ := lift_bind_eq_ok.1 hrun
  obtain ⟨after, hscoped⟩ := QueryPlan.clauses_well_scoped hc
  exact ⟨r, p, _, after, hc, hscoped⟩

end GraphMapper
