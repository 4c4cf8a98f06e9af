import GraphMapper.Proofs.Compile.Binder
import GraphMapper.Proofs.Cypher.Pieces
import GraphMapper.Proofs.Plan.Names

/-!
# Names in statements

A well-named plan compiles to a well-named statement: every variable is a name
that a type, an alias or a number gave, every property a storage name, and
every parameter a namespace, a variable, a storage name and a number.  So whatever
a written plan is given, its statement has no text that is not quoted but
identifiers and the words of the language (`QueryPlan.unquoted_names`).
-/

namespace GraphMapper

/-! ## Scopes -/

/-- A binding to names, of a step over well-named types. -/
structure Binding.Named (b : Binding) : Prop where
  var : IsName b.var
  edgeVar : IsName b.edgeVar
  targets : ∀ t ∈ b.targets, t.Named
  model : ∀ m, b.model? = some m → m.Named

/-- A scope of names, over well-named types. -/
structure Scope.Named (s : Scope) : Prop where
  selection : s.selection.Named
  rootVar : IsName s.rootVar
  bindings : ∀ b ∈ s.bindings, b.Named
  declared : ∀ name ∈ s.declared, IsName name
  extra : ∀ name ∈ s.extra, IsName name
  transformed : ∀ names, s.transformed? = some names → ∀ name ∈ names, IsName name
  mandatory : ∀ p ∈ s.mandatory, p.Named
  optional : ∀ p ∈ s.optional, p.Named

namespace Scope.Named

variable {s s' : Scope} {p p' : Scope.Progress}

theorem visible (h : s.Named) {name : String} (hname : s.isVisible name = true) : IsName name := by
  unfold Scope.isVisible at hname
  rcases Bool.or_eq_true_iff.1 hname with hname | hname
  · rw [List.contains_iff_mem] at hname
    cases htransformed : s.transformed? with
    | none =>
      rw [htransformed] at hname
      exact h.declared name hname
    | some names =>
      rw [htransformed] at hname
      exact h.transformed names htransformed name hname
  · exact h.extra name (List.contains_iff_mem.1 hname)

theorem start {selection : Selection} {imports : List String} (hs : selection.Named)
    (himports : ∀ name ∈ imports, IsName name) (h : Scope.start selection imports = .ok s) :
    s.Named := by
  obtain ⟨declared, rfl, hdeclared⟩ := Scope.start_eq_ok h
  refine ⟨hs, hs.root.variableName, by simp, fun name hname => ?_, by simp, by simp, by simp,
    by simp⟩
  rcases (hdeclared name).1 hname with rfl | hname
  · exact hs.root.variableName
  · exact himports name hname

theorem flush (h : s.Named) {pattern? : Option (Cypher.Pattern × Bool)}
    (hpattern : ∀ p o, pattern? = some (p, o) → p.Named) : (s.flush pattern?).Named := by
  have happend (ps : List Cypher.Pattern) (p : Cypher.Pattern) (hps : ∀ q ∈ ps, q.Named)
      (hp : p.Named) : ∀ q ∈ ps ++ [p], q.Named := by
    intro q hq
    rcases List.mem_append.1 hq with hq | hq
    · exact hps q hq
    · rw [List.mem_singleton.1 hq]
      exact hp
  rcases pattern? with _ | ⟨p, _ | _⟩
  · exact h
  · exact { h with mandatory := happend _ p h.mandatory (hpattern p _ rfl) }
  · exact { h with optional := happend _ p h.optional (hpattern p _ rfl) }

theorem named_bound {var : String} (h : IsName var) :
    (Cypher.Pattern.node (Cypher.NodePattern.bound var)).Named := by
  refine ⟨fun v hv => ?_, by simp [Cypher.Pattern.node]⟩
  cases hv
  exact h

theorem startPattern (h : s.Named) (at? : Option Nat) (optional : Bool) :
    (s.startPattern at? optional).1.Named ∧ (s.startPattern at? optional).2.Named := by
  unfold Scope.startPattern
  cases hb : at?.bind (s.bindings[·]?) with
  | some b =>
    obtain ⟨i, _, hi⟩ := Option.bind_eq_some_iff.1 hb
    exact ⟨named_bound (h.bindings b (List.mem_of_getElem? hi)).var, h⟩
  | none =>
    by_cases hlabel : (!optional && !s.rootLabelled) = true
    · rw [if_pos hlabel]
      refine ⟨⟨fun v hv => ?_, by simp [Scope.rootPattern, Cypher.Pattern.node]⟩, { h with }⟩
      cases hv
      exact h.rootVar
    · rw [if_neg hlabel]
      exact ⟨named_bound h.rootVar, h⟩

theorem openPattern (h : s.Named) (hp : ∀ q o, p.pattern? = some (q, o) → q.Named)
    (optional : Bool) :
    (s.openPattern p optional).1.Named ∧ (s.openPattern p optional).2.Named := by
  unfold Scope.openPattern
  rcases hpattern : p.pattern? with _ | ⟨q, o⟩
  · exact h.startPattern _ _
  · have hq := hp q o hpattern
    by_cases ho : o = optional
    · simp only [ho, if_true]
      exact ⟨hq, h⟩
    · simp only [ho, if_false]
      refine (h.flush fun q' o' hq' => ?_).startPattern _ _
      cases hq'
      exact hq

theorem bindNew {step : PathStep} {hidden : Bool} (h : s.Named) (hstep : step.Named)
    (hp : ∀ q o, p.pattern? = some (q, o) → q.Named)
    (hrun : s.bindNew p step hidden = .ok (s', p')) :
    s'.Named ∧ ∀ q o, p'.pattern? = some (q, o) → q.Named := by
  obtain ⟨pattern, s₁, var, edgeVar, hopen, hvar, hedge, _, _, rfl, rfl⟩ := Scope.bindNew_eq_ok hrun
  obtain ⟨hpattern, hs₁⟩ := h.openPattern hp (step.optional || p.afterOptional)
  rw [hopen] at hpattern hs₁
  have hvar' : IsName var := by
    obtain halias | ⟨_, t, ts, htargets, rfl⟩ := Scope.nodeVar_eq_ok hvar
    · exact hstep.aliased var halias
    · have ht : t.Named := hstep.hop.targets t (htargets ▸ List.mem_cons_self)
      have hglue : IsWord "_" := IsWord.of_isIdentifier rfl
      exact (((ht.variableName.append hglue).append hstep.chain).append hglue).append
        (IsWord.of_nat _)
  have hedge' : IsName edgeVar := by
    rw [← hedge]
    unfold Scope.edgeVar
    cases halias : step.alias? with
    | some name => exact (hstep.aliased name halias).append (IsWord.of_isIdentifier rfl)
    | none =>
      have hr : IsName "r" := IsName.of_isIdentifier rfl
      exact hr.append (IsWord.of_nat _)
  refine ⟨{ hs₁ with bindings := ?_, declared := ?_ }, ?_⟩
  · intro b hb
    rcases List.mem_append.1 hb with hb | hb
    · exact hs₁.bindings b hb
    · rw [List.mem_singleton.1 hb]
      exact ⟨hvar', hedge', hstep.hop.targets, hstep.hop.model⟩
  · intro name hname
    rcases List.mem_append.1 hname with hname | hname
    · rcases List.mem_append.1 hname with hname | hname
      · exact hs₁.declared name hname
      · rw [List.mem_singleton.1 hname]
        exact hvar'
    · rw [List.mem_singleton.1 hname]
      exact hedge'
  · rintro q o hq
    cases hq
    refine hpattern.extend ⟨fun v hv => ?_, rfl⟩ fun v hv => ?_
    · cases hv
      exact hedge'
    · cases hv
      exact hvar'

theorem bindStep {step : PathStep} {hidden : Bool} (h : s.Named) (hstep : step.Named)
    (hp : ∀ q o, p.pattern? = some (q, o) → q.Named)
    (hrun : Scope.bindStep hidden (s, p) step = .ok (s', p')) :
    s'.Named ∧ ∀ q o, p'.pattern? = some (q, o) → q.Named := by
  unfold Scope.bindStep at hrun
  cases hreuse : s.reusable? step hidden with
  | none =>
    simp only [hreuse] at hrun
    exact h.bindNew hstep hp hrun
  | some i =>
    simp only [hreuse] at hrun
    obtain ⟨rfl, rfl⟩ := Prod.mk.inj (Except.ok.inj hrun)
    exact ⟨h.flush hp, fun q o hq => by cases hq⟩

theorem bindPath {path : PathSpec} (h : s.Named) (hpath : path.Named)
    (hrun : s.bindPath path = .ok s') : s'.Named := by
  obtain ⟨s₁, p, hsteps, rfl⟩ := Scope.bindPath_eq_ok hrun
  have hinvariant := foldlM_invariant
    (P := fun x : Scope × Scope.Progress =>
      x.1.Named ∧ ∀ q o, x.2.pattern? = some (q, o) → q.Named)
    ⟨h, fun q o hq => by cases hq⟩
    (fun step hstep x x' hx hrun => hx.1.bindStep (hpath step hstep) hx.2 hrun) hsteps
  exact hinvariant.1.flush hinvariant.2

end Scope.Named

/-- The scope of a well-named selection is well named. -/
theorem Selection.Named.scope {r : Registry} {s : Selection} {imports : List String}
    {scope : Scope} (hr : r.Named) (hs : s.Named) (himports : ∀ name ∈ imports, IsName name)
    (h : s.scope r imports = .ok scope) : scope.Named := by
  obtain ⟨scope₁, hidden, hstart, _, hhidden, hpaths⟩ := Selection.scope_eq_ok h
  refine foldlM_invariant (P := Scope.Named) (Scope.Named.start hs himports hstart)
    (fun path hpath s s' hs' hrun => hs'.bindPath ?_ hrun) hpaths
  rcases List.mem_append.1 hpath with hpath | hpath
  · exact hs.paths path hpath
  · exact Selection.named_filterPaths hr hhidden path hpath

/-! ## References -/

theorem NodeType.Named.property {t : NodeType} (h : t.Named) {name : String} {p : Property}
    (hp : t.property? name = some p) : IsName p.storageName :=
  h.storage p (Property.mem_of_find? hp)

theorem RelationshipType.Named.property {t : RelationshipType} (h : t.Named) {name : String}
    {p : Property} (hp : t.property? name = some p) : IsName p.storageName :=
  h.storage p (Property.mem_of_find? hp)

namespace Scope.Named

variable {s : Scope} {site : UseSite}

theorem field (h : s.Named) {f : FieldPath} {lhs : Cypher.PropertyRef} {p : Property}
    (hfield : s.field f site = .ok (lhs, p)) : lhs.Named := by
  obtain ⟨hp, rfl⟩ | ⟨b, hb, hlhs⟩ := Scope.field_eq_ok hfield
  · exact ⟨h.rootVar, h.selection.root.property hp⟩
  · have hnamed := h.bindings b (List.mem_of_find?_eq_some hb)
    obtain ⟨m, hm, hp, rfl⟩ | ⟨t, ht, hp, rfl⟩ := hlhs
    · exact ⟨hnamed.edgeVar, (hnamed.model m hm).property hp⟩
    · exact ⟨hnamed.var, (hnamed.targets t ht).property hp⟩

theorem storageName (h : s.Named) {property : String} (hproperty : IsName property)
    (of : VarRef) : IsName (s.storageName of property) := by
  have hdeclared (p? : Option Property) (hp : ∀ p, p? = some p → IsName p.storageName) :
      IsName ((p?.map Property.storageName).getD property) := by
    cases hp? : p? with
    | none => exact hproperty
    | some p => exact hp p hp?
  unfold Scope.storageName
  refine hdeclared _ fun p hp => ?_
  cases of with
  | root => exact h.selection.root.property hp
  | node key =>
    obtain ⟨b, hb, hp⟩ := Option.bind_eq_some_iff.1 hp
    obtain ⟨t, ht, hp⟩ := List.exists_of_findSome?_eq_some hp
    exact ((h.bindings b (bindingOfKey?_mem hb)).targets t ht).property hp
  | edge key =>
    obtain ⟨b, hb, hp⟩ := Option.bind_eq_some_iff.1 hp
    obtain ⟨m, hm, hp⟩ := Option.bind_eq_some_iff.1 hp
    exact ((h.bindings b (bindingOfKey?_mem hb)).model m hm).property hp
  | name | property => cases hp

theorem named_ref {var : String} (h : IsName var) : Cypher.Reference.Named ⟨var, []⟩ :=
  ⟨h, by simp⟩

theorem reference (h : s.Named) {v : VarRef} {ref : Cypher.Reference}
    (hrun : s.reference site v = .ok ref) : ref.Named := by
  induction v generalizing ref with
  | root =>
    simp only [Scope.reference] at hrun
    split at hrun
    · cases hrun
    · cases hrun
      exact named_ref h.rootVar
  | node key =>
    simp only [Scope.reference] at hrun
    split at hrun
    · next b hb _ =>
      cases hrun
      exact named_ref (h.bindings b (bindingOfKey?_mem hb)).var
    · cases hrun
  | edge key =>
    simp only [Scope.reference] at hrun
    split at hrun
    · next b hb _ =>
      cases hrun
      exact named_ref (h.bindings b (bindingOfKey?_mem hb)).edgeVar
    · cases hrun
  | name name =>
    simp only [Scope.reference] at hrun
    split at hrun
    · next hvisible =>
      cases hrun
      exact named_ref (h.visible hvisible)
    · cases hrun
  | property of property ih =>
    obtain ⟨_, hproperty, hrun⟩ := bind_eq_ok.1 hrun
    obtain ⟨inner, hinner, hrun⟩ := bind_eq_ok.1 hrun
    obtain rfl := pure_eq_ok.1 hrun
    obtain ⟨hvar, hpath⟩ := ih hinner
    refine ⟨hvar, fun name hname => ?_⟩
    rcases List.mem_append.1 hname with hname | hname
    · exact hpath name hname
    · rw [List.mem_singleton.1 hname]
      exact h.storageName (IsName.of_requireIdentifier hproperty) of

theorem expr (h : s.Named) {e : Expr VarRef} {e' : Expr Cypher.Reference}
    (hrun : s.expr e = .ok e') : Cypher.ExprNamed e' := by
  unfold Scope.expr at hrun
  induction e generalizing e' with
  | ref v =>
    obtain ⟨ref, href, hrun⟩ := bind_eq_ok.1 hrun
    obtain rfl := pure_eq_ok.1 hrun
    exact h.reference href
  | apply f arg ih =>
    obtain ⟨arg', harg, hrun⟩ := bind_eq_ok.1 hrun
    obtain rfl := pure_eq_ok.1 hrun
    show Cypher.ExprNamed arg'
    exact ih harg

end Scope.Named

/-! ## Filters -/

section Filters

variable {scope : Scope} {space : String} {b b' : Binder}

theorem named_compileCondition {c : Condition} {f : Cypher.Formula} (hs : scope.Named)
    (hspace : IsStem space) (h : compileCondition scope space c b = .ok (f, b')) : f.Named := by
  obtain ⟨lhs, p, l, hfield, hlower, hatom⟩ := compileCondition_eq_ok h
  have hlhs := hs.field hfield
  have hlowers := Condition.lowers_of_lower hlower
  have hnamed (name : String) (hname : ∀ v, l.operand? = some v → IsName name) :
      (Cypher.Formula.atom (l.atom name)).Named := by
    refine ⟨by rw [hlowers.lhs_atom]; exact hlhs, fun name' hname' => ?_⟩
    rw [hlowers.param?_atom] at hname'
    obtain ⟨v, hv, rfl⟩ := Option.map_eq_some_iff.1 hname'
    exact hname v hv
  obtain ⟨hnone, rfl, _⟩ | ⟨v, name, hsome, hbind, rfl⟩ := hatom
  · refine hnamed "" fun v hv => ?_
    rw [hnone] at hv
    cases hv
  · refine hnamed name fun _ _ => ?_
    have hhint : IsName (paramHint space lhs) :=
      ((hspace.append hlhs.1).append (IsWord.of_isIdentifier rfl)).append hlhs.2.word
    have hname := Binder.isName_bind (b := b) hhint v
    rw [hbind] at hname
    exact hname

theorem named_compilePredicates {ps : List Predicate} {fs : List Cypher.Formula}
    (ih : ∀ p ∈ ps, ∀ b b' f, compilePredicate scope space p b = .ok (f, b') → f.Named)
    (h : compilePredicates scope space ps b = .ok (fs, b')) : Cypher.Formula.AllNamed fs := by
  induction ps generalizing b fs with
  | nil =>
    obtain ⟨rfl, _⟩ := compilePredicates_nil_eq_ok h
    trivial
  | cons p rest ihrest =>
    obtain ⟨f, b₁, fs', hf, hfs, rfl⟩ := compilePredicates_cons_eq_ok h
    exact ⟨ih p List.mem_cons_self _ _ _ hf,
      ihrest (fun q hq => ih q (List.mem_cons_of_mem p hq)) hfs⟩

theorem named_compilePredicate {p : Predicate} {f : Cypher.Formula} (hs : scope.Named)
    (hspace : IsStem space) (h : compilePredicate scope space p b = .ok (f, b')) : f.Named := by
  induction p using Predicate.induction generalizing b b' f with
  | leaf c => exact named_compileCondition hs hspace h
  | and parts ih =>
    obtain ⟨fs, hfs, rfl⟩ := compilePredicate_and_eq_ok h
    exact named_compilePredicates (fun p hp _ _ _ => ih p hp) hfs
  | or parts ih =>
    obtain ⟨fs, hfs, rfl⟩ := compilePredicate_or_eq_ok h
    exact named_compilePredicates (fun p hp _ _ _ => ih p hp) hfs
  | not p ih =>
    obtain ⟨g, hg, rfl⟩ := compilePredicate_not_eq_ok h
    show g.Named
    exact ih hg

theorem Existence.named_formula {rootVar : String} (h : IsName rootVar) (e : Existence) :
    (e.formula rootVar).Named := by
  have hpattern : (e.pattern rootVar).Named := by
    refine ⟨(Scope.Named.named_bound h).1, fun step hstep => ?_⟩
    obtain ⟨hop, _, rfl⟩ := List.mem_map.1 hstep
    refine ⟨⟨fun v hv => ?_, rfl⟩, fun v hv => ?_⟩
    · cases hv
    · cases hv
  unfold Existence.formula
  split
  · exact hpattern
  · exact hpattern

end Filters

/-! ## Clauses -/

namespace Selection

variable {s : Selection} {scope scope' : Scope} {space : String} {b b' : Binder}

theorem named_mandatoryPatterns (h : scope.Named) : ∀ p ∈ mandatoryPatterns scope, p.Named := by
  unfold mandatoryPatterns
  split
  · exact h.mandatory
  · intro p hp
    rcases List.mem_cons.1 hp with rfl | hp
    · refine ⟨fun v hv => ?_, by simp [Scope.rootPattern, Cypher.Pattern.node]⟩
      cases hv
      exact h.rootVar
    · exact h.mandatory p hp

theorem named_matchClauses {early late : List Cypher.Formula} (h : scope.Named)
    (hearly : ∀ f ∈ early, f.Named) (hlate : ∀ f ∈ late, f.Named) :
    ∀ c ∈ matchClauses scope early late, c.Named := by
  intro c hc
  obtain ⟨_, rfl⟩ | ⟨p, hp, rfl⟩ | rfl | rfl | rfl := mem_matchClauses hc
  · exact named_mandatoryPatterns h
  · exact h.optional p hp
  · exact hearly
  · intro f hf
    exact (List.mem_append.1 hf).elim (hearly f) (hlate f)
  · exact hlate

theorem named_compileMatch {clauses : List Cypher.Clause} (hscope : scope.Named)
    (hspace : IsStem space) (h : s.compileMatch scope space b = .ok (clauses, b')) :
    ∀ c ∈ clauses, c.Named := by
  have hexistence : ∀ f ∈ s.existence.map (Existence.formula scope.rootVar), f.Named := by
    intro f hf
    obtain ⟨e, _, rfl⟩ := List.mem_map.1 hf
    exact e.named_formula hscope.rootVar
  obtain ⟨_, _, rfl⟩ | ⟨p, f, _, hf, rfl⟩ := compileMatch_eq_ok h
  · exact named_matchClauses hscope hexistence (by simp)
  · have hnamed := named_compilePredicate hscope hspace hf
    split
    · exact named_matchClauses hscope hexistence fun g hg => List.mem_singleton.1 hg ▸ hnamed
    · refine named_matchClauses hscope (fun g hg => ?_) (by simp)
      rcases List.mem_cons.1 hg with rfl | hg
      · exact hnamed
      · exact hexistence g hg

theorem named_stageItems {vars : List TransformVar} {names : List String}
    {items : List (Cypher.Reference × String)} (hscope : scope.Named)
    (hvars : ∀ v ∈ vars, IsName v.name) (h : stageItems scope vars names = .ok items) :
    ∀ i ∈ items, i.1.Named ∧ IsName i.2 := by
  induction vars generalizing names items with
  | nil =>
    obtain rfl := stageItems_nil_eq_ok h
    intro i hi
    cases hi
  | cons v rest ih =>
    obtain ⟨source, items', hsource, hitems, rfl⟩ := stageItems_cons_eq_ok h
    intro i hi
    rcases List.mem_cons.1 hi with rfl | hi
    · exact ⟨hscope.reference hsource, hvars v List.mem_cons_self⟩
    · exact ih (fun w hw => hvars w (List.mem_cons_of_mem v hw)) hitems i hi

theorem named_compileTransform {t : Transform} {clause : Cypher.Clause} (hscope : scope.Named)
    (ht : ∀ v ∈ t.vars, IsName v.name) (h : compileTransform scope t = .ok (clause, scope')) :
    clause.Named ∧ scope'.Named := by
  obtain ⟨items, order, hitems, rfl, horder, rfl⟩ := compileTransform_eq_ok h
  have hafter : Scope.Named
      { scope with transformed? := some (t.vars.map TransformVar.name) } := by
    refine { hscope with transformed := fun names hnames name hname => ?_ }
    cases hnames
    obtain ⟨v, hv, rfl⟩ := List.mem_map.1 hname
    exact ht v hv
  refine ⟨⟨named_stageItems hscope ht hitems, fun o ho => ?_⟩, hafter⟩
  obtain ⟨term, _, target, htarget, rfl⟩ := exists_of_mem_forall₂ horder ho
  exact hafter.reference htarget

theorem named_compileTransforms {ts : List Transform} {stages : List Cypher.Clause}
    (hscope : scope.Named) (hts : ∀ t ∈ ts, ∀ v ∈ t.vars, IsName v.name)
    (h : compileTransforms scope ts = .ok (stages, scope')) :
    (∀ c ∈ stages, c.Named) ∧ scope'.Named := by
  induction ts generalizing scope stages with
  | nil =>
    obtain ⟨rfl, rfl⟩ := compileTransforms_nil_eq_ok h
    exact ⟨by simp, hscope⟩
  | cons t rest ih =>
    obtain ⟨clause, scope₁, stages', hclause, hstages, rfl⟩ := compileTransforms_cons_eq_ok h
    obtain ⟨hfirst, hscope₁⟩ := named_compileTransform hscope (hts t List.mem_cons_self) hclause
    obtain ⟨hrest, hscope'⟩ := ih hscope₁ (fun t' ht' => hts t' (List.mem_cons_of_mem t ht')) hstages
    refine ⟨fun c hc => ?_, hscope'⟩
    rcases List.mem_cons.1 hc with rfl | hc
    · exact hfirst
    · exact hrest c hc

theorem named_compileFront {r : Registry} {imports : List String} {front : List Cypher.Clause}
    (hr : r.Named) (hs : s.Named) (himports : ∀ name ∈ imports, IsName name)
    (hspace : IsStem space) (h : s.compileFront r space imports b = .ok ((front, scope), b')) :
    (∀ c ∈ front, c.Named) ∧ scope.Named := by
  obtain ⟨scope₁, matched, stages, hscope, hmatched, hstages, rfl⟩ := compileFront_eq_ok h
  have hscope₁ := hs.scope hr himports hscope
  obtain ⟨hrest, hscope⟩ := named_compileTransforms hscope₁ hs.transforms hstages
  refine ⟨fun c hc => ?_, hscope⟩
  rcases List.mem_append.1 hc with hc | hc
  · exact named_compileMatch hscope₁ hspace hmatched c hc
  · exact hrest c hc

/-! ## Endings -/

theorem isName_compileBound {keyword hint : String} {n? : Option Nat} {name? : Option String}
    (hspace : IsStem space) (hhint : IsName hint)
    (h : compileBound space keyword hint n? b = .ok (name?, b')) :
    ∀ name ∈ name?.toList, IsName name := by
  cases n? with
  | none =>
    obtain ⟨rfl, _⟩ := compileBound_none_eq_ok h
    intro name hname
    cases hname
  | some n =>
    obtain ⟨i, name, _, hbind, rfl⟩ := compileBound_some_eq_ok h
    intro name' hname'
    rw [List.mem_singleton.1 hname']
    have hbound := Binder.isName_bind (b := b) (hspace.append hhint) (.int i)
    rw [hbind] at hbound
    exact hbound

theorem isName_compilePage {page : Cypher.Page} (hspace : IsStem space)
    (h : s.compilePage space b = .ok (page, b')) : ∀ name ∈ page.params, IsName name := by
  obtain ⟨b₁, hskip, hlimit⟩ := compilePage_eq_ok h
  intro name hname
  rcases List.mem_append.1 hname with hname | hname
  · exact isName_compileBound hspace (IsName.of_isIdentifier rfl) hskip name hname
  · exact isName_compileBound hspace (IsName.of_isIdentifier rfl) hlimit name hname

theorem named_compileOrder {names : List String} {grouped : Bool} {term : OrderTerm}
    {term' : Cypher.SortTerm} (hscope : scope.Named)
    (h : compileOrder scope names grouped term = .ok term') : term'.Named := by
  cases term with
  | random =>
    cases h
    trivial
  | field f descending =>
    obtain ⟨⟨lhs, p⟩, hfield, h⟩ := bind_eq_ok.1 h
    simp only at h
    split at h
    · exact absurd h throw_bind_ne_ok
    · obtain rfl := pure_eq_ok.1 h
      exact hscope.field hfield

theorem named_compileReturn {outputs : List Output} {clauses : List Cypher.Clause}
    (hscope : scope.Named) (hspace : IsStem space) (houtputs : ∀ o ∈ outputs, o.1.Named)
    (h : s.compileReturn scope space outputs b = .ok (clauses, b')) :
    ∀ c ∈ clauses, c.Named := by
  obtain ⟨_, _, order, page, horder, hpage, rfl⟩ := compileReturn_eq_ok h
  intro c hc
  rcases List.mem_append.1 hc with hc | hc
  · rcases List.mem_cons.1 hc with rfl | hc
    · intro i hi
      obtain ⟨o, ho, rfl⟩ := List.mem_map.1 hi
      exact houtputs o ho
    · split at hc
      · cases hc
      · rw [List.mem_singleton.1 hc]
        intro term hterm
        obtain ⟨o, _, ho⟩ := exists_of_mem_mapM horder hterm
        exact named_compileOrder hscope ho
  · split at hc
    · cases hc
    · rw [List.mem_singleton.1 hc]
      exact isName_compilePage hspace hpage

theorem named_annotated {a : Annotation} {o : Output} (hscope : scope.Named)
    (ha : IsName a.name) (h : annotated scope a = .ok o) : o.1.Named := by
  obtain ⟨e, he, h⟩ := bind_eq_ok.1 h
  obtain rfl := pure_eq_ok.1 h
  exact ⟨hscope.expr he, ha⟩

theorem named_bindingOutputs {bound : Binding} (h : bound.Named) :
    ∀ o ∈ bindingOutputs scope bound, o.1.Named := by
  intro o ho
  rcases List.mem_append.1 ho with ho | ho
  · split at ho
    · rw [List.mem_singleton.1 ho]
      exact h.var
    · cases ho
  · split at ho
    · rw [List.mem_singleton.1 ho]
      exact h.edgeVar
    · cases ho

theorem named_planOutputs {taken : List String} {outputs : List Output} (hs : s.Named)
    (hscope : scope.Named) (htaken : ∀ name ∈ taken, IsName name)
    (h : s.planOutputs scope taken = .ok outputs) : ∀ o ∈ outputs, o.1.Named := by
  have hprojected (names : List String) (hnames : ∀ name ∈ names, IsName name) :
      ∀ o ∈ names.map projected, o.1.Named := by
    intro o ho
    obtain ⟨name, hname, rfl⟩ := List.mem_map.1 ho
    exact hnames name hname
  obtain ⟨annotations, hannotations, h⟩ := bind_eq_ok.1 h
  obtain rfl := pure_eq_ok.1 h
  intro o ho
  rcases List.mem_append.1 ho with ho | ho
  · rcases List.mem_append.1 ho with ho | ho
    · split at ho
      · refine hprojected _ (fun name hname => ?_) o ho
        unfold transformReturns at hname
        split at hname
        · cases hname
        · next t ht =>
          obtain ⟨v, hv, rfl⟩ := List.mem_map.1 hname
          exact hs.transforms t (List.mem_of_getLast? ht) v (List.mem_filter.1 hv).1
      · rcases List.mem_cons.1 ho with rfl | ho
        · exact hscope.rootVar
        · obtain ⟨bound, hbound, ho⟩ := List.mem_flatMap.1 ho
          exact named_bindingOutputs (hscope.bindings bound hbound) o ho
    · exact hprojected taken htaken o ho
  · obtain ⟨a, ha, ho⟩ := exists_of_mem_mapM hannotations ho
    exact named_annotated hscope (hs.annotations a ha) ho

theorem named_handedOut {name : String} {o : Output} (hs : s.Named) (hscope : scope.Named)
    (hname : IsName name) (h : s.handedOut scope name = .ok o) : o.1.Named := by
  unfold handedOut at h
  split at h
  · next a ha => exact named_annotated hscope (hs.annotations a (List.mem_of_find?_eq_some ha)) h
  · split at h
    · cases h
      exact hname
    · cases h

end Selection

/-- What an ending hands out is well named. -/
def Ending.Named : Ending → Prop
  | .handOut names => ∀ name ∈ names, IsName name
  | .result | .count => True

theorem Selection.named_compileEnding {s : Selection} {scope : Scope} {space : String}
    {taken : List String} {ending : Ending} {clauses : List Cypher.Clause} {shape : ResultShape}
    {b b' : Binder} (hs : s.Named) (hscope : scope.Named) (hspace : IsStem space)
    (htaken : ∀ name ∈ taken, IsName name) (hending : ending.Named)
    (h : s.compileEnding scope space taken ending b = .ok ((clauses, shape), b')) :
    ∀ c ∈ clauses, c.Named := by
  cases ending with
  | result =>
    obtain ⟨outputs, houtputs, hreturn, _⟩ := compileEnding_result_eq_ok h
    exact named_compileReturn hscope hspace (named_planOutputs hs hscope htaken houtputs) hreturn
  | handOut names =>
    obtain ⟨outputs, houtputs, hreturn, _⟩ := compileEnding_handOut_eq_ok h
    refine named_compileReturn hscope hspace (fun o ho => ?_) hreturn
    obtain ⟨name, hname, ho⟩ := exists_of_mem_mapM houtputs ho
    exact named_handedOut hs hscope (hending name hname) ho
  | count =>
    obtain ⟨_, page, hpage, rfl, _⟩ := compileCount_eq_ok h
    intro c hc
    rcases List.mem_cons.1 hc with rfl | hc
    · exact ⟨hscope.rootVar, isName_compilePage hspace hpage⟩
    · rw [List.mem_singleton.1 hc]
      intro i hi
      rw [List.mem_singleton.1 hi]
      exact ⟨Scope.Named.named_ref hscope.rootVar, IsName.of_isIdentifier rfl⟩

/-! ## Plans -/

section Plans

variable {r : Registry} {space : String} {b b' : Binder}

theorem isStem_subspace (h : IsStem space) (number : Nat) : IsStem (subspace space number) := by
  have hnumbered : IsName (space ++ "sq" ++ toString number) :=
    (h.append (IsName.of_isIdentifier rfl)).append (IsWord.of_nat number)
  exact .inr (hnumbered.append (IsWord.of_isIdentifier rfl))

theorem named_takeReturns {scope scope' : Scope} {names : List String} (hscope : scope.Named)
    (hnames : ∀ name ∈ names, IsName name) (h : takeReturns scope names = .ok scope') :
    scope'.Named := by
  induction names generalizing scope with
  | nil =>
    cases h
    exact hscope
  | cons name rest ih =>
    rw [takeReturns] at h
    split at h
    · cases h
    · have hafter : Scope.Named { scope with extra := scope.extra ++ [name] } := by
        refine { hscope with extra := fun n hn => ?_ }
        rcases List.mem_append.1 hn with hn | hn
        · exact hscope.extra n hn
        · rw [List.mem_singleton.1 hn]
          exact hnames name List.mem_cons_self
      exact ih hafter (fun n hn => hnames n (List.mem_cons_of_mem name hn)) h

theorem QueryPlan.isName_returns {qs : List (Subquery QueryPlan)} (h : AllNamed qs) :
    ∀ name ∈ qs.flatMap Subquery.returns, IsName name := by
  induction qs with
  | nil => simp
  | cons q rest ih =>
    obtain ⟨_, hnames, hrest⟩ := h
    intro name hname
    rcases List.mem_append.1 hname with hname | hname
    · exact hnames name (List.mem_append_left _ hname)
    · exact ih hrest name hname

/-- What a plan compiles to is well named, wherever it is spliced in. -/
def RunsNamed (r : Registry) (p : QueryPlan) : Prop :=
  ∀ space imports ending b b' clauses shape, IsStem space → (∀ name ∈ imports, IsName name) →
    ending.Named → compilePlan r space imports ending p b = .ok ((clauses, shape), b') →
    ∀ c ∈ clauses, c.Named

theorem named_compileSubqueries {number : Nat} {scope scope' : Scope}
    {qs : List (Subquery QueryPlan)} {calls : List Cypher.Clause}
    (ih : ∀ q ∈ qs, q.plan.Named → RunsNamed r q.plan) (hqs : QueryPlan.AllNamed qs)
    (hscope : scope.Named) (hspace : IsStem space)
    (h : compileSubqueries r space number scope qs b = .ok ((calls, scope'), b')) :
    (∀ c ∈ calls, c.Named) ∧ scope'.Named := by
  induction qs generalizing number scope calls b with
  | nil =>
    obtain ⟨rfl, rfl, _⟩ := compileSubqueries_nil_eq_ok h
    exact ⟨by simp, hscope⟩
  | cons q rest ihrest =>
    obtain ⟨body, shape, b₁, scope₁, calls', _, hbody, htake, hcalls, rfl⟩ :=
      compileSubqueries_cons_eq_ok h
    obtain ⟨hplan, hnames, hrest⟩ := hqs
    have hreturns : ∀ name ∈ q.returns, IsName name := fun name hname =>
      hnames name (List.mem_append_left _ hname)
    have himports : ∀ name ∈ q.imports, IsName name := fun name hname =>
      hnames name (List.mem_append_right _ hname)
    obtain ⟨hcalls, hscope'⟩ := ihrest (fun q hq => ih q (List.mem_cons_of_mem _ hq)) hrest
      (named_takeReturns hscope hreturns htake) hcalls
    refine ⟨fun c hc => ?_, hscope'⟩
    rcases List.mem_cons.1 hc with rfl | hc
    · have hending : Ending.Named (.handOut q.returns) := hreturns
      have hbody := ih q List.mem_cons_self hplan _ _ _ _ _ _ _ (isStem_subspace hspace number)
        himports hending hbody
      exact ⟨himports, Cypher.Clause.allNamed_iff.2 hbody⟩
    · exact hcalls c hc

theorem runsNamed {p : QueryPlan} (hr : r.Named) (hp : p.Named) : RunsNamed r p := by
  induction p using QueryPlan.induction with
  | mk s qs ih =>
    obtain ⟨hs, hqs⟩ := hp
    intro space imports ending b b' clauses shape hspace himports hending h
    obtain ⟨front, scope, b₁, calls, scope', b₂, last, hfront, hcalls, hlast, rfl⟩ :=
      compilePlan_eq_ok h
    obtain ⟨hfront, hscope⟩ := Selection.named_compileFront hr hs himports hspace hfront
    obtain ⟨hcalls, hscope'⟩ := named_compileSubqueries ih hqs hscope hspace hcalls
    have hlast := Selection.named_compileEnding hs hscope' hspace (QueryPlan.isName_returns hqs)
      hending hlast
    intro c hc
    rcases List.mem_append.1 hc with hc | hc
    · exact (List.mem_append.1 hc).elim (hfront c) (hcalls c)
    · exact hlast c hc

end Plans

/-- What stands without quotes in the statement of a written plan is a fixed word or sign of the
language, or an identifier: letters, digits and underscores, and no digit first.

The statement's text is taken apart into its pieces for that.  A variable, property, column or
parameter is an identifier whatever the calls on the plan were given; a label or relationship type
is one, or stands between backquotes. -/
theorem QueryPlan.unquoted_names {r : Registry} {p : QueryPlan} {c : CompiledQuery}
    (hr : r.Reachable) (hp : p.Written) (h : p.compile r = .ok c ∨ p.compileCount r = .ok c) :
    c.text = Cypher.textOf (Cypher.queryPieces c.query) ∧
      (∀ text, .own text ∈ Cypher.queryPieces c.query → text ∈ Cypher.vocabulary) ∧
      (∀ name, .name name ∈ Cypher.queryPieces c.query →
        Limits.isIdentifier name.toList = true) ∧
      ∀ label, .label label ∈ Cypher.queryPieces c.query →
        Limits.isIdentifier (Text.quote label).toList = true ∨
          Text.quote label = Text.backquoted label := by
  have hnamed : Cypher.Clause.AllNamed c.query := by
    have hrun (ending : Ending) (hending : ending.Named) (h : p.compileTo r ending = .ok c) :
        ∀ d ∈ c.query, d.Named := by
      obtain ⟨_, hrun, _⟩ := compileTo_eq_ok h
      exact runsNamed hr.named hp.named _ _ _ _ _ _ _ (.inl rfl) (by simp) hending hrun
    refine Cypher.Clause.allNamed_iff.2 ?_
    rcases h with h | h
    · exact hrun .result trivial h
    · exact hrun .count trivial h
  have hsafe := Cypher.safe_queryPieces hnamed
  exact ⟨(Cypher.textOf_queryPieces c.query).symm, fun text => hsafe (.own text),
    fun name => hsafe (.name name), fun label => hsafe (.label label)⟩

/-- A traversal with an alias, and a projection of the node that it reaches. -/
def Sample.makers (r : Registry) : List (Registry × PlanCall) :=
  [(r, .traverse "suppliers" { TraverseOptions.default with alias? := some "maker" } .fetch),
    (r, .annotate "label" (.ref (.property (.node "maker") "name")))]

theorem QueryPlan.unquoted_names_makers :
    ∃ (r : Registry) (p : QueryPlan) (c : CompiledQuery), r.Reachable ∧ p.Written ∧
      p.compile r = .ok c ∧ ∀ name, .name name ∈ Cypher.queryPieces c.query →
        Limits.isIdentifier name.toList = true := by
  have hrun : (do
      let r ← Sample.registered
      let p₀ ← QueryPlan.new r "Coffee"
      let p ← p₀.calls (Sample.makers r)
      p.compile r : Except Halt _).isOk = true := by
    decide +kernel
  obtain ⟨c, hrun⟩ := exists_eq_ok hrun
  obtain ⟨r, hr, hrun⟩ := lift_bind_eq_ok.1 hrun
  obtain ⟨p₀, hp₀, hrun⟩ := lift_bind_eq_ok.1 hrun
  obtain ⟨p, hp, hc⟩ := lift_bind_eq_ok.1 hrun
  have hreachable := Sample.reachable_registered hr
  have hwritten : p.Written :=
    .calls (.new hreachable hp₀) (by simp [Sample.makers, hreachable]) hp
  have hnames := unquoted_names hreachable hwritten (.inl hc)
  exact ⟨r, p, c, hreachable, hwritten, hc, hnames.2.2.1⟩

end GraphMapper
