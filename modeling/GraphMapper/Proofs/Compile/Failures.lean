import GraphMapper.Proofs.Compile.Fields

/-!
# How compiling fails

What the builder validates, the compiler resolves
(`QueryPlan.compile_resolves`): no relationship, property or type is unknown when
a plan is compiled, and a filter's field is unbound exactly where it strays.

`Fails` says which errors a computation may end with.  It goes through binds, so
the functions of the compiler are gone through one by one; only fields and the
references of projections and transforms raise the errors in question.
-/

namespace GraphMapper

/-! ## Errors of the compiler's steps -/

/-- A run of the compiler that ends with one of some errors, whatever is bound before. -/
def Compile.Fails {α : Type} (P : Halt → Prop) (m : Compile α) : Prop :=
  ∀ b, GraphMapper.Fails P (m b)

namespace Compile.Fails

variable {α β : Type} {P : Halt → Prop} {m : Compile α} {k : α → Compile β}

theorem pure (a : α) : Compile.Fails P (Pure.pure a : Compile α) := fun b => .ok (a, b)

theorem throw {e : Halt} (he : P e) : Compile.Fails P (MonadExcept.throw e : Compile α) :=
  fun _ => .error he

theorem lift {x : Except Halt α} (hx : GraphMapper.Fails P x) :
    Compile.Fails P (liftM x : Compile α) := fun b => by
  cases x with
  | ok a => exact .ok (a, b)
  | error e => exact .error (hx e rfl)

theorem bind (hm : Compile.Fails P m)
    (hk : ∀ a b b', m b = .ok (a, b') → GraphMapper.Fails P (k a b')) :
    Compile.Fails P (m >>= k) := fun b =>
  GraphMapper.Fails.bind (hm b) fun (a, b') h => hk a b b' h

/-- What is done with the result of a step that does not use the binder. -/
theorem lift_bind {x : Except Halt α} (hx : GraphMapper.Fails P x)
    (hk : ∀ a, x = .ok a → Compile.Fails P (k a)) :
    Compile.Fails P ((liftM x : Compile α) >>= k) :=
  (lift hx).bind fun a b b' h => by
    obtain ⟨ha, rfl⟩ := run_lift_eq_ok.1 h
    exact hk a ha b

/-- What is done with the result of a step that cannot panic either. -/
theorem liftError_bind {x : Except Error α} (hx : GraphMapper.Fails (fun e => P (.error e)) x)
    (hk : ∀ a, x = .ok a → Compile.Fails P (k a)) :
    Compile.Fails P ((liftM x : Compile α) >>= k) :=
  lift_bind (.lift hx) fun a ha => hk a (lift_eq_ok.1 ha)

theorem bind_any (hm : Compile.Fails P m) (hk : ∀ a, Compile.Fails P (k a)) :
    Compile.Fails P (m >>= k) := hm.bind fun a _ b' _ => hk a b'

end Compile.Fails

theorem fails_bindParam {P : Halt → Prop} (hint : String) (v : Value) :
    Compile.Fails P (bindParam hint v) := fun _ => .ok _

/-- The errors that the compiler's steps end with, apart from variables that are bound twice and
from what becomes of the fields of filters. -/
inductive Error.Common : Error → Prop
  | limit (e : LimitError) : Common (.limit e)
  | encode (name : String) (fault : EncodeFault) : Common (.encode name fault)
  | filter (field : String) (fault : FilterFault) : Common (.invalidFilter field fault)
  | unbound (path : String) {site : UseSite} (hsite : site ≠ .filters) :
    Common (.unboundFieldPath path site)
  | repeated (name : String) : Common (.duplicateProjection name)
  | compile {fault : CompileFault} (hfault : ∀ name, fault ≠ .boundTwice name) :
    Common (.compile fault)

/-- The errors that do not come of binding new steps. -/
def Error.Plain : Error → Prop
  | .compile (.boundTwice _) => False
  | _ => True

/-- What may be left to the compiler: no name is unknown any more, and of the fields of
filters only some are unbound. -/
def Halt.LeftToCompile (strays : String → Prop) : Halt → Prop
  | .error (.unknownRelation ..) | .error (.unknownProperty ..) | .error (.unknownTypeName ..) =>
    False
  | .error (.unboundFieldPath path .filters) => strays path
  | _ => True

section

variable {strays : String → Prop} {P : Error → Prop} {Q : Halt → Prop}

theorem Error.Common.leftToCompile (e : Error) (h : Error.Common e) :
    (Halt.error e).LeftToCompile strays := by
  cases h with
  | @unbound path site hsite =>
    cases site with
    | filters => exact absurd rfl hsite
    | _ => trivial
  | _ => trivial

theorem Error.Common.plain {e : Error} (h : Error.Common e) : e.Plain := by
  cases h with
  | @compile fault hfault =>
    cases fault with
    | boundTwice name => exact absurd rfl (hfault name)
    | _ => trivial
  | _ => trivial

theorem fails_requireIdentifier (hP : ∀ e, Error.Common e → P e) (name : String) :
    Fails P (requireIdentifier name) :=
  .mapError fun e _ => hP _ (.limit e)

/-! ## Paths -/

section

variable (hP : ∀ e, e.Plain → P e) {r : Registry}

include hP

theorem Hop.fails_ofRelationship (rel : Relationship) :
    Fails P (Hop.ofRelationship r rel) := by
  refine .bind (.mapM fun name _ => ?_) fun targets _ => ?_
  · unfold Registry.nodeType
    split
    · exact .ok _
    · exact .error (hP _ trivial)
  · refine .bind ?_ fun _ _ => .ok _
    cases rel.model? with
    | none => exact .ok _
    | some name =>
      refine .bind (?_ : Fails _ (r.relationshipType name)) fun _ _ => .ok _
      unfold Registry.relationshipType
      split
      · exact .ok _
      · exact .error (hP _ trivial)

theorem fails_walkFrom (current : List NodeType) (hops : List String) :
    Fails P (walkFrom r current hops) := by
  induction hops generalizing current with
  | nil => exact .ok _
  | cons name rest ih =>
    unfold walkFrom
    split
    · exact .error (hP _ trivial)
    · next rel _ =>
      refine .bind (Hop.fails_ofRelationship hP rel) fun hop _ => ?_
      exact .bind (ih hop.targets) fun _ _ => .ok _

theorem fails_parseHops (text : List Char) : Fails P (parseHops text) :=
  .bind (.mapError fun e _ => hP (.limit e) trivial) fun _ _ =>
    .bind (.forM fun name => fails_requireIdentifier (fun _ he => hP _ he.plain) name)
      fun _ _ => .ok _

theorem PathSpec.fails_forFilter (root : NodeType) (hops : List String) :
    Fails P (PathSpec.forFilter r root hops) :=
  .bind (.bind (.ok ()) fun _ _ => .bind (fails_parseHops hP _) fun hops _ =>
    .bind (fails_walkFrom hP [root] hops) fun _ _ => .ok _) fun _ _ => .ok _

theorem Selection.fails_filterPaths (s : Selection) : Fails P (s.filterPaths r) := by
  refine .foldlM fun hidden c _ => ?_
  dsimp only
  split
  · exact .ok _
  · exact .bind (PathSpec.fails_forFilter hP s.root _) fun _ _ => .ok _

theorem Scope.fails_field_of (scope : Scope) (f : FieldPath) (site : UseSite) :
    Fails P (scope.field f site) := by
  unfold Scope.field
  dsimp only
  repeat' split
  all_goals first | exact .ok _ | exact .error (hP _ trivial)

end

/-! ## Scopes -/

namespace Scope

variable (s : Scope)

theorem fails_declare {name : String} (h : name ∈ s.declared → P (.compile (.boundTwice name))) :
    Fails P (s.declare name) := by
  unfold declare
  split
  · next hmem => exact .error (h (List.contains_iff_mem.1 hmem))
  · exact .ok _

/-- A step has a variable unless it has neither an alias nor a target. -/
theorem fails_nodeVar {step : PathStep}
    (h : step.alias? = none → step.hop.targets = [] → Q (.panic (.firstTarget step.name))) :
    Fails Q (s.nodeVar step) := by
  unfold nodeVar
  split
  · exact .ok _
  · exact .ok _
  · next halias htargets => exact .error (h halias htargets)

theorem fails_start (htwice : ∀ name, P (.compile (.boundTwice name))) (selection : Selection)
    (imports : List String) : Fails P (start selection imports) := by
  refine .bind (.foldlM fun s name _ => s.fails_declare fun _ => htwice name) fun s' _ => ?_
  split
  · exact .ok s'
  · exact s'.fails_declare fun _ => htwice _

section

variable (htwice : ∀ name, Q (.error (.compile (.boundTwice name))))

include htwice

theorem fails_bindNew (p : Progress) {step : PathStep} (hidden : Bool)
    (htarget : step.alias? = none → step.hop.targets = [] → Q (.panic (.firstTarget step.name))) :
    Fails Q (s.bindNew p step hidden) := by
  unfold bindNew
  dsimp only
  refine .bind (fails_nodeVar _ htarget) fun var _ => ?_
  refine .bind (.lift (fails_declare _ fun _ => htwice var)) fun s₂ _ => ?_
  exact .bind (.lift (s₂.fails_declare fun _ => htwice _)) fun s₃ _ => .ok _

/-- A path is bound unless a name is taken, or one of its steps has neither an alias nor a
target. -/
theorem fails_bindPath {path : PathSpec}
    (htarget : ∀ step ∈ path.steps, step.alias? = none → step.hop.targets = [] →
      Q (.panic (.firstTarget step.name))) :
    Fails Q (s.bindPath path) := by
  refine .bind (.foldlM fun (s, p) step hstep => ?_) fun _ _ => .ok _
  unfold bindStep
  dsimp only
  split
  · exact .ok _
  · exact s.fails_bindNew htwice p path.hidden (htarget step hstep)

end

section

variable (hP : ∀ e, Error.Common e → P e)

include hP

theorem fails_reference {site : UseSite} (hsite : site ≠ .filters) (v : VarRef) :
    Fails P (s.reference site v) := by
  have hunbound (path : String) : P (.unboundFieldPath path site) := hP _ (.unbound path hsite)
  induction v with
  | root =>
    unfold reference
    split
    · exact .error (hunbound _)
    · exact .ok _
  | node key =>
    unfold reference
    split
    · exact .ok _
    · exact .error (hunbound _)
  | edge key =>
    unfold reference
    split
    · exact .ok _
    · exact .error (hunbound _)
  | name name =>
    unfold reference
    split
    · exact .ok _
    · exact .error (hunbound _)
  | property of property ih =>
    unfold reference
    exact .bind (fails_requireIdentifier hP property) fun _ _ => ih.bind fun _ _ => .ok _

theorem fails_expr (e : Expr VarRef) : Fails P (s.expr e) := by
  unfold expr
  induction e with
  | ref v =>
    have hsite : UseSite.projections ≠ .filters := nofun
    exact .bind (s.fails_reference hP hsite v) fun _ _ => .ok _
  | apply g arg ih => exact ih.bind fun _ _ => .ok _

/-- A checked field of a root is not unknown. -/
theorem fails_field {r : Registry} {selection : Selection} (hselection : s.selection = selection)
    {f : FieldPath} (hcheck : selection.checkField r f = .ok ()) {site : UseSite}
    (hsite : site ≠ .filters) : Fails P (s.field f site) := by
  have hunbound : P (.unboundFieldPath f.text site) := hP _ (.unbound f.text hsite)
  unfold field
  dsimp only
  split
  · exact .error hunbound
  · split
    · next hnil =>
      obtain ⟨p, hp⟩ := Selection.property_of_checkField hcheck hnil
      rw [hselection, hp]
      exact .ok _
    · split
      · exact .error hunbound
      · split
        · split
          · exact .ok _
          · exact .error hunbound
        · split
          · exact .ok _
          · exact .error hunbound

end

end Scope

/-! ## Filters -/

theorem Condition.fails_lower (hencode : ∀ name fault, P (.encode name fault))
    (hfilter : ∀ field fault, P (.invalidFilter field fault)) (c : Condition)
    (lhs : Cypher.PropertyRef) (p : Property) : Fails P (c.lower lhs p) := by
  have hoperand (name : String) (v : Value) : Fails P (p.encode name v) :=
    .mapError fun e _ => hencode name (.codec e)
  unfold Condition.lower
  dsimp only
  split
  · exact .ok _
  · split
    · exact (hoperand _ _).bind fun _ _ => .ok _
    · exact Fails.bind (.mapM fun v _ => hoperand _ v) fun _ _ => .ok _
  · refine (hoperand _ _).bind fun v _ => ?_
    split
    · split
      · exact .ok _
      · exact .error (hfilter _ _)
    · exact .ok _

/-- A comparison fails for its field, or for its operand. -/
theorem fails_compileCondition (hencode : ∀ name fault, Q (.error (.encode name fault)))
    (hfilter : ∀ field fault, Q (.error (.invalidFilter field fault))) {scope : Scope}
    {space : String} {c : Condition}
    (hfield : Fails (fun e => Q (.error e)) (scope.field c.field .filters)) :
    Compile.Fails Q (compileCondition scope space c) := by
  refine .liftError_bind hfield fun (lhs, p) _ =>
    .liftError_bind (c.fails_lower hencode hfilter lhs p) fun lowered _ => ?_
  cases lowered.operand? with
  | none => exact .pure _
  | some v => exact .bind_any (fails_bindParam _ v) fun _ => .pure _

/-- A predicate fails as its comparisons do. -/
theorem fails_compilePredicate {scope : Scope} {space : String} {p : Predicate}
    (h : ∀ c ∈ p.conditions, Compile.Fails Q (compileCondition scope space c)) :
    Compile.Fails Q (compilePredicate scope space p) := by
  have hparts (parts : List Predicate)
      (ih : ∀ p ∈ parts, (∀ c ∈ p.conditions, Compile.Fails Q (compileCondition scope space c)) →
        Compile.Fails Q (compilePredicate scope space p))
      (h : ∀ c ∈ Predicate.conditionsOf parts,
        Compile.Fails Q (compileCondition scope space c)) :
      Compile.Fails Q (compilePredicates scope space parts) := by
    induction parts with
    | nil => exact .pure []
    | cons q rest ihrest =>
      simp only [Predicate.conditionsOf, List.mem_append] at h
      refine .bind_any (ih q List.mem_cons_self fun c hc => h c (.inl hc)) fun f => ?_
      exact .bind_any (ihrest (fun q' hq' => ih q' (List.mem_cons_of_mem q hq'))
        fun c hc => h c (.inr hc)) fun fs => .pure _
  induction p using Predicate.induction with
  | leaf c => exact h c List.mem_cons_self
  | and parts ih => exact .bind_any (hparts parts ih h) fun fs => .pure _
  | or parts ih => exact .bind_any (hparts parts ih h) fun fs => .pure _
  | not q ih => exact .bind_any (ih h) fun f => .pure _

/-! ## Selections -/

namespace Selection

variable {r : Registry} {s : Selection} {scope : Scope}

/-- The paths of a selection are bound unless a hidden path is missing, a name is taken or unknown,
or a step has neither an alias nor a target. -/
theorem fails_scope (htwice : ∀ name, Q (.error (.compile (.boundTwice name))))
    (hshared : ∀ name, Q (.error (.compile (.unknownShared name))))
    (hfilter : Fails (fun e => Q (.error e)) (s.filterPaths r))
    (htarget : ∀ hidden, s.filterPaths r = .ok hidden → ∀ path ∈ s.paths ++ hidden,
      ∀ step ∈ path.steps, step.alias? = none → step.hop.targets = [] →
        Q (.panic (.firstTarget step.name)))
    (imports : List String) : Fails Q (s.scope r imports) := by
  refine .bind (.lift (Scope.fails_start htwice s imports)) fun scope _ => ?_
  have hpaths : Fails Q ((liftM (s.filterPaths r) : Except Halt (List PathSpec)) >>= fun hidden =>
      (s.paths ++ hidden).foldlM Scope.bindPath scope) :=
    .bind (.lift hfilter) fun hidden hhidden => .foldlM fun scope path hpath =>
      scope.fails_bindPath htwice (htarget hidden (lift_eq_ok.1 hhidden) path hpath)
  cases s.unknownShared? with
  | some name => exact .error (hshared name)
  | none => exact hpaths

/-- What the builder checked is not unknown when the paths are bound. -/
theorem Checked.fails_scope (hs : s.Checked r) (imports : List String) :
    Fails (Halt.LeftToCompile strays) (s.scope r imports) := by
  obtain ⟨hidden, hhidden, _⟩ := hs.filterPaths
  have hfilter : Fails (fun e => Halt.LeftToCompile strays (.error e)) (s.filterPaths r) := by
    rw [hhidden]
    exact .ok hidden
  exact Selection.fails_scope (fun _ => trivial) (fun _ => trivial) hfilter
    (fun _ _ _ _ _ _ _ _ => trivial) imports

/-- The fields of a filter are found, or their comparisons stray. -/
theorem fails_field_filters (hs : s.Checked r)
    (hstrays : ∀ c ∈ s.conditions, s.Strays c → strays c.field.text) {imports : List String}
    (hscope : s.scope r imports = .ok scope) {c : Condition} (hc : c ∈ s.conditions) :
    Fails (fun e => Halt.LeftToCompile strays (.error e)) (scope.field c.field .filters) := by
  obtain ⟨_, lhs, property, hfield⟩ | ⟨hstray, hfield⟩ := hs.field hscope hc
  · rw [hfield]
    exact .ok _
  · rw [hfield]
    exact .error (hstrays c hc hstray)

/-- Matching fails as the fields of filters do, or in a common way. -/
theorem fails_compileMatch (hQ : ∀ e, Error.Common e → Q (.error e))
    (hfield : ∀ c ∈ s.conditions,
      Fails (fun e => Q (.error e)) (scope.field c.field .filters)) (space : String) :
    Compile.Fails Q (s.compileMatch scope space) := by
  unfold compileMatch
  cases hp : s.predicate? with
  | none => exact .pure _
  | some p =>
    refine .bind_any (fails_compilePredicate fun c hc =>
      fails_compileCondition (fun _ _ => hQ _ (.encode ..)) (fun _ _ => hQ _ (.filter ..))
        (hfield c ?_)) fun f => .pure _
    rw [conditions, hp]
    exact hc

section

variable (hP : ∀ e, Error.Common e → P e)

include hP

theorem fails_stageItems (scope : Scope) (vars : List TransformVar) (names : List String) :
    Fails P (stageItems scope vars names) := by
  have hsite : UseSite.transforms ≠ .filters := nofun
  induction vars generalizing names with
  | nil => exact .ok []
  | cons v rest ih =>
    unfold stageItems
    split
    · exact .error (hP _ (.repeated _))
    · refine .bind (scope.fails_reference hP hsite v.source) fun source _ => ?_
      exact .bind (ih _) fun items _ => .ok _

theorem fails_compileTransform (scope : Scope) (t : Transform) :
    Fails P (compileTransform scope t) := by
  have hsite : UseSite.transformOrdering ≠ .filters := nofun
  refine .bind (fails_stageItems hP scope t.vars []) fun items _ => ?_
  refine .bind (.mapM fun o _ => ?_) fun order _ => .ok _
  exact .bind (Scope.fails_reference _ hP hsite o.target) fun _ _ => .ok _

theorem fails_compileTransforms (scope : Scope) (ts : List Transform) :
    Fails P (compileTransforms scope ts) := by
  induction ts generalizing scope with
  | nil => exact .ok _
  | cons t rest ih =>
    refine .bind (fails_compileTransform hP scope t) fun (_, scope') _ => ?_
    exact .bind (ih scope') fun _ _ => .ok _

end

/-- Transforms do not change what is selected. -/
theorem selection_compileTransforms {scope' : Scope} {ts : List Transform}
    {stages : List Cypher.Clause} (h : compileTransforms scope ts = .ok (stages, scope')) :
    scope'.selection = scope.selection := by
  induction ts generalizing scope stages with
  | nil =>
    obtain ⟨_, rfl⟩ := compileTransforms_nil_eq_ok h
    rfl
  | cons t rest ih =>
    obtain ⟨_, scope₁, _, hclause, hstages, _⟩ := compileTransforms_cons_eq_ok h
    obtain ⟨_, _, _, rfl, _⟩ := compileTransform_eq_ok hclause
    exact (ih hstages :)

section

variable (hP : ∀ e, Error.Common e → P e)

include hP

theorem fails_annotated (scope : Scope) (a : Annotation) : Fails P (annotated scope a) :=
  .bind (scope.fails_expr hP a.expr) fun _ _ => .ok _

theorem fails_handedOut (s : Selection) (scope : Scope) (name : String) :
    Fails P (s.handedOut scope name) := by
  unfold handedOut
  split
  · exact fails_annotated hP scope _
  · split
    · exact .ok _
    · exact .error (hP _ (.compile nofun))

end

section

variable (hQ : ∀ e, Error.Common e → Q (.error e))

include hQ

theorem fails_compilePage (s : Selection) (space : String) :
    Compile.Fails Q (s.compilePage space) := by
  have hbound (keyword hint : String) (n? : Option Nat) :
      Compile.Fails Q (compileBound space keyword hint n?) := by
    unfold compileBound
    split
    · exact .pure _
    · split
      · exact .bind_any (fails_bindParam _ _) fun _ => .pure _
      · exact .throw (hQ _ (.compile nofun))
  exact .bind_any (hbound _ _ _) fun _ => .bind_any (hbound _ _ _) fun _ => .pure _

/-- What is returned fails as the fields of the ordering do, or in a common way. -/
theorem fails_compileReturn
    (hfield : ∀ f descending, .field f descending ∈ s.ordering →
      Fails (fun e => Q (.error e)) (scope.field f .ordering))
    (space : String) (outputs : List Output) :
    Compile.Fails Q (s.compileReturn scope space outputs) := by
  have hsite : UseSite.aggregatedOrdering ≠ .filters := nofun
  have horder (names : List String) (grouped : Bool) : ∀ term ∈ s.ordering,
      Fails (fun e => Q (.error e)) (compileOrder scope names grouped term) := by
    intro term hterm
    cases term with
    | random => exact .ok _
    | field f descending =>
      refine .bind (hfield f descending hterm) fun (lhs, _) _ => ?_
      dsimp only
      split
      · exact .error (hQ _ (.unbound _ hsite))
      · exact .ok _
  unfold compileReturn
  dsimp only
  split
  · exact .throw (hQ _ (.repeated _))
  · split
    · exact .throw (hQ _ (.compile nofun))
    · refine .liftError_bind (.mapM (horder _ _)) fun order _ => ?_
      exact .bind_any (fails_compilePage hQ s space) fun page => .pure _

theorem fails_compileEnding
    (hfield : ∀ f descending, .field f descending ∈ s.ordering →
      Fails (fun e => Q (.error e)) (scope.field f .ordering))
    (space : String) (taken : List String) (ending : Ending) :
    Compile.Fails Q (s.compileEnding scope space taken ending) := by
  cases ending with
  | count =>
    show Compile.Fails _ (s.compileCount scope space)
    unfold compileCount
    split
    · exact .throw (hQ _ (.compile nofun))
    · exact .bind_any (fails_compilePage hQ s space) fun _ => .pure _
  | result =>
    refine .liftError_bind (.bind (.mapM fun a _ => fails_annotated hQ scope a) fun _ _ => .ok _)
      fun outputs _ => ?_
    exact .bind_any (fails_compileReturn hQ hfield space outputs) fun _ => .pure _
  | handOut names =>
    refine .liftError_bind (.mapM fun name _ => fails_handedOut hQ s scope name) fun outputs _ => ?_
    exact .bind_any (fails_compileReturn hQ hfield space outputs) fun _ => .pure _

/-- What stands before the subqueries fails as the scope and the fields of filters do, or in a
common way. -/
theorem fails_compileFront {imports : List String} (hscope : Fails Q (s.scope r imports))
    (hfield : ∀ scope, s.scope r imports = .ok scope →
      ∀ c ∈ s.conditions, Fails (fun e => Q (.error e)) (scope.field c.field .filters))
    (space : String) :
    Compile.Fails Q (s.compileFront r space imports) := by
  refine .lift_bind hscope fun scope hscope => ?_
  refine .bind_any (fails_compileMatch hQ (hfield scope hscope) space) fun matched => ?_
  exact .liftError_bind (fails_compileTransforms hQ scope s.transforms) fun _ _ => .pure _

end

/-- The front of a plan leaves a scope of its own selection. -/
theorem selection_compileFront (hs : s.Checked r) {space : String} {imports : List String}
    {front : List Cypher.Clause} {b b' : Binder}
    (h : s.compileFront r space imports b = .ok ((front, scope), b')) : scope.selection = s := by
  obtain ⟨scope₁, _, _, hscope, _, hstages, _⟩ := compileFront_eq_ok h
  obtain ⟨hidden, hhidden, _⟩ := hs.filterPaths
  exact (selection_compileTransforms hstages).trans (binds_scope hhidden hscope).2

end Selection

/-! ## Plans -/

theorem fails_checkImports (hP : ∀ e, Error.Common e → P e) (scope : Scope)
    (imports : List String) : Fails P (checkImports scope imports) := by
  unfold checkImports
  split
  · exact .error (hP _ (.compile nofun))
  · exact .ok _

theorem fails_takeReturns (hP : ∀ e, Error.Common e → P e) (scope : Scope)
    (names : List String) : Fails P (takeReturns scope names) := by
  induction names generalizing scope with
  | nil => exact .ok scope
  | cons name rest ih =>
    unfold takeReturns
    split
    · exact .error (hP _ (.repeated _))
    · exact ih _

theorem selection_takeReturns {scope scope' : Scope} {names : List String}
    (h : takeReturns scope names = .ok scope') : scope'.selection = scope.selection := by
  induction names generalizing scope with
  | nil =>
    cases h
    rfl
  | cons name rest ih =>
    unfold takeReturns at h
    split at h
    · cases h
    · exact (ih h :)

theorem selection_compileSubqueries {r : Registry} {space : String} {number : Nat}
    {scope scope' : Scope} {qs : List (Subquery QueryPlan)} {calls : List Cypher.Clause}
    {b b' : Binder}
    (h : compileSubqueries r space number scope qs b = .ok ((calls, scope'), b')) :
    scope'.selection = scope.selection := by
  induction qs generalizing number scope calls b with
  | nil =>
    obtain ⟨_, rfl, _⟩ := compileSubqueries_nil_eq_ok h
    rfl
  | cons q rest ih =>
    obtain ⟨_, _, _, scope₁, _, _, _, htake, hrest, _⟩ := compileSubqueries_cons_eq_ok h
    exact (ih hrest).trans (selection_takeReturns htake)

namespace QueryPlan

variable {r : Registry} {p : QueryPlan}

theorem fails_compileSubqueries (hQ : ∀ e, Error.Common e → Q (.error e)) {space : String}
    {qs : List (Subquery QueryPlan)}
    (h : ∀ q ∈ qs, ∀ space imports ending,
      Compile.Fails Q (compilePlan r space imports ending q.plan))
    (number : Nat) (scope : Scope) :
    Compile.Fails Q (compileSubqueries r space number scope qs) := by
  induction qs generalizing number scope with
  | nil =>
    unfold compileSubqueries
    exact .pure _
  | cons q rest ih =>
    obtain ⟨plan, returns, imports⟩ := q
    unfold compileSubqueries
    refine .liftError_bind (fails_checkImports hQ scope imports) fun _ _ => ?_
    refine .bind_any (h _ List.mem_cons_self _ _ _) ?_
    rintro ⟨body, _⟩
    refine .liftError_bind (fails_takeReturns hQ scope returns) fun scope₁ _ => ?_
    exact .bind_any (ih (fun q hq => h q (List.mem_cons_of_mem _ hq)) (number + 1) scope₁)
      fun _ => .pure _

/-- A plan fails as its paths and its subqueries do, or in a plain way. -/
theorem fails_compilePlan_of (hQ : ∀ e, e.Plain → Q (.error e)) {s : Selection}
    {qs : List (Subquery QueryPlan)} {imports : List String} (hscope : Fails Q (s.scope r imports))
    (hinner : ∀ q ∈ qs, ∀ space imports ending,
      Compile.Fails Q (compilePlan r space imports ending q.plan))
    (space : String) (ending : Ending) :
    Compile.Fails Q (compilePlan r space imports ending (.mk s qs)) := by
  have hcommon : ∀ e, Error.Common e → Q (.error e) := fun _ he => hQ _ he.plain
  unfold compilePlan
  refine .bind_any (Selection.fails_compileFront hcommon hscope
    (fun scope _ c _ => scope.fails_field_of hQ c.field .filters) space) fun front => ?_
  refine .bind_any (fails_compileSubqueries hcommon hinner 1 front.2) fun calls => ?_
  exact .bind_any (Selection.fails_compileEnding hcommon
    (fun f _ _ => calls.2.fails_field_of hQ f .ordering) space _ ending) fun _ => .pure _

/-- A plan fails as the plans that it is made of may. -/
theorem fails_compilePlan
    (h : ∀ q, p.Contains q → q.selection.Checked r ∧
      ∀ c ∈ q.selection.conditions, q.selection.Strays c → strays c.field.text)
    (space : String) (imports : List String) (ending : Ending) :
    Compile.Fails (Halt.LeftToCompile strays) (compilePlan r space imports ending p) := by
  induction p using QueryPlan.induction generalizing space imports ending with
  | mk s qs ih =>
    obtain ⟨hs, hstrays⟩ := h _ (.self _)
    have hinner : ∀ q ∈ qs, ∀ space imports ending, Compile.Fails (Halt.LeftToCompile strays)
        (compilePlan r space imports ending q.plan) := fun q hq =>
      ih q hq fun q' hq' => h q' (.inner hq hq')
    unfold compilePlan
    refine .bind (Selection.fails_compileFront Error.Common.leftToCompile
      (hs.fails_scope imports)
      (fun scope hscope c hc => Selection.fails_field_filters hs hstrays hscope hc) space) ?_
    rintro ⟨front, scope⟩ b b₁ hfront
    refine Compile.Fails.bind (fails_compileSubqueries Error.Common.leftToCompile hinner 1 scope) ?_
      b₁
    rintro ⟨calls, scope₁⟩ b' b₂ hcalls
    have hselection : scope₁.selection = s :=
      (selection_compileSubqueries hcalls).trans (Selection.selection_compileFront hs hfront)
    have hsite : UseSite.ordering ≠ .filters := UseSite.noConfusion
    exact Compile.Fails.bind_any (Selection.fails_compileEnding Error.Common.leftToCompile
      (fun f descending hterm => scope₁.fails_field Error.Common.leftToCompile hselection
        (hs.ordering f descending hterm) hsite) space _ ending) (fun _ => .pure _) b₂

end QueryPlan

end

/-! ## Leaves that stray -/

theorem compilePredicate_leaf {scope : Scope} {space : String} {p : Predicate} {f : Cypher.Formula}
    {b b' : Binder} (h : compilePredicate scope space p b = .ok (f, b')) {c : Condition}
    (hc : c ∈ p.conditions) : ∃ b₁ f' b₂, compileCondition scope space c b₁ = .ok (f', b₂) := by
  have hparts (parts : List Predicate)
      (ih : ∀ p ∈ parts, ∀ {f b b'}, compilePredicate scope space p b = .ok (f, b') →
        c ∈ p.conditions → ∃ b₁ f' b₂, compileCondition scope space c b₁ = .ok (f', b₂))
      {fs : List Cypher.Formula} {b b' : Binder}
      (h : compilePredicates scope space parts b = .ok (fs, b'))
      (hc : c ∈ Predicate.conditionsOf parts) :
      ∃ b₁ f' b₂, compileCondition scope space c b₁ = .ok (f', b₂) := by
    induction parts generalizing fs b with
    | nil => cases hc
    | cons q rest ihrest =>
      obtain ⟨f, b₁, fs', hf, hfs, _⟩ := compilePredicates_cons_eq_ok h
      rcases List.mem_append.1 hc with hc | hc
      · exact ih q List.mem_cons_self hf hc
      · exact ihrest (fun q' hq' => ih q' (List.mem_cons_of_mem q hq')) hfs hc
  induction p using Predicate.induction generalizing f b b' with
  | leaf c' =>
    obtain rfl := List.mem_singleton.1 hc
    rw [compilePredicate] at h
    exact ⟨b, f, b', h⟩
  | and parts ih =>
    obtain ⟨fs, hfs, _⟩ := compilePredicate_and_eq_ok h
    exact hparts parts ih hfs hc
  | or parts ih =>
    obtain ⟨fs, hfs, _⟩ := compilePredicate_or_eq_ok h
    exact hparts parts ih hfs hc
  | not q ih =>
    obtain ⟨g, hg, _⟩ := compilePredicate_not_eq_ok h
    exact ih hg hc

namespace Selection

variable {r : Registry} {s : Selection} {scope : Scope} {imports : List String}

/-- A comparison is refused for an unbound field exactly where it strays. -/
theorem compileCondition_unbound_iff (hs : s.Checked r) (hscope : s.scope r imports = .ok scope)
    {c : Condition} (hc : c ∈ s.conditions) (space : String) (b : Binder) :
    (∃ path site,
      compileCondition scope space c b = .error (.error (.unboundFieldPath path site))) ↔
      s.Strays c := by
  obtain ⟨hstrays, lhs, p, hfield⟩ | ⟨hstrays, hfield⟩ := hs.field hscope hc
  · have hbound : Compile.Fails (fun e => ∀ path site, e ≠ .error (.unboundFieldPath path site))
        (compileCondition scope space c) := by
      refine fails_compileCondition (fun _ _ _ _ => nofun) (fun _ _ _ _ => nofun) ?_
      rw [hfield]
      exact .ok _
    exact ⟨fun ⟨path, site, hrun⟩ => absurd rfl (hbound b _ hrun path site),
      fun hc => absurd hc hstrays⟩
  · refine ⟨fun _ => hstrays, fun _ => ⟨c.field.text, .filters, ?_⟩⟩
    unfold compileCondition
    rw [hfield]
    rfl

end Selection

namespace QueryPlan

variable {r : Registry} {p q : QueryPlan}

theorem compilePlan_of_mem {sub : Subquery QueryPlan} {qs : List (Subquery QueryPlan)}
    (hsub : sub ∈ qs) {space : String} {number : Nat} {scope scope' : Scope}
    {calls : List Cypher.Clause} {b b' : Binder}
    (h : compileSubqueries r space number scope qs b = .ok ((calls, scope'), b')) :
    ∃ space b b' y,
      compilePlan r space sub.imports (.handOut sub.returns) sub.plan b = .ok (y, b') := by
  induction qs generalizing number scope calls b with
  | nil => cases hsub
  | cons q rest ih =>
    obtain ⟨body, shape, b₁, scope₁, calls', _, hbody, _, hrest, _⟩ :=
      compileSubqueries_cons_eq_ok h
    rcases List.mem_cons.1 hsub with rfl | hsub
    · exact ⟨_, b, b₁, _, hbody⟩
    · exact ih hsub hrest

/-- A plan compiles only if all that it is made of is matched. -/
theorem matched_of_compilePlan (hq : p.Contains q) {space : String} {imports : List String}
    {ending : Ending} {b b' : Binder} {y : List Cypher.Clause × ResultShape}
    (h : compilePlan r space imports ending p b = .ok (y, b')) :
    ∃ imports scope space b clauses b', q.selection.scope r imports = .ok scope ∧
      q.selection.compileMatch scope space b = .ok (clauses, b') := by
  induction hq generalizing space imports ending b b' y with
  | self p =>
    obtain ⟨s, qs⟩ := p
    obtain ⟨front, scope₁, b₁, calls, scope₂, b₂, last, hfront, _⟩ := compilePlan_eq_ok h
    obtain ⟨scope, matched, _, hscope, hmatched, _⟩ := Selection.compileFront_eq_ok hfront
    exact ⟨imports, scope, space, b, matched, b₁, hscope, hmatched⟩
  | @inner p q sub hsub _ ih =>
    obtain ⟨s, qs⟩ := p
    obtain ⟨front, scope₁, b₁, calls, scope₂, b₂, last, _, hcalls, _⟩ := compilePlan_eq_ok h
    obtain ⟨_, _, _, _, hrun⟩ := compilePlan_of_mem hsub hcalls
    exact ih hrun

/-- Where a comparison strays, in any plan that the plan is made of, the plan does not compile. -/
theorem compile_ne_ok_of_strays (hq : p.Contains q) (hs : q.selection.Checked r) {c : Condition}
    (hc : c ∈ q.selection.conditions) (hstrays : q.selection.Strays c) (compiled : CompiledQuery) :
    p.compile r ≠ .ok compiled := by
  intro hcompiled
  obtain ⟨binder, hrun, _⟩ := compileTo_eq_ok hcompiled
  obtain ⟨imports, scope, space, b, clauses, b', hscope, hmatched⟩ :=
    matched_of_compilePlan hq hrun
  obtain ⟨hnone, _⟩ | ⟨pred, f, hpred, hf, _⟩ := Selection.compileMatch_eq_ok hmatched
  · rw [Selection.conditions, hnone] at hc
    cases hc
  · have hmem : c ∈ pred.conditions := by
      rw [Selection.conditions, hpred] at hc
      exact hc
    obtain ⟨b₁, f', b₂, hcondition⟩ := compilePredicate_leaf hf hmem
    obtain ⟨path, site, hunbound⟩ :=
      (Selection.compileCondition_unbound_iff hs hscope hc space b₁).2 hstrays
    rw [hunbound] at hcondition
    cases hcondition

/-- What a plan over one registry was checked for when it was written holds when it is compiled.

* No relationship, property or type is unknown.
* A comparison is refused for an unbound field exactly where it strays, in any plan that the plan
  is made of.
* So a filter's field is unbound only where some comparison strays, and where one does the plan
  does not compile. -/
theorem compile_resolves (h : p.WrittenOver r) :
    (∀ e, p.compile r = .error (.error e) → e.kind ≠ "UnknownRelation" ∧
      e.kind ≠ "UnknownProperty" ∧ e.kind ≠ "UnknownTypeName") ∧
    (∀ q, p.Contains q → ∀ imports scope, q.selection.scope r imports = .ok scope →
      ∀ c ∈ q.selection.conditions, ∀ space b,
        (∃ path site,
          compileCondition scope space c b = .error (.error (.unboundFieldPath path site))) ↔
          q.selection.Strays c) ∧
    (∀ path, p.compile r = .error (.error (.unboundFieldPath path .filters)) →
      ∃ q, p.Contains q ∧ ∃ c ∈ q.selection.conditions, q.selection.Strays c ∧
        c.field.text = path) ∧
    ∀ q, p.Contains q → ∀ c ∈ q.selection.conditions, q.selection.Strays c →
      ∀ compiled, p.compile r ≠ .ok compiled := by
  have hfails : Fails (Halt.LeftToCompile fun path => ∃ q, p.Contains q ∧
      ∃ c ∈ q.selection.conditions, q.selection.Strays c ∧ c.field.text = path) (p.compile r) := by
    refine .bind (fails_compilePlan (fun q hq => ⟨h.checked hq, fun c hc hstrays => ?_⟩) "" []
      .result .empty) fun _ _ => .ok _
    exact ⟨q, hq, c, hc, hstrays, rfl⟩
  refine ⟨fun e he => ?_, fun q hq imports scope hscope c hc space b => ?_,
    fun path hpath => hfails _ hpath,
    fun q hq c hc hstrays => compile_ne_ok_of_strays hq (h.checked hq) hc hstrays⟩
  · have hleft := hfails (.error e) he
    cases e with
    | unknownRelation | unknownProperty | unknownTypeName => exact hleft.elim
    | _ => simp [Error.kind]
  · exact Selection.compileCondition_unbound_iff (h.checked hq) hscope hc space b

end QueryPlan

namespace Sample

/-- People keep pets. -/
def keeper : NodeType :=
  (NodeType.new "Person").withRelationship
    ⟨"pets", ["Pet"], "OWNS", .outgoing, .zeroOrMore, .soft, some "Ownership"⟩

/-- People, pets, and ownerships with a date. -/
def owned : Registry :=
  let types := [keeper, (NodeType.new "Pet").withProperty name]
  let ownership := (RelationshipType.new "Ownership" "OWNS").withProperty { name with name := "since" }
  ⟨types.map fun t => (t.labels, t), types.map fun t => (t.name, t.labels),
    [("OWNS", ownership)], [("Ownership", ownership)]⟩

/-- The people with pets since a date, without a traversal to the pets. -/
def dated (date : String) : QueryPlan :=
  .mk { (QueryPlan.forType keeper).selection with
    predicate? := some (.leaf ⟨⟨["pets"], "since", true⟩, .exact, .string date⟩) } []

end Sample

theorem QueryPlan.compile_resolves_dated :
    (Sample.dated "2020").WrittenOver Sample.owned ∧
      (Sample.dated "2020").compile Sample.owned =
        .error (.error (.unboundFieldPath "pets|since" .filters)) ∧
      ∃ q, (Sample.dated "2020").Contains q ∧ ∃ c ∈ q.selection.conditions,
        q.selection.Strays c ∧ c.field.text = "pets|since" := by
  have hlookup : Predicate.lookup "pets|since".toList (.string "2020") =
      .ok (.leaf ⟨⟨["pets"], "since", true⟩, .exact, .string "2020"⟩) := rfl
  have hwritten : (Sample.dated "2020").WrittenOver Sample.owned :=
    .call (.start Sample.keeper) (c := .filter _) (Predicate.parsed_of_lookup hlookup) nofun rfl
  have hcompile : (Sample.dated "2020").compile Sample.owned =
      .error (.error (.unboundFieldPath "pets|since" .filters)) := rfl
  exact ⟨hwritten, hcompile, (compile_resolves hwritten).2.2.1 _ hcompile⟩

end GraphMapper
