import GraphMapper.Compile.Query
import GraphMapper.Proofs.Predicate.Flat
import GraphMapper.Proofs.Steps

/-!
# Runs of the compiler

One lemma for each compiling function says what a successful run of it did:
which runs it is made of, in which order the binder went through them, and how
its result is put together.  Later proofs cite these lemmas and do not unfold
the functions.
-/

namespace GraphMapper

/-! ## Steps that succeed -/

section Steps

variable {ε α β : Type} {b b' : Binder}

theorem run_bind_eq_ok {m : BinderM ε α} {f : α → BinderM ε β} {y : β × Binder} :
    (m >>= f) b = .ok y ↔ ∃ a b₁, m b = .ok (a, b₁) ∧ f a b₁ = .ok y := by
  simp only [bind, StateT.bind, Except.bind]
  cases m b with
  | error e => simp
  | ok x =>
    obtain ⟨a, b₁⟩ := x
    simp

theorem run_pure_eq_ok {a y : α} : (pure a : BinderM ε α) b = .ok (y, b') ↔ a = y ∧ b = b' := by
  show Except.ok (a, b) = .ok (y, b') ↔ _
  rw [Except.ok.injEq, Prod.mk.injEq]

theorem run_lift_eq_ok {x : Except ε α} {y : α} :
    (liftM x : BinderM ε α) b = .ok (y, b') ↔ x = .ok y ∧ b = b' := by
  simp only [liftM, monadLift, MonadLift.monadLift, StateT.lift, bind, Except.bind]
  cases x <;> simp [pure, Except.pure]

/-- A step that cannot panic succeeds in the compiler as it does by itself. -/
theorem run_liftError_eq_ok {x : Except Error α} {y : α} :
    (liftM x : Compile α) b = .ok (y, b') ↔ x = .ok y ∧ b = b' := by
  have hlift : (liftM x : Compile α) = (liftM (liftM x : Except Halt α) : BinderM Halt α) := rfl
  rw [hlift, run_lift_eq_ok, lift_eq_ok]

theorem run_throw_ne_ok {e : ε} {y : α × Binder} : (throw e : BinderM ε α) b ≠ .ok y := by
  simp [throw, throwThe, MonadExceptOf.throw, StateT.lift, bind, Except.bind]

theorem run_bindParam_eq_ok {hint name : String} {v : Value} :
    (bindParam hint v : BinderM ε String) b = .ok (name, b') ↔ b.bind hint v = (name, b') := by
  simp [bindParam]

end Steps

/-! ## Filters -/

section Filters

variable {scope : Scope} {space : String} {b b' : Binder}

/-- What a comparison with a property is lowered to, by the kind of its operator. -/
inductive Condition.Lowers (c : Condition) (lhs : Cypher.PropertyRef) (p : Property) :
    Lowered → Prop where
  | isNull (hop : c.operator = .isNull) :
    Lowers c lhs p
      ⟨fun _ => if c.operand.bool?.getD true then .isNull lhs else .isNotNull lhs, none⟩
  | anyIn (hop : c.operator = .isIn) (harray : p.codec.isArray = true) {v : Value}
    (hv : p.encode c.field.text c.operand = .ok v) : Lowers c lhs p ⟨.anyIn lhs, some v⟩
  | isIn (hop : c.operator = .isIn) (harray : p.codec.isArray = false) {vs : List Value}
    (hvs : List.Forall₂ (fun v w => p.encode c.field.text v = .ok w)
      (c.operand.list?.getD []) vs) : Lowers c lhs p ⟨.isIn lhs, some (.list vs)⟩
  | likes (hop : c.operator.isPattern = true) {v : Value} {text : String}
    (hv : p.encode c.field.text c.operand = .ok v) (htext : v.string? = some text) :
    Lowers c lhs p ⟨.likes lhs, some (.string (c.operator.pattern text))⟩
  | compare (hnull : c.operator ≠ .isNull) (hin : c.operator ≠ .isIn)
    (hop : c.operator.isPattern = false) {v : Value}
    (hv : p.encode c.field.text c.operand = .ok v) :
    Lowers c lhs p ⟨.compare lhs c.operator.comparison, some v⟩

theorem Condition.lowers_of_lower {c : Condition} {lhs : Cypher.PropertyRef} {p : Property}
    {l : Lowered} (h : c.lower lhs p = .ok l) : c.Lowers lhs p l := by
  simp only [Condition.lower] at h
  split at h
  · next hop =>
    obtain rfl := pure_eq_ok.1 h
    exact .isNull hop
  · next hop =>
    by_cases harray : p.codec.isArray = true
    · rw [if_pos harray] at h
      obtain ⟨v, hv, h⟩ := bind_eq_ok.1 h
      obtain rfl := pure_eq_ok.1 h
      exact .anyIn hop harray hv
    · rw [if_neg harray] at h
      obtain ⟨vs, hvs, h⟩ := bind_eq_ok.1 h
      obtain rfl := pure_eq_ok.1 h
      exact .isIn hop (Bool.eq_false_iff.2 harray) (forall₂_of_mapM hvs)
  · next hnull hin =>
    obtain ⟨v, hv, h⟩ := bind_eq_ok.1 h
    by_cases hpattern : c.operator.isPattern = true
    · rw [if_pos hpattern] at h
      cases htext : v.string? with
      | none =>
        rw [htext] at h
        exact absurd h throw_ne_ok
      | some text =>
        rw [htext] at h
        obtain rfl := pure_eq_ok.1 h
        exact .likes hpattern hv htext
    · rw [if_neg hpattern] at h
      obtain rfl := pure_eq_ok.1 h
      exact .compare hnull hin (Bool.eq_false_iff.2 hpattern) hv

theorem compileCondition_eq_ok {c : Condition} {f : Cypher.Formula}
    (h : compileCondition scope space c b = .ok (f, b')) :
    ∃ lhs p lowered, scope.field c.field .filters = .ok (lhs, p) ∧ c.lower lhs p = .ok lowered ∧
      ((lowered.operand? = none ∧ f = .atom (lowered.atom "") ∧ b = b') ∨
        ∃ v name, lowered.operand? = some v ∧ b.bind (paramHint space lhs) v = (name, b') ∧
          f = .atom (lowered.atom name)) := by
  simp only [compileCondition] at h
  obtain ⟨⟨lhs, p⟩, b₁, hrun, h⟩ := run_bind_eq_ok.1 h
  obtain ⟨hfield, rfl⟩ := run_liftError_eq_ok.1 hrun
  obtain ⟨lowered, b₂, hrun', h⟩ := run_bind_eq_ok.1 h
  obtain ⟨hlower, rfl⟩ := run_liftError_eq_ok.1 hrun'
  refine ⟨lhs, p, lowered, hfield, hlower, ?_⟩
  cases hop : lowered.operand? with
  | none =>
    simp only [hop] at h
    obtain ⟨rfl, rfl⟩ := run_pure_eq_ok.1 h
    exact .inl ⟨rfl, rfl, rfl⟩
  | some v =>
    simp only [hop] at h
    obtain ⟨name, b₃, hbind, h⟩ := run_bind_eq_ok.1 h
    obtain ⟨rfl, rfl⟩ := run_pure_eq_ok.1 h
    exact .inr ⟨v, name, rfl, run_bindParam_eq_ok.1 hbind, rfl⟩

namespace Condition.Lowers

variable {c : Condition} {lhs : Cypher.PropertyRef} {p : Property} {l : Lowered}

theorem lhs_atom (h : c.Lowers lhs p l) (name : String) : (l.atom name).lhs = lhs := by
  cases h with
  | isNull =>
    dsimp only
    split <;> rfl
  | _ => rfl

/-- A comparison names a parameter exactly when there is a value for it. -/
theorem param?_atom (h : c.Lowers lhs p l) (name : String) :
    (l.atom name).param? = l.operand?.map fun _ => name := by
  cases h with
  | isNull =>
    dsimp only
    split <;> rfl
  | _ => rfl

end Condition.Lowers

theorem compilePredicate_and_eq_ok {parts : List Predicate} {f : Cypher.Formula}
    (h : compilePredicate scope space (.and parts) b = .ok (f, b')) :
    ∃ fs, compilePredicates scope space parts b = .ok (fs, b') ∧ f = .all fs := by
  rw [compilePredicate] at h
  obtain ⟨fs, b₁, hfs, h⟩ := run_bind_eq_ok.1 h
  obtain ⟨rfl, rfl⟩ := run_pure_eq_ok.1 h
  exact ⟨fs, hfs, rfl⟩

theorem compilePredicate_or_eq_ok {parts : List Predicate} {f : Cypher.Formula}
    (h : compilePredicate scope space (.or parts) b = .ok (f, b')) :
    ∃ fs, compilePredicates scope space parts b = .ok (fs, b') ∧ f = .any fs := by
  rw [compilePredicate] at h
  obtain ⟨fs, b₁, hfs, h⟩ := run_bind_eq_ok.1 h
  obtain ⟨rfl, rfl⟩ := run_pure_eq_ok.1 h
  exact ⟨fs, hfs, rfl⟩

theorem compilePredicate_not_eq_ok {p : Predicate} {f : Cypher.Formula}
    (h : compilePredicate scope space (.not p) b = .ok (f, b')) :
    ∃ g, compilePredicate scope space p b = .ok (g, b') ∧ f = .not g := by
  rw [compilePredicate] at h
  obtain ⟨g, b₁, hg, h⟩ := run_bind_eq_ok.1 h
  obtain ⟨rfl, rfl⟩ := run_pure_eq_ok.1 h
  exact ⟨g, hg, rfl⟩

theorem compilePredicates_nil_eq_ok {fs : List Cypher.Formula}
    (h : compilePredicates scope space [] b = .ok (fs, b')) : fs = [] ∧ b = b' := by
  rw [compilePredicates] at h
  obtain ⟨rfl, rfl⟩ := run_pure_eq_ok.1 h
  exact ⟨rfl, rfl⟩

theorem compilePredicates_cons_eq_ok {p : Predicate} {rest : List Predicate}
    {fs : List Cypher.Formula}
    (h : compilePredicates scope space (p :: rest) b = .ok (fs, b')) :
    ∃ f b₁ fs', compilePredicate scope space p b = .ok (f, b₁) ∧
      compilePredicates scope space rest b₁ = .ok (fs', b') ∧ fs = f :: fs' := by
  rw [compilePredicates] at h
  obtain ⟨f, b₁, hf, h⟩ := run_bind_eq_ok.1 h
  obtain ⟨fs', b₂, hfs, h⟩ := run_bind_eq_ok.1 h
  obtain ⟨rfl, rfl⟩ := run_pure_eq_ok.1 h
  exact ⟨f, b₁, fs', hf, hfs, rfl⟩

end Filters

/-! ## Scopes -/

namespace Scope

variable {s s' : Scope}

theorem declare_eq_ok {name : String} (h : s.declare name = .ok s') :
    name ∉ s.declared ∧ s' = { s with declared := s.declared ++ [name] } := by
  unfold declare at h
  by_cases hname : s.declared.contains name = true
  · rw [if_pos hname] at h
    cases h
  · rw [if_neg hname] at h
    cases h
    rw [List.contains_iff_mem] at hname
    exact ⟨hname, rfl⟩

theorem foldlM_declare_eq_ok {names : List String} (h : names.foldlM declare s = .ok s') :
    s' = { s with declared := s.declared ++ names } := by
  induction names generalizing s with
  | nil =>
    cases h
    rw [List.append_nil]
  | cons name rest ih =>
    rw [List.foldlM_cons] at h
    obtain ⟨s₁, hs₁, h⟩ := bind_eq_ok.1 h
    obtain ⟨_, rfl⟩ := declare_eq_ok hs₁
    rw [ih h, List.append_assoc]
    rfl

/-- At first only the imports and the root are declared. -/
theorem start_eq_ok {selection : Selection} {imports : List String}
    (h : start selection imports = .ok s) :
    ∃ declared, s = ⟨selection, selection.root.variableName,
        imports.contains selection.root.variableName, [], declared, [], none, [], []⟩ ∧
      ∀ name, name ∈ declared ↔ name = selection.root.variableName ∨ name ∈ imports := by
  simp only [start] at h
  obtain ⟨s₁, himports, h⟩ := bind_eq_ok.1 h
  obtain rfl := foldlM_declare_eq_ok himports
  by_cases hroot : imports.contains selection.root.variableName = true
  · rw [if_pos hroot] at h
    obtain rfl := pure_eq_ok.1 h
    refine ⟨imports, rfl, fun name => ⟨.inr, ?_⟩⟩
    rintro (rfl | hname)
    · exact List.contains_iff_mem.1 hroot
    · exact hname
  · rw [if_neg hroot] at h
    obtain ⟨_, rfl⟩ := declare_eq_ok h
    refine ⟨imports ++ [selection.root.variableName], rfl, fun name => ?_⟩
    rw [List.mem_append, List.mem_singleton, or_comm]

theorem nodeVar_eq_ok {step : PathStep} {var : String} (h : s.nodeVar step = .ok var) :
    step.alias? = some var ∨ step.alias? = none ∧ ∃ t ts, step.hop.targets = t :: ts ∧
      var = t.variableName ++ "_" ++ step.chain ++ "_" ++ toString (s.bindings.length + 1) := by
  unfold nodeVar at h
  split at h
  · next name _ halias =>
    cases h
    exact .inl halias
  · next t ts halias htargets =>
    cases h
    exact .inr ⟨halias, t, ts, htargets, rfl⟩
  · cases h

/-- A field is a property of the root, or else of the first binding of its hops. -/
theorem field_eq_ok {f : FieldPath} {site : UseSite} {lhs : Cypher.PropertyRef} {p : Property}
    (h : s.field f site = .ok (lhs, p)) :
    (s.selection.root.property? f.property = some p ∧ lhs = ⟨s.rootVar, p.storageName⟩) ∨
      ∃ b, s.bindingOfChain? f.chain = some b ∧
        ((∃ m, b.model? = some m ∧ m.property? f.property = some p ∧
            lhs = ⟨b.edgeVar, p.storageName⟩) ∨
          ∃ t ∈ b.targets, t.property? f.property = some p ∧ lhs = ⟨b.var, p.storageName⟩) := by
  simp only [field] at h
  split at h
  · cases h
  · split at h
    · split at h
      · next hp =>
        obtain ⟨rfl, rfl⟩ := Prod.mk.inj (Except.ok.inj h)
        exact .inl ⟨hp, rfl⟩
      · cases h
    · split at h
      · cases h
      · next b hb =>
        refine .inr ⟨b, hb, ?_⟩
        split at h
        · split at h
          · next hp =>
            obtain ⟨m, hm, hp⟩ := Option.bind_eq_some_iff.1 hp
            obtain ⟨rfl, rfl⟩ := Prod.mk.inj (Except.ok.inj h)
            exact .inl ⟨m, hm, hp, rfl⟩
          · cases h
        · split at h
          · next hp =>
            obtain ⟨t, ht, hp⟩ := List.exists_of_findSome?_eq_some hp
            obtain ⟨rfl, rfl⟩ := Prod.mk.inj (Except.ok.inj h)
            exact .inr ⟨t, ht, hp, rfl⟩
          · cases h

theorem bindingOfKey?_mem {key : String} {b : Binding} (h : s.bindingOfKey? key = some b) :
    b ∈ s.bindings := by
  unfold bindingOfKey? at h
  cases hfind : s.bindings.find? fun b => b.alias? == some key with
  | some b' =>
    rw [hfind] at h
    cases h
    exact List.mem_of_find?_eq_some hfind
  | none =>
    rw [hfind] at h
    exact List.mem_of_find?_eq_some h

/-- The binding of a new step. -/
def newBinding (step : PathStep) (hidden : Bool) (var edgeVar : String) (p : Progress) : Binding :=
  ⟨step.hops, step.alias?, step.name, var, edgeVar, step.hop.targets, step.hop.model?,
    step.optional || p.afterOptional, step.includeNode && !hidden, step.includeEdge && !hidden,
    p.at?⟩

theorem bindNew_eq_ok {p p' : Progress} {step : PathStep} {hidden : Bool}
    (h : s.bindNew p step hidden = .ok (s', p')) :
    ∃ pattern s₁ var edgeVar, s.openPattern p (step.optional || p.afterOptional) = (pattern, s₁) ∧
      s₁.nodeVar step = .ok var ∧ s₁.edgeVar step = edgeVar ∧ var ∉ s₁.declared ∧
      edgeVar ∉ s₁.declared ++ [var] ∧
      s' = { s₁ with
        declared := s₁.declared ++ [var] ++ [edgeVar]
        bindings := s₁.bindings ++ [newBinding step hidden var edgeVar p] } ∧
      p' = ⟨some s₁.bindings.length,
        some (pattern.extend (edgePattern step.hop (some edgeVar))
          ⟨some var, some (targetLabels step.hop)⟩, step.optional || p.afterOptional),
        step.optional || p.afterOptional⟩ := by
  obtain ⟨pattern, s₁, hopen⟩ : ∃ pattern s₁,
      s.openPattern p (step.optional || p.afterOptional) = (pattern, s₁) := ⟨_, _, rfl⟩
  simp only [bindNew, hopen] at h
  obtain ⟨var, hvar, h⟩ := bind_eq_ok.1 h
  obtain ⟨s₂, hs₂, h⟩ := lift_bind_eq_ok.1 h
  obtain ⟨s₃, hs₃, h⟩ := lift_bind_eq_ok.1 h
  obtain ⟨hfresh, rfl⟩ := declare_eq_ok hs₂
  obtain ⟨hfresh', rfl⟩ := declare_eq_ok hs₃
  obtain ⟨rfl, rfl⟩ := Prod.mk.inj (pure_eq_ok.1 h)
  exact ⟨pattern, s₁, var, _, hopen, hvar, rfl, hfresh, hfresh', rfl, rfl⟩

theorem bindPath_eq_ok {path : PathSpec} (h : s.bindPath path = .ok s') :
    ∃ s₁ p, path.steps.foldlM (bindStep path.hidden) (s, ⟨none, none, false⟩) = .ok (s₁, p) ∧
      s' = s₁.flush p.pattern? := by
  obtain ⟨⟨s₁, p⟩, hsteps, h⟩ := bind_eq_ok.1 h
  exact ⟨s₁, p, hsteps, (pure_eq_ok.1 h).symm⟩

end Scope

/-- What holds at first and is kept by every step holds after a fold. -/
theorem foldlM_invariant {ε σ α : Type} {f : σ → α → Except ε σ} {P : σ → Prop} {as : List α}
    {s s' : σ} (hs : P s) (hstep : ∀ a ∈ as, ∀ s s', P s → f s a = .ok s' → P s')
    (h : as.foldlM f s = .ok s') : P s' := by
  induction as generalizing s with
  | nil =>
    cases h
    exact hs
  | cons a rest ih =>
    rw [List.foldlM_cons] at h
    obtain ⟨s₁, hs₁, h⟩ := bind_eq_ok.1 h
    exact ih (hstep a List.mem_cons_self s s₁ hs hs₁)
      (fun a' ha' => hstep a' (List.mem_cons_of_mem a ha')) h

/-- A fold may take other steps that are the same wherever the fold gets. -/
theorem foldlM_congr {ε σ α : Type} {f g : σ → α → Except ε σ} {P : σ → Prop} {as : List α} {s : σ}
    (hs : P s) (hstep : ∀ a ∈ as, ∀ s s', P s → f s a = .ok s' → P s')
    (hsame : ∀ a ∈ as, ∀ s, P s → f s a = g s a) : as.foldlM f s = as.foldlM g s := by
  induction as generalizing s with
  | nil => rfl
  | cons a rest ih =>
    rw [List.foldlM_cons, List.foldlM_cons, ← hsame a List.mem_cons_self s hs]
    cases hfirst : f s a with
    | error e => rfl
    | ok s₁ =>
      exact ih (hstep a List.mem_cons_self s s₁ hs hfirst)
        (fun a' ha' => hstep a' (List.mem_cons_of_mem a ha'))
        fun a' ha' => hsame a' (List.mem_cons_of_mem a ha')

theorem Selection.scope_eq_ok {r : Registry} {s : Selection} {imports : List String}
    {scope : Scope} (h : s.scope r imports = .ok scope) :
    ∃ scope₁ hidden, Scope.start s imports = .ok scope₁ ∧ s.unknownShared? = none ∧
      s.filterPaths r = .ok hidden ∧
      (s.paths ++ hidden).foldlM Scope.bindPath scope₁ = .ok scope := by
  simp only [Selection.scope] at h
  obtain ⟨scope₁, hstart, h⟩ := lift_bind_eq_ok.1 h
  cases hshared : s.unknownShared? with
  | some name =>
    rw [hshared] at h
    exact absurd h throw_bind_ne_ok
  | none =>
    rw [hshared] at h
    obtain ⟨hidden, hhidden, h⟩ := lift_bind_eq_ok.1 h
    exact ⟨scope₁, hidden, hstart, rfl, hhidden, h⟩

/-! ## Clauses -/

namespace Selection

variable {r : Registry} {s : Selection} {scope : Scope} {space : String} {b b' : Binder}

/-- A clause that matches or filters is one of five. -/
theorem mem_matchClauses {early late : List Cypher.Formula} {c : Cypher.Clause}
    (h : c ∈ matchClauses scope early late) :
    (mandatoryPatterns scope ≠ [] ∧ c = .matching (mandatoryPatterns scope)) ∨
      (∃ p ∈ scope.optional, c = .optionalMatching p) ∨ c = .filter early ∨
      c = .lateFilter (early ++ late) ∨ c = .lateFilter late := by
  have hgroup (clause : List Cypher.Formula → Cypher.Clause) (fs : List Cypher.Formula)
      (hc : c ∈ if fs.isEmpty then [] else [clause fs]) : c = clause fs := by
    split at hc
    · cases hc
    · exact List.mem_singleton.1 hc
  have hoptional (hc : c ∈ scope.optional.map Cypher.Clause.optionalMatching) :
      ∃ p ∈ scope.optional, c = .optionalMatching p := by
    obtain ⟨p, hp, rfl⟩ := List.mem_map.1 hc
    exact ⟨p, hp, rfl⟩
  simp only [matchClauses] at h
  split at h
  · rcases List.mem_append.1 h with h | h
    · exact .inr (.inl (hoptional h))
    · exact .inr (.inr (.inr (.inl (hgroup .lateFilter _ h))))
  · next hpatterns =>
    rcases List.mem_append.1 h with h | h
    · rcases List.mem_append.1 h with h | h
      · rcases List.mem_cons.1 h with h | h
        · exact .inl ⟨fun hnil => hpatterns (List.isEmpty_iff.2 hnil), h⟩
        · exact .inr (.inr (.inl (hgroup .filter _ h)))
      · exact .inr (.inl (hoptional h))
    · exact .inr (.inr (.inr (.inr (hgroup .lateFilter _ h))))

theorem compileMatch_eq_ok {clauses : List Cypher.Clause}
    (h : s.compileMatch scope space b = .ok (clauses, b')) :
    (s.predicate? = none ∧ b = b' ∧
        clauses = matchClauses scope (s.existence.map (Existence.formula scope.rootVar)) []) ∨
      ∃ p f, s.predicate? = some p ∧ compilePredicate scope space p b = .ok (f, b') ∧
        clauses = if touchesOptional scope f then
            matchClauses scope (s.existence.map (Existence.formula scope.rootVar)) [f]
          else matchClauses scope (f :: s.existence.map (Existence.formula scope.rootVar)) [] := by
  simp only [compileMatch] at h
  cases hp : s.predicate? with
  | none =>
    simp only [hp] at h
    obtain ⟨rfl, rfl⟩ := run_pure_eq_ok.1 h
    exact .inl ⟨rfl, rfl, rfl⟩
  | some p =>
    simp only [hp] at h
    obtain ⟨f, b₁, hf, h⟩ := run_bind_eq_ok.1 h
    obtain ⟨rfl, rfl⟩ := run_pure_eq_ok.1 h
    exact .inr ⟨p, f, rfl, hf, rfl⟩

theorem exists_matchClauses {clauses : List Cypher.Clause}
    (h : s.compileMatch scope space b = .ok (clauses, b')) :
    ∃ early late, clauses = matchClauses scope early late := by
  obtain ⟨_, _, rfl⟩ | ⟨_, f, _, _, rfl⟩ := compileMatch_eq_ok h
  · exact ⟨_, _, rfl⟩
  · cases touchesOptional scope f with
    | true => exact ⟨_, _, rfl⟩
    | false => exact ⟨_, _, rfl⟩

theorem stageItems_nil_eq_ok {names : List String} {items : List (Cypher.Reference × String)}
    (h : stageItems scope [] names = .ok items) : items = [] := by
  cases h
  rfl

theorem stageItems_cons_eq_ok {v : TransformVar} {rest : List TransformVar} {names : List String}
    {items : List (Cypher.Reference × String)}
    (h : stageItems scope (v :: rest) names = .ok items) :
    ∃ source items', scope.reference .transforms v.source = .ok source ∧
      stageItems scope rest (names ++ [v.name]) = .ok items' ∧
      items = (source, v.name) :: items' := by
  rw [stageItems] at h
  by_cases hname : names.contains v.name = true
  · rw [if_pos hname] at h
    exact absurd h throw_bind_ne_ok
  · rw [if_neg hname] at h
    obtain ⟨source, hsource, h⟩ := bind_eq_ok.1 h
    obtain ⟨items', hitems, h⟩ := bind_eq_ok.1 h
    obtain rfl := pure_eq_ok.1 h
    exact ⟨source, items', hsource, hitems, rfl⟩

theorem compileTransform_eq_ok {scope' : Scope} {t : Transform} {clause : Cypher.Clause}
    (h : compileTransform scope t = .ok (clause, scope')) :
    ∃ items order, stageItems scope t.vars [] = .ok items ∧
      scope' = { scope with transformed? := some (t.vars.map TransformVar.name) } ∧
      List.Forall₂ (fun o term => ∃ target, scope'.reference .transformOrdering o.target =
        .ok target ∧ term = (target, o.descending)) t.ordering order ∧
      clause = .stage t.distinct items order := by
  simp only [compileTransform] at h
  obtain ⟨items, hitems, h⟩ := bind_eq_ok.1 h
  obtain ⟨order, horder, h⟩ := bind_eq_ok.1 h
  obtain ⟨rfl, rfl⟩ := Prod.mk.inj (pure_eq_ok.1 h)
  refine ⟨items, order, hitems, rfl, ?_, rfl⟩
  refine (forall₂_of_mapM horder).imp fun o term hterm => ?_
  obtain ⟨target, htarget, hterm⟩ := bind_eq_ok.1 hterm
  exact ⟨target, htarget, (pure_eq_ok.1 hterm).symm⟩

theorem compileTransforms_nil_eq_ok {scope' : Scope} {clauses : List Cypher.Clause}
    (h : compileTransforms scope [] = .ok (clauses, scope')) : clauses = [] ∧ scope = scope' := by
  cases h
  exact ⟨rfl, rfl⟩

theorem compileTransforms_cons_eq_ok {scope' : Scope} {t : Transform} {rest : List Transform}
    {clauses : List Cypher.Clause}
    (h : compileTransforms scope (t :: rest) = .ok (clauses, scope')) :
    ∃ clause scope₁ clauses', compileTransform scope t = .ok (clause, scope₁) ∧
      compileTransforms scope₁ rest = .ok (clauses', scope') ∧ clauses = clause :: clauses' := by
  simp only [compileTransforms] at h
  obtain ⟨⟨clause, scope₁⟩, hclause, h⟩ := bind_eq_ok.1 h
  obtain ⟨⟨clauses', scope₂⟩, hclauses, h⟩ := bind_eq_ok.1 h
  obtain ⟨rfl, rfl⟩ := Prod.mk.inj (pure_eq_ok.1 h)
  exact ⟨clause, scope₁, clauses', hclause, hclauses, rfl⟩

/-- Transforms write stages only. -/
theorem stage_of_mem_compileTransforms {scope' : Scope} {ts : List Transform}
    {stages : List Cypher.Clause} (h : compileTransforms scope ts = .ok (stages, scope')) :
    ∀ c ∈ stages, ∃ distinct items order, c = .stage distinct items order := by
  induction ts generalizing scope stages with
  | nil =>
    obtain ⟨rfl, _⟩ := compileTransforms_nil_eq_ok h
    intro c hc
    cases hc
  | cons t rest ih =>
    obtain ⟨_, scope₁, stages', hclause, hstages, rfl⟩ := compileTransforms_cons_eq_ok h
    obtain ⟨items, order, _, _, _, rfl⟩ := compileTransform_eq_ok hclause
    intro c hc
    rcases List.mem_cons.1 hc with rfl | hc
    · exact ⟨_, _, _, rfl⟩
    · exact ih hstages c hc

theorem compileBound_none_eq_ok {keyword hint : String} {name? : Option String}
    (h : compileBound space keyword hint none b = .ok (name?, b')) : name? = none ∧ b = b' := by
  obtain ⟨rfl, rfl⟩ := run_pure_eq_ok.1 h
  exact ⟨rfl, rfl⟩

theorem compileBound_some_eq_ok {keyword hint : String} {n : Nat} {name? : Option String}
    (h : compileBound space keyword hint (some n) b = .ok (name?, b')) :
    ∃ i name, int64? n = some i ∧ b.bind (space ++ hint) (.int i) = (name, b') ∧
      name? = some name := by
  simp only [compileBound] at h
  cases hi : int64? n with
  | none =>
    simp only [hi] at h
    exact absurd h run_throw_ne_ok
  | some i =>
    simp only [hi] at h
    obtain ⟨name, b₁, hbind, h⟩ := run_bind_eq_ok.1 h
    obtain ⟨rfl, rfl⟩ := run_pure_eq_ok.1 h
    exact ⟨i, name, rfl, run_bindParam_eq_ok.1 hbind, rfl⟩

theorem compilePage_eq_ok {page : Cypher.Page} (h : s.compilePage space b = .ok (page, b')) :
    ∃ b₁, compileBound space "SKIP" "skip" s.pagination.skip? b = .ok (page.skip?, b₁) ∧
      compileBound space "LIMIT" "limit" s.pagination.limit? b₁ = .ok (page.limit?, b') := by
  simp only [compilePage] at h
  obtain ⟨skip?, b₁, hskip, h⟩ := run_bind_eq_ok.1 h
  obtain ⟨limit?, b₂, hlimit, h⟩ := run_bind_eq_ok.1 h
  obtain ⟨rfl, rfl⟩ := run_pure_eq_ok.1 h
  exact ⟨b₁, hskip, hlimit⟩

theorem annotated_eq_ok {a : Annotation} {o : Output} (h : annotated scope a = .ok o) :
    ∃ e, scope.expr a.expr = .ok e ∧ o = (.computed e a.name, .projection) := by
  obtain ⟨e, he, h⟩ := bind_eq_ok.1 h
  exact ⟨e, he, (pure_eq_ok.1 h).symm⟩

/-- A term of the final ordering sorts by a field, whose variable is returned if rows are grouped. -/
theorem compileOrder_eq_ok {names : List String} {grouped : Bool} {term : OrderTerm}
    {term' : Cypher.SortTerm} (h : compileOrder scope names grouped term = .ok term') :
    term = .random ∧ term' = .random ∨ ∃ f descending lhs p, term = .field f descending ∧
      scope.field f .ordering = .ok (lhs, p) ∧ (grouped = true → lhs.var ∈ names) ∧
      term' = .property lhs descending := by
  cases term with
  | random =>
    cases h
    exact .inl ⟨rfl, rfl⟩
  | field f descending =>
    obtain ⟨⟨lhs, p⟩, hfield, h⟩ := bind_eq_ok.1 h
    obtain ⟨hallowed, h⟩ := check_eq_ok.1 h
    obtain rfl := pure_eq_ok.1 h
    refine .inr ⟨f, descending, lhs, p, rfl, hfield, fun hgrouped => ?_, rfl⟩
    rw [hgrouped, Bool.true_and, Bool.not_eq_true', Bool.not_eq_false,
      List.contains_iff_mem] at hallowed
    exact hallowed

theorem compileReturn_eq_ok {outputs : List Output} {clauses : List Cypher.Clause}
    (h : s.compileReturn scope space outputs b = .ok (clauses, b')) :
    firstRepeated? [] (outputs.map fun o => o.1.name) = none ∧ outputs.isEmpty = false ∧
      ∃ order page,
        s.ordering.mapM (compileOrder scope (outputs.map fun o => o.1.name)
          (s.annotations.any fun a => a.expr.isAggregate)) = .ok order ∧
        s.compilePage space b = .ok (page, b') ∧
        clauses = .returning (outputs.map Prod.fst) ::
          (if order.isEmpty then [] else [.ordering order]) ++
          (if page.isEmpty then [] else [.paging page]) := by
  simp only [compileReturn] at h
  cases hrep : firstRepeated? [] (outputs.map fun o => o.1.name) with
  | some name =>
    simp only [hrep] at h
    obtain ⟨_, _, hthrow, _⟩ := run_bind_eq_ok.1 h
    exact absurd hthrow run_throw_ne_ok
  | none =>
    simp only [hrep] at h
    cases hempty : outputs.isEmpty with
    | true =>
      simp only [hempty, if_true] at h
      obtain ⟨_, _, hthrow, _⟩ := run_bind_eq_ok.1 h
      exact absurd hthrow run_throw_ne_ok
    | false =>
      simp only [hempty, Bool.false_eq_true, if_false] at h
      obtain ⟨order, b₁, hrun, h⟩ := run_bind_eq_ok.1 h
      obtain ⟨horder, rfl⟩ := run_liftError_eq_ok.1 hrun
      obtain ⟨page, b₂, hpage, h⟩ := run_bind_eq_ok.1 h
      obtain ⟨rfl, rfl⟩ := run_pure_eq_ok.1 h
      exact ⟨rfl, rfl, order, page, horder, hpage, rfl⟩

theorem compileCount_eq_ok {clauses : List Cypher.Clause} {shape : ResultShape}
    (h : s.compileCount scope space b = .ok ((clauses, shape), b')) :
    scope.transformed? = none ∧ ∃ page, s.compilePage space b = .ok (page, b') ∧
      clauses = [.keep scope.rootVar page,
        .returning [.computed (.apply (.count false) (.ref ⟨scope.rootVar, []⟩)) "count"]] ∧
      shape = ⟨none, s.mode?, [⟨"count", .projection⟩]⟩ := by
  simp only [compileCount] at h
  cases htr : scope.transformed? with
  | some names =>
    simp only [htr, Option.isSome_some, if_true] at h
    obtain ⟨_, _, hthrow, _⟩ := run_bind_eq_ok.1 h
    exact absurd hthrow run_throw_ne_ok
  | none =>
    simp only [htr, Option.isSome_none, Bool.false_eq_true, if_false] at h
    obtain ⟨page, b₁, hpage, h⟩ := run_bind_eq_ok.1 h
    obtain ⟨heq, rfl⟩ := run_pure_eq_ok.1 h
    obtain ⟨rfl, rfl⟩ := Prod.mk.inj heq
    exact ⟨rfl, page, hpage, rfl, rfl⟩

theorem compileEnding_result_eq_ok {taken : List String} {clauses : List Cypher.Clause}
    {shape : ResultShape}
    (h : s.compileEnding scope space taken .result b = .ok ((clauses, shape), b')) :
    ∃ outputs, s.planOutputs scope taken = .ok outputs ∧
      s.compileReturn scope space outputs b = .ok (clauses, b') ∧
      shape = s.shapeOf scope true outputs := by
  simp only [compileEnding] at h
  obtain ⟨outputs, b₁, hrun, h⟩ := run_bind_eq_ok.1 h
  obtain ⟨houtputs, rfl⟩ := run_liftError_eq_ok.1 hrun
  obtain ⟨clauses', b₂, hclauses, h⟩ := run_bind_eq_ok.1 h
  obtain ⟨heq, rfl⟩ := run_pure_eq_ok.1 h
  obtain ⟨rfl, rfl⟩ := Prod.mk.inj heq
  exact ⟨outputs, houtputs, hclauses, rfl⟩

theorem compileEnding_handOut_eq_ok {taken names : List String} {clauses : List Cypher.Clause}
    {shape : ResultShape}
    (h : s.compileEnding scope space taken (.handOut names) b = .ok ((clauses, shape), b')) :
    ∃ outputs, names.mapM (s.handedOut scope) = .ok outputs ∧
      s.compileReturn scope space outputs b = .ok (clauses, b') ∧
      shape = s.shapeOf scope false outputs := by
  simp only [compileEnding] at h
  obtain ⟨outputs, b₁, hrun, h⟩ := run_bind_eq_ok.1 h
  obtain ⟨houtputs, rfl⟩ := run_liftError_eq_ok.1 hrun
  obtain ⟨clauses', b₂, hclauses, h⟩ := run_bind_eq_ok.1 h
  obtain ⟨heq, rfl⟩ := run_pure_eq_ok.1 h
  obtain ⟨rfl, rfl⟩ := Prod.mk.inj heq
  exact ⟨outputs, houtputs, hclauses, rfl⟩

theorem compileFront_eq_ok {imports : List String} {front : List Cypher.Clause}
    {scope' : Scope} (h : s.compileFront r space imports b = .ok ((front, scope'), b')) :
    ∃ scope matched stages, s.scope r imports = .ok scope ∧
      s.compileMatch scope space b = .ok (matched, b') ∧
      compileTransforms scope s.transforms = .ok (stages, scope') ∧
      front = matched ++ stages := by
  simp only [compileFront] at h
  obtain ⟨scope, b₁, hrun, h⟩ := run_bind_eq_ok.1 h
  obtain ⟨hscope, rfl⟩ := run_lift_eq_ok.1 hrun
  obtain ⟨matched, b₂, hmatched, h⟩ := run_bind_eq_ok.1 h
  obtain ⟨⟨stages, scope''⟩, b₃, hrun', h⟩ := run_bind_eq_ok.1 h
  obtain ⟨hstages, rfl⟩ := run_liftError_eq_ok.1 hrun'
  obtain ⟨heq, rfl⟩ := run_pure_eq_ok.1 h
  obtain ⟨rfl, rfl⟩ := Prod.mk.inj heq
  exact ⟨scope, matched, stages, hscope, hmatched, hstages, rfl⟩

end Selection

/-! ## Plans -/

section Plans

variable {r : Registry} {s : Selection} {scope scope' : Scope} {space : String} {b b' : Binder}

theorem compilePlan_eq_ok {imports : List String} {ending : Ending}
    {qs : List (Subquery QueryPlan)} {clauses : List Cypher.Clause} {shape : ResultShape}
    (h : compilePlan r space imports ending (.mk s qs) b = .ok ((clauses, shape), b')) :
    ∃ front scope b₁ calls scope' b₂ last,
      s.compileFront r space imports b = .ok ((front, scope), b₁) ∧
      compileSubqueries r space 1 scope qs b₁ = .ok ((calls, scope'), b₂) ∧
      s.compileEnding scope' space (qs.flatMap Subquery.returns) ending b₂ =
        .ok ((last, shape), b') ∧
      clauses = front ++ calls ++ last := by
  rw [compilePlan] at h
  obtain ⟨⟨front, scope⟩, b₁, hfront, h⟩ := run_bind_eq_ok.1 h
  obtain ⟨⟨calls, scope'⟩, b₂, hcalls, h⟩ := run_bind_eq_ok.1 h
  obtain ⟨⟨last, shape'⟩, b₃, hlast, h⟩ := run_bind_eq_ok.1 h
  obtain ⟨heq, rfl⟩ := run_pure_eq_ok.1 h
  obtain ⟨rfl, rfl⟩ := Prod.mk.inj heq
  exact ⟨front, scope, b₁, calls, scope', b₂, last, hfront, hcalls, hlast, rfl⟩

theorem compileSubqueries_nil_eq_ok {number : Nat} {calls : List Cypher.Clause}
    (h : compileSubqueries r space number scope [] b = .ok ((calls, scope'), b')) :
    calls = [] ∧ scope = scope' ∧ b = b' := by
  rw [compileSubqueries] at h
  obtain ⟨heq, rfl⟩ := run_pure_eq_ok.1 h
  obtain ⟨rfl, rfl⟩ := Prod.mk.inj heq
  exact ⟨rfl, rfl, rfl⟩

theorem compileSubqueries_cons_eq_ok {number : Nat} {q : Subquery QueryPlan}
    {rest : List (Subquery QueryPlan)} {calls : List Cypher.Clause}
    (h : compileSubqueries r space number scope (q :: rest) b = .ok ((calls, scope'), b')) :
    ∃ body shape b₁ scope₁ calls',
      checkImports scope q.imports = .ok () ∧
      compilePlan r (subspace space number) q.imports (.handOut q.returns) q.plan b =
        .ok ((body, shape), b₁) ∧
      takeReturns scope q.returns = .ok scope₁ ∧
      compileSubqueries r space (number + 1) scope₁ rest b₁ = .ok ((calls', scope'), b') ∧
      calls = .call q.imports body :: calls' := by
  obtain ⟨plan, returns, imports⟩ := q
  rw [compileSubqueries] at h
  obtain ⟨_, b₁, hrun, h⟩ := run_bind_eq_ok.1 h
  obtain ⟨himports, rfl⟩ := run_liftError_eq_ok.1 hrun
  obtain ⟨⟨body, shape⟩, b₂, hbody, h⟩ := run_bind_eq_ok.1 h
  obtain ⟨scope₁, b₃, hrun', h⟩ := run_bind_eq_ok.1 h
  obtain ⟨htake, rfl⟩ := run_liftError_eq_ok.1 hrun'
  obtain ⟨⟨calls', scope''⟩, b₄, hcalls, h⟩ := run_bind_eq_ok.1 h
  obtain ⟨heq, rfl⟩ := run_pure_eq_ok.1 h
  obtain ⟨rfl, rfl⟩ := Prod.mk.inj heq
  exact ⟨body, shape, b₂, scope₁, calls', himports, hbody, htake, hcalls, rfl⟩

theorem compileSubqueries_append_eq_ok {number : Nat} {qs qs' : List (Subquery QueryPlan)}
    {calls : List Cypher.Clause}
    (h : compileSubqueries r space number scope (qs ++ qs') b = .ok ((calls, scope'), b')) :
    ∃ calls₁ scope₁ b₁ calls₂,
      compileSubqueries r space number scope qs b = .ok ((calls₁, scope₁), b₁) ∧
      compileSubqueries r space (number + qs.length) scope₁ qs' b₁ =
        .ok ((calls₂, scope'), b') ∧
      calls = calls₁ ++ calls₂ := by
  induction qs generalizing number scope calls b with
  | nil =>
    refine ⟨[], scope, b, calls, ?_, h, rfl⟩
    rw [compileSubqueries]
    rfl
  | cons q rest ih =>
    obtain ⟨body, shape, b₁, scope₁, calls', himports, hbody, htake, hrest, rfl⟩ :=
      compileSubqueries_cons_eq_ok h
    obtain ⟨calls₁, scope₂, b₂, calls₂, hcalls₁, hcalls₂, rfl⟩ := ih hrest
    rw [Nat.add_right_comm, Nat.add_assoc] at hcalls₂
    refine ⟨.call q.imports body :: calls₁, scope₂, b₂, calls₂, ?_, hcalls₂, rfl⟩
    obtain ⟨plan, returns, imports⟩ := q
    rw [compileSubqueries]
    exact run_bind_eq_ok.2 ⟨_, _, run_liftError_eq_ok.2 ⟨himports, rfl⟩,
      run_bind_eq_ok.2 ⟨_, _, hbody, run_bind_eq_ok.2 ⟨_, _, run_liftError_eq_ok.2 ⟨htake, rfl⟩,
        run_bind_eq_ok.2 ⟨_, _, hcalls₁, rfl⟩⟩⟩⟩

theorem compileTo_eq_ok {p : QueryPlan} {ending : Ending} {c : CompiledQuery}
    (h : p.compileTo r ending = .ok c) :
    ∃ binder, compilePlan r "" [] ending p .empty = .ok ((c.query, c.shape), binder) ∧
      c.params = binder.params := by
  simp only [QueryPlan.compileTo, StateT.run] at h
  obtain ⟨⟨⟨query, shape⟩, binder⟩, hrun, h⟩ := bind_eq_ok.1 h
  obtain rfl := pure_eq_ok.1 h
  exact ⟨binder, hrun, rfl⟩

end Plans

/-! ## Matching clauses -/

/-- Whether a clause matches patterns or filters what is matched. -/
def Cypher.Clause.narrows : Cypher.Clause → Bool
  | .matching _ | .optionalMatching _ | .filter _ | .lateFilter _ => true
  | _ => false

section Narrowing

variable {r : Registry} {space : String} {b b' : Binder}

theorem narrows_compileTransforms {scope scope' : Scope} {ts : List Transform}
    {stages : List Cypher.Clause}
    (h : Selection.compileTransforms scope ts = .ok (stages, scope')) :
    ∀ c ∈ stages, c.narrows = false := by
  intro c hc
  obtain ⟨_, _, _, rfl⟩ := Selection.stage_of_mem_compileTransforms h c hc
  rfl

theorem narrows_compileReturn {s : Selection} {scope : Scope} {outputs : List Selection.Output}
    {last : List Cypher.Clause} (h : s.compileReturn scope space outputs b = .ok (last, b')) :
    ∀ c ∈ last, c.narrows = false := by
  obtain ⟨_, _, order, page, _, _, rfl⟩ := Selection.compileReturn_eq_ok h
  intro c hc
  rcases List.mem_append.1 hc with hc | hc
  · rcases List.mem_cons.1 hc with rfl | hc
    · rfl
    · split at hc
      · cases hc
      · rw [List.mem_singleton.1 hc]
        rfl
  · split at hc
    · cases hc
    · rw [List.mem_singleton.1 hc]
      rfl

theorem narrows_compileEnding {s : Selection} {scope : Scope} {taken : List String}
    {ending : Ending} {last : List Cypher.Clause} {shape : ResultShape}
    (h : s.compileEnding scope space taken ending b = .ok ((last, shape), b')) :
    ∀ c ∈ last, c.narrows = false := by
  cases ending with
  | result =>
    obtain ⟨_, _, hreturn, _⟩ := Selection.compileEnding_result_eq_ok h
    exact narrows_compileReturn hreturn
  | count =>
    obtain ⟨_, page, _, rfl, _⟩ := Selection.compileCount_eq_ok h
    intro c hc
    rcases List.mem_cons.1 hc with rfl | hc
    · rfl
    · rw [List.mem_singleton.1 hc]
      rfl
  | handOut names =>
    obtain ⟨_, _, hreturn, _⟩ := Selection.compileEnding_handOut_eq_ok h
    exact narrows_compileReturn hreturn

theorem narrows_compileSubqueries {number : Nat} {scope scope' : Scope}
    {qs : List (Subquery QueryPlan)} {calls : List Cypher.Clause}
    (h : compileSubqueries r space number scope qs b = .ok ((calls, scope'), b')) :
    ∀ c ∈ calls, c.narrows = false := by
  induction qs generalizing number scope calls b with
  | nil =>
    obtain ⟨rfl, _⟩ := compileSubqueries_nil_eq_ok h
    intro c hc
    cases hc
  | cons q rest ih =>
    obtain ⟨body, _, b₁, scope₁, calls', _, _, _, hrest, rfl⟩ := compileSubqueries_cons_eq_ok h
    intro c hc
    rcases List.mem_cons.1 hc with rfl | hc
    · rfl
    · exact ih hrest c hc

/-- A plan matches and filters in the clauses at its front, and nowhere else. -/
theorem compilePlan_eq_matched {imports : List String} {ending : Ending} {p : QueryPlan}
    {clauses : List Cypher.Clause} {shape : ResultShape}
    (h : compilePlan r space imports ending p b = .ok ((clauses, shape), b')) :
    ∃ scope matched b₁ others, p.selection.scope r imports = .ok scope ∧
      p.selection.compileMatch scope space b = .ok (matched, b₁) ∧
      clauses = matched ++ others ∧ ∀ c ∈ others, c.narrows = false := by
  obtain ⟨s, qs⟩ := p
  obtain ⟨front, scope₁, b₁, calls, scope₂, b₂, last, hfront, hcalls, hlast, rfl⟩ :=
    compilePlan_eq_ok h
  obtain ⟨scope, matched, stages, hscope, hmatched, hstages, rfl⟩ :=
    Selection.compileFront_eq_ok hfront
  refine ⟨scope, matched, b₁, stages ++ calls ++ last, hscope, hmatched, by simp, ?_⟩
  intro c hc
  rcases List.mem_append.1 hc with hc | hc
  · rcases List.mem_append.1 hc with hc | hc
    · exact narrows_compileTransforms hstages c hc
    · exact narrows_compileSubqueries hcalls c hc
  · exact narrows_compileEnding hlast c hc

end Narrowing

/-- Induction on plans, with the hypothesis for the plan of every subquery. -/
@[elab_as_elim]
theorem QueryPlan.induction {motive : QueryPlan → Prop}
    (mk : ∀ s qs, (∀ q ∈ qs, motive q.plan) → motive (.mk s qs)) (p : QueryPlan) : motive p :=
  QueryPlan.rec (motive_1 := motive) (motive_2 := fun qs => ∀ q ∈ qs, motive q.plan)
    (motive_3 := fun q => motive q.plan)
    mk (by simp)
    (fun q qs hq hqs q' hq' => by
      rcases List.mem_cons.1 hq' with rfl | hq'
      · exact hq
      · exact hqs q' hq')
    (fun _ _ _ h => h) p

end GraphMapper
