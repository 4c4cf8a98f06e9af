import GraphMapper.Guard.Validation
import GraphMapper.Proofs.Guard.Atomicity
import GraphMapper.Proofs.Guard.Properties

/-!
# Statements of a guard carry no data

What a guard sends says nothing of identities and property values but in the
values of its parameters (`GuardCall.templates_agree`).  Two calls that differ in
nothing else are run next to each other on equal scripts.  `Mirrors` relates
their tasks: whatever is asked has one template in both, so that the script
answers both alike, and every check takes the same branch.

The identities matter in one place.  Moving an edge to the node that it already
leads to is not checked, so two calls have to agree on whether that is so.
-/

namespace GraphMapper

variable {σ α β γ δ : Type}

/-! ## Templates -/

theorem Dict.keys_foldl_insert_congr {entries entries' : List (String × α)} {d d' : Dict α}
    (hd : d.keys = d'.keys) (h : entries.map Prod.fst = entries'.map Prod.fst) :
    (entries.foldl (fun d e => d.insert e.1 e.2) d).keys =
      (entries'.foldl (fun d e => d.insert e.1 e.2) d').keys := by
  induction entries generalizing entries' d d' with
  | nil =>
    obtain rfl := List.map_eq_nil_iff.1 h.symm
    exact hd
  | cons e rest ih =>
    obtain ⟨e', rest', rfl, hfirst, hrest⟩ := List.map_eq_cons_iff.1 h.symm
    rw [List.foldl_cons, List.foldl_cons, ← hfirst]
    exact ih (keys_insert_congr hd _ _ _) hrest.symm

theorem Dict.keys_ofList_congr {entries entries' : List (String × α)}
    (h : entries.map Prod.fst = entries'.map Prod.fst) :
    (Dict.ofList entries).keys = (Dict.ofList entries').keys :=
  keys_foldl_insert_congr rfl h

/-- A request but for the values of its parameters: its text, and their names. -/
def Request.template (r : Request) : String × List String := (r.text, r.toStatement.params.keys)

namespace EdgeRequest

/-- Requests that are the same but for identities and property values. -/
inductive Alike : EdgeRequest → EdgeRequest → Prop
  | countAt (edges : EdgeKind) (source source' : String) :
    Alike (.countAt edges source) (.countAt edges source')
  | countBetween (edges : EdgeKind) (source source' target target' : String) :
    Alike (.countBetween edges source target) (.countBetween edges source' target')
  | lacking (edges : EdgeKind) (label : String) (inverse : EdgeKind) (least : Nat)
    (source source' : String) {kept? kept'? : Option String} (h : kept?.isSome = kept'?.isSome) :
    Alike (.lacking edges label inverse least source kept?)
      (.lacking edges label inverse least source' kept'?)
  | outside (edges : EdgeKind) (label : String) (least : Nat) (most? : Option Nat) :
    Alike (.outside edges label least most?) (.outside edges label least most?)
  | create (edges : EdgeKind) (source source' target target' : String)
    {properties properties' : List (String × Value)}
    (h : properties.map Prod.fst = properties'.map Prod.fst) :
    Alike (.create edges source target properties) (.create edges source' target' properties')
  | delete (edges : EdgeKind) (source source' target target' : String) :
    Alike (.delete edges source target) (.delete edges source' target')
  | deleteAll (edges : EdgeKind) (source source' : String) :
    Alike (.deleteAll edges source) (.deleteAll edges source')

variable {r r' : EdgeRequest} (f : IdFunction)

theorem edgePattern_congr (edges : EdgeKind) (var : String)
    {properties properties' : List (String × Value)}
    (h : properties.map Prod.fst = properties'.map Prod.fst) :
    edgePattern edges var properties = edgePattern edges var properties' := by
  have hnames (properties : List (String × Value)) :
      properties.map (fun p => (p.1, propertyParam p.1)) =
        (properties.map Prod.fst).map fun name => (name, propertyParam name) := by
    rw [List.map_map]
    rfl
  rw [edgePattern, edgePattern, hnames, hnames, h]

theorem Alike.text_eq (h : r.Alike r') : r.text f = r'.text f := by
  cases h with
  | @lacking _ _ _ _ _ _ kept? kept'? h =>
    match kept?, kept'?, h with
    | none, none, _ => rfl
    | some _, some _, _ => rfl
  | @create edges _ _ _ _ properties properties' h =>
    show "MATCH (us), (them) WHERE " ++ isPair f ++ " MERGE " ++
      path us (edgePattern edges "r" properties) them ++ " RETURN r" = _
    rw [edgePattern_congr edges "r" h]
    rfl
  | _ => rfl

theorem Alike.keys_eq (h : r.Alike r') : (r.params f).keys = (r'.params f).keys := by
  have hpair (source source' target target' : String) :
      (pairParams f source target).keys = (pairParams f source' target').keys :=
    Dict.keys_ofList_congr rfl
  cases h with
  | countAt | deleteAll => rfl
  | countBetween | delete => exact hpair ..
  | outside => rfl
  | @lacking _ _ _ _ _ _ kept? kept'? h =>
    refine Dict.keys_ofList_congr ?_
    match kept?, kept'?, h with
    | none, none, _ => rfl
    | some _, some _, _ => rfl
  | @create _ _ _ _ _ properties properties' h =>
    have hnames (properties : List (String × Value)) (d : Params) :
        properties.foldl (fun d p => d.insert (propertyParam p.1) p.2) d =
          (properties.map fun p => (propertyParam p.1, p.2)).foldl
            (fun d e => d.insert e.1 e.2) d := by
      rw [List.foldl_map]
    rw [params, params, hnames, hnames]
    refine Dict.keys_foldl_insert_congr (hpair ..) ?_
    rw [List.map_map, List.map_map]
    have hcomp := congrArg (List.map propertyParam) h
    rwa [List.map_map, List.map_map] at hcomp

theorem Alike.template_eq (h : r.Alike r') :
    (Request.edges f r).template = (Request.edges f r').template :=
  Prod.ext (h.text_eq f) (h.keys_eq f)

end EdgeRequest

/-! ## Two runs -/

/-- How two tasks may end: both with results that go together, or both with an error. -/
inductive Mirrored (S : σ → σ → Prop) (R : α → β → Prop) :
    Except Error α × σ → Except Error β × σ → Prop
  | ok {a : α} {b : β} {s s' : σ} (hresult : R a b) (hstate : S s s') :
    Mirrored S R (.ok a, s) (.ok b, s')
  | error (e e' : Error) {s s' : σ} (hstate : S s s') : Mirrored S R (.error e, s) (.error e', s')

/-- Two tasks that end alike from states that are alike. -/
structure Mirrors (S : σ → σ → Prop) (R : α → β → Prop) (t : Task σ α) (t' : Task σ β) : Prop where
  run : ∀ s s', S s s' → Mirrored S R (t.run.run s) (t'.run.run s')

/-- Results that need not have anything to do with each other. -/
def Unrelated (_ : α) (_ : β) : Prop := True

namespace Mirrors

variable {S : σ → σ → Prop} {R : α → β → Prop} {Q : γ → δ → Prop} {t : Task σ α} {t' : Task σ β}
  {k : α → Task σ γ} {k' : β → Task σ δ}

theorem pure {a : α} {b : β} (h : R a b) : Mirrors S R (Pure.pure a) (Pure.pure b) :=
  ⟨fun _ _ hs => .ok h hs⟩

theorem throw (e e' : Error) : Mirrors S R (MonadExcept.throw e) (MonadExcept.throw e') :=
  ⟨fun _ _ hs => .error e e' hs⟩

theorem lift {x : Except Error α} {y : Except Error β}
    (h : (∃ a b, x = .ok a ∧ y = .ok b ∧ R a b) ∨ ∃ e e', x = .error e ∧ y = .error e') :
    Mirrors S R (liftM x) (liftM y) := by
  rcases h with ⟨a, b, rfl, rfl, h⟩ | ⟨e, e', rfl, rfl⟩
  · exact pure h
  · exact throw e e'

/-- What both take from outside is the same. -/
theorem lift_same (x : Except Error α) : Mirrors S Eq (liftM x) (liftM x) := by
  refine lift ?_
  cases x with
  | ok a => exact .inl ⟨a, a, rfl, rfl, rfl⟩
  | error e => exact .inr ⟨e, e, rfl, rfl⟩

theorem bind (ht : Mirrors S R t t') (hk : ∀ a b, R a b → Mirrors S Q (k a) (k' b)) :
    Mirrors S Q (t >>= k) (t' >>= k') := by
  constructor
  intro s s' hs
  have hboth := ht.run s s' hs
  generalize hrun : t.run.run s = ended at hboth
  generalize hrun' : t'.run.run s' = ended' at hboth
  cases hboth with
  | ok hresult hstate =>
    rw [Task.run_bind_ok hrun, Task.run_bind_ok hrun']
    exact (hk _ _ hresult).run _ _ hstate
  | error e e' hstate =>
    rw [Task.run_bind_error hrun, Task.run_bind_error hrun']
    exact .error e e' hstate

/-- Both go on with the same result. -/
theorem bind_same {t t' : Task σ α} {k : α → Task σ γ} {k' : α → Task σ δ} (ht : Mirrors S Eq t t')
    (hk : ∀ a, Mirrors S Q (k a) (k' a)) : Mirrors S Q (t >>= k) (t' >>= k') :=
  ht.bind fun a _ h => h ▸ hk a

theorem mono {R' : α → β → Prop} (ht : Mirrors S R t t') (h : ∀ a b, R a b → R' a b) :
    Mirrors S R' t t' := by
  constructor
  intro s s' hs
  have hboth := ht.run s s' hs
  generalize t.run.run s = ended at hboth ⊢
  generalize t'.run.run s' = ended' at hboth ⊢
  cases hboth with
  | ok hresult hstate => exact .ok (h _ _ hresult) hstate
  | error e e' hstate => exact .error e e' hstate

theorem mapM {ι : Type} {k : ι → Task σ α} {k' : ι → Task σ β} {l : List ι}
    (hk : ∀ i ∈ l, Mirrors S R (k i) (k' i)) :
    Mirrors S (List.Forall₂ R) (l.mapM k) (l.mapM k') := by
  induction l with
  | nil =>
    rw [List.mapM_nil, List.mapM_nil]
    exact pure .nil
  | cons i rest ih =>
    rw [List.mapM_cons, List.mapM_cons]
    refine (hk i List.mem_cons_self).bind fun a b hab => ?_
    refine (ih fun i' hi' => hk i' (List.mem_cons_of_mem i hi')).bind fun as bs hrest => ?_
    exact pure (.cons hab hrest)

theorem foldlM_same {ι : Type} {k k' : α → ι → Task σ α}
    (hk : ∀ a i, Mirrors S Eq (k a i) (k' a i)) (l : List ι) (a : α) :
    Mirrors S Eq (l.foldlM k a) (l.foldlM k' a) := by
  induction l generalizing a with
  | nil => exact pure rfl
  | cons i rest ih =>
    rw [List.foldlM_cons, List.foldlM_cons]
    exact (hk a i).bind_same ih

end Mirrors

/-! ## Two scripted databases -/

/-- Two databases with the same script that were sent the same templates since two journals. -/
structure Memory.Alike (before before' : List Request) (m m' : Memory) : Prop where
  script : m.script = m'.script
  journal : ∃ sent sent', m.journal = before ++ sent ∧ m'.journal = before' ++ sent' ∧
    sent.map Request.template = sent'.map Request.template

namespace Memory

variable {before before' : List Request} {m m' : Memory} {r r' : Request}

/-- Equal scripts answer requests of one template alike. -/
theorem Alike.reply (h : Alike before before' m m') (hr : r.template = r'.template) :
    (m.reply r).1 = (m'.reply r').1 ∧ Alike before before' (m.reply r).2 (m'.reply r').2 := by
  obtain ⟨hscript, sent, sent', hjournal, hjournal', hsent⟩ := h
  have hasked : ∃ sent sent', m.journal ++ [r] = before ++ sent ∧
      m'.journal ++ [r'] = before' ++ sent' ∧
      sent.map Request.template = sent'.map Request.template := by
    refine ⟨sent ++ [r], sent' ++ [r'], ?_, ?_, ?_⟩
    · rw [hjournal, List.append_assoc]
    · rw [hjournal', List.append_assoc]
    · rw [List.map_append, List.map_append, hsent, List.map_singleton, List.map_singleton, hr]
  have htext : r.text = r'.text := congrArg Prod.fst hr
  simp only [Memory.reply, hscript, htext]
  cases Script.take? r'.text m'.script with
  | none => exact ⟨rfl, rfl, hasked⟩
  | some answered => exact ⟨rfl, rfl, hasked⟩

/-- Databases in which a transaction is open. -/
def AlikeIn (before before' : List Request) (s s' : List Request × Memory) : Prop :=
  Alike before before' s.2 s'.2

theorem mirrors_execute (hr : r.template = r'.template) :
    Mirrors (Alike before before') Eq (Memory.execute r) (Memory.execute r') := by
  constructor
  intro m m' h
  obtain ⟨hreply, halike⟩ := h.reply hr
  have hrun (m : Memory) (r : Request) : (Memory.execute r).run.run m =
      (do
        let output ← (m.reply r).1.result
        modify fun m => { m with committed := m.committed ++ [r] }
        return output : Task Memory QueryOutput).run.run (m.reply r).2 := rfl
  rw [hrun, hrun, hreply]
  cases (m'.reply r').1 with
  | output o => exact .ok rfl ⟨halike.script, halike.journal⟩
  | failure message => exact .error _ _ halike

theorem mirrors_executeIn (hr : r.template = r'.template) :
    Mirrors (AlikeIn before before') Eq (Memory.executeIn r) (Memory.executeIn r') := by
  constructor
  intro ⟨tx, m⟩ ⟨tx', m'⟩ h
  obtain ⟨hreply, halike⟩ := Alike.reply h hr
  have hrun (tx : List Request) (m : Memory) (r : Request) : (Memory.executeIn r).run.run (tx, m) =
      (do
        let output ← (m.reply r).1.result
        set (tx ++ [r], (m.reply r).2)
        return output : Task _ QueryOutput).run.run (tx, (m.reply r).2) := rfl
  rw [hrun, hrun, hreply]
  cases (m'.reply r').1 with
  | output o => exact .ok rfl halike
  | failure message => exact .error _ _ halike

/-- Ending a transaction sends nothing. -/
theorem mirrors_inTransaction {R : α → β → Prop} {steps : Task (List Request × Memory) α}
    {steps' : Task (List Request × Memory) β}
    (h : Mirrors (AlikeIn before before') R steps steps') :
    Mirrors (Alike before before') R (Memory.driver.inTransaction steps)
      (Memory.driver.inTransaction steps') := by
  constructor
  intro m m' hm
  have hboth := h.run ([], m) ([], m') hm
  rcases hended : steps.run.run ([], m) with ⟨result, pending, ended⟩
  rcases hended' : steps'.run.run ([], m') with ⟨result', pending', ended'⟩
  rw [hended, hended'] at hboth
  cases hboth with
  | ok hresult hstate =>
    rw [run_inTransaction_of_ok hended, run_inTransaction_of_ok hended']
    exact .ok hresult ⟨hstate.script, hstate.journal⟩
  | error e e' hstate =>
    rw [run_inTransaction_of_error hended, run_inTransaction_of_error hended']
    exact .error e e' ⟨hstate.script, hstate.journal⟩

end Memory

/-! ## Calls that differ in data only -/

/-- Supplied properties of the same names, null for the same of them. -/
structure Properties.Alike (supplied supplied' : Properties) : Prop where
  keys : supplied.keys = supplied'.keys
  nulls : ∀ name, (supplied.get? name).map Value.isNull = (supplied'.get? name).map Value.isNull

/-- Changes that are the same but for the identities and the properties of nodes, and the values
that are supplied. -/
inductive Change.Alike : Change → Change → Prop
  | connect {source source' : Entity} (name : String) {target target' : Entity}
    {supplied supplied' : Properties} (hsource : source.nodeType = source'.nodeType)
    (htarget : target.nodeType = target'.nodeType)
    (hsupplied : Properties.Alike supplied supplied') :
    Alike (.connect source name target supplied) (.connect source' name target' supplied')
  | disconnect {source source' : Entity} (name : String) {target target' : Entity}
    (hsource : source.nodeType = source'.nodeType) (htarget : target.nodeType = target'.nodeType) :
    Alike (.disconnect source name target) (.disconnect source' name target')
  | reconnect {source source' : Entity} (name : String) {old old' target target' : Entity}
    {supplied supplied' : Properties} (hsource : source.nodeType = source'.nodeType)
    (hold : old.nodeType = old'.nodeType) (htarget : target.nodeType = target'.nodeType)
    (hsame : old.id = target.id ↔ old'.id = target'.id)
    (hsupplied : Properties.Alike supplied supplied') :
    Alike (.reconnect source name old target supplied)
      (.reconnect source' name old' target' supplied')
  | disconnectAll {source source' : Entity} (name : String)
    (hsource : source.nodeType = source'.nodeType) :
    Alike (.disconnectAll source name) (.disconnectAll source' name)
  | replace {source source' : Entity} (name : String) {target target' : Entity}
    {supplied supplied' : Properties} (hsource : source.nodeType = source'.nodeType)
    (htarget : target.nodeType = target'.nodeType)
    (hsupplied : Properties.Alike supplied supplied') :
    Alike (.replace source name target supplied) (.replace source' name target' supplied')

/-- What a guard may be asked to do. -/
inductive GuardCall where
  | change (c : Change)
  | isConnected (source : Entity) (name : String) (target : Entity)
  | validate

/-- Calls that are the same but for identities, properties, and values that are supplied. -/
inductive GuardCall.Alike : GuardCall → GuardCall → Prop
  | change {c c' : Change} (h : c.Alike c') : Alike (.change c) (.change c')
  | isConnected {source source' : Entity} (name : String) {target target' : Entity}
    (hsource : source.nodeType = source'.nodeType) (htarget : target.nodeType = target'.nodeType) :
    Alike (.isConnected source name target) (.isConnected source' name target')
  | validate : Alike .validate .validate

/-- Makes a call, for what it sends. -/
def GuardCall.task {τ : Type} (g : Guard) (d : Driver σ τ) (ids : Identifiers) :
    GuardCall → Task σ Unit
  | change c => do let _ ← c.run g d ids
  | isConnected source name target => do let _ ← g.isConnected d source name target
  | validate => do let _ ← g.validate d

/-- The properties that are supplied for a change can be stored, where it gets so far. -/
def Change.Accepts (g : Guard) (ids : Identifiers) (c : Change) : Prop :=
  ∀ rel target supplied, c.source.nodeType.relationship? c.name = some rel →
    c.created? = some (target, supplied) →
    rel.targets.any (g.registry.isA target.nodeType) = true →
    ∃ stored, g.registry.edgeProperties ids rel supplied = .ok stored

/-- The properties that are supplied for a call can be stored, where it gets so far. -/
def GuardCall.Accepts (g : Guard) (ids : Identifiers) : GuardCall → Prop
  | change c => c.Accepts g ids
  | isConnected .. | validate => True

/-! ## Stored properties -/

theorem Properties.Alike.supplied? {supplied supplied' : Properties}
    (h : Properties.Alike supplied supplied') (p : Property) :
    (GraphMapper.supplied? supplied p).isSome = (GraphMapper.supplied? supplied' p).isSome := by
  have hnull := h.nulls p.name
  unfold GraphMapper.supplied?
  cases hv : supplied.get? p.name <;> cases hv' : supplied'.get? p.name <;>
    simp_all [Option.isSome_filter]

/-- Whether a property is created with a value does not depend on which one is supplied. -/
theorem Property.createdValue?_isSome {p : Property} {supplied : Properties} {fresh : String}
    {v? : Option Value} (h : p.createdValue? supplied fresh = .ok v?) :
    v?.isSome = ((supplied? supplied p).isSome || p.default?.isSome || p.codec == .uniqueId) := by
  have hgenerated : (p.codec.generate fresh).isSome = (p.codec == .uniqueId) := by
    cases p.codec <;> rfl
  have hvalue : (supplied? supplied p <|> p.defaultValue? fresh).isSome =
      ((supplied? supplied p).isSome || p.default?.isSome || p.codec == .uniqueId) := by
    rw [Property.defaultValue?, ← hgenerated]
    cases supplied? supplied p <;> cases p.default? <;> rfl
  rw [← hvalue]
  unfold createdValue? at h
  cases hcreated : (supplied? supplied p <|> p.defaultValue? fresh) with
  | some v =>
    rw [hcreated] at h
    obtain ⟨w, -, h⟩ := bind_eq_ok.1 h
    exact pure_eq_ok.1 h ▸ rfl
  | none =>
    rw [hcreated] at h
    dsimp only at h
    split at h
    · cases h
    · exact pure_eq_ok.1 h ▸ rfl

namespace Registry

variable {supplied supplied' : Properties} {ids ids' : Identifiers}

/-- Alike properties are stored under the same names. -/
theorem createdProperties_alike (h : Properties.Alike supplied supplied') {ps : List Property}
    {position : Nat} {stored stored' : List (String × Value)}
    (hstored : createdProperties supplied ids position ps = .ok stored)
    (hstored' : createdProperties supplied' ids' position ps = .ok stored') :
    stored.map Prod.fst = stored'.map Prod.fst := by
  induction ps generalizing position stored stored' with
  | nil =>
    obtain rfl := Except.ok.inj hstored
    obtain rfl := Except.ok.inj hstored'
    rfl
  | cons p rest ih =>
    obtain ⟨v?, hv, hstored⟩ := bind_eq_ok.1 hstored
    obtain ⟨others, hothers, hstored⟩ := bind_eq_ok.1 hstored
    obtain rfl := pure_eq_ok.1 hstored
    obtain ⟨v'?, hv', hstored'⟩ := bind_eq_ok.1 hstored'
    obtain ⟨others', hothers', hstored'⟩ := bind_eq_ok.1 hstored'
    obtain rfl := pure_eq_ok.1 hstored'
    have hsome : v?.isSome = v'?.isSome := by
      rw [Property.createdValue?_isSome hv, Property.createdValue?_isSome hv', h.supplied?]
    rw [List.map_append, List.map_append, ih hothers hothers']
    match v?, v'?, hsome with
    | none, none, _ => rfl
    | some _, some _, _ => rfl

theorem edgeProperties_alike {r : Registry} {rel : Relationship}
    (h : Properties.Alike supplied supplied') {stored stored' : List (String × Value)}
    (hstored : r.edgeProperties ids rel supplied = .ok stored)
    (hstored' : r.edgeProperties ids' rel supplied' = .ok stored') :
    stored.map Prod.fst = stored'.map Prod.fst := by
  unfold edgeProperties at hstored hstored'
  cases hmodel : rel.model? with
  | none =>
    simp only [hmodel] at hstored hstored'
    cases hkey : supplied.keys.head? with
    | some key => simp [hkey] at hstored
    | none =>
      simp only [hkey, ← h.keys, Except.ok.injEq] at hstored hstored'
      rw [← hstored, ← hstored']
  | some name =>
    simp only [hmodel] at hstored hstored'
    obtain ⟨model, hfound, hstored⟩ := bind_eq_ok.1 hstored
    obtain ⟨model', hfound', hstored'⟩ := bind_eq_ok.1 hstored'
    obtain rfl := Except.ok.inj (hfound.symm.trans hfound')
    rw [unknownKey?, ← h.keys, ← unknownKey?] at hstored'
    cases hunknown : unknownKey? model.properties supplied with
    | some key => simp [hunknown, throw_ne_ok] at hstored
    | none =>
      rw [hunknown] at hstored hstored'
      exact createdProperties_alike h hstored hstored'

end Registry

namespace Change

variable {c c' : Change} {g : Guard} {ids ids' : Identifiers}

theorem Alike.name_eq (h : c.Alike c') : c.name = c'.name := by cases h <;> rfl

theorem Alike.source_nodeType (h : c.Alike c') : c.source.nodeType = c'.source.nodeType := by
  cases h <;> assumption

theorem Alike.created? (h : c.Alike c') :
    (c.created? = none ∧ c'.created? = none) ∨
      ∃ target supplied target' supplied', c.created? = some (target, supplied) ∧
        c'.created? = some (target', supplied') ∧ target.nodeType = target'.nodeType ∧
        Properties.Alike supplied supplied' := by
  cases h with
  | disconnect | disconnectAll => exact .inl ⟨rfl, rfl⟩
  | connect _ _ htarget hsupplied | reconnect _ _ _ htarget _ hsupplied
  | replace _ _ htarget hsupplied => exact .inr ⟨_, _, _, _, rfl, rfl, htarget, hsupplied⟩

theorem accepts_of_prepared {x : Relationship × List (String × Value)}
    (h : c.prepared g ids = .ok x) : c.Accepts g ids := by
  intro rel target supplied hrel hcreated htarget
  rw [prepared_of_declared hrel, hcreated] at h
  dsimp only at h
  rw [if_pos htarget] at h
  cases hproperties : g.registry.edgeProperties ids rel supplied with
  | ok stored => exact ⟨stored, rfl⟩
  | error e =>
    rw [hproperties] at h
    cases h

/-- Alike changes whose properties are accepted are prepared alike, or both refused. -/
theorem Alike.prepared (h : c.Alike c') (haccepts : c.Accepts g ids)
    (haccepts' : c'.Accepts g ids') :
    (∃ x x', c.prepared g ids = .ok x ∧ c'.prepared g ids' = .ok x' ∧ x.1 = x'.1 ∧
      x.2.map Prod.fst = x'.2.map Prod.fst) ∨
    ∃ e e', c.prepared g ids = .error e ∧ c'.prepared g ids' = .error e' := by
  cases hrel : c.source.nodeType.relationship? c.name with
  | none =>
    have hrel' := hrel
    rw [h.source_nodeType, h.name_eq] at hrel'
    exact .inr ⟨_, _, prepared_of_undeclared hrel, prepared_of_undeclared hrel'⟩
  | some rel =>
    have hrel' := hrel
    rw [h.source_nodeType, h.name_eq] at hrel'
    rw [prepared_of_declared hrel, prepared_of_declared hrel']
    rcases h.created? with ⟨hnone, hnone'⟩ |
      ⟨target, supplied, target', supplied', hcreated, hcreated', htype, hsupplied⟩
    · rw [hnone, hnone']
      exact .inl ⟨_, _, rfl, rfl, rfl, rfl⟩
    · have htargets := haccepts rel target supplied hrel hcreated
      have htargets' := haccepts' rel target' supplied' hrel' hcreated'
      rw [hcreated, hcreated']
      dsimp only
      rw [htype] at htargets ⊢
      split
      · next hany =>
        obtain ⟨stored, hstored⟩ := htargets hany
        obtain ⟨stored', hstored'⟩ := htargets' hany
        rw [hstored, hstored']
        exact .inl ⟨_, _, rfl, rfl, rfl, Registry.edgeProperties_alike hsupplied hstored hstored'⟩
      · exact .inr ⟨_, _, rfl, rfl⟩

end Change

/-! ## The steps of a guard -/

namespace Guard

variable (g : Guard) (before before' : List Request)

/-- Two tasks in transactions of databases that are alike. -/
abbrev MirrorsIn (R : α → β → Prop) (t : Task (List Request × Memory) α)
    (t' : Task (List Request × Memory) β) : Prop :=
  Mirrors (Memory.AlikeIn before before') R t t'

theorem mirrors_ask {r r' : EdgeRequest} (h : r.Alike r') :
    MirrorsIn before before' Eq (g.ask Memory.driver r) (g.ask Memory.driver r') :=
  Memory.mirrors_executeIn (h.template_eq g.settings.idFunction)

theorem mirrors_write {r r' : EdgeRequest} (h : r.Alike r') :
    MirrorsIn before before' Eq (g.write Memory.driver r) (g.write Memory.driver r') :=
  (g.mirrors_ask before before' h).bind_same fun _ => .pure rfl

theorem mirrors_countAt {e e' : EdgeEnd} (h : e.declared = e'.declared) :
    MirrorsIn before before' Eq (g.countAt Memory.driver e) (g.countAt Memory.driver e') := by
  unfold countAt
  rw [h]
  exact (g.mirrors_ask before before' (.countAt ..)).bind_same fun _ => .pure rfl

theorem mirrors_countBetween (rel : Relationship) (source source' target target' : Entity) :
    MirrorsIn before before' Eq (g.countBetween Memory.driver rel source target)
      (g.countBetween Memory.driver rel source' target') :=
  (g.mirrors_ask before before' (.countBetween ..)).bind_same fun _ => .pure rfl

theorem mirrors_requireConnected (rel : Relationship) (source source' target target' : Entity) :
    MirrorsIn before before' Eq (g.requireConnected Memory.driver rel source target)
      (g.requireConnected Memory.driver rel source' target') := by
  refine (g.mirrors_countBetween before before' ..).bind_same fun between => ?_
  dsimp only
  split
  · exact .bind (R := Unrelated) (.throw _ _) fun _ _ _ => .pure rfl
  · exact .pure rfl

theorem declared_edgeEnd (source source' : Entity) (declared : Relationship) :
    (source.edgeEnd declared).declared = (source'.edgeEnd declared).declared := rfl

/-- A broken bound is refused or reported in both. -/
theorem mirrors_reject (soft : Bool) (declared : Relationship) (b b' : Breach) :
    MirrorsIn before before' Unrelated (liftM (reject soft declared b))
      (liftM (reject soft declared b')) := by
  refine .lift ?_
  cases soft with
  | true => exact .inl ⟨_, _, rfl, rfl, trivial⟩
  | false => exact .inr ⟨_, _, rfl, rfl⟩

theorem mirrors_checkRoom (soft : Bool) {e e' : EdgeEnd} (h : e.declared = e'.declared)
    (leaving : Nat) :
    MirrorsIn before before' Unrelated (g.checkRoom Memory.driver soft e leaving)
      (g.checkRoom Memory.driver soft e' leaving) := by
  unfold checkRoom
  rw [h]
  split
  · refine (g.mirrors_countAt before before' h).bind_same fun count => ?_
    dsimp only
    split
    · exact mirrors_reject before before' soft e'.declared _ _
    · exact .pure trivial
  · exact .pure trivial

theorem mirrors_checkRemaining (soft : Bool) {e e' : EdgeEnd} (h : e.declared = e'.declared)
    (leaving : Nat) :
    MirrorsIn before before' Unrelated (g.checkRemaining Memory.driver soft e leaving)
      (g.checkRemaining Memory.driver soft e' leaving) := by
  unfold checkRemaining
  rw [h]
  split
  · refine (g.mirrors_countAt before before' h).bind_same fun count => ?_
    dsimp only
    split
    · exact mirrors_reject before before' soft e'.declared _ _
    · exact .pure trivial
  · exact .pure trivial

theorem mirrors_checkNoneLeft (rel : Relationship) (source source' : Entity) :
    MirrorsIn before before' Unrelated (g.checkNoneLeft Memory.driver rel source)
      (g.checkNoneLeft Memory.driver rel source') := by
  unfold checkNoneLeft
  split
  · refine (g.mirrors_countAt before before' (declared_edgeEnd ..)).bind_same fun count => ?_
    split
    · exact mirrors_reject before before' _ rel _ _
    · exact .pure trivial
  · exact .pure trivial

section

variable {source source' : Entity} (hsource : source.nodeType = source'.nodeType)

include hsource

theorem mirrors_checkInverseRoom (rel : Relationship) {target target' : Entity}
    (htarget : target.nodeType = target'.nodeType) (leaving : Nat) :
    MirrorsIn before before' Unrelated (g.checkInverseRoom Memory.driver rel source target leaving)
      (g.checkInverseRoom Memory.driver rel source' target' leaving) := by
  unfold checkInverseRoom
  rw [hsource, htarget]
  split
  · exact .pure trivial
  · exact g.mirrors_checkRoom before before' _ (declared_edgeEnd ..) leaving

theorem mirrors_checkInverseRemaining (rel : Relationship) {target target' : Entity}
    (htarget : target.nodeType = target'.nodeType) (leaving : Nat) :
    MirrorsIn before before' Unrelated
      (g.checkInverseRemaining Memory.driver rel source target leaving)
      (g.checkInverseRemaining Memory.driver rel source' target' leaving) := by
  unfold checkInverseRemaining
  rw [hsource, htarget]
  split
  · exact .pure trivial
  · exact g.mirrors_checkRemaining before before' _ (declared_edgeEnd ..) leaving

/-- The neighbours that lack edges are found by a search that is answered alike. -/
theorem mirrors_checkNeighborsOf (rel : Relationship) {kept? kept'? : Option String}
    (hkept : kept?.isSome = kept'?.isSome) (target : String) :
    MirrorsIn before before' Unrelated (g.checkNeighborsOf Memory.driver rel source kept? target)
      (g.checkNeighborsOf Memory.driver rel source' kept'? target) := by
  refine Mirrors.bind_same (.lift_same (g.registry.nodeType target)) fun type => ?_
  dsimp only
  rw [hsource]
  split
  · exact .pure trivial
  · split
    · refine (g.mirrors_ask before before' (.lacking _ _ _ _ _ _ hkept)).bind_same fun output => ?_
      exact (Mirrors.lift_same _).mono fun _ _ _ => trivial
    · exact .pure trivial

theorem mirrors_checkNeighbors (rel : Relationship) {kept? kept'? : Option String}
    (hkept : kept?.isSome = kept'?.isSome) :
    MirrorsIn before before' Unrelated (g.checkNeighbors Memory.driver rel source kept?)
      (g.checkNeighbors Memory.driver rel source' kept'?) :=
  (Mirrors.mapM fun target _ =>
    g.mirrors_checkNeighborsOf before before' hsource rel hkept target).bind
      fun _ _ _ => .pure trivial

end

/-- The steps of alike changes send the same templates. -/
theorem mirrors_steps {c c' : Change} (h : c.Alike c') (rel : Relationship)
    {properties properties' : List (String × Value)}
    (hproperties : properties.map Prod.fst = properties'.map Prod.fst) :
    MirrorsIn before before' Unrelated (c.steps g Memory.driver rel properties)
      (c'.steps g Memory.driver rel properties') := by
  have hdelete (source source' target target' : Entity) :=
    g.mirrors_write before before' (.delete rel.edges source.id source'.id target.id target'.id)
  have hdeleteAll (source source' : Entity) :=
    g.mirrors_write before before' (.deleteAll rel.edges source.id source'.id)
  have hcreate (source source' target target' : Entity) :=
    g.mirrors_write before before'
      (.create rel.edges source.id source'.id target.id target'.id hproperties)
  cases h with
  | connect name hsource htarget hsupplied =>
    refine (g.mirrors_checkRoom before before' false (declared_edgeEnd ..) 0).bind fun _ _ _ => ?_
    refine (g.mirrors_checkInverseRoom before before' hsource rel htarget 0).bind fun _ _ _ => ?_
    exact (hcreate ..).bind_same fun _ => .pure trivial
  | disconnect name hsource htarget =>
    refine (g.mirrors_requireConnected before before' ..).bind_same fun between => ?_
    refine (g.mirrors_checkRemaining before before' _ (declared_edgeEnd ..) between).bind
      fun _ _ _ => ?_
    refine (g.mirrors_checkInverseRemaining before before' hsource rel htarget between).bind
      fun _ _ _ => ?_
    exact (hdelete ..).bind_same fun _ => .pure trivial
  | @reconnect source source' name old old' target target' _ _ hsource hold htarget hsame _ =>
    have hwrites (moved moved' : List Breach) : MirrorsIn before before' Unrelated (do
        g.write Memory.driver (.delete rel.edges source.id old.id)
        g.write Memory.driver (.create rel.edges source.id target.id properties)
        return moved) (do
        g.write Memory.driver (.delete rel.edges source'.id old'.id)
        g.write Memory.driver (.create rel.edges source'.id target'.id properties')
        return moved') :=
      (hdelete ..).bind_same fun _ => (hcreate ..).bind_same fun _ => .pure trivial
    refine (g.mirrors_requireConnected before before' ..).bind_same fun between => ?_
    dsimp only
    by_cases heq : old.id = target.id
    · rw [if_pos heq, if_pos (hsame.1 heq)]
      exact hwrites [] []
    · rw [if_neg heq, if_neg fun heq' => heq (hsame.2 heq')]
      refine (g.mirrors_checkInverseRemaining before before' hsource rel hold between).bind
        fun _ _ _ => ?_
      refine (g.mirrors_checkInverseRoom before before' hsource rel htarget 0).bind fun _ _ _ => ?_
      exact hwrites _ _
  | disconnectAll name hsource =>
    refine (g.mirrors_checkNoneLeft before before' rel ..).bind fun _ _ _ => ?_
    refine (g.mirrors_checkNeighbors before before' hsource rel rfl).bind fun _ _ _ => ?_
    exact (hdeleteAll ..).bind_same fun _ => .pure trivial
  | @replace source source' name target target' _ _ hsource htarget _ =>
    have hkept : (some target.id).isSome = (some target'.id).isSome := rfl
    refine (g.mirrors_countBetween before before' ..).bind_same fun kept => ?_
    refine (g.mirrors_checkNeighbors before before' hsource rel hkept).bind fun _ _ _ => ?_
    refine (g.mirrors_checkInverseRoom before before' hsource rel htarget kept).bind fun _ _ _ => ?_
    exact (hdeleteAll ..).bind_same fun _ => (hcreate ..).bind_same fun _ => .pure trivial

variable {ids ids' : Identifiers}

theorem mirrors_run {c c' : Change} (h : c.Alike c') (haccepts : c.Accepts g ids)
    (haccepts' : c'.Accepts g ids') :
    Mirrors (Memory.Alike before before') Unrelated (c.run g Memory.driver ids)
      (c'.run g Memory.driver ids') := by
  rw [Change.run_eq, Change.run_eq]
  have hprepared : Mirrors (Memory.Alike before before')
      (fun x x' => x.1 = x'.1 ∧ x.2.map Prod.fst = x'.2.map Prod.fst)
      (liftM (c.prepared g ids)) (liftM (c'.prepared g ids')) := by
    refine .lift ?_
    rcases h.prepared haccepts haccepts' with ⟨x, x', hx, hx', halike⟩ | herror
    · exact .inl ⟨x, x', hx, hx', halike⟩
    · exact .inr herror
  refine hprepared.bind fun x x' halike => ?_
  obtain ⟨rel, properties⟩ := x
  obtain ⟨rel', properties'⟩ := x'
  obtain ⟨hrel, hproperties⟩ := halike
  obtain rfl : rel = rel' := hrel
  exact Memory.mirrors_inTransaction (g.mirrors_steps before before' h rel hproperties)

theorem mirrors_isConnected {source source' : Entity}
    (hsource : source.nodeType = source'.nodeType) (name : String) (target target' : Entity) :
    Mirrors (Memory.Alike before before') Eq (g.isConnected Memory.driver source name target)
      (g.isConnected Memory.driver source' name target') := by
  have hdeclared : source.declaration name = source'.declaration name := by
    rw [Entity.declaration, Entity.declaration, Entity.typeName, Entity.typeName, hsource]
  unfold isConnected
  rw [hdeclared]
  refine Mirrors.bind_same (.lift_same _) fun rel => ?_
  refine Mirrors.bind_same (Memory.mirrors_execute ?_) fun output => .pure rfl
  exact EdgeRequest.Alike.template_eq _ (.countBetween ..)

/-- A scan is the same whatever is in the database. -/
theorem mirrors_validate :
    Mirrors (Memory.Alike before before') Eq (g.validate Memory.driver)
      (g.validate Memory.driver) := by
  refine Mirrors.foldlM_same (fun report declared => ?_) _ _
  refine Mirrors.bind_same ?_ fun found => .pure rfl
  exact (Memory.mirrors_execute rfl).bind_same fun output => .pure rfl

end Guard

/-- Two calls that differ in identities and property values only send the same statements to equal
scripts, but for the values of the parameters.  The properties that are supplied have to be accepted
in both. -/
theorem GuardCall.templates_agree (g : Guard) {ids ids' : Identifiers} {c c' : GuardCall}
    (h : c.Alike c') (haccepts : c.Accepts g ids) (haccepts' : c'.Accepts g ids') {m m' : Memory}
    (hscript : m.script = m'.script) :
    ∃ sent sent' : List Request,
      ((c.task g Memory.driver ids).run.run m).2.journal = m.journal ++ sent ∧
      ((c'.task g Memory.driver ids').run.run m').2.journal = m'.journal ++ sent' ∧
      sent.map Request.template = sent'.map Request.template := by
  have hmirrors : Mirrors (Memory.Alike m.journal m'.journal) Eq (c.task g Memory.driver ids)
      (c'.task g Memory.driver ids') := by
    cases h with
    | change h =>
      exact (g.mirrors_run m.journal m'.journal h haccepts haccepts').bind fun _ _ _ => .pure rfl
    | isConnected name hsource htarget =>
      exact (g.mirrors_isConnected m.journal m'.journal hsource name _ _).bind_same
        fun _ => .pure rfl
    | validate => exact (g.mirrors_validate m.journal m'.journal).bind_same fun _ => .pure rfl
  have halike : Memory.Alike m.journal m'.journal m m' :=
    ⟨hscript, [], [], (List.append_nil _).symm, (List.append_nil _).symm, rfl⟩
  have hended := hmirrors.run m m' halike
  generalize (c.task g Memory.driver ids).run.run m = ended at hended
  generalize (c'.task g Memory.driver ids').run.run m' = ended' at hended
  cases hended with
  | ok _ hstate | error _ _ hstate => exact hstate.journal

namespace Sample

def datedGuard : Guard := petGuard (.string none) (date "since" .json)

/-- A person gives one pet up for another, on some date. -/
def swapsPet (person old new since : String) : Change :=
  .reconnect ⟨person, .ofList ["Person"], (NodeType.new "Person").withRelationship datedPets, []⟩
    "pets" ⟨old, .ofList ["Pet"], .new "Pet", []⟩ ⟨new, .ofList ["Pet"], .new "Pet", []⟩
    [("since", .string since)]

/-- A database that counts one edge wherever it is asked. -/
def connected : Memory := ⟨[⟨"", .output (.scalar "count" (.int 1)), true⟩], [], [], 0, 0⟩

end Sample

theorem GuardCall.templates_agree_swapped :
    ∃ sent sent' : List Request,
      (((change (Sample.swapsPet "a" "b" "c" "2020")).task Sample.datedGuard Memory.driver
        fun _ => "").run.run Sample.connected).2.journal = Sample.connected.journal ++ sent ∧
      (((change (Sample.swapsPet "d" "e" "f" "' DELETE us")).task Sample.datedGuard Memory.driver
        fun _ => "").run.run Sample.connected).2.journal = Sample.connected.journal ++ sent' ∧
      sent.map Request.template = sent'.map Request.template := by
  have hprepared : ((Sample.swapsPet "a" "b" "c" "2020").prepared Sample.datedGuard
      fun _ => "").isOk = true := by decide +kernel
  have hprepared' : ((Sample.swapsPet "d" "e" "f" "' DELETE us").prepared Sample.datedGuard
      fun _ => "").isOk = true := by decide +kernel
  obtain ⟨_, hprepared⟩ := exists_eq_ok hprepared
  obtain ⟨_, hprepared'⟩ := exists_eq_ok hprepared'
  have hsupplied : Properties.Alike [("since", .string "2020")]
      [("since", .string "' DELETE us")] := by
    refine ⟨rfl, fun name => ?_⟩
    by_cases hname : "since" = name <;> simp [Dict.get?, hname, Value.isNull]
  have halike : (Sample.swapsPet "a" "b" "c" "2020").Alike
      (Sample.swapsPet "d" "e" "f" "' DELETE us") :=
    .reconnect "pets" rfl rfl rfl (by decide) hsupplied
  exact templates_agree Sample.datedGuard (.change halike) (Change.accepts_of_prepared hprepared)
    (Change.accepts_of_prepared hprepared') rfl

end GraphMapper
