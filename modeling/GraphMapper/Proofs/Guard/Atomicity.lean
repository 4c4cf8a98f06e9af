import GraphMapper.Database.Memory
import GraphMapper.Guard.Change
import GraphMapper.Proofs.Steps

/-!
# Guarded changes are atomic

A change is refused before anything is asked, is rolled back as a whole, or is
committed as a whole, with every check before the first write
(`Change.run_atomic`).

`Asks` says what a task asks of the scripted database while it runs in a
transaction.  It goes through binds, so that the steps of a change are read off
piece by piece: the checks only read, and the writes come last.
-/

namespace GraphMapper

/-! ## What a task asks -/

section Asks

variable {α β : Type} {f : IdFunction}

/-- A database that was asked something, with nothing committed or rolled back. -/
structure Memory.Asked (f : IdFunction) (asked : List EdgeRequest) (m m' : Memory) : Prop where
  journal : m'.journal = m.journal ++ asked.map (.edges f)
  committed : m'.committed = m.committed
  commits : m'.commits = m.commits
  rollbacks : m'.rollbacks = m.rollbacks

theorem Memory.Asked.refl (m : Memory) : Memory.Asked f [] m m :=
  ⟨(List.append_nil _).symm, rfl, rfl, rfl⟩

theorem Memory.Asked.trans {asked asked' : List EdgeRequest} {m m' m'' : Memory}
    (h : Memory.Asked f asked m m') (h' : Memory.Asked f asked' m' m'') :
    Memory.Asked f (asked ++ asked') m m'' where
  journal := by rw [h'.journal, h.journal, List.map_append, List.append_assoc]
  committed := h'.committed.trans h.committed
  commits := h'.commits.trans h.commits
  rollbacks := h'.rollbacks.trans h.rollbacks

/-- A task in a transaction asks something that goes with how it ends, and all of it is answered
where the task succeeds. -/
structure Asks (f : IdFunction) (t : Task (List Request × Memory) α)
    (R : Option Error → List EdgeRequest → Prop) : Prop where
  run : ∀ tx m, ∃ asked result tx' m', t.run.run (tx, m) = (result, tx', m') ∧
    Memory.Asked f asked m m' ∧
    match result with
    | .ok _ => tx' = tx ++ asked.map (.edges f) ∧ R none asked
    | .error e => R (some e) asked

namespace Asks

variable {t : Task (List Request × Memory) α} {k : α → Task (List Request × Memory) β}
  {R S T : Option Error → List EdgeRequest → Prop}

theorem pure {a : α} (h : R none []) : Asks f (Pure.pure a : Task _ α) R :=
  ⟨fun tx m => ⟨[], .ok a, tx, m, rfl, .refl m, (List.append_nil tx).symm, h⟩⟩

theorem throw {e : Error} (h : R (some e) []) : Asks f (MonadExcept.throw e : Task _ α) R :=
  ⟨fun tx m => ⟨[], .error e, tx, m, rfl, .refl m, h⟩⟩

/-- One task after another asks what both ask. -/
theorem bind (ht : Asks f t R) (hk : ∀ a, Asks f (k a) S)
    (hok : ∀ e? asked asked', R none asked → S e? asked' → T e? (asked ++ asked'))
    (herror : ∀ e asked, R (some e) asked → T (some e) asked) : Asks f (t >>= k) T := by
  constructor
  intro tx m
  obtain ⟨asked, result, tx', m', hrun, hasked, hresult⟩ := ht.run tx m
  cases result with
  | error e => exact ⟨asked, .error e, tx', m', Task.run_bind_error hrun, hasked, herror _ _ hresult⟩
  | ok a =>
    obtain ⟨rfl, hR⟩ := hresult
    obtain ⟨asked', result', tx'', m'', hrun', hasked', hresult'⟩ :=
      (hk a).run (tx ++ asked.map (.edges f)) m'
    refine ⟨asked ++ asked', result', tx'', m'', ?_, hasked.trans hasked', ?_⟩
    · rw [Task.run_bind_ok hrun, hrun']
    · cases result' with
      | error e => exact hok _ _ _ hR hresult'
      | ok b =>
        obtain ⟨rfl, hS⟩ := hresult'
        refine ⟨?_, hok _ _ _ hR hS⟩
        rw [List.map_append, List.append_assoc]

theorem mono (ht : Asks f t R) (h : ∀ e? asked, R e? asked → S e? asked) : Asks f t S := by
  constructor
  intro tx m
  obtain ⟨asked, result, tx', m', hrun, hasked, hresult⟩ := ht.run tx m
  refine ⟨asked, result, tx', m', hrun, hasked, ?_⟩
  cases result with
  | ok a => exact ⟨hresult.1, h _ _ hresult.2⟩
  | error e => exact h _ _ hresult

theorem lift {x : Except Error α} (hok : R none []) (herror : ∀ e, x = .error e → R (some e) []) :
    Asks f (liftM x : Task _ α) R := by
  cases x with
  | ok a => exact pure hok
  | error e => exact throw (herror e rfl)

/-- A request is asked whether or not it is answered, and only the driver fails. -/
theorem executeIn {r : EdgeRequest} (hok : R none [r])
    (herror : ∀ message, R (some (.driver message)) [r]) :
    Asks f (Memory.executeIn (.edges f r)) R := by
  constructor
  intro tx m
  have hasked : Memory.Asked f [r] m (m.reply (.edges f r)).2 := by
    rw [Memory.reply]
    split <;> exact ⟨rfl, rfl, rfl, rfl⟩
  have hrun : (Memory.executeIn (.edges f r)).run.run (tx, m) =
      (do
        let output ← (m.reply (.edges f r)).1.result
        set (tx ++ [.edges f r], (m.reply (.edges f r)).2)
        return output : Task _ QueryOutput).run.run (tx, (m.reply (.edges f r)).2) := rfl
  cases hreply : (m.reply (.edges f r)).1 with
  | output o =>
    rw [hreply] at hrun
    exact ⟨[r], .ok o, tx ++ [.edges f r], _, hrun.trans rfl, hasked, rfl, hok⟩
  | failure message =>
    rw [hreply] at hrun
    exact ⟨[r], .error _, tx, _, hrun.trans rfl, hasked, herror _⟩

end Asks

/-! ## Reading, and writing after it -/

/-- Only requests that change nothing. -/
def Reading (asked : List EdgeRequest) : Prop := ∀ r ∈ asked, r.modifies = false

theorem Reading.nil : Reading [] := fun _ hr => absurd hr List.not_mem_nil

theorem Reading.append {asked asked' : List EdgeRequest} (h : Reading asked)
    (h' : Reading asked') : Reading (asked ++ asked') := fun r hr =>
  (List.mem_append.1 hr).elim (h r) (h' r)

/-- A task that only reads. -/
def Reads (f : IdFunction) (t : Task (List Request × Memory) α) : Prop :=
  Asks f t fun _ asked => Reading asked

/-- What a task asks that is all writes, and that nothing but the driver fails. -/
def Writing (writes : List EdgeRequest) : Option Error → List EdgeRequest → Prop
  | none, asked => asked = writes
  | some e, _ => ∃ message, e = .driver message

/-- What a task asks that checks before it writes: where it does not come through and the driver
is not to blame, nothing was written. -/
def CheckedWriting (writes : List EdgeRequest) : Option Error → List EdgeRequest → Prop
  | none, asked => ∃ checks, Reading checks ∧ asked = checks ++ writes
  | some e, asked => (∀ message, e ≠ .driver message) → Reading asked

section Kinds

variable {t : Task (List Request × Memory) α} {k : α → Task (List Request × Memory) β}
  {writes writes' : List EdgeRequest}

namespace Reads

theorem pure (a : α) : Reads f (Pure.pure a : Task _ α) := Asks.pure .nil

theorem throw (e : Error) : Reads f (MonadExcept.throw e : Task _ α) := Asks.throw .nil

theorem lift (x : Except Error α) : Reads f (liftM x : Task _ α) :=
  Asks.lift .nil fun _ _ => .nil

theorem executeIn {r : EdgeRequest} (hr : r.modifies = false) :
    Reads f (Memory.executeIn (.edges f r)) :=
  have hreading : Reading [r] := fun _ h => List.mem_singleton.1 h ▸ hr
  Asks.executeIn hreading fun _ => hreading

theorem bind (ht : Reads f t) (hk : ∀ a, Reads f (k a)) : Reads f (t >>= k) :=
  Asks.bind ht hk (fun _ _ _ => Reading.append) fun _ _ h => h

theorem mapM {l : List α} (hk : ∀ a ∈ l, Reads f (k a)) : Reads f (l.mapM k) := by
  induction l with
  | nil =>
    rw [List.mapM_nil]
    exact pure []
  | cons a l ih =>
    rw [List.mapM_cons]
    refine (hk a List.mem_cons_self).bind fun b => ?_
    refine (ih fun a' ha' => hk a' (List.mem_cons_of_mem a ha')).bind fun bs => ?_
    exact pure (b :: bs)

/-- Writing may follow reading. -/
theorem bind_checked (ht : Reads f t) (hk : ∀ a, Asks f (k a) (CheckedWriting writes)) :
    Asks f (t >>= k) (CheckedWriting writes) := by
  refine Asks.bind ht hk ?_ fun _ _ h _ => h
  intro e? asked asked' hasked hasked'
  cases e? with
  | none =>
    obtain ⟨checks, hchecks, rfl⟩ := hasked'
    exact ⟨asked ++ checks, hasked.append hchecks, (List.append_assoc ..).symm⟩
  | some e => exact fun he => hasked.append (hasked' he)

end Reads

theorem Asks.checked_of_writing (ht : Asks f t (Writing writes)) :
    Asks f t (CheckedWriting writes) := by
  refine ht.mono fun e? asked h => ?_
  cases e? with
  | none => exact ⟨[], .nil, h⟩
  | some e => exact fun he => h.elim fun message hmessage => absurd hmessage (he message)

/-- Writes follow one another. -/
theorem Asks.bind_writing (ht : Asks f t (Writing writes))
    (hk : ∀ a, Asks f (k a) (Writing writes')) : Asks f (t >>= k) (Writing (writes ++ writes')) := by
  refine Asks.bind ht hk ?_ fun _ _ h => h
  intro e? asked asked' hasked hasked'
  cases e? with
  | none =>
    obtain rfl : asked = writes := hasked
    obtain rfl : asked' = writes' := hasked'
    rfl
  | some e => exact hasked'

end Kinds

end Asks

/-! ## The checks read -/

namespace Guard

variable (g : Guard)

theorem reads_ask {r : EdgeRequest} (hr : r.modifies = false) :
    Reads g.settings.idFunction (g.ask Memory.driver r) := Reads.executeIn hr

theorem reads_countAt (e : EdgeEnd) :
    Reads g.settings.idFunction (g.countAt Memory.driver e) :=
  (g.reads_ask rfl).bind fun _ => .pure _

theorem reads_countBetween (rel : Relationship) (source target : Entity) :
    Reads g.settings.idFunction (g.countBetween Memory.driver rel source target) :=
  (g.reads_ask rfl).bind fun _ => .pure _

theorem reads_checkRoom (soft : Bool) (e : EdgeEnd) (leaving : Nat) :
    Reads g.settings.idFunction (g.checkRoom Memory.driver soft e leaving) := by
  unfold checkRoom
  split
  · refine (g.reads_countAt e).bind fun count => ?_
    simp only
    split
    · exact .lift _
    · exact .pure _
  · exact .pure _

theorem reads_checkRemaining (soft : Bool) (e : EdgeEnd) (leaving : Nat) :
    Reads g.settings.idFunction (g.checkRemaining Memory.driver soft e leaving) := by
  unfold checkRemaining
  split
  · refine (g.reads_countAt e).bind fun count => ?_
    simp only
    split
    · exact .lift _
    · exact .pure _
  · exact .pure _

theorem reads_checkInverseRoom (rel : Relationship) (source target : Entity) (leaving : Nat) :
    Reads g.settings.idFunction (g.checkInverseRoom Memory.driver rel source target leaving) := by
  unfold checkInverseRoom
  split
  · exact .pure _
  · exact g.reads_checkRoom _ _ _

theorem reads_checkInverseRemaining (rel : Relationship) (source target : Entity)
    (leaving : Nat) : Reads g.settings.idFunction
      (g.checkInverseRemaining Memory.driver rel source target leaving) := by
  unfold checkInverseRemaining
  split
  · exact .pure _
  · exact g.reads_checkRemaining _ _ _

theorem reads_checkNoneLeft (rel : Relationship) (source : Entity) :
    Reads g.settings.idFunction (g.checkNoneLeft Memory.driver rel source) := by
  unfold checkNoneLeft
  split
  · refine (g.reads_countAt _).bind fun count => ?_
    split
    · exact .lift _
    · exact .pure _
  · exact .pure _

theorem reads_checkNeighborsOf (rel : Relationship) (source : Entity) (kept? : Option String)
    (target : String) : Reads g.settings.idFunction
      (g.checkNeighborsOf Memory.driver rel source kept? target) := by
  unfold checkNeighborsOf
  refine Reads.bind (.lift _) fun type => ?_
  simp only
  split
  · exact .pure _
  · split
    · exact (g.reads_ask rfl).bind fun output => .lift _
    · exact .pure _

theorem reads_checkNeighbors (rel : Relationship) (source : Entity) (kept? : Option String) :
    Reads g.settings.idFunction (g.checkNeighbors Memory.driver rel source kept?) :=
  (Reads.mapM fun target _ => g.reads_checkNeighborsOf rel source kept? target).bind fun _ =>
    .pure _

theorem reads_requireConnected (rel : Relationship) (source target : Entity) :
    Reads g.settings.idFunction (g.requireConnected Memory.driver rel source target) := by
  unfold requireConnected
  refine (g.reads_countBetween rel source target).bind fun between => ?_
  simp only
  split
  · exact Reads.bind (.throw _) fun _ => .pure _
  · exact .pure _

/-! ## The writes come last -/

theorem asks_write (r : EdgeRequest) :
    Asks g.settings.idFunction (g.write Memory.driver r) (Writing [r]) := by
  refine Asks.bind (S := fun e? asked => e? = none ∧ asked = [])
    (Asks.executeIn (R := Writing [r]) rfl fun message => ⟨message, rfl⟩)
    (fun _ => Asks.pure ⟨rfl, rfl⟩) ?_ fun _ _ h => h
  rintro e? asked asked' hasked ⟨rfl, rfl⟩
  exact (List.append_nil asked).trans hasked

theorem asks_pure (warnings : List Breach) :
    Asks g.settings.idFunction (Pure.pure warnings : Task (List Request × Memory) _) (Writing []) :=
  Asks.pure rfl

/-- Every change checks before it writes. -/
theorem asks_steps (c : Change) (rel : Relationship) (properties : List (String × Value)) :
    Asks g.settings.idFunction (c.steps g Memory.driver rel properties)
      (CheckedWriting (c.writes rel properties)) := by
  cases c with
  | connect source _ target _ =>
    refine (g.reads_checkRoom ..).bind_checked fun own => ?_
    refine (g.reads_checkInverseRoom ..).bind_checked fun other => ?_
    exact Asks.checked_of_writing ((g.asks_write _).bind_writing fun _ => g.asks_pure _)
  | disconnect source _ target =>
    refine (g.reads_requireConnected ..).bind_checked fun between => ?_
    refine (g.reads_checkRemaining ..).bind_checked fun own => ?_
    refine (g.reads_checkInverseRemaining ..).bind_checked fun other => ?_
    exact Asks.checked_of_writing ((g.asks_write _).bind_writing fun _ => g.asks_pure _)
  | reconnect source _ old target _ =>
    have hwrites (moved : List Breach) := Asks.checked_of_writing
      ((g.asks_write (.delete rel.edges source.id old.id)).bind_writing fun _ =>
        (g.asks_write (.create rel.edges source.id target.id properties)).bind_writing fun _ =>
          g.asks_pure moved)
    refine (g.reads_requireConnected ..).bind_checked fun between => ?_
    dsimp only
    split
    · exact (Reads.pure []).bind_checked hwrites
    · refine (g.reads_checkInverseRemaining ..).bind_checked fun lost => ?_
      refine (g.reads_checkInverseRoom ..).bind_checked fun gained => ?_
      exact (Reads.pure (lost ++ gained)).bind_checked hwrites
  | disconnectAll source _ =>
    refine (g.reads_checkNoneLeft ..).bind_checked fun own => ?_
    refine (g.reads_checkNeighbors ..).bind_checked fun others => ?_
    exact Asks.checked_of_writing ((g.asks_write _).bind_writing fun _ => g.asks_pure _)
  | replace source _ target _ =>
    refine (g.reads_countBetween ..).bind_checked fun kept => ?_
    refine (g.reads_checkNeighbors ..).bind_checked fun others => ?_
    refine (g.reads_checkInverseRoom ..).bind_checked fun gained => ?_
    exact Asks.checked_of_writing ((g.asks_write _).bind_writing fun _ =>
      (g.asks_write _).bind_writing fun _ => g.asks_pure _)

end Guard

/-! ## Transactions of the scripted database -/

section Transaction

variable {α : Type} {f : IdFunction}

/-- A database in which a transaction was committed. -/
structure Memory.Committed (f : IdFunction) (asked : List EdgeRequest) (m m' : Memory) : Prop where
  journal : m'.journal = m.journal ++ asked.map (.edges f)
  committed : m'.committed = m.committed ++ asked.map (.edges f)
  commits : m'.commits = m.commits + 1
  rollbacks : m'.rollbacks = m.rollbacks

/-- A database in which a transaction was rolled back. -/
structure Memory.RolledBack (f : IdFunction) (asked : List EdgeRequest) (m m' : Memory) : Prop where
  journal : m'.journal = m.journal ++ asked.map (.edges f)
  committed : m'.committed = m.committed
  commits : m'.commits = m.commits
  rollbacks : m'.rollbacks = m.rollbacks + 1

theorem Memory.run_inTransaction_of_ok {steps : Task (List Request × Memory) α} {m ended : Memory}
    {pending : List Request} {a : α} (h : steps.run.run ([], m) = (.ok a, pending, ended)) :
    (Memory.driver.inTransaction steps).run.run m =
      (.ok a, { ended with
        committed := ended.committed ++ pending, commits := ended.commits + 1 }) := by
  have hbegin : Memory.driver.begin.run.run m = (.ok [], m) := rfl
  have hget : (get : Task Memory Memory).run.run m = (.ok m, m) := rfl
  rw [Driver.inTransaction, Task.run_bind_ok hbegin, Task.run_bind_ok hget, h]
  rfl

theorem Memory.run_inTransaction_of_error {steps : Task (List Request × Memory) α}
    {m ended : Memory} {pending : List Request} {e : Error}
    (h : steps.run.run ([], m) = (.error e, pending, ended)) :
    (Memory.driver.inTransaction steps).run.run m =
      (.error e, { ended with rollbacks := ended.rollbacks + 1 }) := by
  have hbegin : Memory.driver.begin.run.run m = (.ok [], m) := rfl
  have hget : (get : Task Memory Memory).run.run m = (.ok m, m) := rfl
  rw [Driver.inTransaction, Task.run_bind_ok hbegin, Task.run_bind_ok hget, h]
  rfl

/-- A transaction is committed where its steps succeed, and else rolled back. -/
theorem Memory.inTransaction_driver {steps : Task (List Request × Memory) α}
    {R : Option Error → List EdgeRequest → Prop} (h : Asks f steps R) (m : Memory) :
    ∃ asked result m', (Memory.driver.inTransaction steps).run.run m = (result, m') ∧
      match result with
      | .ok _ => Memory.Committed f asked m m' ∧ R none asked
      | .error e => Memory.RolledBack f asked m m' ∧ R (some e) asked := by
  obtain ⟨asked, result, tx', m', hrun, hasked, hresult⟩ := h.run [] m
  cases result with
  | ok a =>
    obtain ⟨rfl, hR⟩ := hresult
    refine ⟨asked, .ok a, _, run_inTransaction_of_ok hrun,
      ⟨hasked.journal, ?_, ?_, hasked.rollbacks⟩, hR⟩
    · exact congrArg (· ++ asked.map (.edges f)) hasked.committed
    · exact congrArg (· + 1) hasked.commits
  | error e =>
    refine ⟨asked, .error e, _, run_inTransaction_of_error hrun,
      ⟨hasked.journal, hasked.committed, hasked.commits, ?_⟩, hresult⟩
    exact congrArg (· + 1) hasked.rollbacks

end Transaction

/-! ## Changes -/

namespace Change

/-- Why a change is refused before anything is asked. -/
inductive Refusal (g : Guard) (ids : Identifiers) (c : Change) : Error → Prop
  | undeclared (hrel : c.source.nodeType.relationship? c.name = none) :
    Refusal g ids c (.unknownRelation c.source.typeName c.name)
  | unaccepted {rel : Relationship} {target : Entity} {supplied : Properties}
    (hrel : c.source.nodeType.relationship? c.name = some rel)
    (hcreated : c.created? = some (target, supplied))
    (htarget : rel.targets.any (g.registry.isA target.nodeType) = false) :
    Refusal g ids c
      (.targetTypeMismatch rel.name ("|".intercalate rel.targets) target.typeName)
  | unstorable {rel : Relationship} {target : Entity} {supplied : Properties} {e : Error}
    (hrel : c.source.nodeType.relationship? c.name = some rel)
    (hcreated : c.created? = some (target, supplied))
    (htarget : rel.targets.any (g.registry.isA target.nodeType) = true)
    (hproperties : g.registry.edgeProperties ids rel supplied = .error e) :
    Refusal g ids c e

variable {g : Guard} {ids : Identifiers} {c : Change}

theorem prepared_of_undeclared (hrel : c.source.nodeType.relationship? c.name = none) :
    c.prepared g ids = .error (.unknownRelation c.source.typeName c.name) := by
  have hdeclaration : c.source.declaration c.name =
      .error (.unknownRelation c.source.typeName c.name) := by
    rw [Entity.declaration, hrel]
  unfold prepared Guard.prepare
  rw [hdeclaration]
  split <;> rfl

theorem prepared_of_declared {rel : Relationship}
    (hrel : c.source.nodeType.relationship? c.name = some rel) :
    c.prepared g ids =
      match c.created? with
      | none => .ok (rel, [])
      | some (target, supplied) =>
        if rel.targets.any (g.registry.isA target.nodeType) then
          (g.registry.edgeProperties ids rel supplied).map (rel, ·)
        else
          .error (.targetTypeMismatch rel.name ("|".intercalate rel.targets) target.typeName) := by
  have hdeclaration : c.source.declaration c.name = .ok rel := by
    rw [Entity.declaration, hrel]
  unfold prepared Guard.prepare
  rw [hdeclaration]
  cases c.created? with
  | none => rfl
  | some created =>
    show (g.registry.checkTarget rel created.1 >>= fun _ =>
      g.registry.edgeProperties ids rel created.2 >>= fun properties =>
        Except.ok (rel, properties)) = _
    unfold Registry.checkTarget
    dsimp only
    cases rel.targets.any (g.registry.isA created.1.nodeType) with
    | false => rfl
    | true => cases g.registry.edgeProperties ids rel created.2 <;> rfl

/-- Preparing a change fails exactly where it is refused. -/
theorem prepared_eq_error {e : Error} : c.prepared g ids = .error e ↔ c.Refusal g ids e := by
  constructor
  · intro h
    cases hrel : c.source.nodeType.relationship? c.name with
    | none =>
      rw [prepared_of_undeclared hrel] at h
      cases h
      exact .undeclared hrel
    | some rel =>
      rw [prepared_of_declared hrel] at h
      cases hcreated : c.created? with
      | none => simp [hcreated] at h
      | some created =>
        simp only [hcreated] at h
        split at h
        case isTrue htarget =>
          cases hproperties : g.registry.edgeProperties ids rel created.2 with
          | ok properties => simp [hproperties, Except.map] at h
          | error e' =>
            obtain rfl : e' = e := by simpa [hproperties, Except.map] using h
            exact .unstorable hrel hcreated htarget hproperties
        case isFalse htarget =>
          cases h
          exact .unaccepted hrel hcreated (Bool.eq_false_iff.2 htarget)
  · rintro (hrel | ⟨hrel, hcreated, htarget⟩ | ⟨hrel, hcreated, htarget, hproperties⟩)
    · exact prepared_of_undeclared hrel
    · simp [prepared_of_declared hrel, hcreated, htarget]
    · simp [prepared_of_declared hrel, hcreated, htarget, hproperties, Except.map]

/-- What becomes of a change that the scripted database is asked to make. -/
inductive Outcome (g : Guard) (ids : Identifiers) (c : Change) (m : Memory) :
    Except Error (List Breach) → Memory → Prop
  /-- It is refused, and nothing is asked. -/
  | refused {e : Error} (hrefusal : c.Refusal g ids e) : Outcome g ids c m (.error e) m
  /-- It is rolled back, and was not written at all unless the driver is to blame. -/
  | undone {e : Error} {m' : Memory} {asked : List EdgeRequest}
    (hallowed : ∀ e', ¬ c.Refusal g ids e')
    (hmemory : Memory.RolledBack g.settings.idFunction asked m m')
    (hreading : (∀ message, e ≠ .driver message) → Reading asked) :
    Outcome g ids c m (.error e) m'
  /-- It is committed: all of the checks, and then all of the writes. -/
  | done {warnings : List Breach} {m' : Memory} {rel : Relationship}
    {properties : List (String × Value)} {checks : List EdgeRequest}
    (hprepared : c.prepared g ids = .ok (rel, properties))
    (hmemory : Memory.Committed g.settings.idFunction (checks ++ c.writes rel properties) m m')
    (hchecks : Reading checks) (hwrites : ∀ r ∈ c.writes rel properties, r.modifies = true) :
    Outcome g ids c m (.ok warnings) m'

/-- A guarded change is refused before it begins, rolled back as a whole, or committed as a
whole. -/
theorem run_atomic (g : Guard) (ids : Identifiers) (c : Change) (m : Memory) :
    c.Outcome g ids m ((c.run g Memory.driver ids).run.run m).1
      ((c.run g Memory.driver ids).run.run m).2 := by
  rw [run_eq]
  cases hprepared : c.prepared g ids with
  | error e =>
    have hrun : ((liftM (Except.error e : Except Error (Relationship × List (String × Value)))
        : Task Memory _).run.run m) = (.error e, m) := rfl
    rw [Task.run_bind_error hrun]
    exact .refused (prepared_eq_error.1 hprepared)
  | ok prepared =>
    obtain ⟨rel, properties⟩ := prepared
    have hrun : ((liftM (Except.ok (rel, properties) : Except Error _)
        : Task Memory _).run.run m) = (.ok (rel, properties), m) := rfl
    rw [Task.run_bind_ok hrun]
    obtain ⟨asked, result, m', hrun', hresult⟩ :=
      Memory.inTransaction_driver (g.asks_steps c rel properties) m
    rw [hrun']
    cases result with
    | error e =>
      obtain ⟨hmemory, hreading⟩ := hresult
      refine .undone (fun e' he' => ?_) hmemory hreading
      rw [prepared_eq_error.2 he'] at hprepared
      cases hprepared
    | ok warnings =>
      obtain ⟨hmemory, checks, hchecks, rfl⟩ := hresult
      exact .done hprepared hmemory hchecks fun r => modifies_of_mem_writes

end Change

end GraphMapper
