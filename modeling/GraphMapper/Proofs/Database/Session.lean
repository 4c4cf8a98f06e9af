import Mathlib.Data.List.Induction
import GraphMapper.Database.Session
import GraphMapper.Proofs.Database.Script

/-!
# What a session leaves behind

A session takes the steps of a client that uses each of its transactions from
where it begins to where it ends, in any order otherwise (`Interleaving`).

What the database holds at the end can be read off the log: every request, those
that count, and how the script was used (`Accounts`).  A request counts once it
is answered, if it runs alone, and else when its transaction is committed, with
all that was answered there (`counted`).
-/

namespace GraphMapper

namespace Memory

namespace Session

/-! ## Steps in order -/

namespace Step

def isBegin : Step → Bool
  | begin => true
  | _ => false

/-- The request that a step runs. -/
def request? : Step → Option Request
  | execute _ r => some r
  | _ => none

/-- The transaction that a step uses. -/
def transaction? : Step → Option Nat
  | execute tx? _ => tx?
  | begin => none
  | finish tx _ => some tx

/-- The transaction that a step ends. -/
def ended? : Step → Option Nat
  | finish tx _ => some tx
  | _ => none

end Step

/-- The number of transactions that began. -/
def begun (steps : List Step) : Nat := steps.countP Step.isBegin

/-- The transactions that ended. -/
def ended (steps : List Step) : List Nat := steps.filterMap Step.ended?

/-- A step uses no transaction but one that began before it and has not ended. -/
def Allowed (before : List Step) (step : Step) : Prop :=
  ∀ tx ∈ step.transaction?, tx < begun before ∧ tx ∉ ended before

/-- Steps that are allowed, each after those before it. -/
def Interleaving (steps : List Step) : Prop :=
  ∀ i (h : i < steps.length), Allowed (steps.take i) steps[i]

instance (before : List Step) (step : Step) : Decidable (Allowed before step) :=
  inferInstanceAs (Decidable (∀ tx ∈ step.transaction?, tx < begun before ∧ tx ∉ ended before))

instance (steps : List Step) : Decidable (Interleaving steps) :=
  inferInstanceAs (Decidable (∀ i (h : i < steps.length), Allowed (steps.take i) steps[i]))

/-! ## What a log says -/

/-- A request, unless its result is a failure. -/
def ifAnswered (r : Request) : Except Error QueryOutput → List Request
  | .ok _ => [r]
  | .error _ => []

namespace Event

/-- The step at which something happened. -/
def step : Event → Step
  | answer tx? r _ => .execute tx? r
  | begin => .begin
  | finish tx ending => .finish tx ending

def exchange? : Event → Option Script.Exchange
  | answer _ r result => some (r, result)
  | _ => none

/-- The transaction that is committed. -/
def committed? : Event → Option Nat
  | finish tx .commit => some tx
  | _ => none

/-- The request that is answered in a transaction, or alone. -/
def answered (tx? : Option Nat) : Event → List Request
  | answer tx?' r result => if tx?' = tx? then ifAnswered r result else []
  | _ => []

end Event

/-- The requests with their results. -/
def exchanges (log : List Event) : List Script.Exchange := log.filterMap Event.exchange?

/-- The transactions that were committed. -/
def commits (log : List Event) : List Nat := log.filterMap Event.committed?

/-- The requests that were answered in a transaction, or alone. -/
def answered (tx? : Option Nat) (log : List Event) : List Request :=
  log.flatMap (Event.answered tx?)

/-- The requests that begin to count at an event. -/
def Event.counts (before : List Event) : Event → List Request
  | answer none r result => ifAnswered r result
  | finish tx .commit => Session.answered (some tx) before
  | _ => []

/-- The requests that begin to count in the rest of a log. -/
def counted (before : List Event) : List Event → List Request
  | [] => []
  | e :: rest => e.counts before ++ counted (before ++ [e]) rest

/-- What a session has to show for its log. -/
structure Accounts (script : Script) (steps : List Step) (s : Session) : Prop where
  /-- Every step has happened. -/
  happened : s.log.map Event.step = steps
  /-- Every request is journalled, in order. -/
  journal : s.memory.journal = steps.filterMap Step.request?
  /-- What counts does so from where it began to. -/
  committed : s.memory.committed = counted [] s.log
  /-- It is what was answered alone, and everything that was answered in a transaction that is
  committed. -/
  perm : s.memory.committed.Perm
    (answered none s.log ++ (commits s.log).flatMap fun tx => answered (some tx) s.log)
  /-- A transaction ends once, as committed or otherwise. -/
  endsOnce : (ended steps).Nodup
  /-- Each request is answered by the first entry that answers it and is left, and an entry that
  does not stay is used by the first request that reaches it. -/
  replies : ∃ uses, script.Serves (exchanges s.log) uses ∧
    s.memory.script = (script.left uses).map Prod.fst ∧
    ∀ place e, script[place]? = some e → e.persistent = false → ∀ i,
      uses[i]? = some (some place) ↔
        script.Reaches (exchanges s.log) uses place i ∧
          ∀ j < i, ¬ script.Reaches (exchanges s.log) uses place j
  /-- What is left of the script is in its order. -/
  order : s.memory.script.Sublist script
  persistent : s.memory.script.filter ScriptEntry.persistent =
    script.filter ScriptEntry.persistent

variable {script : Script} {steps : List Step} {step : Step} {log : List Event} {e : Event}
  {s : Session}

@[simp] theorem exchanges_concat :
    exchanges (log ++ [e]) = exchanges log ++ e.exchange?.toList := by
  cases h : e.exchange? <;> simp [exchanges, h]

@[simp] theorem commits_concat :
    commits (log ++ [e]) = commits log ++ e.committed?.toList := by
  cases h : e.committed? <;> simp [commits, h]

@[simp] theorem answered_concat (tx? : Option Nat) :
    answered tx? (log ++ [e]) = answered tx? log ++ e.answered tx? := by
  simp [answered]

@[simp] theorem counted_concat (before : List Event) :
    counted before (log ++ [e]) = counted before log ++ e.counts (before ++ log) := by
  induction log generalizing before with
  | nil => simp [counted]
  | cons e' rest ih => simp [counted, ih]

@[simp] theorem begun_concat :
    begun (steps ++ [step]) = begun steps + if step.isBegin then 1 else 0 := by
  simp [begun]

@[simp] theorem ended_concat : ended (steps ++ [step]) = ended steps ++ step.ended?.toList := by
  cases h : step.ended? <;> simp [ended, h]

/-- The requests of a log are those of its steps. -/
theorem map_fst_exchanges (log : List Event) :
    (exchanges log).map Prod.fst = (log.map Event.step).filterMap Step.request? := by
  rw [exchanges, List.map_filterMap, List.filterMap_map]
  refine List.filterMap_congr fun e _ => ?_
  cases e <;> rfl

/-! ## Interleavings -/

theorem Interleaving.init (h : Interleaving (steps ++ [step])) : Interleaving steps := by
  intro i hi
  have hallowed := h i (by simp; omega)
  rwa [List.take_append_of_le_length (Nat.le_of_lt hi), List.getElem_append_left hi] at hallowed

theorem Interleaving.last (h : Interleaving (steps ++ [step])) : Allowed steps step := by
  have hallowed := h steps.length (by simp)
  rwa [List.take_left, List.getElem_concat_length rfl] at hallowed

theorem Interleaving.nodup_ended (h : Interleaving steps) : (ended steps).Nodup := by
  induction steps using List.reverseRecOn with
  | nil => exact List.nodup_nil
  | append_singleton steps step ih =>
    rw [ended_concat]
    cases step with
    | finish tx ending =>
      have hnew : tx ∉ ended steps := (h.last tx rfl).2
      rw [List.nodup_append]
      refine ⟨ih h.init, by simp [Step.ended?], ?_⟩
      rintro tx' htx' _ hlast rfl
      simp only [Step.ended?, Option.toList_some, List.mem_singleton] at hlast
      exact hnew (hlast ▸ htx')
    | execute tx? r => simpa [Step.ended?] using ih h.init
    | begin => simpa [Step.ended?] using ih h.init

/-- What is committed has ended. -/
theorem mem_ended_of_commits {tx : Nat} (h : tx ∈ commits log) :
    tx ∈ ended (log.map Event.step) := by
  obtain ⟨e, he, hcommits⟩ := List.mem_filterMap.1 h
  refine List.mem_filterMap.2 ⟨e.step, List.mem_map_of_mem he, ?_⟩
  cases e with
  | finish tx' ending =>
    cases ending with
    | commit => exact hcommits
    | rollback => cases hcommits
    | drop => cases hcommits
  | answer tx? r result => cases hcommits
  | begin => cases hcommits

/-- What counts is what was answered alone or in a transaction that is committed. -/
theorem counted_perm (h : Interleaving (log.map Event.step)) :
    (counted [] log).Perm
      (answered none log ++ (commits log).flatMap fun tx => answered (some tx) log) := by
  induction log using List.reverseRecOn with
  | nil => exact .refl _
  | append_singleton log e ih =>
    rw [List.map_append, List.map_singleton] at h
    have ih := ih h.init
    have hlast := h.last
    rw [counted_concat, List.nil_append]
    cases e with
    | answer tx? r result =>
      have hcommits : commits (log ++ [.answer tx? r result]) = commits log := by
        simp [Event.committed?]
      rw [hcommits]
      cases tx? with
      | none =>
        have hothers (tx : Nat) :
            answered (some tx) (log ++ [.answer none r result]) = answered (some tx) log := by
          simp [Event.answered]
        simp only [hothers]
        simp only [Event.counts, answered_concat, Event.answered, if_true]
        refine (ih.append_right _).trans ?_
        rw [List.append_assoc, List.append_assoc]
        exact List.perm_append_comm.append_left _
      | some tx =>
        -- The transaction is open, so it is not one of those that are committed.
        have hopen : tx ∉ commits log :=
          fun hmem => (hlast tx rfl).2 (mem_ended_of_commits hmem)
        have hothers : (commits log).flatMap
            (fun tx' => answered (some tx') (log ++ [.answer (some tx) r result])) =
            (commits log).flatMap fun tx' => answered (some tx') log := by
          refine List.flatMap_congr fun tx' htx' => ?_
          have hne : tx ≠ tx' := fun heq => hopen (heq ▸ htx')
          simp [Event.answered, hne]
        rw [hothers]
        simpa [Event.counts, Event.answered] using ih
    | begin => simpa [Event.counts, Event.answered, Event.committed?] using ih
    | finish tx ending =>
      cases ending with
      | commit =>
        simp only [Event.counts, answered_concat, commits_concat, Event.answered,
          Event.committed?, List.append_nil, Option.toList_some, List.flatMap_append,
          List.flatMap_singleton]
        rw [← List.append_assoc]
        exact ih.append_right _
      | rollback => simpa [Event.counts, Event.answered, Event.committed?] using ih
      | drop => simpa [Event.counts, Event.answered, Event.committed?] using ih

/-! ## What a step does -/

theorem run_execute (r : Request) (m : Memory) :
    (Memory.execute r).run.run m =
      ((m.reply r).1.result, { (m.reply r).2 with
        committed := (m.reply r).2.committed ++ ifAnswered r (m.reply r).1.result }) := by
  have hrun : (Memory.execute r).run.run m =
      ((liftM (m.reply r).1.result : Task Memory QueryOutput) >>= fun output => do
        modify fun m => { m with committed := m.committed ++ [r] }
        return output).run.run (m.reply r).2 := rfl
  rw [hrun]
  cases (m.reply r).1.result with
  | ok output => rfl
  | error e =>
    rw [ifAnswered, List.append_nil]
    rfl

theorem run_executeIn (r : Request) (pending : List Request) (m : Memory) :
    (Memory.executeIn r).run.run (pending, m) =
      ((m.reply r).1.result, pending ++ ifAnswered r (m.reply r).1.result, (m.reply r).2) := by
  have hrun : (Memory.executeIn r).run.run (pending, m) =
      ((liftM (m.reply r).1.result : Task (List Request × Memory) QueryOutput) >>= fun output => do
        set (pending ++ [r], (m.reply r).2)
        return output).run.run (pending, (m.reply r).2) := rfl
  rw [hrun]
  cases (m.reply r).1.result with
  | ok output => rfl
  | error e =>
    rw [ifAnswered, List.append_nil]
    rfl

/-- What a database does at an event. -/
structure Effect (m : Memory) (before : List Event) (e : Event) (m' : Memory) : Prop where
  journal : m'.journal = m.journal ++ (e.exchange?.map Prod.fst).toList
  committed : m'.committed = m.committed ++ e.counts before
  script : match e.exchange? with
    | some x => x.2 = (m.reply x.1).1.result ∧ m'.script = (m.reply x.1).2.script
    | none => m'.script = m.script

/-- What the transactions of a session hold after some steps. -/
structure Open (steps : List Step) (s : Session) : Prop where
  length : s.transactions.length = begun steps
  pending : ∀ tx, tx < begun steps → tx ∉ ended steps →
    s.transactions[tx]? = some (some (answered (some tx) s.log))
  unused : ∀ tx, begun steps ≤ tx → tx ∉ ended steps ∧ answered (some tx) s.log = []

namespace Open

variable {tx : Nat} {memory : Memory} {r : Request} {result : Except Error QueryOutput}

theorem start (script : Script) : Open [] (Session.start script) :=
  ⟨rfl, nofun, fun _ _ => ⟨List.not_mem_nil, rfl⟩⟩

theorem pending? (h : Open steps s) (htx : tx < begun steps ∧ tx ∉ ended steps) :
    s.pending? tx = some (answered (some tx) s.log) := by
  rw [Session.pending?, h.pending tx htx.1 htx.2]
  rfl

theorem alone (h : Open steps s) :
    Open (steps ++ [.execute none r])
      ⟨memory, s.transactions, s.log ++ [.answer none r result]⟩ := by
  have hbegun : begun (steps ++ [.execute none r]) = begun steps := by simp [Step.isBegin]
  have hended : ended (steps ++ [.execute none r]) = ended steps := by simp [Step.ended?]
  have hanswered (tx : Nat) :
      answered (some tx) (s.log ++ [.answer none r result]) = answered (some tx) s.log := by
    simp [Event.answered]
  refine ⟨?_, ?_, ?_⟩
  · rw [hbegun]
    exact h.length
  · simpa only [hbegun, hended, hanswered] using h.pending
  · simpa only [hbegun, hended, hanswered] using h.unused

theorem answer (h : Open steps s) (htx : tx < begun steps) :
    Open (steps ++ [.execute (some tx) r])
      ⟨memory, s.transactions.set tx (some (answered (some tx) s.log ++ ifAnswered r result)),
        s.log ++ [.answer (some tx) r result]⟩ := by
  have hbegun : begun (steps ++ [.execute (some tx) r]) = begun steps := by simp [Step.isBegin]
  have hended : ended (steps ++ [.execute (some tx) r]) = ended steps := by simp [Step.ended?]
  have hothers {tx' : Nat} (hne : tx ≠ tx') :
      answered (some tx') (s.log ++ [.answer (some tx) r result]) = answered (some tx') s.log := by
    simp [Event.answered, hne]
  refine ⟨?_, fun tx' htx' hopen => ?_, fun tx' htx' => ?_⟩
  · rw [hbegun, List.length_set]
    exact h.length
  · rw [hbegun] at htx'
    rw [hended] at hopen
    by_cases heq : tx = tx'
    · subst heq
      rw [List.getElem?_set_self (h.length ▸ htx), answered_concat, Event.answered, if_pos rfl]
    · rw [List.getElem?_set_ne heq, hothers heq]
      exact h.pending tx' htx' hopen
  · rw [hbegun] at htx'
    rw [hended, hothers (Nat.ne_of_lt (Nat.lt_of_lt_of_le htx htx'))]
    exact h.unused tx' htx'

theorem begin (h : Open steps s) :
    Open (steps ++ [.begin]) ⟨memory, s.transactions ++ [some []], s.log ++ [.begin]⟩ := by
  have hbegun : begun (steps ++ [.begin]) = begun steps + 1 := by simp [Step.isBegin]
  have hended : ended (steps ++ [.begin]) = ended steps := by simp [Step.ended?]
  have hanswered (tx : Nat) : answered (some tx) (s.log ++ [.begin]) = answered (some tx) s.log := by
    simp [Event.answered]
  refine ⟨?_, fun tx htx hopen => ?_, fun tx htx => ?_⟩
  · rw [hbegun, List.length_append, h.length]
    rfl
  · rw [hended] at hopen
    rw [hanswered]
    rcases Nat.lt_or_eq_of_le (Nat.le_of_lt_succ (hbegun ▸ htx)) with htx | rfl
    · rw [List.getElem?_append_left (h.length ▸ htx)]
      exact h.pending tx htx hopen
    · rw [← h.length, List.getElem?_concat_length, h.length, (h.unused _ (Nat.le_refl _)).2]
  · rw [hended, hanswered]
    rw [hbegun] at htx
    exact h.unused tx (Nat.le_of_succ_le htx)

theorem finish (h : Open steps s) (htx : tx < begun steps) (ending : Ending) :
    Open (steps ++ [.finish tx ending])
      ⟨memory, s.transactions.set tx none, s.log ++ [.finish tx ending]⟩ := by
  have hbegun : begun (steps ++ [.finish tx ending]) = begun steps := by simp [Step.isBegin]
  have hended : ended (steps ++ [.finish tx ending]) = ended steps ++ [tx] := by
    simp [Step.ended?]
  have hanswered (tx' : Nat) :
      answered (some tx') (s.log ++ [.finish tx ending]) = answered (some tx') s.log := by
    simp [Event.answered]
  refine ⟨?_, fun tx' htx' hopen => ?_, fun tx' htx' => ?_⟩
  · rw [hbegun, List.length_set]
    exact h.length
  · rw [hended, List.mem_append, List.mem_singleton, not_or] at hopen
    rw [List.getElem?_set_ne (Ne.symm hopen.2), hanswered]
    exact h.pending tx' (hbegun ▸ htx') hopen.1
  · rw [hbegun] at htx'
    have hne : tx' ≠ tx := Ne.symm (Nat.ne_of_lt (Nat.lt_of_lt_of_le htx htx'))
    rw [hended, hanswered, List.mem_append, List.mem_singleton, not_or]
    exact ⟨⟨(h.unused tx' htx').1, hne⟩, (h.unused tx' htx').2⟩

end Open

theorem Ending.apply_commit (pending : List Request) (m : Memory) :
    Ending.commit.apply pending m =
      { m with committed := m.committed ++ pending, commits := m.commits + 1 } := rfl

theorem Ending.apply_rollback (pending : List Request) (m : Memory) :
    Ending.rollback.apply pending m = { m with rollbacks := m.rollbacks + 1 } := rfl

theorem Ending.effect_apply (tx : Nat) (m : Memory) (before : List Event) (ending : Ending) :
    Effect m before (.finish tx ending) (ending.apply (answered (some tx) before) m) := by
  have hnothing : m.committed = m.committed ++ [] := (List.append_nil _).symm
  have hjournal : m.journal = m.journal ++ [] := (List.append_nil _).symm
  cases ending with
  | commit =>
    rw [Ending.apply_commit]
    exact ⟨hjournal, rfl, rfl⟩
  | rollback =>
    rw [Ending.apply_rollback]
    exact ⟨hjournal, hnothing, rfl⟩
  | drop => exact ⟨hjournal, hnothing, rfl⟩

theorem step_execute (s : Session) (r : Request) :
    s.step (.execute none r) = some {
      s with
      memory := { (s.memory.reply r).2 with
        committed := (s.memory.reply r).2.committed ++ ifAnswered r (s.memory.reply r).1.result }
      log := s.log ++ [.answer none r (s.memory.reply r).1.result] } := by
  rw [Session.step, run_execute]

theorem step_executeIn {tx : Nat} {pending : List Request} (h : s.pending? tx = some pending)
    (r : Request) :
    s.step (.execute (some tx) r) = some {
      memory := (s.memory.reply r).2
      transactions :=
        s.transactions.set tx (some (pending ++ ifAnswered r (s.memory.reply r).1.result))
      log := s.log ++ [.answer (some tx) r (s.memory.reply r).1.result] } := by
  rw [Session.step, h, Option.bind_eq_bind, Option.bind_some, run_executeIn]
  rfl

theorem step_finish {tx : Nat} {pending : List Request} (h : s.pending? tx = some pending)
    (ending : Ending) :
    s.step (.finish tx ending) = some {
      memory := ending.apply pending s.memory
      transactions := s.transactions.set tx none
      log := s.log ++ [.finish tx ending] } := by
  rw [Session.step, h, Option.bind_eq_bind, Option.bind_some]
  rfl

/-- A step that uses no transaction but one that is open can be taken. -/
theorem step_allowed (h : Open steps s) (hstep : Allowed steps step) :
    ∃ e s', s.step step = some s' ∧ s'.log = s.log ++ [e] ∧ e.step = step ∧
      Effect s.memory s.log e s'.memory ∧ Open (steps ++ [step]) s' := by
  cases step with
  | execute tx? r =>
    cases tx? with
    | none =>
      refine ⟨_, _, step_execute s r, rfl, rfl, ⟨?_, ?_, rfl, rfl⟩, h.alone⟩
      · exact reply_journal s.memory r
      · rw [reply_committed]
        rfl
    | some tx =>
      have htx := hstep tx rfl
      refine ⟨_, _, step_executeIn (h.pending? htx) r, rfl, rfl, ⟨?_, ?_, rfl, rfl⟩,
        h.answer htx.1⟩
      · exact reply_journal s.memory r
      · rw [reply_committed]
        exact (List.append_nil _).symm
  | begin =>
    refine ⟨_, _, rfl, rfl, rfl, ⟨?_, ?_, rfl⟩, h.begin⟩
    · exact (List.append_nil _).symm
    · exact (List.append_nil _).symm
  | finish tx ending =>
    have htx := hstep tx rfl
    exact ⟨_, _, step_finish (h.pending? htx) ending, rfl, rfl, ending.effect_apply tx _ _,
      h.finish htx.1 ending⟩

/-! ## What a run leaves -/

/-- What a database has kept of a log. -/
structure Kept (script : Script) (log : List Event) (m : Memory) : Prop where
  journal : m.journal = (exchanges log).map Prod.fst
  committed : m.committed = counted [] log
  replies : ∃ uses, script.Serves (exchanges log) uses ∧
    m.script = (script.left uses).map Prod.fst

namespace Kept

variable {m m' : Memory}

theorem nil (script : Script) : Kept script [] (Session.start script).memory := by
  refine ⟨rfl, rfl, [], Script.Serves.nil script, ?_⟩
  rw [Script.left_nil, List.zipIdx_map_fst]
  rfl

theorem concat (h : Kept script log m) (he : Effect m log e m') : Kept script (log ++ [e]) m' := by
  obtain ⟨uses, hserves, hscript⟩ := h.replies
  refine ⟨?_, ?_, ?_⟩
  · rw [he.journal, h.journal, exchanges_concat, List.map_append]
    cases e.exchange? <;> rfl
  · rw [he.committed, h.committed, counted_concat, List.nil_append]
  · have hdone := he.script
    rw [exchanges_concat]
    cases hx : e.exchange? with
    | none =>
      rw [hx] at hdone
      rw [Option.toList_none, List.append_nil]
      exact ⟨uses, hserves, hdone.trans hscript⟩
    | some x =>
      rw [hx] at hdone
      obtain ⟨use, hserves', hscript'⟩ := serves_reply hserves hscript x.1
      rw [Option.toList_some, show x = (x.1, (m.reply x.1).1.result) from Prod.ext rfl hdone.1]
      exact ⟨uses ++ [use], hserves', hdone.2.trans hscript'⟩

end Kept

theorem run_concat :
    run script (steps ++ [step]) = (run script steps).bind fun s => s.step step := by
  simp [run]

/-- Steps that are allowed are taken, and the log is of those steps. -/
theorem run_interleaving (script : Script) (h : Interleaving steps) :
    ∃ s, run script steps = some s ∧ s.log.map Event.step = steps ∧ Open steps s ∧
      Kept script s.log s.memory := by
  induction steps using List.reverseRecOn with
  | nil => exact ⟨_, rfl, rfl, Open.start script, Kept.nil script⟩
  | append_singleton steps step ih =>
    obtain ⟨s, hrun, hlog, hopen, hkept⟩ := ih h.init
    obtain ⟨e, s', hstep, hlog', rfl, heffect, hopen'⟩ := step_allowed hopen h.last
    refine ⟨s', ?_, ?_, hopen', ?_⟩
    · rw [run_concat, hrun, Option.bind_some, hstep]
    · rw [hlog', List.map_append, hlog]
      rfl
    · rw [hlog']
      exact hkept.concat heffect

/-- Whatever the order in which a client uses the database and its transactions, the session goes
through, and the database can account for it. -/
theorem run_accounts (script : Script) (steps : List Step) (h : Interleaving steps) :
    ∃ s, run script steps = some s ∧ Accounts script steps s := by
  obtain ⟨s, hrun, hlog, _, hkept⟩ := run_interleaving script h
  obtain ⟨uses, hserves, hscript⟩ := hkept.replies
  refine ⟨s, hrun, ?_⟩
  exact {
    happened := hlog
    journal := by rw [hkept.journal, map_fst_exchanges, hlog]
    committed := hkept.committed
    perm := hkept.committed ▸ counted_perm (hlog ▸ h)
    endsOnce := h.nodup_ended
    replies := ⟨uses, hserves, hscript, fun _ _ he honce => hserves.used_iff_first he honce⟩
    order := hscript ▸ Script.sublist_left script uses
    persistent := hscript ▸ Script.filter_persistent_left script uses }

end Session

end Memory

namespace Sample

/-- A request without parameters. -/
def asking (text : String) : Request := .statement ⟨text, []⟩

/-- A script with an entry that fails once, and one that stays. -/
def refusing : Script :=
  [⟨"CREATE", .failure "busy", false⟩, ⟨"RETURN", .output .empty, true⟩]

/-- Two transactions that are open at the same time. -/
def overlapping : List Memory.Session.Step :=
  [.begin, .begin, .execute (some 0) (asking "CREATE (a)"), .execute (some 1) (asking "RETURN 1"),
    .execute none (asking "RETURN 2"), .execute (some 0) (asking "CREATE (b)"), .finish 1 .rollback,
    .finish 0 .commit]

end Sample

theorem Memory.Session.run_accounts_overlapping :
    Interleaving Sample.overlapping ∧
      ∃ s, run Sample.refusing Sample.overlapping = some s ∧
        Accounts Sample.refusing Sample.overlapping s ∧
        s.memory.committed = [Sample.asking "RETURN 2", Sample.asking "CREATE (b)"] := by
  have hsteps : Interleaving Sample.overlapping := by decide
  obtain ⟨s, hrun, haccounts⟩ := run_accounts Sample.refusing Sample.overlapping hsteps
  have hcommitted : (run Sample.refusing Sample.overlapping).map (·.memory.committed) =
      some [Sample.asking "RETURN 2", Sample.asking "CREATE (b)"] := rfl
  rw [hrun, Option.map_some, Option.some_inj] at hcommitted
  exact ⟨hsteps, s, hrun, haccounts, hcommitted⟩

end GraphMapper
