import GraphMapper.Database.Memory

/-!
# Sessions with the scripted database

A client runs requests alone and in any number of transactions that are open at
the same time.  They share the database, while each keeps its own answered
requests.  What has ended cannot be used again, so a step that names such a
transaction, or one that has not begun, is none.
-/

namespace GraphMapper

namespace Memory

/-- How a transaction ends.  One that is dropped just goes away. -/
inductive Session.Ending where
  | commit
  | rollback
  | drop
deriving DecidableEq

/-- What a client does next.  A transaction is named by the number of those that began before it. -/
inductive Session.Step where
  /-- Runs a request, in a transaction or alone. -/
  | execute (tx? : Option Nat) (r : Request)
  | begin
  | finish (tx : Nat) (ending : Session.Ending)

/-- What happened at a step. -/
inductive Session.Event where
  | answer (tx? : Option Nat) (r : Request) (result : Except Error QueryOutput)
  | begin
  | finish (tx : Nat) (ending : Session.Ending)

/-- A scripted database with its open transactions. -/
structure Session where
  memory : Memory
  /-- The answered requests of each transaction that began, until it ends. -/
  transactions : List (Option (List Request))
  /-- Everything that happened. -/
  log : List Session.Event

namespace Session

/-- What a transaction with some answered requests does to the database when it ends. -/
def Ending.apply (pending : List Request) (m : Memory) : Ending → Memory
  | commit => ((Memory.commit pending).run.run m).2
  | rollback => ((Memory.rollback pending).run.run m).2
  | drop => m

/-- A session that begins, with a script. -/
def start (script : Script) : Session := ⟨⟨script, [], [], 0, 0⟩, [], []⟩

/-- The answered requests of an open transaction. -/
def pending? (s : Session) (tx : Nat) : Option (List Request) := (s.transactions[tx]?).join

/-- A step, unless it names a transaction that is not open.  A new transaction has answered
nothing. -/
def step (s : Session) : Step → Option Session
  | .execute none r =>
    let (result, memory) := (Memory.execute r).run.run s.memory
    some { s with memory, log := s.log ++ [.answer none r result] }
  | .execute (some tx) r => do
    let (result, pending, memory) := (Memory.executeIn r).run.run (← s.pending? tx, s.memory)
    return {
      memory
      transactions := s.transactions.set tx (some pending)
      log := s.log ++ [.answer (some tx) r result] }
  | .begin =>
    some { s with transactions := s.transactions ++ [some []], log := s.log ++ [.begin] }
  | .finish tx ending => do
    let pending ← s.pending? tx
    return {
      memory := ending.apply pending s.memory
      transactions := s.transactions.set tx none
      log := s.log ++ [.finish tx ending] }

/-- Steps that are taken one after the other, from the beginning. -/
def run (script : Script) (steps : List Step) : Option Session := steps.foldlM step (start script)

end Session

end Memory

end GraphMapper
