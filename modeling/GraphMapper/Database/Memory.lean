import GraphMapper.Database.Driver

/-!
# The scripted database

A database that answers from a script: the first entry whose pattern occurs in
a statement's text gives the reply, and is used up by it unless it is to stay.
A statement that no entry matches has an empty result.

Every request is journalled.  It counts as committed once it is answered, if it
runs alone, and else with its transaction.
-/

namespace GraphMapper

/-- What a script entry answers. -/
inductive Reply where
  | output (o : QueryOutput)
  | failure (message : String)

/-- A reply as a result. -/
def Reply.result : Reply → Except Error QueryOutput
  | output o => .ok o
  | failure message => .error (.driver ("Statement failed: " ++ message))

/-- An entry of a script. -/
structure ScriptEntry where
  /-- The text that a statement has to contain. -/
  pattern : String
  reply : Reply
  /-- Whether the entry stays when it is used. -/
  persistent : Bool

/-- Whether an entry answers a statement. -/
def ScriptEntry.answers (e : ScriptEntry) (text : String) : Bool :=
  Text.occursIn e.pattern.toList text.toList

/-- Script entries, in the order in which they are tried. -/
abbrev Script : Type := List ScriptEntry

/-- The reply to a statement, and what is left of the script. -/
def Script.take? (text : String) : Script → Option (Reply × Script)
  | [] => none
  | e :: rest =>
    if e.answers text then some (e.reply, if e.persistent then e :: rest else rest)
    else (take? text rest).map fun (reply, rest) => (reply, e :: rest)

/-- The state of a scripted database. -/
structure Memory where
  script : Script
  /-- Every request so far. -/
  journal : List Request
  /-- The requests that count. -/
  committed : List Request
  commits : Nat
  rollbacks : Nat

namespace Memory

/-- The database without a script or a history. -/
def empty : Memory := ⟨[], [], [], 0, 0⟩

/-- The database with an entry at the end of its script. -/
def withEntry (m : Memory) (e : ScriptEntry) : Memory := { m with script := m.script ++ [e] }

/-- The reply to a request, after the request is journalled. -/
def reply (m : Memory) (r : Request) : Reply × Memory :=
  let m := { m with journal := m.journal ++ [r] }
  match Script.take? r.text m.script with
  | none => (.output .empty, m)
  | some (reply, script) => (reply, { m with script })

/-- Runs a request outside any transaction. -/
def execute (r : Request) : Task Memory QueryOutput := do
  let (reply, m) := (← get).reply r
  set m
  let output ← reply.result
  modify fun m => { m with committed := m.committed ++ [r] }
  return output

/-- Runs a request in a transaction with some requests answered so far. -/
def executeIn (r : Request) : Task (List Request × Memory) QueryOutput := do
  let (pending, m) ← get
  let (reply, m) := m.reply r
  set (pending, m)
  let output ← reply.result
  set (pending ++ [r], m)
  return output

/-- Makes the requests of a transaction count. -/
def commit (pending : List Request) : Task Memory Unit :=
  modify fun m => { m with committed := m.committed ++ pending, commits := m.commits + 1 }

/-- Forgets the requests of a transaction. -/
def rollback (_pending : List Request) : Task Memory Unit :=
  modify fun m => { m with rollbacks := m.rollbacks + 1 }

/-- Access to a scripted database.  A transaction is the list of its answered requests. -/
def driver : Driver Memory (List Request) where
  execute
  begin := pure []
  executeIn
  commit
  rollback

end Memory

end GraphMapper
