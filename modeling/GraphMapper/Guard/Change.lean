import GraphMapper.Guard.Mutation

/-!
# Changes as data

The five guarded changes of a node's edges are one type, so that what holds of
all of them is said once.  A change is prepared before its transaction begins;
in it come the steps, the last of which are the writes.
-/

namespace GraphMapper

/-- A guarded change of a node's edges. -/
inductive Change where
  | connect (source : Entity) (name : String) (target : Entity) (supplied : Properties)
  | disconnect (source : Entity) (name : String) (target : Entity)
  | reconnect (source : Entity) (name : String) (old target : Entity) (supplied : Properties)
  | disconnectAll (source : Entity) (name : String)
  | replace (source : Entity) (name : String) (target : Entity) (supplied : Properties)

namespace Change

variable {σ τ : Type}

/-- The node whose edges are changed. -/
def source : Change → Entity
  | connect source .. | disconnect source .. | reconnect source .. | disconnectAll source ..
  | replace source .. => source

/-- The name under which the source declares the edges. -/
def name : Change → String
  | connect _ name .. | disconnect _ name .. | reconnect _ name .. | disconnectAll _ name
  | replace _ name .. => name

/-- The node that gains an edge, with the properties supplied for it, unless edges are only
removed. -/
def created? : Change → Option (Entity × Properties)
  | connect _ _ target supplied | reconnect _ _ _ target supplied
  | replace _ _ target supplied => some (target, supplied)
  | disconnect .. | disconnectAll .. => none

/-- Makes a change. -/
def run (g : Guard) (d : Driver σ τ) (ids : Identifiers) : Change → Task σ (List Breach)
  | connect source name target supplied => g.connect d ids source name target supplied
  | disconnect source name target => g.disconnect d source name target
  | reconnect source name old target supplied => g.reconnect d ids source name old target supplied
  | disconnectAll source name => g.disconnectAll d source name
  | replace source name target supplied => g.replace d ids source name target supplied

/-- What a change needs before it begins: the declaration, and the properties to be stored. -/
def prepared (g : Guard) (ids : Identifiers) (c : Change) :
    Except Error (Relationship × List (String × Value)) :=
  match c.created? with
  | some (target, supplied) => g.prepare ids c.source c.name target supplied
  | none => do return (← c.source.declaration c.name, [])

/-- The steps of a change in its transaction. -/
def steps (g : Guard) (d : Driver σ τ) (rel : Relationship) (properties : List (String × Value)) :
    Change → Task (τ × σ) (List Breach)
  | connect source _ target _ => g.connectSteps d rel source target properties
  | disconnect source _ target => g.disconnectSteps d rel source target
  | reconnect source _ old target _ => g.reconnectSteps d rel source old target properties
  | disconnectAll source _ => g.disconnectAllSteps d rel source
  | replace source _ target _ => g.replaceSteps d rel source target properties

/-- The writes of a change, in order. -/
def writes (rel : Relationship) (properties : List (String × Value)) : Change → List EdgeRequest
  | connect source _ target _ => [.create rel.edges source.id target.id properties]
  | disconnect source _ target => [.delete rel.edges source.id target.id]
  | reconnect source _ old target _ =>
    [.delete rel.edges source.id old.id, .create rel.edges source.id target.id properties]
  | disconnectAll source _ => [.deleteAll rel.edges source.id]
  | replace source _ target _ =>
    [.deleteAll rel.edges source.id, .create rel.edges source.id target.id properties]

theorem modifies_of_mem_writes {rel : Relationship} {properties : List (String × Value)}
    {c : Change} {r : EdgeRequest} (h : r ∈ c.writes rel properties) : r.modifies = true := by
  cases c <;> simp only [writes, List.mem_cons, List.not_mem_nil, or_false] at h
  case reconnect | replace => rcases h with rfl | rfl <;> rfl
  all_goals
    subst h
    rfl

/-- A change is prepared, and its steps run in one transaction. -/
theorem run_eq (g : Guard) (d : Driver σ τ) (ids : Identifiers) (c : Change) :
    c.run g d ids = (do
      let (rel, properties) ← c.prepared g ids
      d.inTransaction (c.steps g d rel properties)) := by
  cases c with
  | connect | reconnect | replace => rfl
  | disconnect source name target =>
    simp only [run, Guard.disconnect, prepared, created?, Change.source, Change.name, steps]
    cases source.declaration name <;> rfl
  | disconnectAll source name =>
    simp only [run, Guard.disconnectAll, prepared, created?, Change.source, Change.name, steps]
    cases source.declaration name <;> rfl

end Change

end GraphMapper
