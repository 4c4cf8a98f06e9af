import GraphMapper.Registry.Basic

/-!
# The type of a node

A node belongs to the type with the largest registered label set among those
that its labels contain.  Several types with equally large sets leave the
question open.

The search goes through a table once and keeps the entries that fit best so
far; a label set that is in the table as it stands needs no search.
-/

namespace GraphMapper

namespace LabelTable

/-- The largest entries so far, and a further one: it replaces smaller ones, joins equally large
ones, and is dropped where there is a larger one. -/
def keepLargest (best : LabelTable) (e : LabelSet × NodeType) : LabelTable :=
  match best with
  | [] => [e]
  | (largest, _) :: _ =>
    if e.1.size < largest.size then best
    else if e.1.size = largest.size then best ++ [e]
    else [e]

/-- The entries with the largest label sets among those that some labels contain. -/
def bestFits (table : LabelTable) (labels : LabelSet) : LabelTable :=
  (table.filter fun e => e.1.subset labels).foldl keepLargest []

/-- The names of the types in a table, each once and in order. -/
def typeNames (table : LabelTable) : List String :=
  (table.map fun e => e.2.name).foldr LabelSet.insertInto []

/-- The type that fits some labels best. -/
def search (table : LabelTable) (labels : LabelSet) : Except Error NodeType :=
  match table.bestFits labels with
  | [] => .error (.unknownType labels)
  | (s, t) :: rest =>
    match typeNames ((s, t) :: rest) with
    | [_] => .ok t
    | names => .error (.ambiguousType labels names)

end LabelTable

/-- The type of a node with some labels. -/
def Registry.resolve (r : Registry) (labels : LabelSet) : Except Error NodeType :=
  match r.table.get? labels with
  | some t => .ok t
  | none => r.table.search labels

end GraphMapper
