import GraphMapper.Value.Basic

/-!
# Rows as the database returns them

A result has column names and rows of cells; a cell holds a value, a node, an
edge, or a list or map of cells.
-/

namespace GraphMapper

/-- A node as it is stored. -/
structure RawNode where
  id : String
  labels : List String
  properties : Dict Value

/-- An edge as it is stored. -/
structure RawEdge where
  id : String
  relType : String
  start : String
  finish : String
  properties : Dict Value

/-- A cell of a row. -/
inductive Cell where
  | value (v : Value)
  | node (n : RawNode)
  | edge (e : RawEdge)
  | list (items : List Cell)
  | map (entries : List (String × Cell))

namespace Cell

/-- Whether a cell holds null. -/
def isNull : Cell → Bool
  | value v => v.isNull
  | _ => false

/-- The value of a cell that holds one. -/
def value? : Cell → Option Value
  | value v => some v
  | _ => none

/-- The node of a cell that holds one. -/
def node? : Cell → Option RawNode
  | node n => some n
  | _ => none

/-- The edge of a cell that holds one. -/
def edge? : Cell → Option RawEdge
  | edge e => some e
  | _ => none

/-- The name of what a cell holds, as messages give it. -/
def kind : Cell → String
  | value v => v.kind
  | node _ => "node"
  | edge _ => "relationship"
  | list _ => "list"
  | map _ => "map"

end Cell

/-- The result of a statement. -/
structure QueryOutput where
  columns : List String
  rows : List (List Cell)

namespace QueryOutput

/-- The result without columns and rows. -/
def empty : QueryOutput := ⟨[], []⟩

/-- The result with one value in one column. -/
def scalar (column : String) (v : Value) : QueryOutput := ⟨[column], [[.value v]]⟩

/-- The position of the first column of a name. -/
def columnIndex? (o : QueryOutput) (name : String) : Option Nat :=
  o.columns.findIdx? fun c => c == name

/-- Whether there are no rows. -/
def isEmpty (o : QueryOutput) : Bool := o.rows.isEmpty

/-- The integer in a column of the first row. -/
def firstInteger? (o : QueryOutput) (column : String) : Option Int64 := do
  let i ← o.columnIndex? column
  let row ← o.rows.head?
  let cell ← row[i]?
  let v ← cell.value?
  v.int?

end QueryOutput

end GraphMapper
