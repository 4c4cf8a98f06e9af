import GraphMapper.PathMode

/-!
# Result shapes

What each column of a statement's result holds.
-/

namespace GraphMapper

/-- A column with the nodes that a traversal reaches. -/
structure NodeColumn where
  /-- The path's alias, or its hops. -/
  key : String
  /-- The name of the last hop. -/
  hop : String
  /-- The column of the nearest returned ancestor, unless that is the root. -/
  parent? : Option String
  /-- The column of the relationship that led to the node. -/
  edge? : Option String
deriving DecidableEq

/-- What a column holds. -/
inductive ColumnKind where
  | root
  | node (column : NodeColumn)
  /-- The relationships that a traversal crosses. -/
  | edge (key : String)
  /-- Anything else. -/
  | projection
deriving DecidableEq

/-- A column of a result. -/
structure Column where
  name : String
  kind : ColumnKind
deriving DecidableEq

/-- The columns of a result. -/
structure ResultShape where
  /-- The root's column, if the root is returned. -/
  root? : Option String
  mode? : Option PathMode
  columns : List Column
deriving DecidableEq

/-- The column of a name. -/
def ResultShape.column? (s : ResultShape) (name : String) : Option Column :=
  s.columns.find? fun c => c.name == name

end GraphMapper
