import GraphMapper.Result.Entity
import GraphMapper.Shape

/-!
# Rows

The cells of a result, resolved.  A column that the shape declares as a node or
an edge must hold one, or null; every other column is taken as it comes.
-/

namespace GraphMapper

/-- A resolved cell. -/
inductive Resolved where
  | entity (e : Entity)
  | edge (e : Edge)
  | value (v : Value)
  | list (items : List Resolved)
  | map (entries : List (String × Resolved))

namespace Resolved

/-- The entity of a cell that holds one. -/
def entity? : Resolved → Option Entity
  | entity e => some e
  | _ => none

/-- The edge of a cell that holds one. -/
def edge? : Resolved → Option Edge
  | edge e => some e
  | _ => none

/-- The value of a cell that holds one. -/
def value? : Resolved → Option Value
  | value v => some v
  | _ => none

/-- The items of a cell that holds a list. -/
def list? : Resolved → Option (List Resolved)
  | list items => some items
  | _ => none

/-- Whether a cell holds null. -/
def isNull : Resolved → Bool
  | value v => v.isNull
  | _ => false

mutual

/-- Equality of cells as data. -/
def same : Resolved → Resolved → Bool
  | entity a, entity b => a.same b
  | edge a, edge b => a.same b
  | value a, value b => a.same b
  | list a, list b => sameItems a b
  | map a, map b => sameEntries a b
  | _, _ => false

/-- Equality of lists of cells. -/
def sameItems : List Resolved → List Resolved → Bool
  | [], [] => true
  | a :: as, b :: bs => same a b && sameItems as bs
  | _, _ => false

/-- Equality of maps of cells. -/
def sameEntries : List (String × Resolved) → List (String × Resolved) → Bool
  | [], [] => true
  | (k, a) :: as, (l, b) :: bs => k == l && same a b && sameEntries as bs
  | _, _ => false

end

end Resolved

namespace Registry

mutual

/-- Resolves a cell and everything inside it. -/
def cell (r : Registry) : Cell → Except Error Resolved
  | .value v => .ok (.value v)
  | .node n => return .entity (← r.entity n)
  | .edge e => return .edge (← r.edge e)
  | .list items => return .list (← r.cells items)
  | .map entries => return .map (← r.entries entries)

/-- Resolves some cells. -/
def cells (r : Registry) : List Cell → Except Error (List Resolved)
  | [] => .ok []
  | c :: rest => do
    let c ← r.cell c
    return c :: (← r.cells rest)

/-- Resolves the cells of a map. -/
def entries (r : Registry) : List (String × Cell) → Except Error (List (String × Resolved))
  | [] => .ok []
  | (k, c) :: rest => do
    let c ← r.cell c
    return (k, c) :: (← r.entries rest)

end

end Registry

/-- The resolved cells of a row with their column names. -/
abbrev Row : Type := List (String × Resolved)

namespace Row

/-- The first cell of a column. -/
def get? (row : Row) (column : String) : Option Resolved :=
  (row.find? fun c => c.1 == column).map Prod.snd

/-- The entity in a column. -/
def entity? (row : Row) (column : String) : Option Entity := (row.get? column).bind Resolved.entity?

/-- The edge in a column. -/
def edge? (row : Row) (column : String) : Option Edge := (row.get? column).bind Resolved.edge?

/-- The value in a column. -/
def value? (row : Row) (column : String) : Option Value := (row.get? column).bind Resolved.value?

/-- The first entity among all the cells of a column. -/
def takeEntity? (row : Row) (column : String) : Option Entity :=
  row.findSome? fun c => if c.1 == column then c.2.entity? else none

end Row

namespace Registry

/-- Resolves a cell of a column of some kind. -/
def columnCell (r : Registry) (column : String) (kind? : Option ColumnKind) (c : Cell) :
    Except Error Resolved :=
  match kind?, c with
  | some .root, .node n | some (.node _), .node n => return .entity (← r.entity n)
  | some (.edge _), .edge e => return .edge (← r.edge e)
  | some .projection, c | none, c => r.cell c
  | some _, c =>
    if c.isNull then .ok (.value .null)
    else .error (.resolution (.notAnEntity column c.kind))

/-- Resolves the cells of a row. -/
def row (r : Registry) (shape : ResultShape) (columns : List String) (cells : List Cell) :
    Except Error Row :=
  if cells.length ≠ columns.length then
    .error (.resolution (.rowLength cells.length columns.length))
  else
    (columns.zip cells).mapM fun (column, c) => do
      return (column, ← r.columnCell column ((shape.column? column).map Column.kind) c)

/-- Resolves the rows of a result. -/
def rows (r : Registry) (output : QueryOutput) (shape : ResultShape) : Except Error (List Row) :=
  output.rows.mapM (r.row shape output.columns)

/-- Reads the root of every row with a reading of the application's own. -/
def rootsAs {α : Type} (r : Registry) (read : Entity → Except Error α) (output : QueryOutput)
    (shape : ResultShape) : Except Error (List α) := do
  match shape.root? with
  | none => throw (.resolution .noRoot)
  | some root =>
    let rows ← r.rows output shape
    rows.mapM fun row =>
      match row.entity? root with
      | some e => read e
      | none => throw (.resolution (.noEntity root))

end Registry

/-- The only item of a list, if there is any. -/
def single {α : Type} : List α → Except Error (Option α)
  | [] => .ok none
  | [a] => .ok (some a)
  | items => .error (.multipleResults items.length)

end GraphMapper
