import GraphMapper.Result.Row

/-!
# Subgraphs

The rows of a traversal folded into one graph per root: its neighbours and
edges by path, each once however many rows reach it, and who reached whom.
-/

namespace GraphMapper

/-- A parent that reached a child. -/
structure Link where
  /-- The path's alias, or its hops. -/
  key : String
  parent : String
  child : String
  /-- The edge between the two, where it is returned. -/
  edge? : Option String
deriving DecidableEq

/-- Adds to the items of a key the one that a raw item resolves to, unless its identity is among
them already. -/
def collect {α β : Type} (resolve : α → Except Error β) (rawId : α → String) (id : β → String)
    (known : Dict (List β)) (key : String) (raw : α) : Except Error (Dict (List β)) := do
  let items := (known.get? key).getD []
  if items.any fun b => id b == rawId raw then return known
  return known.insert key (items ++ [← resolve raw])

/-- A root with what its traversals reached. -/
structure Subgraph where
  root : Entity
  neighbors : Dict (List Entity)
  edges : Dict (List Edge)
  links : List Link

namespace Subgraph

/-- The graph of a root that reached nothing yet. -/
def ofRoot (root : Entity) : Subgraph := ⟨root, [], [], []⟩

/-- The entities reached along a path. -/
def neighborsOf (g : Subgraph) (key : String) : List Entity := (g.neighbors.get? key).getD []

/-- The edges crossed along a path. -/
def edgesOf (g : Subgraph) (key : String) : List Edge := (g.edges.get? key).getD []

/-- The entities that a parent reached along a path. -/
def children (g : Subgraph) (parent key : String) : List Entity :=
  (g.links.filter fun l => l.key == key && l.parent == parent).filterMap fun l =>
    (g.neighborsOf key).find? fun e => e.id == l.child

/-- A graph with an entity among the neighbours of a path. -/
def addNeighbor (r : Registry) (g : Subgraph) (key : String) (raw : RawNode) :
    Except Error Subgraph :=
  return { g with neighbors := ← collect r.entity RawNode.id Entity.id g.neighbors key raw }

/-- A graph with an edge among those of a path. -/
def addEdge (r : Registry) (g : Subgraph) (key : String) (raw : RawEdge) : Except Error Subgraph :=
  return { g with edges := ← collect r.edge RawEdge.id Edge.id g.edges key raw }

/-- A graph with a link, unless it is there. -/
def addLink (g : Subgraph) (l : Link) : Subgraph :=
  if g.links.contains l then g else { g with links := g.links ++ [l] }

end Subgraph

/-- A traversal's column in a result, with its parent's and its edge's. -/
structure TraversalColumn where
  key : String
  index : Nat
  parent? : Option Nat
  edge? : Option Nat
deriving DecidableEq

namespace TraversalColumn

/-- The position of a column that has to be there. -/
def locate (output : QueryOutput) (name : String) : Except Error Nat :=
  match output.columnIndex? name with
  | some i => .ok i
  | none => .error (.resolution (.noColumn name))

/-- A node column of a shape, found in a result. -/
def ofColumn (output : QueryOutput) (name : String) (c : NodeColumn) :
    Except Error TraversalColumn := do
  let index ← locate output name
  let parent? ← c.parent?.mapM (locate output)
  let edge? ← c.edge?.mapM (locate output)
  return ⟨c.key, index, parent?, edge?⟩

/-- The node columns of a shape, found in a result. -/
def all (output : QueryOutput) (shape : ResultShape) : Except Error (List TraversalColumn) :=
  (shape.columns.filterMap fun c =>
    match c.kind with
    | .node n => some (c.name, n)
    | _ => none).mapM fun (name, n) => ofColumn output name n

/-- The identity of the parent in a row, if the parent is there. -/
def parentId? (c : TraversalColumn) (root : RawNode) (row : List Cell) : Option String :=
  match c.parent? with
  | none => some root.id
  | some i => (row[i]?.bind Cell.node?).map RawNode.id

/-- The edge in a row, if it is there. -/
def rawEdge? (c : TraversalColumn) (row : List Cell) : Option RawEdge :=
  c.edge?.bind fun i => row[i]?.bind Cell.edge?

/-- What a column of a row adds to a graph: nothing unless both the node and its parent are
there. -/
def addTo (r : Registry) (root : RawNode) (row : List Cell) (g : Subgraph) (c : TraversalColumn) :
    Except Error Subgraph := do
  match row[c.index]?.bind Cell.node?, c.parentId? root row with
  | some node, some parent =>
    let g ← g.addNeighbor r c.key node
    let edge? := c.rawEdge? row
    let g ←
      match edge? with
      | some edge => g.addEdge r c.key edge
      | none => pure g
    return g.addLink ⟨c.key, parent, node.id, edge?.map RawEdge.id⟩
  | _, _ => return g

end TraversalColumn

namespace Registry

/-- Replaces the graph of a root by a function of it, after adding it where it is missing. -/
def updateGraph (r : Registry) (root : RawNode) (f : Subgraph → Except Error Subgraph) :
    List Subgraph → Except Error (List Subgraph)
  | [] => do
    let g ← f (.ofRoot (← r.entity root))
    return [g]
  | g :: rest =>
    if g.root.id = root.id then return (← f g) :: rest
    else return g :: (← updateGraph r root f rest)

/-- Adds a row to the graphs of the rows before it. -/
def addRow (r : Registry) (output : QueryOutput) (rootName : String) (rootIndex : Nat)
    (columns : List TraversalColumn) (graphs : List Subgraph) (row : List Cell) :
    Except Error (List Subgraph) := do
  if row.length ≠ output.columns.length then
    throw (.resolution (.rowLength row.length output.columns.length))
  match row[rootIndex]? with
  | some (.node root) => r.updateGraph root (fun g => columns.foldlM (fun g c => c.addTo r root row g) g) graphs
  | some c => throw (.resolution (.badRoot rootName c.kind))
  | none => return graphs

/-- The graphs of a result, one for each root, in order of first appearance. -/
def subgraphs (r : Registry) (output : QueryOutput) (shape : ResultShape) :
    Except Error (List Subgraph) := do
  if shape.mode? = some .filterOnly then throw (.resolution .filterOnly)
  match shape.root? with
  | none => throw (.resolution .noRoot)
  | some rootName =>
    let rootIndex ← TraversalColumn.locate output rootName
    let columns ← TraversalColumn.all output shape
    if columns = [] then throw (.resolution .noTraversal)
    output.rows.foldlM (r.addRow output rootName rootIndex columns) []

end Registry

end GraphMapper
