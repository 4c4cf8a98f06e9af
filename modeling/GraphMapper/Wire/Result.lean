import GraphMapper.Result.Cell
import GraphMapper.Shape
import GraphMapper.Wire.Plan

/-!
# Formats of results

A cell is an object with one member, named for what it holds.  What a column
holds is an object with its kind among its members, or an array with its kind
in front.
-/

namespace GraphMapper.Wire

/-! ## Cells -/

/-- Writes a dictionary of values. -/
def properties (d : Dict Value) : Json := .object (d.mapValues Value.toJson)

/-- The format of stored nodes. -/
def rawNode : Format RawNode where
  encode n := .object
    [("element_id", .string n.id), ("labels", strings n.labels),
      ("properties", properties n.properties)]
  decode depth j := do
    let r ← Record.ofJson? ["element_id", "labels", "properties"] depth j
    return {
      id := ← r.required "element_id" string
      labels := ← r.required "labels" (list string)
      properties := ← r.withDefault "properties" (dict value) [] }

/-- The format of stored edges. -/
def rawEdge : Format RawEdge where
  encode e := .object
    [("element_id", .string e.id), ("rel_type", .string e.relType), ("start_id", .string e.start),
      ("end_id", .string e.finish), ("properties", properties e.properties)]
  decode depth j := do
    let names := ["element_id", "rel_type", "start_id", "end_id", "properties"]
    let r ← Record.ofJson? names depth j
    return {
      id := ← r.required "element_id" string
      relType := ← r.required "rel_type" string
      start := ← r.required "start_id" string
      finish := ← r.required "end_id" string
      properties := ← r.withDefault "properties" (dict value) [] }

mutual

/-- Writes a cell. -/
def encodeCell : Cell → Json
  | .value v => .object [("value", v.toJson)]
  | .node n => .object [("node", rawNode.encode n)]
  | .edge e => .object [("relationship", rawEdge.encode e)]
  | .list items => .object [("list", .array (encodeCells items))]
  | .map entries => .object [("map", .object (encodeEntries entries))]

/-- Writes some cells. -/
def encodeCells : List Cell → List Json
  | [] => []
  | c :: rest => encodeCell c :: encodeCells rest

/-- Writes the cells of a map. -/
def encodeEntries : List (String × Cell) → List (String × Json)
  | [] => []
  | (k, c) :: rest => (k, encodeCell c) :: encodeEntries rest

end

/-- Reads what a cell holds that holds no cells. -/
def decodeLeaf (depth : Nat) (tag : String) (j : Json) : Option Cell :=
  match tag with
  | "value" => (value depth j).map .value
  | "node" => (rawNode.decode depth j).map .node
  | "relationship" => (rawEdge.decode depth j).map .edge
  | _ => none

mutual

/-- Reads a cell. -/
def decodeCell (depth : Nat) : Json → Option Cell
  | .object [(tag, payload)] =>
    if mayOpen depth then decodePayload (depth + 1) tag payload else none
  | _ => none

/-- Reads what a cell of some kind holds. -/
def decodePayload (depth : Nat) (tag : String) : Json → Option Cell
  | .array items =>
    if tag = "list" then
      if mayOpen depth then (decodeCells (depth + 1) items).map .list else none
    else decodeLeaf depth tag (.array items)
  | .object members =>
    if tag = "map" then
      if mayOpen depth then
        (decodeEntries (depth + 1) members).map fun entries => .map (Dict.ofList entries)
      else none
    else decodeLeaf depth tag (.object members)
  | j => decodeLeaf depth tag j

/-- Reads some cells. -/
def decodeCells (depth : Nat) : List Json → Option (List Cell)
  | [] => some []
  | j :: rest => do return (← decodeCell depth j) :: (← decodeCells depth rest)

/-- Reads the cells of a map. -/
def decodeEntries (depth : Nat) : List (String × Json) → Option (List (String × Cell))
  | [] => some []
  | (k, j) :: rest => do return (k, ← decodeCell depth j) :: (← decodeEntries depth rest)

end

/-- The format of cells. -/
def cell : Format Cell := ⟨encodeCell, decodeCell⟩

/-- The format of results. -/
def queryOutput : Format QueryOutput where
  encode o := .object
    [("columns", strings o.columns),
      ("rows", .array (o.rows.map fun row => .array (encodeCells row)))]
  decode depth j := do
    let r ← Record.ofJson? ["columns", "rows"] depth j
    return {
      columns := ← r.required "columns" (list string)
      rows := ← r.required "rows" (list (list decodeCell)) }

/-! ## Shapes -/

/-- What a column holds, as an object. -/
def encodeKind : ColumnKind → Json
  | .root => .object [("kind", .string "root")]
  | .node c => .object
    [("kind", .string "node"), ("key", .string c.key), ("hop", .string c.hop),
      ("parent", orNull .string c.parent?), ("relationship", orNull .string c.edge?)]
  | .edge key => .object [("kind", .string "relationship"), ("key", .string key)]
  | .projection => .object [("kind", .string "projection")]

/-- The kind of a column and the tree of its other members. -/
def splitKind : Json → Option (String × Json)
  | .array (.string kind :: rest) => some (kind, .array rest)
  | .object members =>
    match members.filter fun m => m.1 == "kind" with
    | [(_, .string kind)] => some (kind, .object (members.filter fun m => m.1 != "kind"))
    | _ => none
  | _ => none

/-- Checks that nothing follows the kind in an array. -/
def hasNoItems : Json → Bool
  | .array items => items.isEmpty
  | _ => true

/-- Reads what a column of some kind holds. -/
def decodeMembers (kind : String) (depth : Nat) (members : Json) : Option ColumnKind :=
  match kind with
  | "root" => if hasNoItems members then some .root else none
  | "projection" => if hasNoItems members then some .projection else none
  | "node" => do
    let r ← Record.ofJson? ["key", "hop", "parent", "relationship"] depth members
    return .node {
      key := ← r.required "key" string
      hop := ← r.required "hop" string
      parent? := ← r.nullable "parent" string
      edge? := ← r.nullable "relationship" string }
  | "relationship" => do
    let r ← Record.ofJson? ["key"] depth members
    return .edge (← r.required "key" string)
  | _ => none

/-- The format of what a column holds. -/
def columnKind : Format ColumnKind where
  encode := encodeKind
  decode depth j := do
    let (kind, members) ← splitKind j
    if isReadable depth members then decodeMembers kind depth members else none

/-- The format of columns. -/
def column : Format Column where
  encode c := .object [("name", .string c.name), ("kind", encodeKind c.kind)]
  decode depth j := do
    let r ← Record.ofJson? ["name", "kind"] depth j
    return {
      name := ← r.required "name" string
      kind := ← r.required "kind" columnKind.decode }

/-- The format of shapes. -/
def resultShape : Format ResultShape where
  encode s := .object <| memberOf "root" .string s.root? ++
    memberOf "mode" pathModeNames.format.encode s.mode? ++
    [("columns", .array (s.columns.map column.encode))]
  decode depth j := do
    let r ← Record.ofJson? ["root", "mode", "columns"] depth j
    return {
      root? := ← r.nullable "root" string
      mode? := ← r.nullable "mode" pathModeNames.decode
      columns := ← r.required "columns" (list column.decode) }

end GraphMapper.Wire
