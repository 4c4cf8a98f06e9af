import GraphMapper.Plan.Basic
import GraphMapper.Wire.Format

/-!
# Formats of plans

The parts of a plan that are written on their own.
-/

namespace GraphMapper.Wire

/-- The names of operators are their suffixes. -/
def operatorNames : Names Operator := ⟨Operator.all, Operator.suffix⟩

/-- The names of path modes. -/
def pathModeNames : Names PathMode where
  all := [.fetch, .filterOnly]
  name
    | .fetch => "fetch"
    | .filterOnly => "filter_only"

/-- The format of field paths. -/
def fieldPath : Format FieldPath where
  encode f := .object
    [("hops", strings f.hops), ("property", .string f.property),
      ("on_relationship", .bool f.onRelationship)]
  decode depth j := do
    let r ← Record.ofJson? ["hops", "property", "on_relationship"] depth j
    return {
      hops := ← r.required "hops" (list string)
      property := ← r.required "property" string
      onRelationship := ← r.required "on_relationship" bool }

/-- The format of traversal options. -/
def traverseOptions : Format TraverseOptions where
  encode o := .object <| memberOf "alias" .string o.alias? ++
    [("optional", .bool o.optional), ("include_nodes", .bool o.includeNodes),
      ("include_rels", .bool o.includeEdges)]
  decode depth j := do
    let r ← Record.ofJson? ["alias", "optional", "include_nodes", "include_rels"] depth j
    return {
      alias? := ← r.nullable "alias" string
      optional := ← r.withDefault "optional" bool false
      includeNodes := ← r.withDefault "include_nodes" bool true
      includeEdges := ← r.withDefault "include_rels" bool true }

/-- Writes a natural number. -/
def number (n : Nat) : Json := .int n

/-- The format of pagination. -/
def pagination : Format Pagination where
  encode p := .object (memberOf "skip" number p.skip? ++ memberOf "limit" number p.limit?)
  decode depth j := do
    let r ← Record.ofJson? ["skip", "limit"] depth j
    return {
      skip? := ← r.withDefault "skip" (optional natural) none
      limit? := ← r.withDefault "limit" (optional natural) none }

end GraphMapper.Wire
