import GraphMapper.Schema.Cardinality
import GraphMapper.Text.Name

/-!
# Patterns

What a statement matches: a node, and edges that lead on from it.
-/

namespace GraphMapper.Cypher

/-- A node, with a variable and the alternatives for its label where they are written. -/
structure NodePattern where
  var? : Option String
  labels? : Option (List String)
deriving DecidableEq

/-- An edge, with a variable where one is written and properties bound to parameters. -/
structure EdgePattern where
  var? : Option String
  relType : String
  direction : Direction
  properties : List (String × String)
deriving DecidableEq

/-- A node and the edges and nodes that follow. -/
structure Pattern where
  start : NodePattern
  steps : List (EdgePattern × NodePattern)
deriving DecidableEq

namespace NodePattern

/-- A node that is bound already. -/
def bound (var : String) : NodePattern := ⟨some var, none⟩

/-- A node of which nothing is written. -/
def anonymous : NodePattern := ⟨none, none⟩

/-- A node in parentheses, alternative labels separated by bars. -/
def text (n : NodePattern) : String :=
  "(" ++ n.var?.getD "" ++
    (match n.labels? with
      | some labels => ":" ++ "|".intercalate (labels.map Text.quote)
      | none => "") ++ ")"

end NodePattern

/-- Properties bound to parameters, in braces. -/
def assignments (ps : List (String × String)) : String :=
  "\x7b" ++ ", ".intercalate (ps.map fun p => p.1 ++ ": $" ++ p.2) ++ "\x7d"

/-- An edge's inside between the arrow of its direction. -/
def arrow (d : Direction) (inside : String) : String :=
  match d with
  | .outgoing => "-[" ++ inside ++ "]->"
  | .incoming => "<-[" ++ inside ++ "]-"
  | .either => "-[" ++ inside ++ "]-"

/-- An edge in brackets. -/
def EdgePattern.text (e : EdgePattern) : String :=
  arrow e.direction <|
    e.var?.getD "" ++ ":" ++ Text.quote e.relType ++
      (if e.properties = [] then "" else " " ++ assignments e.properties)

/-- A pattern. -/
def Pattern.text (p : Pattern) : String :=
  p.start.text ++ String.join (p.steps.map fun s => s.1.text ++ s.2.text)

/-- The pattern of a single node. -/
def Pattern.node (n : NodePattern) : Pattern := ⟨n, []⟩

/-- A pattern with an edge and a node added at its end. -/
def Pattern.extend (p : Pattern) (e : EdgePattern) (n : NodePattern) : Pattern :=
  { p with steps := p.steps ++ [(e, n)] }

end GraphMapper.Cypher
