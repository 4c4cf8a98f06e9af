import GraphMapper.Cypher.Formula
import GraphMapper.Schema.Relationship
import GraphMapper.Settings

/-!
# Requests about edges

What the guard asks of the database: counts, searches for nodes that would
lack edges, and the removal and creation of edges.  A request is data; its text
and its parameters are made of it last.  Identities and property values go into
the parameters only.
-/

namespace GraphMapper

/-- The edges of one label, as they are seen from one end. -/
structure EdgeKind where
  relType : String
  direction : Direction
deriving DecidableEq

/-- The edges that a declaration is about. -/
def Relationship.edges (r : Relationship) : EdgeKind := ⟨r.relType, r.direction⟩

/-- A request about edges. -/
inductive EdgeRequest where
  /-- The number of edges at a node. -/
  | countAt (edges : EdgeKind) (source : String)
  /-- The number of edges between two nodes. -/
  | countBetween (edges : EdgeKind) (source target : String)
  /-- The neighbours with some label that would have fewer edges than a bound if a node lost all
  of its own, one neighbour left out. -/
  | lacking (edges : EdgeKind) (label : String) (inverse : EdgeKind) (least : Nat)
      (source : String) (kept? : Option String)
  /-- The nodes with some label that have fewer or more edges than allowed. -/
  | outside (edges : EdgeKind) (label : String) (least : Nat) (most? : Option Nat)
  /-- An edge between two nodes, unless it is there. -/
  | create (edges : EdgeKind) (source target : String) (properties : List (String × Value))
  /-- No edge between two nodes any more. -/
  | delete (edges : EdgeKind) (source target : String)
  /-- No edge at a node any more. -/
  | deleteAll (edges : EdgeKind) (source : String)

namespace EdgeRequest

/-- Whether a request changes what is stored. -/
def modifies : EdgeRequest → Bool
  | create .. | delete .. | deleteAll .. => true
  | countAt .. | countBetween .. | lacking .. | outside .. => false

/-- The parameter of a stored property. -/
def propertyParam (name : String) : String := "rel_" ++ name

/-- The pattern of an edge under a variable, with properties. -/
def edgePattern (edges : EdgeKind) (var : String) (properties : List (String × Value)) :
    Cypher.EdgePattern :=
  ⟨some var, edges.relType, edges.direction, properties.map fun p => (p.1, propertyParam p.1)⟩

/-- The edges from one node to another. -/
def path (start : Cypher.NodePattern) (edge : Cypher.EdgePattern) (finish : Cypher.NodePattern) :
    String :=
  (Cypher.Pattern.mk start [(edge, finish)]).text

/-- The variable of the node that declares the relationship. -/
def us : Cypher.NodePattern := .bound "us"

/-- The variable of a node at the other end. -/
def them : Cypher.NodePattern := .bound "them"

/-- The condition that a variable stands for the node of a parameter. -/
def isNode (f : IdFunction) (var param : String) : String := f.apply var ++ " = $" ++ param

/-- The conditions on both ends. -/
def isPair (f : IdFunction) : String :=
  isNode f "us" "source_id" ++ " AND " ++ isNode f "them" "target_id"

/-- All edges at a node. -/
def matchAt (f : IdFunction) (edges : EdgeKind) : String :=
  "MATCH " ++ path us (edgePattern edges "r" []) .anonymous ++ " WHERE " ++
    isNode f "us" "source_id"

/-- All edges between two nodes. -/
def matchBetween (f : IdFunction) (edges : EdgeKind) : String :=
  "MATCH " ++ path us (edgePattern edges "r" []) them ++ " WHERE " ++ isPair f

/-- The comparisons of a count with its bounds. -/
def bounds (least : Nat) (most? : Option Nat) : List (String × String × Nat) :=
  (if least = 0 then [] else [("count < $min", "min", least)]) ++
    (most?.map fun most => ("count > $max", "max", most)).toList

/-- A request as text. -/
def text (f : IdFunction) : EdgeRequest → String
  | countAt edges _ => matchAt f edges ++ " RETURN count(r) AS count"
  | countBetween edges _ _ => matchBetween f edges ++ " RETURN count(r) AS count"
  | lacking edges label inverse _ _ kept? =>
    "MATCH " ++ path us (edgePattern edges "r" []) ⟨some "them", some [label]⟩ ++ " WHERE " ++
      isNode f "us" "source_id" ++
      (if kept?.isSome then " AND NOT " ++ isNode f "them" "target_id" else "") ++
      " WITH them, count(r) AS removed OPTIONAL MATCH " ++
      path them (edgePattern inverse "r2" []) .anonymous ++
      " WITH them, removed, count(r2) AS total WHERE total - removed < $min RETURN " ++
      f.apply "them" ++ " AS id, total - removed AS remaining"
  | outside edges label least most? =>
    "MATCH " ++ (Cypher.Pattern.node ⟨some "us", some [label]⟩).text ++ " OPTIONAL MATCH " ++
      path us (edgePattern edges "r" []) .anonymous ++
      " WITH us, count(r) AS count WHERE " ++
      " OR ".intercalate ((bounds least most?).map fun b => b.1) ++
      " RETURN " ++ f.apply "us" ++ " AS id, count"
  | create edges _ _ properties =>
    "MATCH (us), (them) WHERE " ++ isPair f ++ " MERGE " ++
      path us (edgePattern edges "r" properties) them ++ " RETURN r"
  | delete edges _ _ => matchBetween f edges ++ " DELETE r"
  | deleteAll edges _ => matchAt f edges ++ " DELETE r"

/-- A count as a parameter. -/
def countParam (n : Nat) : Value := .int (Int64.ofNat n)

/-- The parameters of two nodes. -/
def pairParams (f : IdFunction) (source target : String) : Params :=
  .ofList [("source_id", f.operand source), ("target_id", f.operand target)]

/-- The parameters of a request. -/
def params (f : IdFunction) : EdgeRequest → Params
  | countAt _ source | deleteAll _ source => .ofList [("source_id", f.operand source)]
  | countBetween _ source target | delete _ source target => pairParams f source target
  | lacking _ _ _ least source kept? =>
    .ofList <|
      [("source_id", f.operand source), ("min", countParam least)] ++
        (kept?.map fun kept => ("target_id", f.operand kept)).toList
  | outside _ _ least most? =>
    .ofList ((bounds least most?).map fun b => (b.2.1, countParam b.2.2))
  | create _ source target properties =>
    properties.foldl (fun d p => d.insert (propertyParam p.1) p.2) (pairParams f source target)

end EdgeRequest

end GraphMapper
