import GraphMapper.FieldPath
import GraphMapper.Registry.Basic

/-!
# Paths

A path is a chain of hops from a root type, each hop a relationship declared on
the types reached so far.  With several target types the first one that
declares the hop decides.
-/

namespace GraphMapper

/-- A resolved hop. -/
structure Hop where
  relationship : Relationship
  /-- The registered target types, in order of declaration. -/
  targets : List NodeType
  /-- The relationship type of the edges, if one is declared. -/
  model? : Option RelationshipType

/-- The options of a traversal. -/
structure TraverseOptions where
  /-- The variable of the last hop's node. -/
  alias? : Option String
  optional : Bool
  includeNodes : Bool
  includeEdges : Bool
deriving DecidableEq

/-- A mandatory traversal that returns everything, without an alias. -/
def TraverseOptions.default : TraverseOptions := ⟨none, false, true, true⟩

/-- One step of a path. -/
structure PathStep where
  hop : Hop
  /-- The hop names from the root up to this step. -/
  hops : List String
  optional : Bool
  alias? : Option String
  includeNode : Bool
  includeEdge : Bool

namespace PathStep

/-- The written form of the hops up to a step. -/
def chain (s : PathStep) : String := Text.joinDouble s.hops

/-- The name of a step's own hop. -/
def name (s : PathStep) : String := s.hop.relationship.name

end PathStep

/-- A path from a root type. -/
structure PathSpec where
  expr : String
  steps : List PathStep
  mode : PathMode
  /-- Added for a filter on hops that no traversal declares, and never returned. -/
  hidden : Bool

/-- The alias that a path gives to its last node. -/
def PathSpec.alias? (p : PathSpec) : Option String :=
  p.steps.getLast?.bind PathStep.alias?

/-- The names of some types, as an error gives them. -/
def typeNames (ts : List NodeType) : String := "|".intercalate (ts.map NodeType.name)

/-- The hop over a declared relationship. -/
def Hop.ofRelationship (r : Registry) (rel : Relationship) : Except Error Hop := do
  let targets ← rel.targets.mapM r.nodeType
  let model? ← rel.model?.mapM r.relationshipType
  return ⟨rel, targets, model?⟩

/-- Resolves hop names one by one, starting from some types. -/
def walkFrom (r : Registry) (current : List NodeType) : List String → Except Error (List Hop)
  | [] => .ok []
  | name :: rest => do
    match current.findSome? fun t => t.relationship? name with
    | none => throw (.unknownRelation (typeNames current) name)
    | some rel =>
      let hop ← Hop.ofRelationship r rel
      return hop :: (← walkFrom r hop.targets rest)

/-- Resolves hop names one by one, starting at a root type. -/
def walk (r : Registry) (root : NodeType) (hops : List String) : Except Error (List Hop) :=
  walkFrom r [root] hops

namespace PathSpec

/-- The steps of a path from its hops, of which `done` names are already behind. -/
def stepsOf (options : TraverseOptions) (mode : PathMode) (done : List String) :
    List (String × Hop) → List PathStep
  | [] => []
  | (name, hop) :: rest =>
    let returned := mode = .fetch
    { hop
      hops := done ++ [name]
      optional := options.optional
      alias? := if rest.isEmpty then options.alias? else none
      includeNode := returned && options.includeNodes
      includeEdge := returned && options.includeEdges } ::
      stepsOf options mode (done ++ [name]) rest

/-- The path over some hop names. -/
def ofHops (r : Registry) (root : NodeType) (expr : String) (hops : List String)
    (options : TraverseOptions) (mode : PathMode) : Except Error PathSpec := do
  let resolved ← walk r root hops
  return ⟨expr, stepsOf options mode [] (hops.zip resolved), mode, false⟩

/-- The path that a text such as `suppliers__country` writes. -/
def resolve (r : Registry) (root : NodeType) (expr : String) (options : TraverseOptions)
    (mode : PathMode) : Except Error PathSpec := do
  options.alias?.forM requireIdentifier
  let hops ← parseHops expr.toList
  ofHops r root expr hops options mode

/-- The path that only binds the hops of a filter. -/
def forFilter (r : Registry) (root : NodeType) (hops : List String) :
    Except Error PathSpec := do
  let spec ← resolve r root (Text.joinDouble hops) TraverseOptions.default .filterOnly
  return { spec with hidden := true }

end PathSpec

end GraphMapper
