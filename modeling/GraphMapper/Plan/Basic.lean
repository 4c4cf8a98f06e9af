import GraphMapper.Path
import GraphMapper.Plan.Expr
import GraphMapper.Predicate

/-!
# Query plans

A plan is a selection rooted at a node type, together with the subqueries that
are spliced into it.  The selection is flat; plans nest only through their
subqueries.
-/

namespace GraphMapper

/-- A check that a chain of hops has a match, or has none. -/
structure Existence where
  hops : List Hop
  isPresent : Bool

/-- How many matches are skipped, and how many returned at most. -/
structure Pagination where
  skip? : Option Nat
  limit? : Option Nat
deriving DecidableEq

/-- Everything that a plan says apart from its subqueries. -/
structure Selection where
  root : NodeType
  predicate? : Option Predicate
  existence : List Existence
  paths : List PathSpec
  mode? : Option PathMode
  /-- Chains and aliases whose variables are shared between paths. -/
  shared : List String
  ordering : List OrderTerm
  pagination : Pagination
  annotations : List Annotation
  transforms : List Transform

/-- A plan spliced in as a block that sees `imports` and hands out `returns`. -/
structure Subquery (Plan : Type) where
  plan : Plan
  returns : List String
  imports : List String

/-- A query plan. -/
inductive QueryPlan where
  | mk (selection : Selection) (subqueries : List (Subquery QueryPlan))

namespace QueryPlan

/-- What a plan says apart from its subqueries. -/
def selection : QueryPlan → Selection
  | mk s _ => s

/-- The subqueries of a plan, in order. -/
def subqueries : QueryPlan → List (Subquery QueryPlan)
  | mk _ qs => qs

/-- The plan that returns every node of a type. -/
def forType (root : NodeType) : QueryPlan :=
  mk ⟨root, none, [], [], none, [], [], ⟨none, none⟩, [], []⟩ []

/-- The plan that returns every node of a registered type. -/
def new (r : Registry) (root : String) : Except Error QueryPlan :=
  return forType (← r.nodeType root)

/-- The root type of a plan. -/
def root (p : QueryPlan) : NodeType := p.selection.root

end QueryPlan

end GraphMapper
