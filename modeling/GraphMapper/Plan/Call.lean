import GraphMapper.Plan.Build

/-!
# Plans as the calls that write them

A plan starts at a registered root type and is written by one call after the
other.  Every call is checked against the registry as it is at that moment, so
a history of calls carries a registry with each of them.
-/

namespace GraphMapper

/-- A call that writes on a plan. -/
inductive PlanCall where
  | filter (p : Predicate)
  | exclude (p : Predicate)
  | has (path : List Char) (isPresent : Bool)
  | traverse (expr : String) (options : TraverseOptions) (mode : PathMode)
  | share (names : List String)
  | orderBy (text : List Char)
  | skip (n : Nat)
  | limit (n : Nat)
  | annotate (name : String) (expr : Expr VarRef)
  | transform (t : Transform)
  | subquery (inner : QueryPlan) (returns imports : List String)

namespace QueryPlan

/-- A plan after a call. -/
def call (r : Registry) (p : QueryPlan) : PlanCall → Except Error QueryPlan
  | .filter q => p.mapSelection fun s => s.filter r q
  | .exclude q => p.mapSelection fun s => s.exclude r q
  | .has path isPresent => p.mapSelection fun s => s.has r path isPresent
  | .traverse expr options mode => p.mapSelection fun s => s.traverse r expr options mode
  | .share names => p.mapSelection fun s => .ok (s.share names)
  | .orderBy text => p.mapSelection fun s => s.orderBy r text
  | .skip n => p.mapSelection fun s => .ok (s.skip n)
  | .limit n => p.mapSelection fun s => .ok (s.limit n)
  | .annotate name expr => p.mapSelection fun s => s.annotate name expr
  | .transform t => p.mapSelection fun s => s.transform t
  | .subquery inner returns imports => p.subquery inner returns imports

/-- A plan after some calls, each with the registry that it is checked against. -/
def calls (p : QueryPlan) (history : List (Registry × PlanCall)) : Except Error QueryPlan :=
  history.foldlM (fun p c => p.call c.1 c.2) p

end QueryPlan

end GraphMapper
