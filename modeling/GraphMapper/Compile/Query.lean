import GraphMapper.Compile.Filter
import GraphMapper.Shape

/-!
# Compiling plans

A plan becomes one statement, clause by clause: the mandatory patterns with the
filters on them, the optional patterns, the filters that touch optional
variables, the transforms, the subqueries, and what is returned, sorted and
paged.  A count keeps everything up to the subqueries and then counts the
root.
-/

namespace GraphMapper

/-- A statement with its parameters and the shape of its result. -/
structure CompiledQuery where
  query : Cypher.Query
  params : Params
  shape : ResultShape

/-- The text of a compiled statement. -/
def CompiledQuery.text (c : CompiledQuery) : String := Cypher.queryText c.query

namespace Selection

/-- The first shared name that no traversal declares. -/
def unknownShared? (s : Selection) : Option String :=
  s.shared.find? fun name =>
    !s.paths.any fun p => p.steps.any fun step => step.chain == name || step.alias? == some name

/-- The scope of a selection with all its paths bound. -/
def scope (r : Registry) (s : Selection) (imports : List String) : Except Halt Scope := do
  let scope ← Scope.start s imports
  match s.unknownShared? with
  | some name => throw (.error (.compile (.unknownShared name)))
  | none => pure ()
  (s.paths ++ (← s.filterPaths r)).foldlM Scope.bindPath scope

/-- Whether a filter compares a variable of an optional step. -/
def touchesOptional (scope : Scope) (f : Cypher.Formula) : Bool :=
  scope.bindings.any fun b =>
    b.optional && (f.vars.contains b.var || f.vars.contains b.edgeVar)

/-- The mandatory patterns, the root with its label among them unless it is imported. -/
def mandatoryPatterns (scope : Scope) : List Cypher.Pattern :=
  if scope.rootLabelled then scope.mandatory else scope.rootPattern :: scope.mandatory

/-- The clauses that match and filter: early filters stand after the mandatory patterns where
there are any, late ones after the optional patterns. -/
def matchClauses (scope : Scope) (early late : List Cypher.Formula) : List Cypher.Clause :=
  let patterns := mandatoryPatterns scope
  let optional := scope.optional.map Cypher.Clause.optionalMatching
  let after := fun fs : List Cypher.Formula => if fs.isEmpty then [] else [Cypher.Clause.lateFilter fs]
  if patterns.isEmpty then optional ++ after (early ++ late)
  else
    .matching patterns :: (if early.isEmpty then [] else [.filter early]) ++ optional ++ after late

/-- Compiles the patterns and filters of a selection. -/
def compileMatch (s : Selection) (scope : Scope) (space : String) :
    Compile (List Cypher.Clause) := do
  let existence := s.existence.map (Existence.formula scope.rootVar)
  match s.predicate? with
  | none => return matchClauses scope existence []
  | some p =>
    let f ← compilePredicate scope space p
    return if touchesOptional scope f then matchClauses scope existence [f]
      else matchClauses scope (f :: existence) []

/-- The first name that a transform declares twice, or the items that it carries forward. -/
def stageItems (scope : Scope) (vars : List TransformVar) (names : List String) :
    Except Error (List (Cypher.Reference × String)) :=
  match vars with
  | [] => .ok []
  | v :: rest => do
    if names.contains v.name then throw (.duplicateProjection v.name)
    let source ← scope.reference .transforms v.source
    return (source, v.name) :: (← stageItems scope rest (names ++ [v.name]))

/-- Compiles a transform, after which only its own variables are in scope. -/
def compileTransform (scope : Scope) (t : Transform) : Except Error (Cypher.Clause × Scope) := do
  let items ← stageItems scope t.vars []
  let scope := { scope with transformed? := some (t.vars.map TransformVar.name) }
  let order ← t.ordering.mapM fun o =>
    return (← scope.reference .transformOrdering o.target, o.descending)
  return (.stage t.distinct items order, scope)

/-- Compiles the transforms, one after the other. -/
def compileTransforms (scope : Scope) : List Transform → Except Error (List Cypher.Clause × Scope)
  | [] => .ok ([], scope)
  | t :: rest => do
    let (clause, scope) ← compileTransform scope t
    let (clauses, scope) ← compileTransforms scope rest
    return (clause :: clauses, scope)

/-- The variables of the last transform that are returned. -/
def transformReturns (s : Selection) : List String :=
  match s.transforms.getLast? with
  | none => []
  | some t => (t.vars.filter TransformVar.returned).map TransformVar.name

/-- Binds one bound of a page. -/
def compileBound (space keyword hint : String) : Option Nat → Compile (Option String)
  | none => return none
  | some n => do
    match int64? n with
    | some i => return some (← bindParam (space ++ hint) (.int i))
    | none => throw (.error (.compile (.boundTooLarge keyword n)))

/-- Binds the bounds of a page. -/
def compilePage (s : Selection) (space : String) : Compile Cypher.Page := do
  let skip? ← compileBound space "SKIP" "skip" s.pagination.skip?
  let limit? ← compileBound space "LIMIT" "limit" s.pagination.limit?
  return ⟨skip?, limit?⟩

/-- An item that is returned, with what its column holds. -/
abbrev Output : Type := Cypher.Item × ColumnKind

/-- A variable returned as it is. -/
def projected (name : String) : Output := (.var name, .projection)

/-- An annotation as a returned item. -/
def annotated (scope : Scope) (a : Annotation) : Except Error Output :=
  return (.computed (← scope.expr a.expr) a.name, .projection)

/-- What a binding returns: its node, and its edge. -/
def bindingOutputs (scope : Scope) (b : Binding) : List Output :=
  let node : NodeColumn :=
    ⟨b.key, b.hop, scope.returnedParent? scope.bindings.length b.parent?,
      if b.includeEdge then some b.edgeVar else none⟩
  (if b.includeNode then [(.var b.var, .node node)] else []) ++
    (if b.includeEdge then [(.var b.edgeVar, .edge b.key)] else [])

/-- What a plan of its own returns. -/
def planOutputs (s : Selection) (scope : Scope) (handedOut : List String) :
    Except Error (List Output) := do
  let matched :=
    if scope.transformed?.isSome then s.transformReturns.map projected
    else (.var scope.rootVar, .root) :: scope.bindings.flatMap (bindingOutputs scope)
  let annotations ← s.annotations.mapM (annotated scope)
  return matched ++ handedOut.map projected ++ annotations

/-- One name that a subquery hands out. -/
def handedOut (s : Selection) (scope : Scope) (name : String) : Except Error Output :=
  match s.annotations.find? fun a => a.name == name with
  | some a => annotated scope a
  | none =>
    if scope.isVisible name then .ok (projected name)
    else .error (.compile (.unknownReturn name))

/-- The first name that occurs twice in a list. -/
def firstRepeated? : List String → List String → Option String
  | _, [] => none
  | seen, n :: rest => if seen.contains n then some n else firstRepeated? (n :: seen) rest

/-- One term of the final ordering.  After a grouping only returned variables are in scope. -/
def compileOrder (scope : Scope) (names : List String) (grouped : Bool) :
    OrderTerm → Except Error Cypher.SortTerm
  | .random => .ok .random
  | .field f descending => do
    let (lhs, _) ← scope.field f .ordering
    if grouped && !names.contains lhs.var then
      throw (.unboundFieldPath f.text .aggregatedOrdering)
    return .property lhs descending

/-- Compiles what is returned, sorted and paged. -/
def compileReturn (s : Selection) (scope : Scope) (space : String) (outputs : List Output) :
    Compile (List Cypher.Clause) := do
  let names := outputs.map fun o => o.1.name
  match firstRepeated? [] names with
  | some name => throw (.error (.duplicateProjection name))
  | none => pure ()
  if outputs.isEmpty then throw (.error (.compile .emptyReturn))
  let grouped := s.annotations.any fun a => a.expr.isAggregate
  let order ← (s.ordering.mapM (compileOrder scope names grouped) : Except Error _)
  let page ← s.compilePage space
  return .returning (outputs.map Prod.fst) ::
    (if order.isEmpty then [] else [.ordering order]) ++
    (if page.isEmpty then [] else [.paging page])

/-- The shape of what is returned. -/
def shapeOf (s : Selection) (scope : Scope) (own : Bool) (outputs : List Output) : ResultShape :=
  { root? := if own && scope.transformed?.isNone then some scope.rootVar else none
    mode? := s.mode?
    columns := outputs.map fun o => ⟨o.1.name, o.2⟩ }

/-- Compiles the count of the root's matches. -/
def compileCount (s : Selection) (scope : Scope) (space : String) :
    Compile (List Cypher.Clause × ResultShape) := do
  if scope.transformed?.isSome then throw (.error (.compile .countTransformed))
  let page ← s.compilePage space
  let counted : Expr Cypher.Reference := .apply (.count false) (.ref ⟨scope.rootVar, []⟩)
  return ([.keep scope.rootVar page, .returning [.computed counted "count"]],
    ⟨none, s.mode?, [⟨"count", .projection⟩]⟩)

end Selection

/-- The variables that a subquery takes from the query around it have to be visible there. -/
def checkImports (scope : Scope) (imports : List String) : Except Error Unit :=
  match imports.find? fun name => !scope.isVisible name with
  | some name => .error (.compile (.unboundImport name))
  | none => .ok ()

/-- The scope with the names that a subquery hands out, which must be new. -/
def takeReturns (scope : Scope) : List String → Except Error Scope
  | [] => .ok scope
  | name :: rest =>
    if scope.isVisible name then .error (.duplicateProjection name)
    else takeReturns { scope with extra := scope.extra ++ [name] } rest

/-- What a statement ends with. -/
inductive Ending where
  /-- The result of a plan of its own. -/
  | result
  /-- The number of the root's matches. -/
  | count
  /-- The names that a subquery hands out. -/
  | handOut (names : List String)

namespace Selection

/-- Compiles the end of a statement, after the subqueries handed out some names. -/
def compileEnding (s : Selection) (scope : Scope) (space : String) (taken : List String) :
    Ending → Compile (List Cypher.Clause × ResultShape)
  | .count => s.compileCount scope space
  | .result => do
    let outputs ← s.planOutputs scope taken
    return (← s.compileReturn scope space outputs, s.shapeOf scope true outputs)
  | .handOut names => do
    let outputs ← (names.mapM (s.handedOut scope) : Except Error _)
    return (← s.compileReturn scope space outputs, s.shapeOf scope false outputs)

/-- Compiles everything before the subqueries. -/
def compileFront (r : Registry) (s : Selection) (space : String) (imports : List String) :
    Compile (List Cypher.Clause × Scope) := do
  let scope ← s.scope r imports
  let matched ← s.compileMatch scope space
  let (stages, scope) ← compileTransforms scope s.transforms
  return (matched ++ stages, scope)

end Selection

/-- The namespace of a subquery's parameters. -/
def subspace (space : String) (number : Nat) : String := space ++ "sq" ++ toString number ++ "_"

mutual

/-- Compiles a plan, nested in the statement under a namespace. -/
def compilePlan (r : Registry) (space : String) (imports : List String) (ending : Ending) :
    QueryPlan → Compile (List Cypher.Clause × ResultShape)
  | .mk s subqueries => do
    let (front, scope) ← s.compileFront r space imports
    let (calls, scope) ← compileSubqueries r space 1 scope subqueries
    let (last, shape) ← s.compileEnding scope space (subqueries.flatMap Subquery.returns) ending
    return (front ++ calls ++ last, shape)

/-- Compiles the subqueries of a plan, numbered from some number on. -/
def compileSubqueries (r : Registry) (space : String) (number : Nat) (scope : Scope) :
    List (Subquery QueryPlan) → Compile (List Cypher.Clause × Scope)
  | [] => return ([], scope)
  | ⟨plan, returns, imports⟩ :: rest => do
    checkImports scope imports
    let (body, _) ← compilePlan r (subspace space number) imports (.handOut returns) plan
    let scope ← takeReturns scope returns
    let (calls, scope) ← compileSubqueries r space (number + 1) scope rest
    return (.call imports body :: calls, scope)

end

/-- Compiles a plan with some ending into a statement. -/
def QueryPlan.compileTo (r : Registry) (p : QueryPlan) (ending : Ending) :
    Except Halt CompiledQuery := do
  let ((query, shape), binder) ← (compilePlan r "" [] ending p).run .empty
  return ⟨query, binder.params, shape⟩

/-- Compiles a plan. -/
def QueryPlan.compile (r : Registry) (p : QueryPlan) : Except Halt CompiledQuery :=
  p.compileTo r .result

/-- Compiles the count of a plan's root matches. -/
def QueryPlan.compileCount (r : Registry) (p : QueryPlan) : Except Halt CompiledQuery :=
  p.compileTo r .count

end GraphMapper
