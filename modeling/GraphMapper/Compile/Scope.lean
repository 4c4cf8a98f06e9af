import GraphMapper.Cypher.Clause
import GraphMapper.Plan.Basic

/-!
# Scopes

The variables of a query and the patterns that bind them.

A path is bound step by step.  A new step takes a fresh node variable and a
fresh edge variable and extends the pattern that is being written; a step that
an earlier path has bound already, and that may be shared, binds nothing, and
the next pattern starts from its variable.  Steps after an optional one stay
optional.
-/

namespace GraphMapper

/-- The variables bound for a step. -/
structure Binding where
  hops : List String
  alias? : Option String
  hop : String
  var : String
  edgeVar : String
  targets : List NodeType
  model? : Option RelationshipType
  optional : Bool
  includeNode : Bool
  includeEdge : Bool
  /-- The position of the binding that the step starts from, unless that is the root. -/
  parent? : Option Nat

namespace Binding

/-- The written form of the hops up to a binding. -/
def chain (b : Binding) : String := Text.joinDouble b.hops

/-- The name of a binding in results: its alias, or its hops. -/
def key (b : Binding) : String := b.alias?.getD b.chain

end Binding

/-- The variables of a query. -/
structure Scope where
  selection : Selection
  rootVar : String
  /-- Whether the root needs no label any more. -/
  rootLabelled : Bool
  bindings : List Binding
  /-- Every name declared so far. -/
  declared : List String
  /-- The names that subqueries hand out. -/
  extra : List String
  /-- The variables of the last transform, if there is one. -/
  transformed? : Option (List String)
  mandatory : List Cypher.Pattern
  optional : List Cypher.Pattern

namespace Scope

/-- Declares a name that must be new. -/
def declare (s : Scope) (name : String) : Except Error Scope :=
  if s.declared.contains name then .error (.compile (.boundTwice name))
  else .ok { s with declared := s.declared ++ [name] }

/-- The scope of a selection before its paths are bound. -/
def start (selection : Selection) (imports : List String) : Except Error Scope := do
  let rootVar := selection.root.variableName
  let imported := imports.contains rootVar
  let s : Scope := ⟨selection, rootVar, imported, [], [], [], none, [], []⟩
  let s ← imports.foldlM declare s
  if imported then return s else s.declare rootVar

/-- Whether a name may be used. -/
def isVisible (s : Scope) (name : String) : Bool :=
  (s.transformed?.getD s.declared).contains name || s.extra.contains name

/-- The first binding of a hop chain. -/
def bindingOfChain? (s : Scope) (chain : String) : Option Binding :=
  s.bindings.find? fun b => b.chain == chain

/-- The binding of an alias, or else the first one of a hop chain. -/
def bindingOfKey? (s : Scope) (key : String) : Option Binding :=
  s.bindings.find? (fun b => b.alias? == some key) <|> s.bindingOfChain? key

/-- Whether the variables of a binding may be shared by name. -/
def isShared (s : Scope) (b : Binding) : Bool :=
  s.selection.shared.contains b.chain ||
    (match b.alias? with
      | some name => s.selection.shared.contains name
      | none => false)

/-- The position of an earlier binding whose variables a step takes over. -/
def reusable? (s : Scope) (step : PathStep) (hidden : Bool) : Option Nat :=
  s.bindings.findIdx? fun b => b.chain == step.chain && (hidden || s.isShared b)

/-! ## Patterns -/

/-- Where the binding of a path stands. -/
structure Progress where
  /-- The binding reached, unless that is the root. -/
  at? : Option Nat
  /-- The pattern that is being written, and whether it is optional. -/
  pattern? : Option (Cypher.Pattern × Bool)
  /-- Whether an optional step lies behind. -/
  afterOptional : Bool

/-- Finishes the pattern that is being written. -/
def flush (s : Scope) : Option (Cypher.Pattern × Bool) → Scope
  | none => s
  | some (p, true) => { s with optional := s.optional ++ [p] }
  | some (p, false) => { s with mandatory := s.mandatory ++ [p] }

/-- The pattern of the root with its label. -/
def rootPattern (s : Scope) : Cypher.Pattern :=
  .node ⟨some s.rootVar, some [s.selection.root.label]⟩

/-- The pattern that a path goes on with, from a binding or from the root. -/
def startPattern (s : Scope) (at? : Option Nat) (optional : Bool) : Cypher.Pattern × Scope :=
  match at?.bind (s.bindings[·]?) with
  | some b => (.node (.bound b.var), s)
  | none =>
    if !optional && !s.rootLabelled then (s.rootPattern, { s with rootLabelled := true })
    else (.node (.bound s.rootVar), s)

/-- The pattern that a step goes on with: the one being written, if it is as optional as the
step is, and else a new one. -/
def openPattern (s : Scope) (p : Progress) (optional : Bool) : Cypher.Pattern × Scope :=
  match p.pattern? with
  | some (pattern, o) =>
    if o = optional then (pattern, s)
    else (s.flush p.pattern?).startPattern p.at? optional
  | none => s.startPattern p.at? optional

/-- The node variable of a new step: its alias, or else a name that begins with the first target,
which is taken to be there. -/
def nodeVar (s : Scope) (step : PathStep) : Except Halt String :=
  match step.alias?, step.hop.targets with
  | some name, _ => .ok name
  | none, t :: _ =>
    .ok (t.variableName ++ "_" ++ step.chain ++ "_" ++ toString (s.bindings.length + 1))
  | none, [] => .error (.panic (.firstTarget step.name))

/-- The edge variable of a new step. -/
def edgeVar (s : Scope) (step : PathStep) : String :=
  match step.alias? with
  | some name => name ++ "_rel"
  | none => "r" ++ toString (s.bindings.length + 1)

/-- The edge of a hop. -/
def edgePattern (hop : Hop) (var? : Option String) : Cypher.EdgePattern :=
  ⟨var?, hop.relationship.relType, hop.relationship.direction, []⟩

/-- The labels of a hop's targets. -/
def targetLabels (hop : Hop) : List String := hop.targets.map NodeType.label

/-- Binds a step to new variables. -/
def bindNew (s : Scope) (p : Progress) (step : PathStep) (hidden : Bool) :
    Except Halt (Scope × Progress) := do
  let optional := step.optional || p.afterOptional
  let (pattern, s) := s.openPattern p optional
  let var ← s.nodeVar step
  let edgeVar := s.edgeVar step
  let s ← s.declare var
  let s ← s.declare edgeVar
  let pattern := pattern.extend (edgePattern step.hop (some edgeVar))
    ⟨some var, some (targetLabels step.hop)⟩
  let binding : Binding :=
    { hops := step.hops
      alias? := step.alias?
      hop := step.name
      var
      edgeVar
      targets := step.hop.targets
      model? := step.hop.model?
      optional
      includeNode := step.includeNode && !hidden
      includeEdge := step.includeEdge && !hidden
      parent? := p.at? }
  return ({ s with bindings := s.bindings ++ [binding] },
    ⟨some s.bindings.length, some (pattern, optional), optional⟩)

/-- Binds a step, to the variables of an earlier one where they are shared. -/
def bindStep (hidden : Bool) (state : Scope × Progress) (step : PathStep) :
    Except Halt (Scope × Progress) :=
  let (s, p) := state
  match s.reusable? step hidden with
  | some i =>
    let optional := (s.bindings[i]?.map Binding.optional).getD false
    .ok (s.flush p.pattern?, ⟨some i, none, p.afterOptional || optional⟩)
  | none => s.bindNew p step hidden

/-- Binds every step of a path. -/
def bindPath (s : Scope) (path : PathSpec) : Except Halt Scope := do
  let (s, p) ← path.steps.foldlM (bindStep path.hidden) (s, ⟨none, none, false⟩)
  return s.flush p.pattern?

/-! ## References -/

/-- A field as a property of a variable, with its declaration. -/
def field (s : Scope) (f : FieldPath) (site : UseSite) :
    Except Error (Cypher.PropertyRef × Property) :=
  let unbound := Error.unboundFieldPath f.text site
  if s.transformed?.isSome then .error unbound
  else if f.hops = [] then
    match s.selection.root.property? f.property with
    | some p => .ok (⟨s.rootVar, p.storageName⟩, p)
    | none => .error (.unknownProperty s.selection.root.name f.property)
  else
    match s.bindingOfChain? f.chain with
    | none => .error unbound
    | some b =>
      if f.onRelationship then
        match b.model?.bind (·.property? f.property) with
        | some p => .ok (⟨b.edgeVar, p.storageName⟩, p)
        | none => .error unbound
      else
        match b.targets.findSome? (·.property? f.property) with
        | some p => .ok (⟨b.var, p.storageName⟩, p)
        | none => .error unbound

/-- The storage name of a property of a variable, where the variable's type declares it. -/
def storageName (s : Scope) (of : VarRef) (property : String) : String :=
  let declared? : Option Property :=
    match of with
    | .root => s.selection.root.property? property
    | .node key => (s.bindingOfKey? key).bind fun b => b.targets.findSome? (·.property? property)
    | .edge key => (s.bindingOfKey? key).bind fun b => b.model?.bind (·.property? property)
    | .name _ | .property _ _ => none
  (declared?.map Property.storageName).getD property

/-- A reference of the plan as one of the statement. -/
def reference (s : Scope) (site : UseSite) : VarRef → Except Error Cypher.Reference
  | .root =>
    if s.transformed?.isSome then .error (.unboundFieldPath "self" site)
    else .ok ⟨s.rootVar, []⟩
  | .node key =>
    match s.bindingOfKey? key, s.transformed? with
    | some b, none => .ok ⟨b.var, []⟩
    | _, _ => .error (.unboundFieldPath key site)
  | .edge key =>
    match s.bindingOfKey? key, s.transformed? with
    | some b, none => .ok ⟨b.edgeVar, []⟩
    | _, _ => .error (.unboundFieldPath key site)
  | .name name =>
    if s.isVisible name then .ok ⟨name, []⟩ else .error (.unboundFieldPath name site)
  | .property of property => do
    requireIdentifier property
    let inner ← s.reference site of
    return ⟨inner.var, inner.path ++ [s.storageName of property]⟩

/-- An expression of the plan as one of the statement. -/
def expr (s : Scope) (e : Expr VarRef) : Except Error (Expr Cypher.Reference) :=
  e.resolve (s.reference .projections)

/-- The node variable of the nearest returned ancestor of a binding; a parent comes before its
child. -/
def returnedParent? (s : Scope) : Nat → Option Nat → Option String
  | 0, _ | _, none => none
  | fuel + 1, some i =>
    match s.bindings[i]? with
    | none => none
    | some b => if b.includeNode then some b.var else s.returnedParent? fuel b.parent?

end Scope

end GraphMapper
