import GraphMapper.Compile.Binder
import GraphMapper.Compile.Scope
import GraphMapper.Text.Pattern

/-!
# Compiling filters

A predicate becomes a formula of the same form, its operands encoded by the
codec of the property they are compared with and bound to parameters.  Text
operators become regular expressions.
-/

namespace GraphMapper

/-- An operand as a property stores it. -/
def Property.encode (p : Property) (name : String) (v : Value) : Except Error Value :=
  (p.codec.encode v).mapError fun e => .encode name (.codec e)

/-- The regular expression of a text operator. -/
def Operator.pattern (op : Operator) (text : String) : String :=
  let literal := Text.literalPattern text
  match op with
  | .iexact => "(?i)" ++ literal
  | .contains => ".*" ++ literal ++ ".*"
  | .icontains => "(?i).*" ++ literal ++ ".*"
  | .startsWith => literal ++ ".*"
  | .istartsWith => "(?i)" ++ literal ++ ".*"
  | .endsWith => ".*" ++ literal
  | .iendsWith => "(?i).*" ++ literal
  | .iregex => "(?i)" ++ text
  | _ => text

/-- The comparison of an operator that compares values. -/
def Operator.comparison : Operator → Cypher.Comparison
  | .ne => .ne
  | .lt => .lt
  | .gt => .gt
  | .lte => .le
  | .gte => .ge
  | _ => .eq

/-- The name that a property's parameters are made of. -/
def paramHint (space : String) (lhs : Cypher.PropertyRef) : String :=
  space ++ lhs.var ++ "_" ++ lhs.key

/-- A comparison with the value that its parameter is to hold, if it has one. -/
structure Lowered where
  atom : String → Cypher.Atom
  operand? : Option Value

/-- The operand of a comparison with a property, encoded. -/
def Condition.lower (c : Condition) (lhs : Cypher.PropertyRef) (p : Property) :
    Except Error Lowered := do
  let field := c.field.text
  match c.operator with
  | .isNull =>
    return ⟨fun _ => if c.operand.bool?.getD true then .isNull lhs else .isNotNull lhs, none⟩
  | .isIn =>
    if p.codec.isArray then
      return ⟨.anyIn lhs, some (← p.encode field c.operand)⟩
    else
      return ⟨.isIn lhs, some (.list (← (c.operand.list?.getD []).mapM (p.encode field)))⟩
  | op =>
    let encoded ← p.encode field c.operand
    if op.isPattern then
      match encoded.string? with
      | some text => return ⟨.likes lhs, some (.string (op.pattern text))⟩
      | none => throw (.invalidFilter field (.notText op p.name encoded.kind))
    else
      return ⟨.compare lhs op.comparison, some encoded⟩

/-- Compiles a comparison. -/
def compileCondition (s : Scope) (space : String) (c : Condition) : Compile Cypher.Formula := do
  let (lhs, p) ← s.field c.field .filters
  let lowered ← c.lower lhs p
  match lowered.operand? with
  | none => return .atom (lowered.atom "")
  | some v => return .atom (lowered.atom (← bindParam (paramHint space lhs) v))

mutual

/-- Compiles a predicate. -/
def compilePredicate (s : Scope) (space : String) : Predicate → Compile Cypher.Formula
  | .leaf c => compileCondition s space c
  | .and parts => return .all (← compilePredicates s space parts)
  | .or parts => return .any (← compilePredicates s space parts)
  | .not p => return .not (← compilePredicate s space p)

/-- Compiles some predicates, from left to right. -/
def compilePredicates (s : Scope) (space : String) : List Predicate → Compile (List Cypher.Formula)
  | [] => return []
  | p :: rest => do
    let f ← compilePredicate s space p
    return f :: (← compilePredicates s space rest)

end

/-- The pattern of an existence check, from the root on. -/
def Existence.pattern (rootVar : String) (e : Existence) : Cypher.Pattern :=
  ⟨.bound rootVar, e.hops.map fun hop =>
    (Scope.edgePattern hop none, ⟨none, some (Scope.targetLabels hop)⟩)⟩

/-- The formula of an existence check. -/
def Existence.formula (rootVar : String) (e : Existence) : Cypher.Formula :=
  if e.isPresent then .present (e.pattern rootVar) else .absent (e.pattern rootVar)

/-- The paths that bind the hops of filters which no path covers yet. -/
def Selection.filterPaths (r : Registry) (s : Selection) : Except Error (List PathSpec) :=
  ((s.predicate?.map Predicate.conditions).getD []).foldlM (fun hidden c =>
    let f := c.field
    if f.hops = [] ∨ f.onRelationship = true ∨
        (s.paths ++ hidden).any fun p => p.steps.any fun step => step.chain == f.chain then
      .ok hidden
    else do
      return hidden ++ [← PathSpec.forFilter r s.root f.hops]) []

end GraphMapper
