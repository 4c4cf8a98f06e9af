import GraphMapper.FieldPath

/-!
# Predicates

Trees of comparisons under AND, OR and NOT.  `Predicate.all` and
`Predicate.any` build flat trees: an AND under an AND is merged into it, and a
group of one is that one.  They are `&&&` and `|||` for two predicates, and
`~~~` negates one.
-/

namespace GraphMapper

/-- A comparison of a field with an operand. -/
structure Condition where
  field : FieldPath
  operator : Operator
  operand : Value

/-- A tree of comparisons. -/
inductive Predicate where
  | leaf (c : Condition)
  | and (parts : List Predicate)
  | or (parts : List Predicate)
  | not (p : Predicate)

namespace Predicate

/-- What is wrong with an operand's shape, if anything. -/
def operandFault? (op : Operator) (v : Value) : Option FilterFault :=
  match op with
  | .isIn => if v.list?.isNone then some (.operand op "list" v.kind) else none
  | .isNull => if v.bool?.isNone then some (.operand op "bool" v.kind) else none
  | op => if op.isPattern && v.string?.isNone then some (.operand op "string" v.kind) else none

/-- A comparison whose operand suits its operator. -/
def compare (field : List Char) (op : Operator) (operand : Value) : Except Error Predicate := do
  let path ← FieldPath.parse field
  match operandFault? op operand with
  | some fault => throw (.invalidFilter (String.ofList field) fault)
  | none => return .leaf ⟨path, op, operand⟩

/-- The field and the operator of a lookup; without a suffix the operator is `exact`. -/
def splitLookup (lookup : List Char) : List Char × Operator :=
  match Text.splitLastDouble? lookup with
  | some (field, suffix) =>
    match Operator.ofSuffix? (String.ofList suffix) with
    | some op => (field, op)
    | none => (lookup, .exact)
  | none => (lookup, .exact)

/-- A comparison from a lookup such as `price__gt`. -/
def lookup (text : List Char) (operand : Value) : Except Error Predicate :=
  let (field, op) := splitLookup text
  compare field op operand

/-- The parts that a predicate adds to an AND. -/
def andParts : Predicate → List Predicate
  | and parts => parts
  | p => [p]

/-- The parts that a predicate adds to an OR. -/
def orParts : Predicate → List Predicate
  | or parts => parts
  | p => [p]

/-- The conjunction of some predicates. -/
def all (ps : List Predicate) : Predicate :=
  match ps.flatMap andParts with
  | [p] => p
  | parts => and parts

/-- The disjunction of some predicates. -/
def any (ps : List Predicate) : Predicate :=
  match ps.flatMap orParts with
  | [p] => p
  | parts => or parts

instance : AndOp Predicate := ⟨fun p q => all [p, q]⟩

instance : OrOp Predicate := ⟨fun p q => any [p, q]⟩

instance : Complement Predicate := ⟨not⟩

mutual

/-- The comparisons of a tree, from left to right. -/
def conditions : Predicate → List Condition
  | leaf c => [c]
  | and parts => conditionsOf parts
  | or parts => conditionsOf parts
  | not p => conditions p

/-- The comparisons of some trees, from left to right. -/
def conditionsOf : List Predicate → List Condition
  | [] => []
  | p :: rest => conditions p ++ conditionsOf rest

end

mutual

/-- Equality of trees, operands compared as data. -/
def same : Predicate → Predicate → Bool
  | leaf a, leaf b => a.field == b.field && a.operator == b.operator && a.operand.same b.operand
  | and as, and bs => sameParts as bs
  | or as, or bs => sameParts as bs
  | not a, not b => same a b
  | _, _ => false

/-- Equality of lists of trees. -/
def sameParts : List Predicate → List Predicate → Bool
  | [], [] => true
  | a :: as, b :: bs => same a b && sameParts as bs
  | _, _ => false

end

end Predicate

end GraphMapper
