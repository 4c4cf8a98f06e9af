import GraphMapper.FieldPath

/-!
# Expressions and orderings

What a plan may project and sort by: references to the variables of the query,
functions of them, and field paths.
-/

namespace GraphMapper

/-- A reference to a variable of the query. -/
inductive VarRef where
  | root
  /-- A traversed node, by hop chain or alias. -/
  | node (key : String)
  /-- A traversed relationship, by hop chain or alias. -/
  | edge (key : String)
  /-- A name that a transform or a subquery introduces. -/
  | name (name : String)
  | property (of : VarRef) (name : String)
deriving DecidableEq

/-- The node of a path, where `self` is the root. -/
def VarRef.ofPath (path : String) : VarRef := if path = "self" then root else node path

/-- A function of a projection. -/
inductive Function where
  | collect (distinct : Bool)
  | count (distinct : Bool)
  | last
  | size
  | sum
  | avg
  | min
  | max
deriving DecidableEq

namespace Function

/-- The name of a function. -/
def text : Function → String
  | collect _ => "collect"
  | count _ => "count"
  | last => "last"
  | size => "size"
  | sum => "sum"
  | avg => "avg"
  | min => "min"
  | max => "max"

/-- Whether a function takes every value once. -/
def isDistinct : Function → Bool
  | collect distinct | count distinct => distinct
  | _ => false

/-- Whether a function makes one value out of many rows. -/
def groups : Function → Bool
  | last | size => false
  | _ => true

end Function

/-- An expression over references. -/
inductive Expr (Ref : Type) where
  | ref (r : Ref)
  | apply (f : Function) (arg : Expr Ref)
deriving DecidableEq

namespace Expr

variable {Ref Ref' : Type}

/-- Whether an expression groups rows. -/
def isAggregate : Expr Ref → Bool
  | ref _ => false
  | apply f arg => f.groups || arg.isAggregate

/-- An expression with its reference resolved. -/
def resolve (f : Ref → Except Error Ref') : Expr Ref → Except Error (Expr Ref')
  | ref r => return ref (← f r)
  | apply g arg => return apply g (← arg.resolve f)

end Expr

/-- One term of an ordering. -/
inductive OrderTerm where
  | random
  | field (path : FieldPath) (descending : Bool)
deriving DecidableEq

/-- A text after its leading minus sign, and whether it has one. -/
def splitDescending : List Char → Bool × List Char
  | '-' :: rest => (true, rest)
  | text => (false, text)

/-- The term that a text such as `-suppliers__name` writes; `?` stands for a random order. -/
def OrderTerm.parse (text : List Char) : Except Error OrderTerm :=
  if text = ['?'] then .ok .random
  else do
    let (descending, rest) := splitDescending text
    return .field (← FieldPath.parse rest) descending

/-- A named projection. -/
structure Annotation where
  name : String
  expr : Expr VarRef
deriving DecidableEq

/-- A variable that a transform carries forward. -/
structure TransformVar where
  name : String
  source : VarRef
  returned : Bool
deriving DecidableEq

/-- A term of a transform's ordering. -/
structure TransformOrder where
  target : VarRef
  descending : Bool
deriving DecidableEq

/-- A stage after which only its own variables are in scope. -/
structure Transform where
  vars : List TransformVar
  distinct : Bool
  ordering : List TransformOrder
deriving DecidableEq

/-- The term that a text such as `-rel.since` writes. -/
def TransformOrder.parse (text : List Char) : Except Error TransformOrder := do
  let (descending, rest) := splitDescending text
  match Text.splitFirst? '.' rest with
  | some (name, property) =>
    requireIdentifier (String.ofList name)
    requireIdentifier (String.ofList property)
    return ⟨.property (.name (String.ofList name)) (String.ofList property), descending⟩
  | none =>
    requireIdentifier (String.ofList rest)
    return ⟨.name (String.ofList rest), descending⟩

end GraphMapper
