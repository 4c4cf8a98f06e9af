/-!
# Bounds and directions

How many relationships a declaration allows, how strictly its lower bound is
kept, and which way it points.
-/

namespace GraphMapper

/-- The declared number of relationships. -/
inductive Cardinality where
  | zeroOrMore
  | atMostOne
  | atLeastOne
  | exactlyOne
deriving DecidableEq, Inhabited

namespace Cardinality

/-- The least number allowed. -/
def least : Cardinality → Nat
  | zeroOrMore | atMostOne => 0
  | atLeastOne | exactlyOne => 1

/-- The greatest number allowed, if there is one. -/
def most? : Cardinality → Option Nat
  | zeroOrMore | atLeastOne => none
  | atMostOne | exactlyOne => some 1

/-- Whether a number is within the bounds. -/
def allows (c : Cardinality) (count : Nat) : Bool :=
  decide (c.least ≤ count) && (match c.most? with | some most => decide (count ≤ most) | none => true)

/-- A cardinality in words. -/
def text : Cardinality → String
  | zeroOrMore => "zero or more"
  | atMostOne => "at most one"
  | atLeastOne => "at least one"
  | exactlyOne => "exactly one"

end Cardinality

/-- How a lower bound is kept when relationships are removed. -/
inductive Enforcement where
  /-- A removal that breaks the bound is refused. -/
  | strict
  /-- A removal that breaks the bound is reported and done. -/
  | soft
deriving DecidableEq, Inhabited

/-- Which way a relationship points, seen from the type that declares it. -/
inductive Direction where
  | outgoing
  | incoming
  | either
deriving DecidableEq, Inhabited

/-- The direction seen from the other end. -/
def Direction.reversed : Direction → Direction
  | outgoing => incoming
  | incoming => outgoing
  | either => either

@[simp] theorem Direction.reversed_reversed (d : Direction) : d.reversed.reversed = d := by
  cases d <;> rfl

end GraphMapper
