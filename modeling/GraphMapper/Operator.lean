/-!
# Comparison operators

The operators of a filter and the suffixes that name them in lookups.  A
pattern operator compares text and becomes a regular expression.
-/

namespace GraphMapper

/-- A comparison operator. -/
inductive Operator where
  | exact
  | iexact
  | ne
  | lt
  | gt
  | lte
  | gte
  | isIn
  | isNull
  | contains
  | icontains
  | startsWith
  | istartsWith
  | endsWith
  | iendsWith
  | regex
  | iregex
deriving DecidableEq

namespace Operator

/-- All operators. -/
def all : List Operator :=
  [exact, iexact, ne, lt, gt, lte, gte, isIn, isNull, contains, icontains, startsWith,
    istartsWith, endsWith, iendsWith, regex, iregex]

/-- The suffix that names an operator. -/
def suffix : Operator → String
  | exact => "exact"
  | iexact => "iexact"
  | ne => "ne"
  | lt => "lt"
  | gt => "gt"
  | lte => "lte"
  | gte => "gte"
  | isIn => "in"
  | isNull => "isnull"
  | contains => "contains"
  | icontains => "icontains"
  | startsWith => "startswith"
  | istartsWith => "istartswith"
  | endsWith => "endswith"
  | iendsWith => "iendswith"
  | regex => "regex"
  | iregex => "iregex"

/-- The operator that a suffix names. -/
def ofSuffix? (s : String) : Option Operator := all.find? fun op => op.suffix == s

/-- Whether an operator matches text against a regular expression. -/
def isPattern : Operator → Bool
  | iexact | contains | icontains | startsWith | istartsWith | endsWith | iendsWith | regex
  | iregex => true
  | _ => false

theorem mem_all (op : Operator) : op ∈ all := by cases op <;> decide

theorem ofSuffix?_suffix (op : Operator) : ofSuffix? op.suffix = some op := by
  cases op <;> decide

end Operator

end GraphMapper
