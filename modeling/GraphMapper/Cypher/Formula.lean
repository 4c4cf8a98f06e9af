import GraphMapper.Cypher.Pattern

/-!
# Filters

Boolean combinations of comparisons and existence checks, and their written
form.  A formula is written as a list of tokens: NOT binds tighter than AND,
and AND tighter than OR, so an OR of several parts always stands in
parentheses and an AND of several parts does where it is nested.
-/

namespace GraphMapper.Cypher

/-- A stored property of a variable. -/
structure PropertyRef where
  var : String
  key : String
deriving DecidableEq

/-- A property with a dot before its name. -/
def PropertyRef.text (p : PropertyRef) : String := p.var ++ "." ++ p.key

/-- A comparison of two values. -/
inductive Comparison where
  | eq
  | ne
  | lt
  | gt
  | le
  | ge
deriving DecidableEq

/-- The sign of a comparison. -/
def Comparison.text : Comparison → String
  | eq => "="
  | ne => "<>"
  | lt => "<"
  | gt => ">"
  | le => "<="
  | ge => ">="

/-- A comparison of a property, with a parameter where it has an operand. -/
inductive Atom where
  | compare (lhs : PropertyRef) (op : Comparison) (param : String)
  | isNull (lhs : PropertyRef)
  | isNotNull (lhs : PropertyRef)
  | isIn (lhs : PropertyRef) (param : String)
  /-- Some item of a stored list is in a parameter's list. -/
  | anyIn (lhs : PropertyRef) (param : String)
  /-- The property matches a regular expression. -/
  | likes (lhs : PropertyRef) (param : String)
deriving DecidableEq

namespace Atom

/-- The property that is compared. -/
def lhs : Atom → PropertyRef
  | compare lhs _ _ | isNull lhs | isNotNull lhs | isIn lhs _ | anyIn lhs _ | likes lhs _ => lhs

/-- The parameter of the operand, if there is one. -/
def param? : Atom → Option String
  | compare _ _ p | isIn _ p | anyIn _ p | likes _ p => some p
  | isNull _ | isNotNull _ => none

/-- A comparison as text. -/
def text : Atom → String
  | compare lhs op param => lhs.text ++ " " ++ op.text ++ " $" ++ param
  | isNull lhs => lhs.text ++ " IS NULL"
  | isNotNull lhs => lhs.text ++ " IS NOT NULL"
  | isIn lhs param => lhs.text ++ " IN $" ++ param
  | anyIn lhs param => "any(x IN " ++ lhs.text ++ " WHERE x IN $" ++ param ++ ")"
  | likes lhs param => lhs.text ++ " =~ $" ++ param

end Atom

/-- A filter. -/
inductive Formula where
  | atom (a : Atom)
  | present (p : Pattern)
  | absent (p : Pattern)
  | all (parts : List Formula)
  | any (parts : List Formula)
  | not (f : Formula)

/-- A token of a written filter. -/
inductive Token where
  | atom (a : Atom)
  | present (p : Pattern)
  | and
  | or
  | not
  | opening
  | closing
  | true
  | false
deriving DecidableEq

/-- A token as text, blanks included. -/
def Token.text : Token → String
  | atom a => a.text
  | present p => "EXISTS \x7b " ++ p.text ++ " \x7d"
  | and => " AND "
  | or => " OR "
  | not => "NOT "
  | opening => "("
  | closing => ")"
  | true => "true"
  | false => "false"

/-- Tokens in parentheses. -/
def parenthesized (ts : List Token) : List Token := .opening :: ts ++ [.closing]

namespace Formula

mutual

/-- The tokens of a filter; `nested` says that it stands inside an AND or OR. -/
def tokens (nested : Bool) : Formula → List Token
  | atom a => [.atom a]
  | present p => [.present p]
  | absent p => [.not, .present p]
  | all [] => [.true]
  | all (f :: fs) =>
    let ts := tokens Bool.true f ++ tokensAfter .and fs
    if nested && !fs.isEmpty then parenthesized ts else ts
  | any [] => [.false]
  | any (f :: fs) =>
    let ts := tokens Bool.true f ++ tokensAfter .or fs
    if fs.isEmpty then ts else parenthesized ts
  | not f => .not :: parenthesized (tokens Bool.false f)

/-- The tokens of the remaining parts of a group, a connective before each. -/
def tokensAfter (connective : Token) : List Formula → List Token
  | [] => []
  | f :: fs => connective :: tokens Bool.true f ++ tokensAfter connective fs

end

mutual

/-- The comparisons of a filter, from left to right. -/
def atoms : Formula → List Atom
  | atom a => [a]
  | present _ | absent _ => []
  | all parts => atomsOf parts
  | any parts => atomsOf parts
  | not f => atoms f

/-- The comparisons of some filters, from left to right. -/
def atomsOf : List Formula → List Atom
  | [] => []
  | f :: fs => atoms f ++ atomsOf fs

end

/-- The variables whose properties a filter compares. -/
def vars (f : Formula) : List String := f.atoms.map fun a => a.lhs.var

end Formula

/-- The tokens of filters that all have to hold. -/
def conditionTokens : List Formula → List Token
  | [] => []
  | [f] => f.tokens Bool.false
  | f :: fs => f.tokens Bool.false ++ .and :: conditionTokens fs

/-- Filters that all have to hold, as text. -/
def conditionText (fs : List Formula) : String :=
  String.join ((conditionTokens fs).map Token.text)

end GraphMapper.Cypher
