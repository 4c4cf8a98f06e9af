import GraphMapper.Cypher.Formula
import GraphMapper.Plan.Expr

/-!
# Statements

A statement is a list of clauses; text is made of it last, by one printer.
-/

namespace GraphMapper.Cypher

/-- A variable, or a property path of one. -/
structure Reference where
  var : String
  path : List String
deriving DecidableEq

/-- A reference with dots before its properties. -/
def Reference.text (r : Reference) : String := ".".intercalate (r.var :: r.path)

/-- An expression as text. -/
def exprText : Expr Reference → String
  | .ref r => r.text
  | .apply f arg =>
    f.text ++ "(" ++ (if f.isDistinct then "DISTINCT " else "") ++ exprText arg ++ ")"

/-- The parameters that skip and limit are bound to. -/
structure Page where
  skip? : Option String
  limit? : Option String
deriving DecidableEq

/-- Whether neither skip nor limit is given. -/
def Page.isEmpty (p : Page) : Bool := p.skip?.isNone && p.limit?.isNone

/-- Skip and limit, as far as they are given. -/
def Page.parts (p : Page) : List String :=
  (p.skip?.map ("SKIP $" ++ ·)).toList ++ (p.limit?.map ("LIMIT $" ++ ·)).toList

/-- An item that a statement returns. -/
inductive Item where
  | var (name : String)
  | computed (expr : Expr Reference) (name : String)
deriving DecidableEq

namespace Item

/-- The name of an item's column. -/
def name : Item → String
  | var name | computed _ name => name

/-- An item as text. -/
def text : Item → String
  | var name => name
  | computed expr name => exprText expr ++ " AS " ++ name

end Item

/-- A term of the final ordering. -/
inductive SortTerm where
  | random
  | property (lhs : PropertyRef) (descending : Bool)
deriving DecidableEq

/-- A text with the mark of a descending order. -/
def directed (text : String) (descending : Bool) : String :=
  if descending then text ++ " DESC" else text

/-- A sort term as text. -/
def SortTerm.text : SortTerm → String
  | random => "rand()"
  | property lhs descending => directed lhs.text descending

/-- A clause of a statement. -/
inductive Clause where
  | matching (patterns : List Pattern)
  | optionalMatching (pattern : Pattern)
  /-- A filter right after the patterns. -/
  | filter (conditions : List Formula)
  /-- A filter after optional patterns, which keeps every variable. -/
  | lateFilter (conditions : List Formula)
  /-- A stage that keeps only its own variables. -/
  | stage (distinct : Bool) (items : List (Reference × String)) (order : List (Reference × Bool))
  /-- A nested statement that sees the imported variables. -/
  | call (imports : List String) (body : List Clause)
  /-- A page of one variable's matches. -/
  | keep (var : String) (page : Page)
  | returning (items : List Item)
  | ordering (terms : List SortTerm)
  | paging (page : Page)

/-- A statement. -/
abbrev Query : Type := List Clause

mutual

/-- A clause as text. -/
def clauseText : Clause → String
  | .matching patterns => "MATCH " ++ ", ".intercalate (patterns.map Pattern.text)
  | .optionalMatching pattern => "OPTIONAL MATCH " ++ pattern.text
  | .filter conditions => "WHERE " ++ conditionText conditions
  | .lateFilter conditions => "WITH * WHERE " ++ conditionText conditions
  | .stage distinct items order =>
    "WITH " ++ (if distinct then "DISTINCT " else "") ++
      ", ".intercalate (items.map fun i => i.1.text ++ " AS " ++ i.2) ++
      (if order.isEmpty then ""
        else " ORDER BY " ++ ", ".intercalate (order.map fun o => directed o.1.text o.2))
  | .call imports body =>
    "CALL \x7b " ++
      (if imports.isEmpty then "" else "WITH " ++ ", ".intercalate imports ++ " ") ++
      " ".intercalate (clauseTexts body) ++ " \x7d"
  | .keep var page => " ".intercalate (("WITH " ++ var) :: page.parts)
  | .returning items => "RETURN " ++ ", ".intercalate (items.map Item.text)
  | .ordering terms => "ORDER BY " ++ ", ".intercalate (terms.map SortTerm.text)
  | .paging page => " ".intercalate page.parts

/-- Some clauses as text, one by one. -/
def clauseTexts : List Clause → List String
  | [] => []
  | c :: cs => clauseText c :: clauseTexts cs

end

/-- A statement as text. -/
def queryText (q : Query) : String := " ".intercalate (clauseTexts q)

end GraphMapper.Cypher
