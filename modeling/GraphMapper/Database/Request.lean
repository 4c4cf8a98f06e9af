import GraphMapper.Compile.Merge
import GraphMapper.Database.EdgeRequest
import GraphMapper.Text.Search

/-!
# Requests

Everything that a database is asked to run, and the statement that it gets.
-/

namespace GraphMapper

/-- A text with its parameters. -/
structure Statement where
  text : String
  params : Params

/-- Whether the text of a statement names a clause that changes what is stored. -/
def Statement.isWrite (s : Statement) : Bool :=
  ["MERGE", "CREATE", "DELETE", "SET"].any fun word => Text.occursIn word.toList s.text.toList

/-- What a database is asked to run. -/
inductive Request where
  | statement (s : Statement)
  | query (c : CompiledQuery)
  | merge (c : CompiledMerge)
  | edges (f : IdFunction) (r : EdgeRequest)

namespace Request

/-- The statement of a request. -/
def toStatement : Request → Statement
  | statement s => s
  | query c => ⟨c.text, c.params⟩
  | merge c => ⟨c.statement.text, c.params⟩
  | edges f r => ⟨r.text f, r.params f⟩

/-- The text of a request. -/
def text (r : Request) : String := r.toStatement.text

end Request

end GraphMapper
