import GraphMapper.Database.Memory
import GraphMapper.Wire.Result

/-!
# The journal as text

The statements of a scripted database, as far as it got, for people to read.
-/

namespace GraphMapper

/-- A statement as a JSON tree. -/
def Statement.toJson (s : Statement) : Json :=
  .object [("query", .string s.text), ("params", Wire.properties s.params)]

/-- Every request so far, over several lines. -/
def Memory.journalText (m : Memory) : String :=
  (Json.array (m.journal.map fun r => r.toStatement.toJson)).prettyText

end GraphMapper
