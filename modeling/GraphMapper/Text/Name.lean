import GraphMapper.Limits
import GraphMapper.Text.Quoted

/-!
# Names in statements

A label or relationship type stands as it is when it has the form of an
identifier, and between backquotes otherwise.
-/

namespace GraphMapper.Text

/-- A label or relationship type as it is written in a statement. -/
def quote (name : String) : String :=
  if Limits.isValidIdentifier name then name else backquoted name

end GraphMapper.Text
