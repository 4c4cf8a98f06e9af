/-!
# Back-quoted text

Names that are not plain identifiers stand between backquotes, and a backquote
inside is written twice.
-/

namespace GraphMapper.Text

/-- The character that opens and closes a quoted name. -/
def backquote : Char := '\x60'

/-- A text with every backquote doubled. -/
def doubleBackquotes : List Char → List Char
  | [] => []
  | c :: rest =>
    if c = backquote then backquote :: backquote :: doubleBackquotes rest
    else c :: doubleBackquotes rest

/-- A text between backquotes. -/
def backquoted (s : String) : String :=
  String.ofList (backquote :: doubleBackquotes s.toList ++ [backquote])

end GraphMapper.Text
