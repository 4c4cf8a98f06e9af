/-!
# Literal text in regular expressions

A text is matched literally once every character that a regular expression
reads as an operator has a backslash before it.
-/

namespace GraphMapper.Text

/-- The characters that a regular expression reads as operators. -/
def patternOperators : List Char :=
  ['\\', '.', '+', '*', '?', '(', ')', '|', '[', ']', '\x7b', '\x7d', '^', '$', '#', '&', '-', '~']

/-- The regular expression that matches exactly a text. -/
def literalPattern (s : String) : String :=
  String.ofList (s.toList.flatMap fun c => if c ∈ patternOperators then ['\\', c] else [c])

end GraphMapper.Text
