/-!
# Where a JSON text goes wrong

A failure is a reason and a place.  The place is kept as the text that was left
when the reader stopped, together with the number of its bytes up to and
including the offending one; line and column follow from it.  Columns count
bytes, and the line feed itself stands at column zero of the next line.
-/

namespace GraphMapper.Json

/-- Why a text is not JSON. -/
inductive Reason where
  | endInValue
  | endInArray
  | endInObject
  | endInString
  | expectedValue
  | expectedColon
  | expectedCommaOrBracket
  | expectedCommaOrBrace
  | expectedKey
  | expectedWord
  | trailingComma
  | trailingCharacters
  | badNumber
  | numberTooLarge
  | badEscape
  | loneSurrogate
  | unfinishedSurrogate
  | controlCharacter
  | tooDeep
deriving DecidableEq

/-- The wording of a reason. -/
def Reason.text : Reason → String
  | endInValue => "EOF while parsing a value"
  | endInArray => "EOF while parsing a list"
  | endInObject => "EOF while parsing an object"
  | endInString => "EOF while parsing a string"
  | expectedValue => "expected value"
  | expectedColon => "expected \x60:\x60"
  | expectedCommaOrBracket => "expected \x60,\x60 or \x60]\x60"
  | expectedCommaOrBrace => "expected \x60,\x60 or \x60\x7d\x60"
  | expectedKey => "key must be a string"
  | expectedWord => "expected ident"
  | trailingComma => "trailing comma"
  | trailingCharacters => "trailing characters"
  | badNumber => "invalid number"
  | numberTooLarge => "number out of range"
  | badEscape => "invalid escape"
  | loneSurrogate => "lone leading surrogate in hex escape"
  | unfinishedSurrogate => "unexpected end of hex escape"
  | controlCharacter => "control character (\\u0000-\\u001F) found while parsing a string"
  | tooDeep => "recursion limit exceeded"

/-- A reason together with its place. -/
structure Failure where
  reason : Reason
  /-- What was left of the text. -/
  rest : List Char
  /-- How many bytes of `rest` belong to the offence. -/
  ahead : Nat
deriving DecidableEq

/-- The bytes of a text. -/
def bytes (cs : List Char) : List UInt8 := cs.flatMap String.utf8EncodeChar

/-- The bytes of a text up to the place of a failure in it. -/
def Failure.before (f : Failure) (text : List Char) : List UInt8 :=
  bytes (text.take (text.length - f.rest.length)) ++ (bytes f.rest).take f.ahead

/-- The line and column after some bytes. -/
def position (read : List UInt8) : Nat × Nat :=
  (read.count 10 + 1, (read.reverse.takeWhile (· != 10)).length)

/-- A failure in words. -/
def Failure.message (f : Failure) (text : List Char) : String :=
  let (line, column) := position (f.before text)
  f.reason.text ++ " at line " ++ toString line ++ " column " ++ toString column

end GraphMapper.Json
