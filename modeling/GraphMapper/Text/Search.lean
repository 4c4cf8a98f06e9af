/-!
# Searching and splitting

Occurrence of one text in another, and the two ways in which lookups are cut
apart: at a single character, and at the double underscore that stands between
hops.  All of it is on lists of characters.
-/

namespace GraphMapper.Text

/-- Whether `part` occurs in a text. -/
def occursIn (part : List Char) : List Char → Bool
  | [] => part.isEmpty
  | c :: rest => part.isPrefixOf (c :: rest) || occursIn part rest

/-- The text before and after the first `sep`. -/
def splitFirst? (sep : Char) : List Char → Option (List Char × List Char)
  | [] => none
  | c :: rest =>
    if c = sep then some ([], rest)
    else (splitFirst? sep rest).map fun p => (c :: p.1, p.2)

/-- The parts between double underscores, found from the left. -/
def splitDouble : List Char → List (List Char)
  | [] => [[]]
  | '_' :: '_' :: rest => [] :: splitDouble rest
  | c :: rest =>
    match splitDouble rest with
    | [] => [[c]]
    | part :: parts => (c :: part) :: parts

/-- The text before and after the last double underscore. -/
def splitLastDouble? : List Char → Option (List Char × List Char)
  | [] => none
  | c :: rest =>
    match splitLastDouble? rest with
    | some (before, after) => some (c :: before, after)
    | none =>
      match c, rest with
      | '_', '_' :: after => some ([], after)
      | _, _ => none

/-- The parts of a text written with double underscores between them. -/
def joinDouble (parts : List String) : String := "__".intercalate parts

theorem splitDouble_ne_nil (cs : List Char) : splitDouble cs ≠ [] := by
  fun_induction splitDouble cs <;> simp_all

end GraphMapper.Text
