import GraphMapper.Text.CaseTable

/-!
# Small letters

Lower-casing of text: every capital letter becomes its small letter.  Two rules
look beyond one character: `İ` becomes two characters, and a capital sigma that
ends a word becomes the final form of the letter.
-/

namespace GraphMapper.Text

/-- Whether a character has case. -/
def isCased (c : Char) : Bool :=
  if c.toNat < 0x80 then c.isAlpha else casedTable.contains c

/-- Whether a search for the neighbouring letter looks past a character. -/
def isCaseIgnorable (c : Char) : Bool :=
  if c.toNat < 0x80 then c == '\'' || c == '.' || c == ':' || c == '^' || c == '\x60'
  else caseIgnorableTable.contains c

/-- Whether the first character that casing does not look past has case. -/
def meetsCased (cs : List Char) : Bool :=
  ((cs.dropWhile isCaseIgnorable).head?.map isCased).getD false

/-- The small letters of one character other than sigma. -/
def lowerChar (c : Char) : List Char :=
  if c.toNat < 0x80 then [c.toLower]
  else if c = 'İ' then ['i', '\u0307']
  else [(caseRuns.findSome? fun r => r.lower? c.toNat).getD c]

/-- The small letters of a text, `before` being what precedes it in reverse. -/
def lowerFrom (before : List Char) : List Char → List Char
  | [] => []
  | c :: rest =>
    (if c = 'Σ' then [if meetsCased before && !meetsCased rest then 'ς' else 'σ']
      else lowerChar c) ++ lowerFrom (c :: before) rest

/-- A text in small letters. -/
def lowerCase (s : String) : String := String.ofList (lowerFrom [] s.toList)

/-- ASCII text is lowered character by character. -/
theorem lowerFrom_ascii (before cs : List Char) (h : ∀ c ∈ cs, c.toNat < 0x80) :
    lowerFrom before cs = cs.map Char.toLower := by
  induction cs generalizing before with
  | nil => rfl
  | cons c rest ih =>
    have hc : c.toNat < 0x80 := h c (by simp)
    have hne : c ≠ 'Σ' := by rintro rfl; simp at hc
    simp [lowerFrom, hne, lowerChar, hc, ih _ fun d hd => h d (by simp [hd])]

end GraphMapper.Text
