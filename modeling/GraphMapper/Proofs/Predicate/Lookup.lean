import GraphMapper.Predicate
import GraphMapper.Proofs.Text.Fields

/-!
# Lookups

A lookup is a field with the suffix of an operator behind it.  No suffix has an
underscore, so that the last double underscore of a lookup is the one before the
suffix, whatever the field ends in.  Without a suffix the whole text is a field,
which is compared for equality.

* `compare_eq_ok_iff` says which comparisons are made.
* `lookup_suffix` and `lookup_exact` are the two readings of a lookup.
-/

namespace GraphMapper

namespace Operator

/-- The operands that suit an operator. -/
def Takes : Operator → Value → Prop
  | isIn, operand => ∃ items, operand = .list items
  | isNull, operand => ∃ b, operand = .bool b
  | op, operand => op.isPattern = true → ∃ s, operand = .string s

theorem underscore_notMem_suffix (op : Operator) : '_' ∉ op.suffix.toList := by
  cases op <;> decide +kernel

theorem ofSuffix?_eq_none_iff {suffix : String} :
    ofSuffix? suffix = none ↔ ∀ op : Operator, op.suffix ≠ suffix := by
  simp [ofSuffix?, mem_all]

end Operator

namespace Predicate

variable {text field : List Char} {op : Operator} {operand : Value}

theorem operandFault?_eq_none_iff : operandFault? op operand = none ↔ op.Takes operand := by
  have hstring : ¬ operand.string? = none ↔ ∃ s, operand = .string s := by
    cases operand <;> simp [Value.string?]
  cases op with
  | isIn => cases operand <;> simp [operandFault?, Operator.Takes, Value.list?]
  | isNull => cases operand <;> simp [operandFault?, Operator.Takes, Value.bool?]
  | _ => simp [operandFault?, Operator.Takes, Operator.isPattern, hstring]

/-- A comparison is made of a field that is read and an operand that suits the operator. -/
theorem compare_eq_ok_iff {p : Predicate} : compare field op operand = .ok p ↔
    ∃ f, FieldPath.parse field = .ok f ∧ op.Takes operand ∧ p = .leaf ⟨f, op, operand⟩ := by
  rw [compare, bind_eq_ok]
  refine exists_congr fun f => and_congr_right fun _ => ?_
  rw [← operandFault?_eq_none_iff]
  cases operandFault? op operand with
  | none => exact pure_eq_ok.trans (by simp [eq_comm])
  | some fault => simp [throw_ne_ok]

/-- The suffix of an operator is cut off from whatever field stands before it. -/
theorem splitLookup_suffix :
    splitLookup (field ++ '_' :: '_' :: op.suffix.toList) = (field, op) := by
  have hsingle : Text.Single ('_' :: op.suffix.toList) := by
    have hscore := op.underscore_notMem_suffix
    refine Text.single_underscore_cons_iff.2 ⟨fun hdouble => ?_, fun hhead => ?_⟩
    · exact hscore (hdouble.subset List.mem_cons_self)
    · exact hscore (List.mem_of_head? hhead)
  rw [splitLookup, Text.splitLastDouble?_append hsingle]
  simp only [String.ofList_toList, Operator.ofSuffix?_suffix]

theorem splitLookup_exact (h : ∀ field suffix, Text.splitLastDouble? text = some (field, suffix) →
    Operator.ofSuffix? (String.ofList suffix) = none) : splitLookup text = (text, .exact) := by
  rw [splitLookup]
  cases hsplit : Text.splitLastDouble? text with
  | none => rfl
  | some p =>
    obtain ⟨field, suffix⟩ := p
    simp only [h field suffix hsplit]

theorem lookup_suffix :
    lookup (field ++ '_' :: '_' :: op.suffix.toList) operand = compare field op operand := by
  rw [lookup, splitLookup_suffix]

/-- A text is a lookup for equality if nothing behind its last double underscore, should it have
one, is the suffix of an operator. -/
theorem lookup_exact
    (h : ∀ field suffix, text = field ++ '_' :: '_' :: suffix → Text.Single ('_' :: suffix) →
      ∀ op : Operator, op.suffix.toList ≠ suffix) :
    lookup text operand = compare text .exact operand := by
  rw [lookup, splitLookup_exact]
  intro field suffix hsplit
  obtain ⟨htext, hsingle⟩ := Text.splitLastDouble?_eq_some_iff.1 hsplit
  refine Operator.ofSuffix?_eq_none_iff.2 fun op hop => h field suffix htext hsingle op ?_
  rw [hop, String.toList_ofList]

/-- Fields are read from their written form alone; a lookup with the suffix of an operator is that
operator's comparison, and one without is the comparison for equality. -/
theorem lookups_read (text : List Char) :
    (∀ f, FieldPath.parse text = .ok f ↔ f.Readable ∧ f.text.toList = text) ∧
      (∀ op operand, lookup (text ++ '_' :: '_' :: op.suffix.toList) operand =
          compare text op operand ∧
        ∀ p, compare text op operand = .ok p ↔
          ∃ f, FieldPath.parse text = .ok f ∧ op.Takes operand ∧ p = .leaf ⟨f, op, operand⟩) ∧
      ∀ operand, (Text.Single text ∨ ∃ field suffix, text = field ++ '_' :: '_' :: suffix ∧
          Text.Single ('_' :: suffix) ∧ ∀ op : Operator, op.suffix.toList ≠ suffix) →
        lookup text operand = compare text .exact operand := by
  refine ⟨fun f => FieldPath.parse_eq_ok_iff, fun op operand => ⟨lookup_suffix, fun p =>
    compare_eq_ok_iff⟩, fun operand h => lookup_exact fun field suffix htext hsingle => ?_⟩
  rcases h with hnone | ⟨field', suffix', htext', hsingle', hother⟩
  · exact absurd (htext ▸ List.infix_append' field ['_', '_'] suffix) hnone
  · -- There is one last double underscore only.
    have hsame := Text.splitLastDouble?_eq_some_iff.2 ⟨htext, hsingle⟩
    rw [Text.splitLastDouble?_eq_some_iff.2 ⟨htext', hsingle'⟩] at hsame
    cases hsame
    exact hother

/-- A field that ends in an underscore keeps it before a suffix, and a field that ends in no suffix
is compared for equality. -/
theorem lookups_read_since :
    (∀ op : Operator, op.suffix.toList ≠ "since".toList) ∧
      lookup "suppliers|since___gte".toList (.int 2020) =
        .ok (.leaf ⟨⟨["suppliers"], "since_", true⟩, .gte, .int 2020⟩) ∧
      lookup "suppliers__since".toList (.int 2020) =
        .ok (.leaf ⟨⟨["suppliers"], "since", false⟩, .exact, .int 2020⟩) := by
  have hother (op : Operator) : op.suffix.toList ≠ "since".toList := by cases op <;> decide +kernel
  refine ⟨hother, ?_, ?_⟩
  · obtain ⟨hfields, hsuffixes, -⟩ := lookups_read "suppliers|since_".toList
    obtain ⟨hlookup, hcompare⟩ := hsuffixes .gte (.int 2020)
    have htext : "suppliers|since___gte".toList =
        "suppliers|since_".toList ++ '_' :: '_' :: Operator.gte.suffix.toList := by
      decide +kernel
    rw [htext, hlookup, hcompare]
    exact ⟨_, (hfields _).2 (by decide +kernel), nofun, rfl⟩
  · obtain ⟨hfields, hsuffixes, hexact⟩ := lookups_read "suppliers__since".toList
    have htext : "suppliers__since".toList = "suppliers".toList ++ '_' :: '_' :: "since".toList := by
      decide +kernel
    have hlookup := hexact (.int 2020) (.inr ⟨_, _, htext, by decide +kernel, hother⟩)
    obtain ⟨-, hcompare⟩ := hsuffixes .exact (.int 2020)
    rw [hlookup, hcompare]
    exact ⟨_, (hfields _).2 (by decide +kernel), nofun, rfl⟩

end Predicate

end GraphMapper
