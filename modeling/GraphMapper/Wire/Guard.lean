import GraphMapper.Guard.Validation
import GraphMapper.Wire.Plan
import GraphMapper.Wire.Schema

/-!
# Formats of the guard

Settings, of which any may be left out, and reports.
-/

namespace GraphMapper.Wire

/-- The names of identity functions. -/
def idFunctionNames : Names IdFunction where
  all := [.elementId, .id]
  name
    | .elementId => "element_id"
    | .id => "id"

/-- The format of settings. -/
def settings : Format Settings where
  encode s := .object
    [("soft_inverse_cardinality_check", .bool s.softInverse),
      ("id_function", idFunctionNames.format.encode s.idFunction)]
  decode depth j := do
    let r ← Record.ofJson? ["soft_inverse_cardinality_check", "id_function"] depth j
    return {
      softInverse := ← r.withDefault "soft_inverse_cardinality_check" bool false
      idFunction := ← r.withDefault "id_function" idFunctionNames.decode .elementId }

/-- The format of violations. -/
def violation : Format Violation where
  encode v := .object
    [("element_id", .string v.elementId), ("type_name", .string v.typeName),
      ("relationship", .string v.relationship),
      ("expected", cardinalityNames.format.encode v.expected), ("actual", number v.actual)]
  decode depth j := do
    let names := ["element_id", "type_name", "relationship", "expected", "actual"]
    let r ← Record.ofJson? names depth j
    return {
      elementId := ← r.required "element_id" string
      typeName := ← r.required "type_name" string
      relationship := ← r.required "relationship" string
      expected := ← r.required "expected" cardinalityNames.decode
      actual := ← r.required "actual" natural }

/-- The format of reports. -/
def validationReport : Format ValidationReport where
  encode r := .object [("violations", .array (r.violations.map violation.encode))]
  decode depth j := do
    let r ← Record.ofJson? ["violations"] depth j
    return ⟨← r.required "violations" (list violation.decode)⟩

end GraphMapper.Wire
