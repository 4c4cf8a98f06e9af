import GraphMapper.Error
import GraphMapper.Text.Search

/-!
# Field paths

A property somewhere along a chain of hops, in lookup syntax: `name` on the
root, `suppliers__country__code` two hops away, and `suppliers|since` on the
relationship of the last hop.

Hops stay a list of names; `chain` is their written form.
-/

namespace GraphMapper

/-- Checks that a name is an identifier. -/
def requireIdentifier (name : String) : Except Error Unit :=
  liftLimit (Limits.checkIdentifier name)

/-- The hop names of a text such as `a__b__c`. -/
def parseHops (text : List Char) : Except Error (List String) := do
  let hops := (Text.splitDouble text).map String.ofList
  liftLimit (Limits.checkHopCount hops.length)
  hops.forM requireIdentifier
  return hops

/-- A property reached through hops. -/
structure FieldPath where
  hops : List String
  property : String
  /-- The property lies on the relationship of the last hop. -/
  onRelationship : Bool
deriving DecidableEq

namespace FieldPath

/-- The hops before the property of a text, if it has any, the property, and whether it lies
on a relationship. -/
def split (text : List Char) : Option (List Char) × List Char × Bool :=
  match Text.splitFirst? '|' text with
  | some (hops, property) => (some hops, property, true)
  | none =>
    match Text.splitLastDouble? text with
    | some (hops, property) => (some hops, property, false)
    | none => (none, text, false)

/-- The field path that a text writes. -/
def parse (text : List Char) : Except Error FieldPath := do
  let (hopPart, property, onRelationship) := split text
  let hops ←
    match hopPart with
    | some part => parseHops part
    | none => pure []
  if onRelationship ∧ hops = [] then
    throw (.invalidFilter (String.ofList text) .noHop)
  requireIdentifier (String.ofList property)
  return ⟨hops, String.ofList property, onRelationship⟩

/-- The hops with double underscores between them. -/
def chain (f : FieldPath) : String := Text.joinDouble f.hops

/-- A field path in lookup syntax. -/
def text (f : FieldPath) : String :=
  if f.hops = [] then f.property
  else if f.onRelationship then f.chain ++ "|" ++ f.property
  else f.chain ++ "__" ++ f.property

end FieldPath

end GraphMapper
