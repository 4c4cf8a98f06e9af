import GraphMapper.LabelSet
import GraphMapper.Schema.Property
import GraphMapper.Schema.Relationship
import GraphMapper.Wire.Format

/-!
# Formats of declarations

The enumerations of a schema, and label sets, which are written as arrays.
-/

namespace GraphMapper.Wire

/-- The names of cardinalities. -/
def cardinalityNames : Names Cardinality where
  all := [.zeroOrMore, .atMostOne, .atLeastOne, .exactlyOne]
  name
    | .zeroOrMore => "zero_or_more"
    | .atMostOne => "at_most_one"
    | .atLeastOne => "at_least_one"
    | .exactlyOne => "exactly_one"

/-- The names of directions. -/
def directionNames : Names Direction where
  all := [.outgoing, .incoming, .either]
  name
    | .outgoing => "outgoing"
    | .incoming => "incoming"
    | .either => "either"

/-- The names of enforcements. -/
def enforcementNames : Names Enforcement where
  all := [.strict, .soft]
  name
    | .strict => "strict"
    | .soft => "soft"

/-- The names of index intents. -/
def indexNames : Names IndexIntent where
  all := [.none, .index, .unique]
  name
    | .none => "none"
    | .index => "index"
    | .unique => "unique"

/-- The format of label sets. -/
def labelSet : Format LabelSet where
  encode s := strings s.labels
  decode depth j := (list string depth j).map LabelSet.ofList

end GraphMapper.Wire
