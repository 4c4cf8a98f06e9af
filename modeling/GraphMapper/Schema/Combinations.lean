import GraphMapper.Schema.NodeType

/-!
# Label combinations

A node of a type carries the type's labels and any of the optional ones.
`combinations` lists these label sets once each, in increasing order.
-/

namespace GraphMapper

namespace LabelSet

/-- A set put in its place in an increasing list of sets, unless it is there. -/
def insertSet (s : LabelSet) : List LabelSet → List LabelSet
  | [] => [s]
  | t :: rest =>
    if s.before t then s :: t :: rest
    else if s = t then t :: rest
    else t :: insertSet s rest

/-- A base united with every choice of optional labels. -/
def choices (base : LabelSet) : List String → List LabelSet
  | [] => [base]
  | l :: rest => choices base rest ++ choices (base.insert l) rest

/-- A base united with every subset of some optional labels, each set once and in order. -/
def combinations (base : LabelSet) (optional : List String) : List LabelSet :=
  (choices base optional).foldr insertSet []

end LabelSet

/-- The label sets that nodes of a type may carry. -/
def NodeType.labelSets (t : NodeType) : List LabelSet :=
  LabelSet.combinations t.labels t.optionalLabels

end GraphMapper
