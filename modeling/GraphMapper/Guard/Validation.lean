import GraphMapper.Guard.Check

/-!
# Validation

A scan of everything stored for counts outside their declared bounds.  A node
whose type inherits a declaration is found by the scan of each type that has
it, and reported once.
-/

namespace GraphMapper

/-- The counts that a scan found outside their bounds. -/
structure ValidationReport where
  violations : List Violation
deriving DecidableEq

namespace ValidationReport

/-- The report without violations. -/
def empty : ValidationReport := ⟨[]⟩

/-- Whether a report has no violations. -/
def isValid (r : ValidationReport) : Bool := r.violations.isEmpty

/-- The first violation as an error. -/
def check (r : ValidationReport) : Except Error Unit :=
  match r.violations with
  | [] => .ok ()
  | v :: _ => .error (.violation v)

/-- Whether a relationship of a node is reported. -/
def mentions (r : ValidationReport) (elementId relationship : String) : Bool :=
  r.violations.any fun v => v.elementId == elementId && v.relationship == relationship

/-- A report with a violation, unless the relationship of the node is reported. -/
def add (r : ValidationReport) (v : Violation) : ValidationReport :=
  if r.mentions v.elementId v.relationship then r else ⟨r.violations ++ [v]⟩

end ValidationReport

namespace Guard

variable {σ τ : Type}

/-- Every declaration of every registered type that bounds anything. -/
def boundedDeclarations (g : Guard) : List (NodeType × Relationship) :=
  g.registry.nodeTypes.flatMap fun t =>
    (t.relationships.filter fun rel => rel.cardinality != .zeroOrMore).map fun rel => (t, rel)

/-- Scans for the nodes that break one declaration. -/
def scan (g : Guard) (d : Driver σ τ) (t : NodeType) (rel : Relationship) :
    Task σ (List Violation) := do
  let request :=
    EdgeRequest.outside rel.edges t.label rel.cardinality.least rel.cardinality.most?
  let output ← d.execute (.edges g.settings.idFunction request)
  return (output.tally "count").map fun (id, actual) =>
    ⟨id, t.name, rel.name, rel.cardinality, actual⟩

/-- Scans everything stored. -/
def validate (g : Guard) (d : Driver σ τ) : Task σ ValidationReport :=
  g.boundedDeclarations.foldlM (fun report (t, rel) => do
    return (← g.scan d t rel).foldl .add report) .empty

end Guard

end GraphMapper
