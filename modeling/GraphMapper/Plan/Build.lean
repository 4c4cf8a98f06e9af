import GraphMapper.Plan.Basic

/-!
# Writing plans

Every step of writing a plan is checked against the registry as it is made, so
that an unknown hop or property is reported where it is written.
-/

namespace GraphMapper

namespace Selection

/-- Checks that a field path ends at a declared property. -/
def checkField (r : Registry) (s : Selection) (f : FieldPath) : Except Error Unit := do
  if f.hops = [] then
    if (s.root.property? f.property).isNone then
      throw (.unknownProperty s.root.name f.property)
  else
    match (← walk r s.root f.hops).getLast? with
    | none => pure ()
    | some last =>
      if f.onRelationship then
        match last.model? with
        | none => throw (.invalidFilter f.text (.noModel last.relationship.name))
        | some model =>
          if (model.property? f.property).isNone then
            throw (.unknownProperty model.name f.property)
      else if last.targets.all fun t => (t.property? f.property).isNone then
        throw (.unknownProperty ("|".intercalate last.relationship.targets) f.property)

/-- A selection with a predicate added to its filter. -/
def filter (r : Registry) (s : Selection) (p : Predicate) : Except Error Selection := do
  p.conditions.forM fun c => checkField r s c.field
  return { s with predicate? := some (match s.predicate? with
    | some q => Predicate.all [q, p]
    | none => p) }

/-- A selection with the negation of a predicate added to its filter. -/
def exclude (r : Registry) (s : Selection) (p : Predicate) : Except Error Selection :=
  s.filter r (.not p)

/-- A selection that requires a match of a chain of hops, or forbids one. -/
def has (r : Registry) (s : Selection) (path : List Char) (isPresent : Bool) :
    Except Error Selection := do
  let hops ← walk r s.root (← parseHops path)
  return { s with existence := s.existence ++ [⟨hops, isPresent⟩] }

/-- Whether an alias is the root's variable or the alias of a traversal. -/
def aliasTaken (s : Selection) (name : String) : Bool :=
  s.paths.any (fun p => p.alias? == some name) || name == s.root.variableName

/-- A selection with a traversal added. -/
def traverse (r : Registry) (s : Selection) (expr : String) (options : TraverseOptions)
    (mode : PathMode) : Except Error Selection := do
  match s.mode? with
  | some committed => if committed ≠ mode then throw (.incompatibleMode committed mode)
  | none => pure ()
  match options.alias? with
  | some name => if s.aliasTaken name then throw (.duplicateAlias name)
  | none => pure ()
  let spec ← PathSpec.resolve r s.root expr options mode
  return { s with mode? := some mode, paths := s.paths ++ [spec] }

/-- A selection whose paths share the variables of some chains or aliases. -/
def share (s : Selection) (names : List String) : Selection :=
  { s with
    shared := names.foldl (fun taken n => if taken.contains n then taken else taken ++ [n])
      s.shared }

/-- A selection with a term added to its ordering. -/
def orderBy (r : Registry) (s : Selection) (text : List Char) : Except Error Selection := do
  let term ← OrderTerm.parse text
  match term with
  | .field path _ => checkField r s path
  | .random => pure ()
  return { s with ordering := s.ordering ++ [term] }

/-- A selection that skips some matches. -/
def skip (s : Selection) (n : Nat) : Selection :=
  { s with pagination := { s.pagination with skip? := some n } }

/-- A selection with at most some matches. -/
def limit (s : Selection) (n : Nat) : Selection :=
  { s with pagination := { s.pagination with limit? := some n } }

/-- A selection with a named projection added. -/
def annotate (s : Selection) (name : String) (expr : Expr VarRef) : Except Error Selection := do
  requireIdentifier name
  return { s with annotations := s.annotations ++ [⟨name, expr⟩] }

/-- A selection with a transform added. -/
def transform (s : Selection) (t : Transform) : Except Error Selection := do
  if t.vars = [] then throw (.compile .emptyTransform)
  t.vars.forM fun v => requireIdentifier v.name
  return { s with transforms := s.transforms ++ [t] }

end Selection

namespace QueryPlan

/-- A plan with its selection changed. -/
def mapSelection (p : QueryPlan) (f : Selection → Except Error Selection) :
    Except Error QueryPlan :=
  return mk (← f p.selection) p.subqueries

/-- A plan with another plan spliced in. -/
def subquery (p inner : QueryPlan) (returns imports : List String) :
    Except Error QueryPlan := do
  if returns = [] then throw (.compile .emptySubquery)
  (returns ++ imports).forM requireIdentifier
  return mk p.selection (p.subqueries ++ [⟨inner, returns, imports⟩])

end QueryPlan

end GraphMapper
