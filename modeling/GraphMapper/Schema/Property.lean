import GraphMapper.Codec

/-!
# Declared properties

A property has a name, a storage name, a codec, and what happens when no value
is supplied.
-/

namespace GraphMapper

/-- The index wanted on a property. -/
inductive IndexIntent where
  | none
  | index
  | unique
deriving DecidableEq, Inhabited

/-- A declared property. -/
structure Property where
  name : String
  /-- The storage name, where it differs from the name. -/
  storage? : Option String
  codec : Codec
  required : Bool
  default? : Option Value
  index : IndexIntent
  /-- Part of the key that get-or-create merges on. -/
  mergeKey : Bool

namespace Property

/-- The name under which a property is stored. -/
def storageName (p : Property) : String := p.storage?.getD p.name

/-- The declared default, or else a value that the codec makes up from a fresh identifier. -/
def defaultValue? (p : Property) (fresh : String) : Option Value :=
  p.default? <|> p.codec.generate fresh

/-- The property of a name in a list of declarations. -/
def find? (ps : List Property) (name : String) : Option Property :=
  List.find? (fun p => p.name == name) ps

/-- The property of a storage name in a list of declarations. -/
def findStored? (ps : List Property) (name : String) : Option Property :=
  List.find? (fun p => p.storageName == name) ps

/-- The declarations with one put last, in place of an earlier one of its name. -/
def declare (ps : List Property) (p : Property) : List Property :=
  ps.filter (fun q => q.name != p.name) ++ [p]

/-- The declarations with those of a parent added where no name is taken. -/
def inherit (ps parent : List Property) : List Property :=
  parent.foldl (fun own p => if (find? own p.name).isSome then own else own ++ [p]) ps

end Property

/-- Values supplied under the names of properties. -/
abbrev Properties : Type := Dict Value

end GraphMapper
