import GraphMapper.Error

/-!
# Parameters of a statement

Every operand is bound to a parameter whose name is made of a namespace, a hint
and a number.  Numbers of one hint increase, and a name that is taken is passed
over, so no binding overwrites another.
-/

namespace GraphMapper

/-- The parameters bound so far, and the last number used for each hint. -/
structure Binder where
  params : Params
  numbers : Dict Nat

namespace Binder

/-- No parameters. -/
def empty : Binder := ⟨[], []⟩

/-- The name of a hint's parameter with some number. -/
def paramName (hint : String) (n : Nat) : String := hint ++ "_" ++ toString n

/-- The least number above the last one whose name is free; among one more numbers than there
are parameters, one is. -/
def nextNumber (b : Binder) (hint : String) : Nat :=
  let last := (b.numbers.get? hint).getD 0
  let free := (List.range (b.params.length + 1)).find? fun i =>
    !b.params.contains (paramName hint (last + 1 + i))
  last + 1 + free.getD 0

/-- Binds a value and gives the name of its parameter. -/
def bind (b : Binder) (hint : String) (v : Value) : String × Binder :=
  let n := b.nextNumber hint
  let name := paramName hint n
  (name, ⟨b.params.insert name v, b.numbers.insert hint n⟩)

end Binder

/-- Steps that bind parameters and may end without a result. -/
abbrev BinderM (ε : Type) : Type → Type := StateT Binder (Except ε)

/-- Compilation of plans: errors and panics, and the parameters bound so far. -/
abbrev Compile : Type → Type := BinderM Halt

/-- Binds a value and gives the name of its parameter. -/
def bindParam {ε : Type} (hint : String) (v : Value) : BinderM ε String :=
  fun b => .ok (b.bind hint v)

end GraphMapper
