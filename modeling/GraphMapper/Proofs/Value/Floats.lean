import GraphMapper.Value.Text

/-!
# Floating-point numbers inside values

The floating-point numbers that a value holds at any depth, and the value with
something else in place of each (`Value.replaceFloats`).  All else of a value,
the keys of its maps among it, stays as it is.
-/

namespace GraphMapper.Value

mutual

/-- The floating-point numbers inside a value, in order. -/
def floats : Value → List Double
  | float x => [x]
  | list items => itemFloats items
  | map entries => entryFloats entries
  | _ => []

/-- The floating-point numbers inside some values. -/
def itemFloats : List Value → List Double
  | [] => []
  | v :: rest => floats v ++ itemFloats rest

/-- The floating-point numbers inside the values of some entries. -/
def entryFloats : List (String × Value) → List Double
  | [] => []
  | (_, v) :: rest => floats v ++ entryFloats rest

end

mutual

/-- A value with another one in place of each floating-point number inside. -/
def replaceFloats (f : Double → Value) : Value → Value
  | float x => f x
  | list items => list (replaceItemFloats f items)
  | map entries => map (replaceEntryFloats f entries)
  | v => v

/-- Some values with others in place of the floating-point numbers inside. -/
def replaceItemFloats (f : Double → Value) : List Value → List Value
  | [] => []
  | v :: rest => replaceFloats f v :: replaceItemFloats f rest

/-- Some entries with other values in place of the floating-point numbers inside. -/
def replaceEntryFloats (f : Double → Value) : List (String × Value) → List (String × Value)
  | [] => []
  | (key, v) :: rest => (key, replaceFloats f v) :: replaceEntryFloats f rest

end

theorem itemFloats_eq_flatMap (items : List Value) : itemFloats items = items.flatMap floats := by
  induction items with
  | nil => rfl
  | cons v rest ih => exact congrArg (v.floats ++ ·) ih

/-- A list without floating-point numbers has items without them. -/
theorem floats_eq_nil_of_mem {items : List Value} (h : (list items).floats = []) :
    ∀ v ∈ items, v.floats = [] :=
  List.flatMap_eq_nil_iff.1 ((itemFloats_eq_flatMap items).symm.trans h)

/-- Where the maps inside a list are in order, those inside its items are. -/
theorem AreCanonical.of_mem {items : List Value} (h : AreCanonical items) :
    ∀ v ∈ items, v.IsCanonical := by
  induction items with
  | nil => nofun
  | cons _ _ ih => exact List.forall_mem_cons.2 ⟨h.1, ih h.2⟩

variable {f : Double → Value}

mutual

/-- Without floating-point numbers there is nothing to replace. -/
theorem replaceFloats_eq_self : ∀ {v : Value}, v.floats = [] → v.replaceFloats f = v
  | null, _ | bool _, _ | int _, _ | string _, _ => rfl
  | float _, h => by cases h
  | list items, h => by rw [replaceFloats, replaceItemFloats_eq_self h]
  | map entries, h => by rw [replaceFloats, replaceEntryFloats_eq_self h]

theorem replaceItemFloats_eq_self :
    ∀ {items : List Value}, itemFloats items = [] → replaceItemFloats f items = items
  | [], _ => rfl
  | v :: rest, h => by
    obtain ⟨hfirst, hrest⟩ := List.append_eq_nil_iff.1 h
    rw [replaceItemFloats, replaceFloats_eq_self hfirst, replaceItemFloats_eq_self hrest]

theorem replaceEntryFloats_eq_self :
    ∀ {entries : List (String × Value)}, entryFloats entries = [] →
      replaceEntryFloats f entries = entries
  | [], _ => rfl
  | (key, v) :: rest, h => by
    obtain ⟨hfirst, hrest⟩ := List.append_eq_nil_iff.1 h
    rw [replaceEntryFloats, replaceFloats_eq_self hfirst, replaceEntryFloats_eq_self hrest]

end

theorem keys_replaceEntryFloats (entries : List (String × Value)) :
    Dict.keys (replaceEntryFloats f entries) = Dict.keys entries := by
  induction entries with
  | nil => rfl
  | cons e rest ih =>
    obtain ⟨key, v⟩ := e
    exact congrArg (key :: ·) ih

mutual

/-- Maps stay in order where what is put in holds none out of order. -/
theorem IsCanonical.replaceFloats (hf : ∀ x, (f x).IsCanonical) :
    ∀ {v : Value}, v.IsCanonical → (v.replaceFloats f).IsCanonical
  | null, h | bool _, h | int _, h | string _, h => h
  | float x, _ => hf x
  | list _, h => AreCanonical.replaceItemFloats hf h
  | map entries, h =>
    ⟨(congrArg (List.Pairwise (· < ·)) (keys_replaceEntryFloats entries)).mpr h.1,
      HasCanonical.replaceEntryFloats hf h.2⟩

theorem AreCanonical.replaceItemFloats (hf : ∀ x, (f x).IsCanonical) :
    ∀ {items : List Value}, AreCanonical items → AreCanonical (replaceItemFloats f items)
  | [], h => h
  | _ :: _, h => ⟨h.1.replaceFloats hf, AreCanonical.replaceItemFloats hf h.2⟩

theorem HasCanonical.replaceEntryFloats (hf : ∀ x, (f x).IsCanonical) :
    ∀ {entries : List (String × Value)}, HasCanonical entries →
      HasCanonical (replaceEntryFloats f entries)
  | [], h => h
  | _ :: _, h => ⟨h.1.replaceFloats hf, HasCanonical.replaceEntryFloats hf h.2⟩

end

end GraphMapper.Value
