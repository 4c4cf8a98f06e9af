import GraphMapper.Proofs.Json.Lenient
import GraphMapper.Proofs.Json.Written
import GraphMapper.Wire.Format

/-!
# Formats that give back what they write

A text that a format writes is read back as what was written (`Format.read?_write`)
where three things hold: the reader makes the tree of it again, the tree nests only
so far, and the decoder gives back the value from the tree (`Restores`).

Decoders are put together as formats are, and each way of doing so gives back what
its parts do: arrays, dictionaries, and records with members that have to be there,
may be null, or may be left out.
-/

namespace GraphMapper

namespace Json

/-- A member nests no deeper than all of them. -/
theorem nesting_le_membersNesting {members : List (String × Json)} {name : String} {j : Json}
    (h : Dict.get? members name = some j) : j.nesting ≤ membersNesting members := by
  induction members with
  | nil => cases h
  | cons m rest ih =>
    obtain ⟨key, k⟩ := m
    rw [Dict.get?] at h
    rw [membersNesting]
    split at h
    · obtain rfl := Option.some.inj h
      exact le_max_left _ _
    · exact (ih h).trans (le_max_right _ _)

end Json

namespace Wire

variable {α : Type}

/-- A decoder gives back a value from a tree, wherever the tree fits into the depth that is left. -/
def Restores (item : Decoder α) (j : Json) (a : α) : Prop :=
  ∀ depth, depth + j.nesting ≤ Json.maxDepth → item depth j = some a

/-- What a format writes it reads back. -/
theorem Format.read?_write {f : Format α} {a : α} (hread : Json.ReadAs (f.encode a) (f.encode a))
    (hfits : (f.encode a).nesting ≤ Json.maxDepth) (hrestores : Restores f.decode (f.encode a) a) :
    f.read? (f.write a) = some a := by
  have hlenient := Json.readText_covers _ _ (hread.succeedsWhen_readText.ok hfits)
  rw [read?, write, Json.text, String.toList_ofList, hlenient]
  exact hrestores 0 (by omega)

theorem mayOpen_of_lt {depth : Nat} (h : depth < Json.maxDepth) : mayOpen depth = true :=
  decide_eq_true h

/-! ## Single values -/

theorem restores_string (s : String) : Restores string (.string s) s := fun _ _ => rfl

theorem restores_orNull (s? : Option String) : Restores (optional string) (orNull .string s?) s? := by
  cases s? <;> exact fun _ _ => rfl

theorem restores_some {item : Decoder α} {s : String} {a : α} (h : Restores item (.string s) a) :
    Restores (optional item) (.string s) (some a) := fun depth hdepth =>
  congrArg (Option.map some) (h depth hdepth)

/-! ## Arrays and dictionaries -/

theorem restores_list {item : Decoder α} {js : List Json} {as : List α}
    (h : List.Forall₂ (Restores item) js as) : Restores (list item) (.array js) as := by
  intro depth hdepth
  rw [Json.nesting] at hdepth
  have hitems : js.mapM (item (depth + 1)) = some as := by
    induction h with
    | nil => rfl
    | @cons j a js as hfirst _ ih =>
      rw [Json.itemsNesting] at hdepth
      rw [List.mapM_cons, hfirst (depth + 1) (by omega), ih (by omega)]
      rfl
  rw [list, if_pos (mayOpen_of_lt (by omega)), hitems]

theorem restores_strings (items : List String) : Restores (list string) (strings items) items :=
  restores_list (List.forall₂_map_left_iff.2 (List.forall₂_same.2 fun s _ => restores_string s))

/-- A decoder gives back an entry from a member. -/
def MemberRestores (item : Decoder α) (m : String × Json) (e : String × α) : Prop :=
  m.1 = e.1 ∧ Restores item m.2 e.2

theorem restores_dict {item : Decoder α} {members : List (String × Json)} {d : Dict α}
    (h : List.Forall₂ (MemberRestores item) members d) (hsorted : d.IsSorted) :
    Restores (dict item) (.object members) d := by
  intro depth hdepth
  rw [Json.nesting] at hdepth
  have hmembers : (members.mapM fun m => (item (depth + 1) m.2).map fun a => (m.1, a)) = some d := by
    clear hsorted
    induction h with
    | nil => rfl
    | @cons m e members d hfirst _ ih =>
      rw [Json.membersNesting] at hdepth
      rw [List.mapM_cons, hfirst.2 (depth + 1) (by omega), ih (by omega), hfirst.1]
      rfl
  rw [dict, if_pos (mayOpen_of_lt (by omega)), hmembers, Option.map_some, hsorted.ofList_eq]

/-! ## Values -/

mutual

/-- The tree of a value has a meaning in all of its parts. -/
theorem isReadable_toJson : ∀ (v : Value) (depth : Nat), depth + v.toJson.nesting ≤ Json.maxDepth →
    isReadable depth v.toJson = true
  | .null, _, _ | .bool _, _, _ | .int _, _, _ | .float _, _, _ | .string _, _, _ => rfl
  | .list items, depth, h => by
    rw [Value.toJson, Json.nesting] at h
    rw [Value.toJson, isReadable, mayOpen_of_lt (by omega),
      areReadable_itemsToJson items (depth + 1) (by omega)]
    rfl
  | .map entries, depth, h => by
    rw [Value.toJson, Json.nesting] at h
    rw [Value.toJson, isReadable, mayOpen_of_lt (by omega),
      haveReadable_entriesToJson entries (depth + 1) (by omega)]
    rfl

theorem areReadable_itemsToJson : ∀ (items : List Value) (depth : Nat),
    depth + Json.itemsNesting (Value.itemsToJson items) ≤ Json.maxDepth →
    areReadable depth (Value.itemsToJson items) = true
  | [], _, _ => rfl
  | v :: rest, depth, h => by
    rw [Value.itemsToJson, Json.itemsNesting] at h
    rw [Value.itemsToJson, areReadable, isReadable_toJson v depth (by omega),
      areReadable_itemsToJson rest depth (by omega)]
    rfl

theorem haveReadable_entriesToJson : ∀ (entries : List (String × Value)) (depth : Nat),
    depth + Json.membersNesting (Value.entriesToJson entries) ≤ Json.maxDepth →
    haveReadable depth (Value.entriesToJson entries) = true
  | [], _, _ => rfl
  | (_, v) :: rest, depth, h => by
    rw [Value.entriesToJson, Json.membersNesting] at h
    rw [Value.entriesToJson, haveReadable, isReadable_toJson v depth (by omega),
      haveReadable_entriesToJson rest depth (by omega)]
    rfl

end

theorem restores_value {v : Value} (h : v.IsCanonical) : Restores value v.toJson v := by
  intro depth hdepth
  rw [value, if_pos (isReadable_toJson v depth hdepth), Value.ofJson?_toJson h]

/-! ## Records -/

namespace Record

variable {names : List String} {members : List (String × Json)} {depth : Nat} {name : String}
  {item : Decoder α} {j : Json} {a : α} {a? : Option α}

/-- An object is read as a record if it has known members only, each once. -/
theorem ofJson?_object (hnames : ∀ m ∈ members, m.1 ∈ names)
    (hnodup : (members.map Prod.fst).Nodup)
    (hdepth : depth + (Json.object members).nesting ≤ Json.maxDepth) :
    ofJson? names depth (.object members) = some ⟨depth + 1, false, members⟩ := by
  have hknown : members.filter (fun m => names.contains m.1) = members :=
    List.filter_eq_self.2 fun m hm => List.contains_iff_mem.2 (hnames m hm)
  rw [Json.nesting] at hdepth
  rw [ofJson?]
  rw [hknown, if_pos ⟨mayOpen_of_lt (by omega), hnodup⟩]

section Members

variable (hdepth : depth + (Json.object members).nesting ≤ Json.maxDepth)
include hdepth

theorem fits_of_get? (hget : Dict.get? members name = some j) :
    depth + 1 + j.nesting ≤ Json.maxDepth := by
  have hle := Json.nesting_le_membersNesting hget
  rw [Json.nesting] at hdepth
  omega

theorem required_eq (hget : Dict.get? members name = some j) (h : Restores item j a) :
    required ⟨depth + 1, false, members⟩ name item = some a := by
  rw [required, get?, hget, Option.bind_some]
  exact h _ (fits_of_get? hdepth hget)

theorem withDefault_eq {default : α} (hget : Dict.get? members name = some j)
    (h : Restores item j a) :
    withDefault ⟨depth + 1, false, members⟩ name item default = some a := by
  rw [withDefault, get?, hget]
  exact h _ (fits_of_get? hdepth hget)

theorem nullable_eq (hget : Dict.get? members name = some j)
    (h : Restores (optional item) j a?) :
    nullable ⟨depth + 1, false, members⟩ name item = some a? := by
  rw [nullable, get?, hget]
  exact h _ (fits_of_get? hdepth hget)

end Members

/-- A member that an object has only if there is something in it may be left out. -/
theorem nullable_memberOf {encode : α → Json}
    (hdepth : depth + (Json.object members).nesting ≤ Json.maxDepth)
    (hget : Dict.get? members name = a?.map encode)
    (h : ∀ a, Restores (optional item) (encode a) (some a)) :
    nullable ⟨depth + 1, false, members⟩ name item = some a? := by
  cases a? with
  | none =>
    rw [nullable, get?, hget]
    rfl
  | some a => exact nullable_eq hdepth hget (h a)

end Record

end Wire

end GraphMapper
