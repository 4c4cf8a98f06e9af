import GraphMapper.Schema.Combinations

/-!
# Tables of label sets

A table gives label sets the types that they belong to.  Its entries stand in
no particular order, so nothing that is read off a table may depend on one.

* `Distinct` says that no label set has two entries; `insert` and `without`
  keep it.
* `get?_eq_some_iff` then reads a table through membership alone.
-/

namespace GraphMapper

/-- Label sets with the types that they belong to. -/
abbrev LabelTable : Type := List (LabelSet × NodeType)

namespace LabelTable

/-- The type of a label set. -/
def get? : LabelTable → LabelSet → Option NodeType
  | [], _ => none
  | (s, t) :: rest, labels => if s = labels then some t else get? rest labels

/-- Gives a label set its type, in place of an earlier one. -/
def insert (table : LabelTable) (s : LabelSet) (t : NodeType) : LabelTable :=
  (s, t) :: table.filter fun e => e.1 != s

/-- Drops the label sets of the type of a name. -/
def without (table : LabelTable) (name : String) : LabelTable :=
  table.filter fun e => e.2.name != name

/-- No label set has two entries. -/
def Distinct (table : LabelTable) : Prop := (table.map Prod.fst).Nodup

variable {table : LabelTable}

theorem mem_insert {s : LabelSet} {t : NodeType} {e : LabelSet × NodeType} :
    e ∈ table.insert s t ↔ e = (s, t) ∨ e ∈ table ∧ e.1 ≠ s := by
  simp [insert, List.mem_filter]

theorem mem_without {name : String} {e : LabelSet × NodeType} :
    e ∈ table.without name ↔ e ∈ table ∧ e.2.name ≠ name := by
  simp [without, List.mem_filter]

theorem Distinct.insert (h : table.Distinct) (s : LabelSet) (t : NodeType) :
    (table.insert s t).Distinct := by
  refine List.nodup_cons.2 ⟨?_, h.sublist (List.filter_sublist.map _)⟩
  simp [List.mem_filter]

theorem Distinct.without (h : table.Distinct) (name : String) : (table.without name).Distinct :=
  h.sublist (List.filter_sublist.map _)

theorem mem_of_get? {s : LabelSet} {t : NodeType} (h : table.get? s = some t) :
    (s, t) ∈ table := by
  induction table with
  | nil => cases h
  | cons e rest ih =>
    obtain ⟨key, value⟩ := e
    rw [get?] at h
    split at h
    · next hkey =>
      cases h
      rw [hkey]
      exact List.mem_cons_self
    · exact List.mem_cons_of_mem _ (ih h)

theorem get?_eq_some_iff (h : table.Distinct) {s : LabelSet} {t : NodeType} :
    table.get? s = some t ↔ (s, t) ∈ table := by
  refine ⟨mem_of_get?, fun hmem => ?_⟩
  induction table with
  | nil => cases hmem
  | cons e rest ih =>
    obtain ⟨key, value⟩ := e
    obtain ⟨hfresh, hrest⟩ := List.nodup_cons.1 h
    rw [get?]
    rcases List.mem_cons.1 hmem with heq | hmem
    · cases heq
      rw [if_pos rfl]
    · have hkey : key ≠ s := by
        rintro rfl
        exact hfresh (List.mem_map.2 ⟨_, hmem, rfl⟩)
      rw [if_neg hkey]
      exact ih hrest hmem

end LabelTable

end GraphMapper
