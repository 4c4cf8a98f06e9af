/-!
# Dictionaries

Finite maps from text to values, kept as lists of pairs in increasing order of
the key.  Keys are ordered by code point, which is also the order of their
UTF-8 bytes.

* `Dict.insert` adds or replaces one entry in a single pass, so that
  `get?_insert` holds of every list, sorted or not.
* `Dict.IsSorted` is the canonical-form invariant; `ofList` establishes it and
  `insert` keeps it.

`Value` nests these lists in an inductive type, where no synonym may stand, so
the operations are stated for the plain list type.
-/

namespace GraphMapper

/-- A finite map from text, as pairs in increasing order of the key. -/
abbrev Dict (α : Type) : Type := List (String × α)

namespace Dict

variable {α β : Type}

/-- The value under a key. -/
def get? : Dict α → String → Option α
  | [], _ => none
  | (key, value) :: rest, k => if key = k then some value else get? rest k

/-- Whether a key has a value. -/
def contains (d : Dict α) (k : String) : Bool := (d.get? k).isSome

/-- The keys, in order. -/
def keys (d : Dict α) : List String := d.map Prod.fst

/-- Adds an entry at its place, replacing an earlier one of the same key. -/
def insert : Dict α → String → α → Dict α
  | [], k, v => [(k, v)]
  | (key, value) :: rest, k, v =>
    if k < key then (k, v) :: (key, value) :: rest
    else if key = k then (k, v) :: rest
    else (key, value) :: insert rest k v

/-- The dictionary of a list of entries; of two entries with one key the later wins. -/
def ofList (entries : List (String × α)) : Dict α :=
  entries.foldl (fun d e => d.insert e.1 e.2) []

/-- Applies a function to every value. -/
def mapValues (f : α → β) (d : Dict α) : Dict β := d.map fun e => (e.1, f e.2)

/-- Keys in strictly increasing order. -/
def IsSorted (d : Dict α) : Prop := d.keys.Pairwise (· < ·)

@[simp] theorem get?_nil (k : String) : get? ([] : Dict α) k = none := rfl

theorem get?_insert (d : Dict α) (k k' : String) (v : α) :
    (d.insert k v).get? k' = if k = k' then some v else d.get? k' := by
  induction d with
  | nil => simp [insert, get?]
  | cons e rest ih =>
    obtain ⟨key, value⟩ := e
    rw [insert]
    split
    · simp [get?]
    · split <;> grind [get?]

@[simp] theorem get?_insert_self (d : Dict α) (k : String) (v : α) :
    (d.insert k v).get? k = some v := by simp [get?_insert]

theorem mem_keys_insert (d : Dict α) (k k' : String) (v : α) :
    k' ∈ (d.insert k v).keys ↔ k' = k ∨ k' ∈ d.keys := by
  induction d with
  | nil => simp [insert, keys]
  | cons e rest ih =>
    obtain ⟨key, value⟩ := e
    simp only [insert]
    split
    · simp [keys]
    · split
      · next h => subst h; simp [keys]
      · simp only [keys, List.map_cons, List.mem_cons] at ih ⊢
        rw [ih]
        grind

theorem contains_eq_contains_keys (d : Dict α) (k : String) : d.contains k = d.keys.contains k := by
  induction d with
  | nil => rfl
  | cons e rest ih =>
    obtain ⟨key, value⟩ := e
    have ih' : (get? rest k).isSome = (keys rest).contains k := ih
    simp only [contains, get?, keys, List.map_cons, List.contains_cons]
    by_cases hkey : key = k
    · simp [hkey]
    · have hkey' : (k == key) = false := beq_false_of_ne fun h => hkey h.symm
      rw [if_neg hkey, ih', hkey', Bool.false_or]
      rfl

/-- Where an entry goes depends on the keys alone. -/
theorem keys_insert_congr {d d' : Dict α} (h : d.keys = d'.keys) (k : String) (v v' : α) :
    (d.insert k v).keys = (d'.insert k v').keys := by
  induction d generalizing d' with
  | nil =>
    obtain rfl := List.map_eq_nil_iff.1 h.symm
    rfl
  | cons e rest ih =>
    obtain ⟨⟨key', value'⟩, rest', rfl, rfl, hrest⟩ := List.map_eq_cons_iff.1 h.symm
    have ih' := ih hrest.symm
    simp only [insert]
    split
    · simpa [keys] using hrest.symm
    · split
      · simpa [keys] using hrest.symm
      · simpa [keys] using ih'

theorem isSorted_nil : IsSorted ([] : Dict α) := List.Pairwise.nil

theorem IsSorted.insert {d : Dict α} (h : d.IsSorted) (k : String) (v : α) :
    (d.insert k v).IsSorted := by
  induction d with
  | nil => simp [Dict.insert, IsSorted, keys]
  | cons e rest ih =>
    obtain ⟨key, value⟩ := e
    have hrest : IsSorted rest := List.Pairwise.of_cons h
    have hkey : ∀ k' ∈ keys rest, key < k' := (List.pairwise_cons.1 h).1
    simp only [Dict.insert]
    split
    · next hlt =>
      refine List.pairwise_cons.2 ⟨fun k' hk' => ?_, h⟩
      rcases List.mem_cons.1 hk' with rfl | hmem
      · exact hlt
      · exact String.lt_trans hlt (hkey _ hmem)
    · split
      · next heq => subst heq; exact List.pairwise_cons.2 ⟨hkey, hrest⟩
      · next hnlt hne =>
        refine List.pairwise_cons.2 ⟨fun k' hk' => ?_, ih hrest⟩
        rcases (mem_keys_insert rest k k' v).1 hk' with rfl | hmem
        · exact Std.lt_of_le_of_ne (String.not_lt.1 hnlt) hne
        · exact hkey _ hmem

theorem IsSorted.get?_of_mem {d : Dict α} (h : d.IsSorted) {k : String} {v : α}
    (hmem : (k, v) ∈ d) : d.get? k = some v := by
  induction d with
  | nil => cases hmem
  | cons e rest ih =>
    obtain ⟨key, value⟩ := e
    obtain ⟨hkey, hrest⟩ := List.pairwise_cons.1 h
    rcases List.mem_cons.1 hmem with heq | hmem
    · cases heq
      exact if_pos rfl
    · have hlt : key < k := hkey k (List.mem_map.2 ⟨_, hmem, rfl⟩)
      have hne : key ≠ k := by
        rintro rfl
        exact String.lt_irrefl key hlt
      rw [get?, if_neg hne]
      exact ih hrest hmem

/-- An entry with a key above all others goes last. -/
theorem insert_eq_append {d : Dict α} {k : String} (h : ∀ k' ∈ d.keys, k' < k) (v : α) :
    d.insert k v = d ++ [(k, v)] := by
  induction d with
  | nil => rfl
  | cons e rest ih =>
    obtain ⟨key, value⟩ := e
    have hkey : key < k := h key List.mem_cons_self
    have hne : key ≠ k := by
      rintro rfl
      exact String.lt_irrefl key hkey
    rw [insert, if_neg (Std.not_lt.2 (Std.le_of_lt hkey)), if_neg hne,
      ih fun k' hk' => h k' (List.mem_cons_of_mem key hk')]
    rfl

/-- A dictionary is the one of its own entries. -/
theorem IsSorted.ofList_eq {d : Dict α} (h : d.IsSorted) : ofList d = d := by
  have hfold (front : Dict α) (back : List (String × α)) (hsorted : IsSorted (front ++ back)) :
      back.foldl (fun d e => d.insert e.1 e.2) front = front ++ back := by
    induction back generalizing front with
    | nil => rw [List.append_nil]; rfl
    | cons e rest ih =>
      have hbelow : ∀ k' ∈ front.keys, k' < e.1 := by
        rw [IsSorted, keys, List.map_append] at hsorted
        exact fun k' hk' => (List.pairwise_append.1 hsorted).2.2 k' hk' e.1 List.mem_cons_self
      rw [List.append_cons] at hsorted ⊢
      rw [List.foldl_cons, insert_eq_append hbelow]
      exact ih (front ++ [e]) hsorted
  exact hfold [] d h

end Dict

end GraphMapper
