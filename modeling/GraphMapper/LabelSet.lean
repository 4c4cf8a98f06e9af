/-!
# Label sets

Sets of labels, kept as strictly increasing lists so that equal sets are equal
values.  Labels are ordered by code point.

* `mem_insert`, `mem_ofList` and `mem_union` read the operations through
  membership.
* `LabelSet.ext` says that membership is all there is to a set.
-/

namespace GraphMapper

/-- A set of labels. -/
structure LabelSet where
  labels : List String
  sorted : labels.Pairwise (· < ·)
deriving DecidableEq

namespace LabelSet

/-- A label put in its place in an increasing list, unless it is there. -/
def insertInto (label : String) : List String → List String
  | [] => [label]
  | l :: rest =>
    if label < l then label :: l :: rest
    else if label = l then l :: rest
    else l :: insertInto label rest

theorem mem_insertInto {label l : String} {ls : List String} :
    l ∈ insertInto label ls ↔ l = label ∨ l ∈ ls := by
  induction ls with
  | nil => simp [insertInto]
  | cons x rest ih =>
    simp only [insertInto]
    split
    · simp
    · split
      · next h => subst h; simp
      · simp only [List.mem_cons, ih]; grind

theorem pairwise_insertInto {label : String} {ls : List String} (h : ls.Pairwise (· < ·)) :
    (insertInto label ls).Pairwise (· < ·) := by
  induction ls with
  | nil => simp [insertInto]
  | cons x rest ih =>
    obtain ⟨hx, hrest⟩ := List.pairwise_cons.1 h
    simp only [insertInto]
    split
    · next hlt =>
      refine List.pairwise_cons.2 ⟨fun l hl => ?_, h⟩
      rcases List.mem_cons.1 hl with rfl | hmem
      · exact hlt
      · exact String.lt_trans hlt (hx _ hmem)
    · split
      · exact h
      · next hnlt hne =>
        refine List.pairwise_cons.2 ⟨fun l hl => ?_, ih hrest⟩
        rcases mem_insertInto.1 hl with rfl | hmem
        · exact Std.lt_of_le_of_ne (String.not_lt.1 hnlt) (Ne.symm hne)
        · exact hx _ hmem

/-- The empty set. -/
def empty : LabelSet := ⟨[], .nil⟩

instance : Membership String LabelSet := ⟨fun s l => l ∈ s.labels⟩

instance (l : String) (s : LabelSet) : Decidable (l ∈ s) :=
  inferInstanceAs (Decidable (l ∈ s.labels))

/-- A set with one label more. -/
def insert (s : LabelSet) (label : String) : LabelSet :=
  ⟨insertInto label s.labels, pairwise_insertInto s.sorted⟩

/-- The set of some labels. -/
def ofList (labels : List String) : LabelSet := labels.foldl insert empty

/-- The labels of either set. -/
def union (s t : LabelSet) : LabelSet := t.labels.foldl insert s

/-- The number of labels. -/
def size (s : LabelSet) : Nat := s.labels.length

/-- Whether every label of one set lies in another. -/
def subset (s t : LabelSet) : Bool := s.labels.all fun l => decide (l ∈ t)

/-- The order of sets, label by label. -/
def before (s t : LabelSet) : Bool := decide (s.labels < t.labels)

/-- A set in braces. -/
def text (s : LabelSet) : String := "\x7b" ++ ", ".intercalate s.labels ++ "\x7d"

theorem mem_def {l : String} {s : LabelSet} : l ∈ s ↔ l ∈ s.labels := Iff.rfl

@[simp] theorem not_mem_empty (l : String) : l ∉ empty := by simp [mem_def, empty]

@[simp] theorem mem_insert {l label : String} {s : LabelSet} :
    l ∈ s.insert label ↔ l = label ∨ l ∈ s := mem_insertInto

theorem mem_foldl_insert {l : String} {ls : List String} {s : LabelSet} :
    l ∈ ls.foldl insert s ↔ l ∈ s ∨ l ∈ ls := by
  induction ls generalizing s with
  | nil => simp
  | cons x rest ih => simp only [List.foldl_cons, ih, mem_insert, List.mem_cons]; grind

@[simp] theorem mem_ofList {l : String} {ls : List String} : l ∈ ofList ls ↔ l ∈ ls := by
  simp [ofList, mem_foldl_insert]

@[simp] theorem mem_union {l : String} {s t : LabelSet} : l ∈ s.union t ↔ l ∈ s ∨ l ∈ t :=
  mem_foldl_insert

theorem subset_iff {s t : LabelSet} : s.subset t = true ↔ ∀ l ∈ s, l ∈ t := by
  simp [subset, mem_def]

/-- Two strictly increasing lists with the same members are equal. -/
theorem eq_of_pairwise_of_mem_iff : ∀ {as bs : List String}, as.Pairwise (· < ·) →
    bs.Pairwise (· < ·) → (∀ l, l ∈ as ↔ l ∈ bs) → as = bs
  | [], [], _, _, _ => rfl
  | [], b :: _, _, _, h => by simpa using h b
  | a :: _, [], _, _, h => by simpa using h a
  | a :: as, b :: bs, ha, hb, h => by
    obtain ⟨ha₁, ha₂⟩ := List.pairwise_cons.1 ha
    obtain ⟨hb₁, hb₂⟩ := List.pairwise_cons.1 hb
    have hab : a = b := by
      rcases List.mem_cons.1 ((h a).1 (by simp)) with rfl | hmem
      · rfl
      · rcases List.mem_cons.1 ((h b).2 (by simp)) with rfl | hmem'
        · rfl
        · exact absurd (String.lt_trans (hb₁ _ hmem) (ha₁ _ hmem')) (String.lt_irrefl _)
    subst hab
    have hnot : ∀ {l}, l ∈ as → l ≠ a := fun hl he => String.lt_irrefl _ (he ▸ ha₁ _ hl)
    have hnot' : ∀ {l}, l ∈ bs → l ≠ a := fun hl he => String.lt_irrefl _ (he ▸ hb₁ _ hl)
    refine congrArg _ (eq_of_pairwise_of_mem_iff ha₂ hb₂ fun l => ⟨fun hl => ?_, fun hl => ?_⟩)
    · exact (List.mem_cons.1 ((h l).1 (by simp [hl]))).resolve_left (hnot hl)
    · exact (List.mem_cons.1 ((h l).2 (by simp [hl]))).resolve_left (hnot' hl)

/-- Sets with the same labels are equal. -/
theorem ext {s t : LabelSet} (h : ∀ l, l ∈ s ↔ l ∈ t) : s = t := by
  obtain ⟨as, ha⟩ := s
  obtain ⟨bs, hb⟩ := t
  obtain rfl : as = bs := eq_of_pairwise_of_mem_iff ha hb h
  rfl

end LabelSet

end GraphMapper
