import GraphMapper.Schema.Combinations

/-!
# The label sets of a type

`mem_combinations` reads the list of a type's label sets through choices: a set
is in it when it is the base united with some of the optional labels.

Choices repeat: a label that is given twice, or that the base has already, makes
no new set.  `combinations_exact` says that the list is strictly increasing
all the same, because every set is put in its place in an increasing list.
-/

namespace GraphMapper

namespace LabelSet

theorem union_empty (s : LabelSet) : s.union empty = s := rfl

theorem mem_insertSet {s t : LabelSet} {sets : List LabelSet} :
    s ∈ insertSet t sets ↔ s = t ∨ s ∈ sets := by
  induction sets with
  | nil => simp [insertSet]
  | cons u rest ih =>
    rw [insertSet]
    split
    · simp
    · split
      · next heq => simp [heq]
      · simp only [List.mem_cons, ih]
        grind

/-! ## The order of sets -/

theorem before_iff {s t : LabelSet} : s.before t = true ↔ s.labels < t.labels :=
  decide_eq_true_iff

theorem before_trans {s t u : LabelSet} (hst : s.before t = true) (htu : t.before u = true) :
    s.before u = true :=
  before_iff.2 (List.lt_trans (before_iff.1 hst) (before_iff.1 htu))

/-- Of two sets that differ, one comes before the other. -/
theorem before_of_not_before {s t : LabelSet} (hst : ¬ s.before t = true) (hne : s ≠ t) :
    t.before s = true := by
  have hnlt : ¬ s.labels < t.labels := fun hlt => hst (before_iff.2 hlt)
  refine before_iff.2 (Classical.byContradiction fun hngt => ?_)
  have heq : s.labels = t.labels := Std.Trichotomous.trichotomous (r := (· < ·)) _ _ hnlt hngt
  exact hne (ext fun l => by rw [mem_def, mem_def, heq])

theorem pairwise_insertSet {s : LabelSet} {sets : List LabelSet}
    (hsets : sets.Pairwise fun t u => t.before u = true) :
    (insertSet s sets).Pairwise fun t u => t.before u = true := by
  induction sets with
  | nil => exact List.pairwise_singleton _ _
  | cons t rest ih =>
    obtain ⟨ht, hrest⟩ := List.pairwise_cons.1 hsets
    rw [insertSet]
    split
    · next hlt =>
      refine List.pairwise_cons.2 ⟨fun u hu => ?_, hsets⟩
      rcases List.mem_cons.1 hu with rfl | hu
      · exact hlt
      · exact before_trans hlt (ht u hu)
    · split
      · exact hsets
      · next hnlt hne =>
        refine List.pairwise_cons.2 ⟨fun u hu => ?_, ih hrest⟩
        rcases mem_insertSet.1 hu with rfl | hu
        · exact before_of_not_before hnlt hne
        · exact ht u hu

theorem pairwise_combinations (base : LabelSet) (labels : List String) :
    (combinations base labels).Pairwise fun s t => s.before t = true := by
  rw [combinations]
  induction choices base labels with
  | nil => exact .nil
  | cons s rest ih => exact pairwise_insertSet ih

/-! ## The choices -/

/-- A choice among some labels and one more either takes that label or does without it. -/
theorem exists_choice_cons {base s : LabelSet} {label : String} {labels : List String} :
    (∃ chosen : LabelSet, (∀ l ∈ chosen, l ∈ label :: labels) ∧ s = base.union chosen) ↔
      (∃ chosen : LabelSet, (∀ l ∈ chosen, l ∈ labels) ∧ s = base.union chosen) ∨
        ∃ chosen : LabelSet, (∀ l ∈ chosen, l ∈ labels) ∧
          s = (base.insert label).union chosen := by
  constructor
  · rintro ⟨chosen, hchosen, rfl⟩
    by_cases hlabel : label ∈ chosen
    · refine .inr ⟨ofList (chosen.labels.filter fun l => l ≠ label), fun l hl => ?_, ext fun l => ?_⟩
      · rw [mem_ofList, List.mem_filter] at hl
        exact List.mem_of_ne_of_mem (by simpa using hl.2) (hchosen l hl.1)
      · simp only [mem_union, mem_insert, mem_ofList, List.mem_filter, ← mem_def]
        grind
    · refine .inl ⟨chosen, fun l hl => ?_, rfl⟩
      refine List.mem_of_ne_of_mem ?_ (hchosen l hl)
      rintro rfl
      exact hlabel hl
  · rintro (⟨chosen, hchosen, rfl⟩ | ⟨chosen, hchosen, rfl⟩)
    · exact ⟨chosen, fun l hl => List.mem_cons_of_mem _ (hchosen l hl), rfl⟩
    · refine ⟨chosen.insert label, fun l hl => ?_, ext fun l => ?_⟩
      · rcases mem_insert.1 hl with rfl | hl
        · exact List.mem_cons_self
        · exact List.mem_cons_of_mem _ (hchosen l hl)
      · simp only [mem_union, mem_insert]
        grind

theorem mem_choices {base s : LabelSet} {labels : List String} :
    s ∈ choices base labels ↔
      ∃ chosen : LabelSet, (∀ l ∈ chosen, l ∈ labels) ∧ s = base.union chosen := by
  induction labels generalizing base with
  | nil =>
    rw [choices, List.mem_singleton]
    constructor
    · rintro rfl
      exact ⟨empty, by simp, (union_empty s).symm⟩
    · rintro ⟨chosen, hchosen, rfl⟩
      have hnone : ∀ l, l ∉ chosen := fun l hl => List.not_mem_nil (hchosen l hl)
      exact ext fun l => by simp [hnone]
  | cons label rest ih => rw [choices, List.mem_append, ih, ih, exists_choice_cons]

theorem mem_combinations {base s : LabelSet} {labels : List String} :
    s ∈ combinations base labels ↔
      ∃ chosen : LabelSet, (∀ l ∈ chosen, l ∈ labels) ∧ s = base.union chosen := by
  have hplaced (sets : List LabelSet) : s ∈ sets.foldr insertSet [] ↔ s ∈ sets := by
    induction sets with
    | nil => rfl
    | cons t rest ih => rw [List.foldr_cons, mem_insertSet, ih, List.mem_cons]
  rw [combinations, hplaced, mem_choices]

/-- The combinations are the sets that unite the base with some of the labels, each
once and in increasing order, also where labels repeat or lie in the base. -/
theorem combinations_exact (base : LabelSet) (labels : List String) :
    ((combinations base labels).Pairwise fun s t => s.before t = true) ∧
      ∀ s, s ∈ combinations base labels ↔
        ∃ chosen : LabelSet, (∀ l ∈ chosen, l ∈ labels) ∧ s = base.union chosen :=
  ⟨pairwise_combinations base labels, fun _ => mem_combinations⟩

end LabelSet

/-- Every type has the set of the labels that all its nodes carry. -/
theorem NodeType.labels_mem_labelSets (t : NodeType) : t.labels ∈ t.labelSets :=
  LabelSet.mem_combinations.2 ⟨.empty, by simp, (LabelSet.union_empty _).symm⟩

end GraphMapper
