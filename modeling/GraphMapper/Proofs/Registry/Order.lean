import Mathlib.Data.List.Nodup
import GraphMapper.Proofs.Registry.Resolution

/-!
# Node types in any order

Types with names of their own can be registered one after the other when each
passes its checks and no two have a label set in common
(`exists_registerAll_iff`).  That depends on no order, and neither do the
questions about types: they are answered by the latest type of each name
(`Holds.agrees`), and here a name has just one.
-/

namespace GraphMapper

namespace Registry

/-- A registry with some node types registered in turn, unless one of them is refused. -/
def registerAll (r : Registry) (ts : List NodeType) : Except Error Registry := ts.foldlM register r

/-- Two registries answer every question about node types alike. -/
structure Agrees (r r' : Registry) : Prop where
  resolve : ∀ labels, r.resolve labels = r'.resolve labels
  nodeType : ∀ name, r.nodeType name = r'.nodeType name
  nodeTypes : r.nodeTypes = r'.nodeTypes
  snapshot : r.snapshot = r'.snapshot

end Registry

/-! ## Names of their own -/

theorem latest?_eq_some_iff {log : List NodeType} (hnames : (log.map NodeType.name).Nodup)
    {name : String} {t : NodeType} : latest? log name = some t ↔ t ∈ log ∧ t.name = name := by
  constructor
  · intro h
    exact ⟨mem_of_latest? h, name_of_latest? h⟩
  · rintro ⟨ht, rfl⟩
    exact find?_key hnames ht

/-- Where names are distinct, what is latest depends on no order. -/
theorem latest?_perm {log log' : List NodeType} (h : log.Perm log')
    (hnames : (log.map NodeType.name).Nodup) (name : String) :
    latest? log name = latest? log' name := by
  have hnames' : (log'.map NodeType.name).Nodup := (h.map _).nodup_iff.1 hnames
  refine Option.ext fun t => ?_
  rw [latest?_eq_some_iff hnames, latest?_eq_some_iff hnames', h.mem_iff]

/-! ## What it takes to register types -/

/-- Two types have no label set in common. -/
def NodeType.Apart (t u : NodeType) : Prop := ∀ s ∈ t.labelSets, s ∉ u.labelSets

theorem NodeType.Apart.symm {t u : NodeType} (h : t.Apart u) : u.Apart t :=
  fun s hu ht => h s ht hu

namespace Registry

variable {r r' : Registry} {log log' ts : List NodeType} {t : NodeType}

theorem Holds.mem_table_iff (h : r.Holds log) (hnames : (log.map NodeType.name).Nodup)
    {s : LabelSet} : (s, t) ∈ r.table ↔ t ∈ log ∧ s ∈ t.labelSets := by
  rw [h.table, latest?_eq_some_iff hnames]
  simp

/-- A type of a new name passes the checks of its labels where its label sets are new as well. -/
theorem Holds.checkLabels_eq_ok_iff (h : r.Holds log)
    (hnames : ((t :: log).map NodeType.name).Nodup) :
    r.checkLabels t = .ok () ↔ ∀ u ∈ log, u.Apart t := by
  obtain ⟨hnew, hnames⟩ := List.nodup_cons.1 hnames
  have hother {u : NodeType} (hu : u ∈ log) : u.name ≠ t.name := fun hname =>
    hnew (hname ▸ List.mem_map_of_mem hu)
  constructor
  · intro hlabels u hu s hs hst
    obtain ⟨_, _, howner⟩ := bind_eq_ok.1 hlabels
    have hentry := (LabelTable.get?_eq_some_iff h.distinct).2 ((h.mem_table_iff hnames).2 ⟨hu, hs⟩)
    exact hother hu (checkOwner_eq_ok (forM_eq_ok howner s hst) u hentry)
  · intro hapart
    have hsteady : r.checkSteady t = .ok () := by
      have hnone : latest? log t.name = none := List.find?_eq_none.2 fun u hu => by
        simpa using hother hu
      rw [checkSteady, h.names, hnone]
      rfl
    refine bind_eq_ok.2 ⟨(), hsteady, forM_eq_ok_of_forall fun s hs => ?_⟩
    cases hget : r.table.get? s with
    | none => rw [checkOwner, hget]
    | some u =>
      obtain ⟨hu, hus⟩ := (h.mem_table_iff hnames).1 (LabelTable.mem_of_get? hget)
      exact absurd hs (hapart u hu s hus)

/-- What was registered in turn is in the log, the latest first. -/
theorem Holds.registerAll (h : r.Holds log) (hall : r.registerAll ts = .ok r') :
    r'.Holds (ts.reverse ++ log) := by
  induction ts generalizing r log with
  | nil =>
    obtain rfl := pure_eq_ok.1 hall
    exact h
  | cons t rest ih =>
    obtain ⟨r₁, hfirst, hrest⟩ := bind_eq_ok.1 hall
    obtain ⟨hadmits, rfl⟩ := register_eq_ok hfirst
    have hrest := ih (h.withNode (admits_eq_ok hadmits).2) hrest
    rwa [List.reverse_cons, List.append_assoc]

theorem registerAll_concat_eq_ok :
    r.registerAll (ts ++ [t]) = .ok r' ↔
      ∃ r₁, r.registerAll ts = .ok r₁ ∧ r₁.register t = .ok r' := by
  rw [registerAll, List.foldlM_append, bind_eq_ok]
  simp only [List.foldlM_cons, List.foldlM_nil, bind_pure]
  rfl

/-- A type of a new name joins those registered before it where it passes its checks and has label
sets of its own. -/
theorem exists_register_iff (hnames : ((ts ++ [t]).map NodeType.name).Nodup)
    (hall : Registry.empty.registerAll ts = .ok r) :
    (∃ r', r.register t = .ok r') ↔ checkNodeType t = .ok () ∧ ∀ u ∈ ts, u.Apart t := by
  have hholds : r.Holds ts.reverse := by simpa using holds_empty.registerAll hall
  have hnames' : ((t :: ts.reverse).map NodeType.name).Nodup := by
    rwa [← List.reverse_concat', List.map_reverse, List.nodup_reverse]
  have hlabels := hholds.checkLabels_eq_ok_iff hnames'
  simp only [List.mem_reverse] at hlabels
  rw [← hlabels]
  constructor
  · rintro ⟨r', hr'⟩
    exact admits_eq_ok (register_eq_ok hr').1
  · rintro ⟨hnode, hlabels⟩
    have hadmits : r.admits t = .ok () := bind_eq_ok.2 ⟨(), hnode, hlabels⟩
    refine ⟨r.withNode t, ?_⟩
    rw [register_eq, hadmits]
    rfl

/-- Types with names of their own can be registered in turn when each of them passes its checks and
no two have a label set in common. -/
theorem exists_registerAll_iff (hnames : (ts.map NodeType.name).Nodup) :
    (∃ r, Registry.empty.registerAll ts = .ok r) ↔
      (∀ t ∈ ts, checkNodeType t = .ok ()) ∧ ts.Pairwise NodeType.Apart := by
  induction ts using List.reverseRecOn with
  | nil => exact ⟨fun _ => ⟨by simp, .nil⟩, fun _ => ⟨_, rfl⟩⟩
  | append_singleton ts t ih =>
    have hbefore := ih (hnames.sublist ((List.sublist_append_left ts [t]).map _))
    simp only [registerAll_concat_eq_ok, List.forall_mem_append, List.pairwise_append,
      List.pairwise_singleton, List.mem_singleton, forall_eq, true_and]
    constructor
    · rintro ⟨r', r, hr, hr'⟩
      obtain ⟨hchecked, hapart⟩ := hbefore.1 ⟨r, hr⟩
      obtain ⟨hnode, hlast⟩ := (exists_register_iff hnames hr).1 ⟨r', hr'⟩
      exact ⟨⟨hchecked, hnode⟩, hapart, hlast⟩
    · rintro ⟨⟨hchecked, hnode⟩, hapart, hlast⟩
      obtain ⟨r, hr⟩ := hbefore.2 ⟨hchecked, hapart⟩
      obtain ⟨r', hr'⟩ := (exists_register_iff hnames hr).2 ⟨hnode, hlast⟩
      exact ⟨r', r, hr, hr'⟩

/-! ## Questions about types -/

theorem Holds.mem_table_congr (h : r.Holds log) (h' : r'.Holds log')
    (hlatest : ∀ name, latest? log name = latest? log' name) (e : LabelSet × NodeType) :
    e ∈ r.table ↔ e ∈ r'.table := by
  rw [h.table e.1 e.2, h'.table e.1 e.2, hlatest]

theorem mergeSort_perm {lines lines' : List String} (h : lines.Perm lines') :
    lines.mergeSort (fun a b => decide (a ≤ b)) = lines'.mergeSort (fun a b => decide (a ≤ b)) := by
  have hsorted (lines : List String) :
      (lines.mergeSort fun a b => decide (a ≤ b)).Pairwise (· ≤ ·) := by
    have hpairwise : (lines.mergeSort fun a b => decide (a ≤ b)).Pairwise
        fun a b => decide (a ≤ b) = true := by
      refine List.pairwise_mergeSort (fun a b c hab hbc => ?_) (fun a b => ?_) lines
      · exact decide_eq_true (String.le_trans (of_decide_eq_true hab) (of_decide_eq_true hbc))
      · simpa using String.le_total a b
    exact hpairwise.imp of_decide_eq_true
  have hperm := (List.mergeSort_perm lines fun a b => decide (a ≤ b)).trans
    (h.trans (List.mergeSort_perm lines' fun a b => decide (a ≤ b)).symm)
  exact hperm.eq_of_pairwise (fun _ _ _ _ => String.le_antisymm) (hsorted lines) (hsorted lines')

/-- The lines of a snapshot are sorted, so the order of the table does not show. -/
theorem snapshot_perm (h : r.table.Perm r'.table) : r.snapshot = r'.snapshot :=
  congrArg "\n".intercalate (mergeSort_perm (h.map _))

theorem Holds.pairwise_nodeTypes (h : r.Holds log) :
    r.nodeTypes.Pairwise fun t u => t.name < u.name := by
  rw [← List.pairwise_map, h.names_nodeTypes]
  exact h.sorted

/-- Registries with the same latest types answer every question about types alike. -/
theorem Holds.agrees (h : r.Holds log) (h' : r'.Holds log')
    (hlatest : ∀ name, latest? log name = latest? log' name) : r.Agrees r' where
  resolve labels :=
    ((answers_resolve r labels h.distinct h.oneEach).congr (h.mem_table_congr h' hlatest)).unique
      (answers_resolve r' labels h'.distinct h'.oneEach)
  nodeType name := by rw [h.nodeType, h'.nodeType, hlatest]
  nodeTypes := by
    have hnodup {r : Registry} {log : List NodeType} (h : r.Holds log) : r.nodeTypes.Nodup := by
      refine h.pairwise_nodeTypes.imp fun hlt => ?_
      rintro rfl
      exact String.lt_irrefl _ hlt
    have hperm : r.nodeTypes.Perm r'.nodeTypes := by
      refine (List.perm_ext_iff_of_nodup (hnodup h) (hnodup h')).2 fun t => ?_
      rw [h.mem_nodeTypes, h'.mem_nodeTypes, h.nodeType?, h'.nodeType?, hlatest]
    refine hperm.eq_of_pairwise (fun t u _ _ htu hut => ?_) h.pairwise_nodeTypes
      h'.pairwise_nodeTypes
    exact absurd (String.lt_trans htu hut) (String.lt_irrefl _)
  snapshot := by
    refine snapshot_perm ((List.perm_ext_iff_of_nodup ?_ ?_).2 (h.mem_table_congr h' hlatest))
    · exact h.distinct.of_map
    · exact h'.distinct.of_map

/-- Where node types with names of their own can be registered one by one, they can be in every
order, and no question about types tells the orders apart. -/
theorem registerAll_perm {order : List NodeType} (hnames : (ts.map NodeType.name).Nodup)
    (horder : order.Perm ts) (h : Registry.empty.registerAll ts = .ok r) :
    ∃ r', Registry.empty.registerAll order = .ok r' ∧ r'.Agrees r := by
  have hnames' : (order.map NodeType.name).Nodup := (horder.map _).nodup_iff.2 hnames
  obtain ⟨hchecked, hapart⟩ := (exists_registerAll_iff hnames).1 ⟨r, h⟩
  have hapart' : order.Pairwise NodeType.Apart := (horder.pairwise_iff .symm).2 hapart
  obtain ⟨r', h'⟩ := (exists_registerAll_iff hnames').2
    ⟨fun t ht => hchecked t (horder.mem_iff.1 ht), hapart'⟩
  have hholds : r.Holds ts.reverse := by simpa using holds_empty.registerAll h
  have hholds' : r'.Holds order.reverse := by simpa using holds_empty.registerAll h'
  refine ⟨r', h', hholds'.agrees hholds (latest?_perm ?_ ?_)⟩
  · exact (List.reverse_perm _).trans (horder.trans (List.reverse_perm _).symm)
  · rwa [List.map_reverse, List.nodup_reverse]

end Registry

namespace Sample

/-- Persons, who may be students, and two kinds of persons. -/
def schoolTypes : List NodeType :=
  [(NodeType.new "Person").withOptionalLabel "Student",
    ((NodeType.new "Teacher").extend (.new "Person")).withOptionalLabel "Student",
    (NodeType.new "Pupil").extend (.new "Person")]

end Sample

theorem Registry.registerAll_perm_school :
    ∃ r r', Registry.empty.registerAll Sample.schoolTypes = .ok r ∧
      Registry.empty.registerAll Sample.schoolTypes.reverse = .ok r' ∧ r'.Agrees r := by
  have hrun : (Registry.empty.registerAll Sample.schoolTypes).isOk = true := by decide +kernel
  obtain ⟨r, hr⟩ := exists_eq_ok hrun
  obtain ⟨r', hr', hagrees⟩ := registerAll_perm (by decide) (List.reverse_perm _) hr
  exact ⟨r, r', hr, hr', hagrees⟩

end GraphMapper
