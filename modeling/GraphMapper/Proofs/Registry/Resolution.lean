import Mathlib.Data.List.Perm.Subperm
import GraphMapper.Proofs.Registry.Tables
import GraphMapper.Registry.Resolve

/-!
# The largest fit

The search for the type of a node is a fold that keeps the largest entries seen
so far (`Largest`), so in the end it has the ones that fit best, whatever came
first.  `Answers` says what these ask for in terms of membership alone.  A table
has one answer, and so the order of its entries cannot matter, and neither can
the shortcut for a label set that is in the table itself.
-/

namespace GraphMapper

/-- A set within another one that is no larger is all of it. -/
theorem LabelSet.eq_of_subset_of_size_le {s t : LabelSet} (hsub : ∀ l ∈ s, l ∈ t)
    (hsize : t.size ≤ s.size) : s = t := by
  have hnodup : s.labels.Nodup := by
    refine s.sorted.imp fun hlt => ?_
    rintro rfl
    exact String.lt_irrefl _ hlt
  have hperm := (List.subperm_of_subset hnodup hsub).perm_of_length_le hsize
  exact ext fun l => hperm.mem_iff

namespace LabelTable

variable {table table' seen best : LabelTable} {labels : LabelSet}

/-! ## The search -/

/-- Some entries are the largest of those seen. -/
structure Largest (seen best : LabelTable) : Prop where
  mem_iff : ∀ e, e ∈ best ↔ e ∈ seen ∧ ∀ e' ∈ seen, e'.1.size ≤ e.1.size
  ne_nil : seen ≠ [] → best ≠ []

theorem largest_nil : Largest [] [] := ⟨by simp, by simp⟩

theorem Largest.keepLargest (h : Largest seen best) (e : LabelSet × NodeType) :
    Largest (seen ++ [e]) (best.keepLargest e) := by
  cases best with
  | nil =>
    have hseen : seen = [] := by
      by_contra hne
      exact h.ne_nil hne rfl
    subst hseen
    exact ⟨by simp [LabelTable.keepLargest], by simp [LabelTable.keepLargest]⟩
  | cons first rest =>
    obtain ⟨hfirst, hlargest⟩ := (h.mem_iff first).1 List.mem_cons_self
    obtain ⟨largest, _⟩ := first
    have hseen (e' : LabelSet × NodeType) :
        (e' ∈ seen ++ [e] ∧ ∀ e'' ∈ seen ++ [e], e''.1.size ≤ e'.1.size) ↔
          (e' ∈ seen ∨ e' = e) ∧ (∀ e'' ∈ seen, e''.1.size ≤ e'.1.size) ∧ e.1.size ≤ e'.1.size := by
      simp only [List.mem_append, List.mem_singleton, or_imp, forall_and, forall_eq]
    rw [LabelTable.keepLargest]
    refine ⟨fun e' => ?_, fun _ => ?_⟩
    · rw [hseen]
      split
      · -- A smaller entry changes nothing.
        rw [h.mem_iff]
        grind
      · split
        · -- An equally large one joins the others, which stay the largest.
          rw [List.mem_append, h.mem_iff]
          grind
        · -- A larger one leaves none of the others.
          grind
    · grind

theorem Largest.foldl_keepLargest (h : Largest seen best) (rest : LabelTable) :
    Largest (seen ++ rest) (rest.foldl LabelTable.keepLargest best) := by
  induction rest generalizing seen best with
  | nil => simpa using h
  | cons e rest ih =>
    rw [List.append_cons, List.foldl_cons]
    exact ih (h.keepLargest e)

/-- An entry of a table fits some labels when its label set is among them. -/
def Fits (table : LabelTable) (labels : LabelSet) (e : LabelSet × NodeType) : Prop :=
  e ∈ table ∧ ∀ l ∈ e.1, l ∈ labels

/-- An entry fits best when no larger one fits. -/
def FitsBest (table : LabelTable) (labels : LabelSet) (e : LabelSet × NodeType) : Prop :=
  table.Fits labels e ∧ ∀ e', table.Fits labels e' → e'.1.size ≤ e.1.size

theorem mem_filter_subset {e : LabelSet × NodeType} :
    (e ∈ table.filter fun e => e.1.subset labels) ↔ table.Fits labels e := by
  rw [List.mem_filter, LabelSet.subset_iff, Fits]

theorem largest_bestFits :
    Largest (table.filter fun e => e.1.subset labels) (table.bestFits labels) :=
  largest_nil.foldl_keepLargest _

theorem mem_bestFits {e : LabelSet × NodeType} :
    e ∈ table.bestFits labels ↔ table.FitsBest labels e := by
  simp only [largest_bestFits.mem_iff, mem_filter_subset, FitsBest]

/-- Where anything fits, something fits best. -/
theorem Fits.exists_best {e : LabelSet × NodeType} (h : table.Fits labels e) :
    ∃ e', table.FitsBest labels e' := by
  have hne := largest_bestFits.ne_nil (List.ne_nil_of_mem (mem_filter_subset.2 h))
  obtain ⟨e', he'⟩ := List.exists_mem_of_ne_nil _ hne
  exact ⟨e', mem_bestFits.1 he'⟩

theorem mem_typeNames {name : String} :
    name ∈ table.typeNames ↔ ∃ e ∈ table, e.2.name = name := by
  have hplaced (names : List String) : name ∈ names.foldr LabelSet.insertInto [] ↔ name ∈ names := by
    induction names with
    | nil => rfl
    | cons n rest ih => rw [List.foldr_cons, LabelSet.mem_insertInto, ih, List.mem_cons]
  rw [typeNames, hplaced, List.mem_map]

theorem pairwise_typeNames : table.typeNames.Pairwise (· < ·) := by
  unfold typeNames
  induction table with
  | nil => exact .nil
  | cons e rest ih => exact LabelSet.pairwise_insertInto ih

/-! ## The answer -/

/-- The names of the types that fit best, each once and in order. -/
structure BestNames (table : LabelTable) (labels : LabelSet) (names : List String) : Prop where
  sorted : names.Pairwise (· < ·)
  mem_iff : ∀ name, name ∈ names ↔ ∃ e, table.FitsBest labels e ∧ e.2.name = name

namespace BestNames

variable {names names' : List String}

theorem unique (h : table.BestNames labels names) (h' : table.BestNames labels names') :
    names = names' :=
  LabelSet.eq_of_pairwise_of_mem_iff h.sorted h'.sorted fun name =>
    (h.mem_iff name).trans (h'.mem_iff name).symm

theorem nil (hnone : ∀ e, ¬ table.Fits labels e) : table.BestNames labels [] where
  sorted := .nil
  mem_iff _ := ⟨nofun, fun ⟨e, he, _⟩ => absurd he.1 (hnone e)⟩

theorem singleton {s : LabelSet} {t : NodeType} (hbest : table.FitsBest labels (s, t))
    (hone : ∀ e, table.FitsBest labels e → e.2 = t) : table.BestNames labels [t.name] where
  sorted := List.pairwise_singleton _ _
  mem_iff _ := by
    rw [List.mem_singleton]
    constructor
    · rintro rfl
      exact ⟨_, hbest, rfl⟩
    · rintro ⟨e, he, rfl⟩
      rw [hone e he]

end BestNames

/-- The answer to which type some labels belong to, by the entries that fit them best. -/
inductive Answers (table : LabelTable) (labels : LabelSet) : Except Error NodeType → Prop where
  | unknown (hnone : ∀ e, ¬ table.Fits labels e) : Answers table labels (.error (.unknownType labels))
  | type (s : LabelSet) (t : NodeType) (hbest : table.FitsBest labels (s, t))
      (hone : ∀ e, table.FitsBest labels e → e.2 = t) : Answers table labels (.ok t)
  | ambiguous (names : List String) (hnames : table.BestNames labels names)
      (htwo : 2 ≤ names.length) : Answers table labels (.error (.ambiguousType labels names))

/-- What an answer says when it names the types that fit best. -/
theorem Answers.exists_names {a : Except Error NodeType} (h : table.Answers labels a) :
    ∃ names, table.BestNames labels names ∧
      match names with
      | [] => a = .error (.unknownType labels)
      | [name] => ∃ s t, a = .ok t ∧ t.name = name ∧ table.FitsBest labels (s, t) ∧
          ∀ e, table.FitsBest labels e → e.2 = t
      | _ => a = .error (.ambiguousType labels names) := by
  cases h with
  | unknown hnone => exact ⟨[], .nil hnone, rfl⟩
  | type s t hbest hone => exact ⟨[t.name], .singleton hbest hone, s, t, rfl, rfl, hbest, hone⟩
  | ambiguous names hnames htwo =>
    match names with
    | [] | [_] => exact absurd htwo (by simp)
    | _ :: _ :: _ => exact ⟨_, hnames, rfl⟩

/-- A table has one answer. -/
theorem Answers.unique {a b : Except Error NodeType} (ha : table.Answers labels a)
    (hb : table.Answers labels b) : a = b := by
  obtain ⟨names, hnames, ha⟩ := ha.exists_names
  obtain ⟨names', hnames', hb⟩ := hb.exists_names
  obtain rfl := hnames.unique hnames'
  match names with
  | [] | _ :: _ :: _ => exact ha.trans hb.symm
  | [_] =>
    obtain ⟨s, t, rfl, _, hbest, _⟩ := ha
    obtain ⟨s', t', rfl, _, _, hone⟩ := hb
    exact congrArg _ (hone _ hbest)

theorem Answers.eq_iff {a b : Except Error NodeType} (ha : table.Answers labels a) :
    a = b ↔ table.Answers labels b := by
  constructor
  · rintro rfl
    exact ha
  · exact ha.unique

/-- The answer is one about the entries as a set. -/
theorem Answers.congr {a : Except Error NodeType} (h : table.Answers labels a)
    (hsame : ∀ e, e ∈ table ↔ e ∈ table') : table'.Answers labels a := by
  have hfits (e : LabelSet × NodeType) : table.Fits labels e ↔ table'.Fits labels e :=
    and_congr_left fun _ => hsame e
  have hbest (e : LabelSet × NodeType) : table.FitsBest labels e ↔ table'.FitsBest labels e := by
    simp only [FitsBest, hfits]
  cases h with
  | unknown hnone => exact .unknown fun e he => hnone e ((hfits e).2 he)
  | type s t hst hone => exact .type s t ((hbest _).1 hst) fun e he => hone e ((hbest e).2 he)
  | ambiguous names hnames htwo =>
    refine .ambiguous names ⟨hnames.sorted, fun name => ?_⟩ htwo
    simp only [hnames.mem_iff, hbest]

/-- The entries of one name hold one type. -/
def OneEach (table : LabelTable) : Prop :=
  ∀ e ∈ table, ∀ e' ∈ table, e.2.name = e'.2.name → e.2 = e'.2

theorem answers_search (h : table.OneEach) : table.Answers labels (table.search labels) := by
  have hbest (e : LabelSet × NodeType) : e ∈ table.bestFits labels ↔ table.FitsBest labels e :=
    mem_bestFits
  unfold search
  split
  · next hnil =>
    refine .unknown fun e he => ?_
    obtain ⟨e', he'⟩ := he.exists_best
    rw [← hbest, hnil] at he'
    cases he'
  · next s t rest hcons =>
    rw [hcons] at hbest
    have hfirst := (hbest (s, t)).1 List.mem_cons_self
    have hnames : table.BestNames labels (typeNames ((s, t) :: rest)) :=
      ⟨pairwise_typeNames, fun name => by simp only [mem_typeNames, hbest]⟩
    split
    · next name hone =>
      rw [hone] at hnames
      have hname (e : LabelSet × NodeType) (he : table.FitsBest labels e) : e.2.name = name :=
        List.mem_singleton.1 ((hnames.mem_iff _).2 ⟨e, he, rfl⟩)
      exact .type s t hfirst fun e he =>
        h e he.1.1 (s, t) hfirst.1.1 ((hname e he).trans (hname _ hfirst).symm)
    · next hmany =>
      refine .ambiguous _ hnames ?_
      match hlist : typeNames ((s, t) :: rest) with
      | [] =>
        rw [hlist] at hnames
        exact absurd ((hnames.mem_iff t.name).2 ⟨_, hfirst, rfl⟩) List.not_mem_nil
      | [name] => exact absurd hlist (hmany name)
      | _ :: _ :: _ => simp

/-- A type is the answer when one of its label sets is larger than all that fit of other types. -/
theorem answers_ok_iff (h : table.OneEach) {t : NodeType} :
    table.Answers labels (.ok t) ↔ ∃ s, table.Fits labels (s, t) ∧
      ∀ e, table.Fits labels e → e.2.name ≠ t.name → e.1.size < s.size := by
  constructor
  · rintro ⟨⟩
    next s hbest hone =>
    refine ⟨s, hbest.1, fun e he hname => Nat.lt_of_le_of_ne (hbest.2 e he) fun hsize => ?_⟩
    -- An entry of the same size fits best as well.
    have he' : table.FitsBest labels e := ⟨he, fun e' he' => hsize ▸ hbest.2 e' he'⟩
    exact hname (by rw [hone e he'])
  · rintro ⟨s, hfits, hlarger⟩
    have hname (e : LabelSet × NodeType) (he : table.FitsBest labels e) : e.2 = t := by
      refine h e he.1.1 (s, t) hfits.1 (by_contra fun hne => ?_)
      exact absurd (he.2 (s, t) hfits) (Nat.not_le.2 (hlarger e he.1 hne))
    obtain ⟨⟨s', t'⟩, hbest⟩ := hfits.exists_best
    obtain rfl : t' = t := hname _ hbest
    exact .type s' t' hbest hname

theorem answers_ambiguous_iff {names : List String} :
    table.Answers labels (.error (.ambiguousType labels names)) ↔
      names.Pairwise (· < ·) ∧ 2 ≤ names.length ∧
        ∀ name, name ∈ names ↔ ∃ e, table.FitsBest labels e ∧ e.2.name = name := by
  constructor
  · rintro ⟨⟩
    next hnames htwo => exact ⟨hnames.sorted, htwo, hnames.mem_iff⟩
  · rintro ⟨hsorted, htwo, hnames⟩
    exact .ambiguous names ⟨hsorted, hnames⟩ htwo

theorem answers_unknown_iff :
    table.Answers labels (.error (.unknownType labels)) ↔ ∀ e, ¬ table.Fits labels e := by
  constructor
  · rintro ⟨⟩
    assumption
  · exact .unknown

/-- A label set that is in the table is larger than all others that it contains. -/
theorem answers_of_get? (h : table.Distinct) {t : NodeType} (hget : table.get? labels = some t) :
    table.Answers labels (.ok t) := by
  have hbest : table.FitsBest labels (labels, t) := by
    refine ⟨⟨mem_of_get? hget, fun l hl => hl⟩, fun e he => ?_⟩
    by_contra hlarger
    obtain heq := LabelSet.eq_of_subset_of_size_le he.2 (Nat.le_of_not_le hlarger)
    exact hlarger (heq ▸ Nat.le_refl _)
  refine .type labels t hbest fun ⟨s, u⟩ hu => ?_
  obtain rfl : s = labels := LabelSet.eq_of_subset_of_size_le hu.1.2 (hu.2 _ hbest.1)
  exact Option.some.inj (((get?_eq_some_iff h).2 hu.1.1).symm.trans hget)

end LabelTable

namespace Registry

theorem Holds.oneEach {r : Registry} {log : List NodeType} (h : r.Holds log) : r.table.OneEach := by
  intro e he e' he' hname
  have hlatest := ((h.table e.1 e.2).1 he).1
  rw [hname] at hlatest
  exact Option.some.inj (hlatest.symm.trans ((h.table e'.1 e'.2).1 he').1)

/-- A registry answers as its table does, for all its shortcut. -/
theorem answers_resolve (r : Registry) (labels : LabelSet) (hdistinct : r.table.Distinct)
    (hone : r.table.OneEach) : r.table.Answers labels (r.resolve labels) := by
  unfold resolve
  split
  · next hget => exact LabelTable.answers_of_get? hdistinct hget
  · exact LabelTable.answers_search hone

/-- Whatever calls were made, some labels belong to the type that has a larger label set among them
than any other type.  Where several types tie for the largest, the error lists just these, in order;
where no label set is among the labels, their type is unknown.  Neither the shortcut for a label set
in the table nor the order of the table makes a difference. -/
theorem resolve_largest (calls : List RegistryCall) (labels : LabelSet) :
    (∀ t, (after calls).resolve labels = .ok t ↔
      ∃ s, (after calls).table.Fits labels (s, t) ∧
        ∀ e, (after calls).table.Fits labels e → e.2.name ≠ t.name → e.1.size < s.size) ∧
    (∀ names, (after calls).resolve labels = .error (.ambiguousType labels names) ↔
      names.Pairwise (· < ·) ∧ 2 ≤ names.length ∧
        ∀ name, name ∈ names ↔
          ∃ e, (after calls).table.FitsBest labels e ∧ e.2.name = name) ∧
    ((after calls).resolve labels = .error (.unknownType labels) ↔
      ∀ e, ¬ (after calls).table.Fits labels e) ∧
    (∀ t, (after calls).table.get? labels = some t →
      (after calls).table.search labels = .ok t) ∧
    ∀ table, table.Perm (after calls).table →
      table.search labels = (after calls).resolve labels ∧
        { after calls with table }.resolve labels = (after calls).resolve labels := by
  have hholds := holds_after calls
  have hone := hholds.oneEach
  have hanswers := answers_resolve (after calls) labels hholds.distinct hone
  refine ⟨fun t => ?_, fun names => ?_, ?_, fun t hget => ?_, fun table hperm => ?_⟩
  · rw [hanswers.eq_iff, LabelTable.answers_ok_iff hone]
  · rw [hanswers.eq_iff, LabelTable.answers_ambiguous_iff]
  · rw [hanswers.eq_iff, LabelTable.answers_unknown_iff]
  · exact (LabelTable.answers_search hone).unique (LabelTable.answers_of_get? hholds.distinct hget)
  · have hsame := hanswers.congr fun e => hperm.symm.mem_iff
    have hone' : table.OneEach := fun e he e' he' =>
      hone e (hperm.mem_iff.1 he) e' (hperm.mem_iff.1 he')
    have hdistinct' : table.Distinct := (hperm.map Prod.fst).nodup_iff.2 hholds.distinct
    exact ⟨(LabelTable.answers_search hone').unique hsame,
      (answers_resolve { after calls with table } labels hdistinct' hone').unique hsame⟩

end Registry

namespace Sample

/-- Two types of one label each. -/
def tied : List RegistryCall := [.node (.new "Round"), .node (.new "Red")]

end Sample

theorem Registry.resolve_largest_tied :
    LabelTable.search (after Sample.tied).table.reverse (.ofList ["Red", "Round", "Soft"]) =
        .error (.ambiguousType (.ofList ["Red", "Round", "Soft"]) ["Red", "Round"]) ∧
      ∃ e, (after Sample.tied).table.FitsBest (.ofList ["Red", "Round", "Soft"]) e ∧
        e.2.name = "Round" := by
  have htied : (after Sample.tied).resolve (.ofList ["Red", "Round", "Soft"]) =
      .error (.ambiguousType (.ofList ["Red", "Round", "Soft"]) ["Red", "Round"]) := rfl
  obtain ⟨_, hambiguous, _, _, horder⟩ := resolve_largest Sample.tied (.ofList ["Red", "Round", "Soft"])
  obtain ⟨_, _, hnames⟩ := (hambiguous _).1 htied
  exact ⟨(horder _ (List.reverse_perm _)).1.trans htied, (hnames "Round").1 (by decide)⟩

end GraphMapper
