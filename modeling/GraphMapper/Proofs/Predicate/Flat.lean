import Mathlib.Data.List.Basic
import GraphMapper.Predicate

/-!
# Flat trees

`Predicate.all` and `Predicate.any` merge groups into a group of their kind and
leave a single part as it is.  They look one level deep, which is enough: trees
that are built with them are flat throughout (`Predicate.Flat`), and what is
merged once needs no merging again.

The two are one construction under two connectives, `Connective.join`, and
`join_map_join` is its law: joining what was joined is joining it all at once.
That grouping does not matter, and that the empty group adds nothing, are cases
of it.  What a tree says and the order of its comparisons do not depend on
merging, for any parts whatsoever: for each way to build a tree they are given
by what the parts say and the comparisons of the parts, down to the single
comparison.
-/

namespace GraphMapper

/-- Induction on predicates, with the hypothesis for every part of a group. -/
@[elab_as_elim]
theorem Predicate.induction {motive : Predicate → Prop} (leaf : ∀ c, motive (.leaf c))
    (and : ∀ parts, (∀ p ∈ parts, motive p) → motive (.and parts))
    (or : ∀ parts, (∀ p ∈ parts, motive p) → motive (.or parts))
    (not : ∀ p, motive p → motive (.not p)) (p : Predicate) : motive p :=
  Predicate.rec (motive_1 := motive) (motive_2 := fun ps => ∀ p ∈ ps, motive p)
    leaf and or not (by simp)
    (fun p ps hp hps q hq => by
      rcases List.mem_cons.1 hq with rfl | hq
      · exact hp
      · exact hps q hq) p

namespace Predicate

theorem conditionsOf_eq_flatMap (ps : List Predicate) :
    conditionsOf ps = ps.flatMap conditions := by
  induction ps with
  | nil => rfl
  | cons p rest ih => rw [conditionsOf, ih, List.flatMap_cons]

mutual

/-- Whether a tree is true where its comparisons have some truth values. -/
def holds (v : Condition → Bool) : Predicate → Bool
  | leaf c => v c
  | and parts => (truths v parts).all id
  | or parts => (truths v parts).any id
  | not p => !p.holds v

/-- The truth values of some trees. -/
def truths (v : Condition → Bool) : List Predicate → List Bool
  | [] => []
  | p :: rest => p.holds v :: truths v rest

end

theorem truths_eq_map (v : Condition → Bool) (ps : List Predicate) :
    truths v ps = ps.map (holds v) := by
  induction ps with
  | nil => rfl
  | cons p rest ih => rw [truths, ih, List.map_cons]

/-- A tree without groups of one, and without groups in a group of the same kind. -/
inductive Flat : Predicate → Prop
  | leaf (c : Condition) : Flat (.leaf c)
  | and {parts : List Predicate} (flat : ∀ p ∈ parts, Flat p)
    (apart : ∀ p ∈ parts, ∀ ps, p ≠ .and ps) (size : parts.length ≠ 1) : Flat (.and parts)
  | or {parts : List Predicate} (flat : ∀ p ∈ parts, Flat p)
    (apart : ∀ p ∈ parts, ∀ ps, p ≠ .or ps) (size : parts.length ≠ 1) : Flat (.or parts)
  | not {p : Predicate} (flat : Flat p) : Flat (.not p)

/-- A tree that is built from comparisons by the functions and operators for that. -/
inductive Built : Predicate → Prop
  | leaf (c : Condition) : Built (.leaf c)
  | all {ps : List Predicate} (h : ∀ p ∈ ps, Built p) : Built (Predicate.all ps)
  | any {ps : List Predicate} (h : ∀ p ∈ ps, Built p) : Built (Predicate.any ps)
  | and {p q : Predicate} (hp : Built p) (hq : Built q) : Built (p &&& q)
  | or {p q : Predicate} (hp : Built p) (hq : Built q) : Built (p ||| q)
  | not {p : Predicate} (h : Built p) : Built (~~~p)

end Predicate

/-! ## Groups under either connective -/

/-- What groups predicates. -/
inductive Connective where
  | and
  | or

namespace Connective

/-- The group of some parts. -/
def group : Connective → List Predicate → Predicate
  | and => .and
  | or => .or

/-- The parts that a predicate adds to a group. -/
def parts : Connective → Predicate → List Predicate
  | and => Predicate.andParts
  | or => Predicate.orParts

/-- The flattened group of some predicates. -/
def join : Connective → List Predicate → Predicate
  | and => Predicate.all
  | or => Predicate.any

/-- The truth of a group. -/
def truth : Connective → List Bool → Bool
  | and, bs => bs.all id
  | or, bs => bs.any id

variable {k : Connective} {p q r : Predicate} {ps qs : List Predicate} {v : Condition → Bool}

theorem join_eq (k : Connective) (ps : List Predicate) :
    k.join ps = match ps.flatMap k.parts with
      | [p] => p
      | parts => k.group parts := by
  cases k <;> rfl

/-- A predicate is a group of the kind in question and adds the parts of it, or adds itself. -/
theorem parts_cases (k : Connective) (p : Predicate) :
    (∃ ps, p = k.group ps ∧ k.parts p = ps) ∨ (∀ ps, p ≠ k.group ps) ∧ k.parts p = [p] := by
  cases k <;> cases p <;> simp [group, parts, Predicate.andParts, Predicate.orParts]

theorem parts_group : k.parts (k.group ps) = ps := by
  cases k <;> rfl

theorem parts_of_apart (h : ∀ ps, p ≠ k.group ps) : k.parts p = [p] := by
  rcases k.parts_cases p with ⟨ps, hp, -⟩ | ⟨-, hparts⟩
  · exact absurd hp (h ps)
  · exact hparts

/-! ### Flat groups -/

theorem flat_group (hflat : ∀ p ∈ ps, p.Flat) (hapart : ∀ p ∈ ps, ∀ qs, p ≠ k.group qs)
    (hsize : ps.length ≠ 1) : (k.group ps).Flat := by
  cases k with
  | and => exact .and hflat hapart hsize
  | or => exact .or hflat hapart hsize

theorem of_flat_group (h : (k.group ps).Flat) :
    (∀ p ∈ ps, p.Flat) ∧ (∀ p ∈ ps, ∀ qs, p ≠ k.group qs) ∧ ps.length ≠ 1 := by
  cases k with
  | and =>
    cases h with
    | and hflat hapart hsize => exact ⟨hflat, hapart, hsize⟩
  | or =>
    cases h with
    | or hflat hapart hsize => exact ⟨hflat, hapart, hsize⟩

/-- What flat predicates add to a group is flat and needs no merging. -/
theorem flat_of_mem_parts (h : p.Flat) (hq : q ∈ k.parts p) :
    q.Flat ∧ ∀ qs, q ≠ k.group qs := by
  rcases k.parts_cases p with ⟨ps, rfl, hparts⟩ | ⟨hapart, hparts⟩
  · obtain ⟨hflat, hapart, -⟩ := of_flat_group h
    rw [hparts] at hq
    exact ⟨hflat q hq, hapart q hq⟩
  · rw [hparts, List.mem_singleton] at hq
    subst hq
    exact ⟨h, hapart⟩

theorem flat_of_mem_flatMap (h : ∀ p ∈ ps, p.Flat) (hq : q ∈ ps.flatMap k.parts) :
    q.Flat ∧ ∀ qs, q ≠ k.group qs := by
  obtain ⟨p, hp, hq⟩ := List.mem_flatMap.1 hq
  exact flat_of_mem_parts (h p hp) hq

/-- Joining flat predicates gives a flat one. -/
theorem flat_join (h : ∀ p ∈ ps, p.Flat) : (k.join ps).Flat := by
  have hparts := fun q => flat_of_mem_flatMap (k := k) (q := q) h
  rw [join_eq]
  split
  · next q hq => exact (hparts q (hq ▸ List.mem_cons_self)).1
  · next hsize =>
    refine flat_group (fun q hq => (hparts q hq).1) (fun q hq => (hparts q hq).2) fun hlength => ?_
    obtain ⟨q, hq⟩ := List.length_eq_one_iff.1 hlength
    exact hsize q hq

/-- A joined group adds to another what its members would have added. -/
theorem parts_join (h : ∀ p ∈ ps, p.Flat) : k.parts (k.join ps) = ps.flatMap k.parts := by
  rw [join_eq]
  split
  · next q hq =>
    rw [hq]
    exact parts_of_apart (flat_of_mem_flatMap h (hq ▸ List.mem_cons_self)).2
  · exact parts_group

theorem join_congr (h : ps.flatMap k.parts = qs.flatMap k.parts) : k.join ps = k.join qs := by
  rw [join_eq, join_eq, h]

/-- Joining what was joined is joining it all at once. -/
theorem join_map_join {pss : List (List Predicate)} (h : ∀ ps ∈ pss, ∀ p ∈ ps, p.Flat) :
    k.join (pss.map k.join) = k.join pss.flatten := by
  refine join_congr ?_
  rw [List.flatMap_map, ← List.flatMap_id, List.flatMap_assoc]
  exact List.flatMap_congr fun ps hps => parts_join (h ps hps)

theorem join_singleton (h : p.Flat) : k.join [p] = p := by
  rw [join_eq, List.flatMap_singleton]
  rcases k.parts_cases p with ⟨ps, rfl, hparts⟩ | ⟨-, hparts⟩
  · rw [hparts]
    split
    · exact absurd rfl (of_flat_group h).2.2
    · rfl
  · rw [hparts]

theorem join_assoc (hp : p.Flat) (hq : q.Flat) (hr : r.Flat) :
    k.join [k.join [p, q], r] = k.join [p, k.join [q, r]] := by
  have hleft : k.join ([[p, q], [r]].map k.join) = k.join [p, q, r] :=
    join_map_join (by simp [hp, hq, hr])
  have hright : k.join ([[p], [q, r]].map k.join) = k.join [p, q, r] :=
    join_map_join (by simp [hp, hq, hr])
  rw [List.map_cons, List.map_singleton, join_singleton hr] at hleft
  rw [List.map_cons, List.map_singleton, join_singleton hp] at hright
  exact hleft.trans hright.symm

theorem join_group_nil (k : Connective) (p : Predicate) : k.join [k.group [], p] = k.join [p] :=
  join_congr (by rw [List.flatMap_cons, parts_group, List.nil_append])

theorem join_concat_group_nil (k : Connective) (p : Predicate) :
    k.join [p, k.group []] = k.join [p] :=
  join_congr (by simp [parts_group])

/-! ### What groups say -/

/-- Whatever is folded over the members of a group is folded over them in a joined one, if it does
not matter for the fold how they are grouped. -/
theorem fold_join {β : Type} {f : Predicate → β} {fold : List β → β}
    (hgroup : ∀ qs, f (k.group qs) = fold (qs.map f)) (hone : ∀ b, fold [b] = b)
    (hflatten : ∀ bss : List (List β), fold bss.flatten = fold (bss.map fold))
    (ps : List Predicate) : f (k.join ps) = fold (ps.map f) := by
  have hmerged : f (k.join ps) = f (k.group (ps.flatMap k.parts)) := by
    rw [join_eq]
    split
    · next p hp => rw [hp, hgroup, List.map_singleton, hone]
    · rfl
  have hparts (p : Predicate) : fold ((k.parts p).map f) = f p := by
    rcases k.parts_cases p with ⟨qs, rfl, hparts⟩ | ⟨-, hparts⟩
    · rw [hparts, hgroup]
    · rw [hparts, List.map_singleton, hone]
  rw [hmerged, hgroup, List.map_flatMap, List.flatMap_def, hflatten, List.map_map]
  exact congrArg fold (List.map_congr_left fun p _ => hparts p)

theorem truth_singleton (b : Bool) : k.truth [b] = b := by
  cases k <;> cases b <;> rfl

theorem truth_flatten (bss : List (List Bool)) :
    k.truth bss.flatten = k.truth (bss.map k.truth) := by
  cases k with
  | and =>
    rw [truth, truth, List.all_flatten, List.all_map]
    rfl
  | or =>
    rw [truth, truth, List.any_flatten, List.any_map]
    rfl

theorem holds_group : (k.group ps).holds v = k.truth (ps.map (Predicate.holds v)) := by
  rw [← Predicate.truths_eq_map]
  cases k <;> rfl

/-- A joined group says what the unmerged one does. -/
theorem holds_join (k : Connective) (v : Condition → Bool) (ps : List Predicate) :
    (k.join ps).holds v = k.truth (ps.map (Predicate.holds v)) :=
  fold_join (fun _ => holds_group) truth_singleton truth_flatten ps

theorem conditions_group : (k.group ps).conditions = (ps.map Predicate.conditions).flatten := by
  rw [← List.flatMap_def, ← Predicate.conditionsOf_eq_flatMap]
  cases k <;> rfl

/-- A joined group has the comparisons of its members, in their order. -/
theorem conditions_join (k : Connective) (ps : List Predicate) :
    (k.join ps).conditions = ps.flatMap Predicate.conditions := by
  rw [List.flatMap_def]
  exact fold_join (fun _ => conditions_group) (fun _ => List.flatten_singleton)
    (fun _ => List.flatten_flatten) ps

end Connective

namespace Predicate

theorem conditions_all (ps : List Predicate) : (all ps).conditions = ps.flatMap conditions :=
  Connective.and.conditions_join ps

theorem conditions_any (ps : List Predicate) : (any ps).conditions = ps.flatMap conditions :=
  Connective.or.conditions_join ps

theorem Built.flat {p : Predicate} (h : Built p) : p.Flat := by
  induction h with
  | leaf c => exact .leaf c
  | all _ ih => exact Connective.flat_join (k := .and) ih
  | any _ ih => exact Connective.flat_join (k := .or) ih
  | and _ _ ihp ihq => exact Connective.flat_join (k := .and) (by simp [ihp, ihq])
  | or _ _ ihp ihq => exact Connective.flat_join (k := .or) (by simp [ihp, ihq])
  | not _ ih => exact .not ih

theorem holds_all (v : Condition → Bool) (ps : List Predicate) :
    (all ps).holds v = ps.all (holds v) :=
  (Connective.and.holds_join v ps).trans List.all_map

theorem holds_any (v : Condition → Bool) (ps : List Predicate) :
    (any ps).holds v = ps.any (holds v) :=
  (Connective.or.holds_join v ps).trans List.any_map

theorem holds_and (v : Condition → Bool) (p q : Predicate) :
    (p &&& q).holds v = (p.holds v && q.holds v) := by
  refine (holds_all v [p, q]).trans ?_
  rw [List.all_cons, List.all_cons, List.all_nil, Bool.and_true]

theorem holds_or (v : Condition → Bool) (p q : Predicate) :
    (p ||| q).holds v = (p.holds v || q.holds v) := by
  refine (holds_any v [p, q]).trans ?_
  rw [List.any_cons, List.any_cons, List.any_nil, Bool.or_false]

theorem conditions_and (p q : Predicate) :
    (p &&& q).conditions = p.conditions ++ q.conditions := by
  refine (conditions_all [p, q]).trans ?_
  rw [List.flatMap_cons, List.flatMap_singleton]

theorem conditions_or (p q : Predicate) :
    (p ||| q).conditions = p.conditions ++ q.conditions := by
  refine (conditions_any [p, q]).trans ?_
  rw [List.flatMap_cons, List.flatMap_singleton]

/-- Trees that are built are flat, and building them follows the laws of AND and OR.

* Grouping does not matter, and empty groups add nothing.
* A comparison says what the assignment gives it, a negation the opposite of its part, and a group
the conjunction or disjunction of its members.
* A comparison lists itself, a negation what its part lists, and a group what its members list, in
their order.
-/
theorem trees_merge :
    (∀ p, Built p → p.Flat) ∧
      (∀ p q r, Built p → Built q → Built r →
        (p &&& q) &&& r = p &&& (q &&& r) ∧ (p ||| q) ||| r = p ||| (q ||| r)) ∧
      (∀ p, Built p →
        (.and [] &&& p = p ∧ p &&& .and [] = p) ∧ .or [] ||| p = p ∧ p ||| .or [] = p) ∧
      (∀ v ps, (all ps).holds v = ps.all (holds v) ∧ (any ps).holds v = ps.any (holds v)) ∧
      (∀ ps, (all ps).conditions = ps.flatMap conditions ∧
        (any ps).conditions = ps.flatMap conditions) ∧
      (∀ v (p q : Predicate), (p &&& q).holds v = (p.holds v && q.holds v) ∧
        (p ||| q).holds v = (p.holds v || q.holds v)) ∧
      (∀ p q : Predicate, (p &&& q).conditions = p.conditions ++ q.conditions ∧
        (p ||| q).conditions = p.conditions ++ q.conditions) ∧
      (∀ v c, (leaf c).holds v = v c ∧ (leaf c).conditions = [c]) ∧
      ∀ v (p : Predicate), (~~~p).holds v = !p.holds v ∧ (~~~p).conditions = p.conditions := by
  refine ⟨fun p hp => hp.flat, fun p q r hp hq hr => ⟨?_, ?_⟩, fun p hp => ⟨⟨?_, ?_⟩, ?_, ?_⟩,
    fun v ps => ⟨holds_all v ps, holds_any v ps⟩,
    fun ps => ⟨conditions_all ps, conditions_any ps⟩,
    fun v p q => ⟨holds_and v p q, holds_or v p q⟩,
    fun p q => ⟨conditions_and p q, conditions_or p q⟩, fun v c => ⟨rfl, rfl⟩,
    fun v p => ⟨rfl, rfl⟩⟩
  · exact Connective.join_assoc (k := .and) hp.flat hq.flat hr.flat
  · exact Connective.join_assoc (k := .or) hp.flat hq.flat hr.flat
  · exact (Connective.and.join_group_nil p).trans (Connective.join_singleton hp.flat)
  · exact (Connective.and.join_concat_group_nil p).trans (Connective.join_singleton hp.flat)
  · exact (Connective.or.join_group_nil p).trans (Connective.join_singleton hp.flat)
  · exact (Connective.or.join_concat_group_nil p).trans (Connective.join_singleton hp.flat)

end Predicate

namespace Sample

/-- A property of the root compared with a number. -/
def condition (property : String) (operator : Operator) (bound : Int64) : Condition :=
  ⟨⟨[], property, false⟩, operator, .int bound⟩

/-- A price within bounds. -/
def affordable : Predicate :=
  .leaf (condition "price" .gt 0) &&& .leaf (condition "price" .lt 10)

/-- No weight that is too low or too high. -/
def handy : Predicate :=
  ~~~(.leaf (condition "weight" .lt 1) ||| .leaf (condition "weight" .gt 5))

theorem affordable_built : affordable.Built := .and (.leaf _) (.leaf _)

theorem handy_built : handy.Built := .not (.or (.leaf _) (.leaf _))

end Sample

theorem Predicate.trees_merge_handy :
    Sample.affordable.Built ∧ Sample.handy.Built ∧
      (Sample.affordable &&& (Sample.handy &&& Sample.affordable)).Flat ∧
      (Sample.affordable &&& Sample.handy) &&& Sample.affordable =
        Sample.affordable &&& (Sample.handy &&& Sample.affordable) ∧
      .and [] &&& Sample.affordable = Sample.affordable ∧
      Sample.handy.conditions =
        [Sample.condition "weight" .lt 1, Sample.condition "weight" .gt 5] ∧
      Sample.handy.holds (fun c => c.operator == .lt) = false := by
  have haffordable := Sample.affordable_built
  have hhandy := Sample.handy_built
  obtain ⟨hflat, hassoc, hunits, -, -, hholds, hconditions, hleaf, hnot⟩ := trees_merge
  refine ⟨haffordable, hhandy, hflat _ (haffordable.and (hhandy.and haffordable)),
    (hassoc _ _ _ haffordable hhandy haffordable).1, (hunits _ haffordable).1.1, ?_, ?_⟩
  · rw [Sample.handy, (hnot default _).2, (hconditions _ _).2, (hleaf default _).2,
      (hleaf default _).2, List.singleton_append]
  · rw [Sample.handy, (hnot _ _).1, (hholds _ _ _).2, (hleaf _ _).1, (hleaf _ _).1]
    rfl

end GraphMapper
