import Mathlib.Data.List.Forall2
import GraphMapper.Cypher.Formula

/-!
# Boolean formulas and their truth

Formulas over two kinds of leaves, comparisons and existence checks.  An
assignment gives a truth value to every *occurrence* of a leaf: to the
comparisons in their order from left to right, and to the checks in theirs.
Two leaves that happen to be written alike are therefore still independent.

`Logic.Same` is equality up to the grouping of connectives: the same leaves of
each kind in the same order, and the same truth under every assignment.
-/

namespace GraphMapper

/-- A boolean formula over comparisons and existence checks. -/
inductive Logic (α β : Type) where
  | comparison (a : α)
  | check (b : β)
  | const (value : Bool)
  | not (f : Logic α β)
  | and (f g : Logic α β)
  | or (f g : Logic α β)

/-- Truth values for the comparisons and for the checks of a formula, by position. -/
structure Assignment where
  comparison : Nat → Bool
  check : Nat → Bool

namespace Assignment

/-- The assignment behind some comparisons and some checks. -/
def after (t : Assignment) (i j : Nat) : Assignment :=
  ⟨fun n => t.comparison (i + n), fun n => t.check (j + n)⟩

@[simp] theorem after_zero (t : Assignment) : t.after 0 0 = t := by
  simp [after]

@[simp] theorem after_after (t : Assignment) (i j k l : Nat) :
    (t.after i j).after k l = t.after (i + k) (j + l) := by
  simp [after, Nat.add_assoc]

end Assignment

namespace Logic

variable {α β γ δ : Type}

/-- The comparisons of a formula, from left to right. -/
def comparisons : Logic α β → List α
  | comparison a => [a]
  | check _ | const _ => []
  | not f => f.comparisons
  | and f g | or f g => f.comparisons ++ g.comparisons

/-- The existence checks of a formula, from left to right. -/
def checks : Logic α β → List β
  | check b => [b]
  | comparison _ | const _ => []
  | not f => f.checks
  | and f g | or f g => f.checks ++ g.checks

/-- Whether a formula is true when its leaves have the truth values of an assignment. -/
def holds (t : Assignment) : Logic α β → Bool
  | comparison _ => t.comparison 0
  | check _ => t.check 0
  | const value => value
  | not f => !f.holds t
  | and f g => f.holds t && g.holds (t.after f.comparisons.length f.checks.length)
  | or f g => f.holds t || g.holds (t.after f.comparisons.length f.checks.length)

/-- A formula with its leaves replaced. -/
def map (a : α → γ) (b : β → δ) : Logic α β → Logic γ δ
  | comparison x => comparison (a x)
  | check y => check (b y)
  | const value => const value
  | not f => not (f.map a b)
  | and f g => and (f.map a b) (g.map a b)
  | or f g => or (f.map a b) (g.map a b)

/-- A formula with nothing said about its leaves. -/
def shape (f : Logic α β) : Logic Unit Unit := f.map (fun _ => ()) fun _ => ()

/-- A formula under some negations. -/
def negated : Nat → Logic α β → Logic α β
  | 0, f => f
  | n + 1, f => not (negated n f)

/-- The conjunction of some formulas. -/
def all : List (Logic α β) → Logic α β
  | [] => const true
  | [f] => f
  | f :: g :: rest => and f (all (g :: rest))

/-- The disjunction of some formulas. -/
def any : List (Logic α β) → Logic α β
  | [] => const false
  | [f] => f
  | f :: g :: rest => or f (any (g :: rest))

@[simp] theorem negated_zero (f : Logic α β) : negated 0 f = f := rfl

@[simp] theorem negated_succ (n : Nat) (f : Logic α β) : negated (n + 1) f = not (negated n f) :=
  rfl

/-! ## Leaves and truth -/

@[simp] theorem comparisons_map (a : α → γ) (b : β → δ) (f : Logic α β) :
    (f.map a b).comparisons = f.comparisons.map a := by
  induction f <;> simp_all [map, comparisons]

@[simp] theorem checks_map (a : α → γ) (b : β → δ) (f : Logic α β) :
    (f.map a b).checks = f.checks.map b := by
  induction f <;> simp_all [map, checks]

@[simp] theorem holds_map (a : α → γ) (b : β → δ) (f : Logic α β) (t : Assignment) :
    (f.map a b).holds t = f.holds t := by
  induction f generalizing t <;> simp_all [map, holds]

/-- Truth is a matter of the shape of a formula alone. -/
theorem holds_of_shape_eq {f : Logic α β} {g : Logic γ δ} (h : f.shape = g.shape)
    (t : Assignment) : f.holds t = g.holds t := by
  rw [← holds_map (fun _ => ()) (fun _ => ()) f, ← holds_map (fun _ => ()) (fun _ => ()) g]
  exact congrArg (holds t) h

@[simp] theorem comparisons_all (fs : List (Logic α β)) :
    (all fs).comparisons = fs.flatMap comparisons := by
  fun_induction all fs <;> simp_all [comparisons]

@[simp] theorem checks_all (fs : List (Logic α β)) : (all fs).checks = fs.flatMap checks := by
  fun_induction all fs <;> simp_all [checks]

@[simp] theorem comparisons_any (fs : List (Logic α β)) :
    (any fs).comparisons = fs.flatMap comparisons := by
  fun_induction any fs <;> simp_all [comparisons]

@[simp] theorem checks_any (fs : List (Logic α β)) : (any fs).checks = fs.flatMap checks := by
  fun_induction any fs <;> simp_all [checks]

theorem map_all (a : α → γ) (b : β → δ) (fs : List (Logic α β)) :
    (all fs).map a b = all (fs.map (map a b)) := by
  fun_induction all fs <;> simp_all [all, map]

theorem map_any (a : α → γ) (b : β → δ) (fs : List (Logic α β)) :
    (any fs).map a b = any (fs.map (map a b)) := by
  fun_induction any fs <;> simp_all [any, map]

theorem shape_all (fs : List (Logic α β)) : (all fs).shape = all (fs.map shape) :=
  map_all _ _ fs

theorem shape_any (fs : List (Logic α β)) : (any fs).shape = any (fs.map shape) :=
  map_any _ _ fs

/-- A formula without comparisons only looks at the checks. -/
theorem holds_congr_of_comparisons {f : Logic α β} (h : f.comparisons = []) {t t' : Assignment}
    (ht : t.check = t'.check) : f.holds t = f.holds t' := by
  induction f generalizing t t' with
  | comparison a => simp [comparisons] at h
  | check b => simp [holds, ht]
  | const value => rfl
  | not f ih => simp [holds, ih h ht]
  | and f g ihf ihg | or f g ihf ihg =>
    obtain ⟨hf, hg⟩ := List.append_eq_nil_iff.1 h
    have hafter : (t.after f.comparisons.length f.checks.length).check =
        (t'.after f.comparisons.length f.checks.length).check := by simp [Assignment.after, ht]
    simp [holds, ihf hf ht, ihg hg hafter]

/-- A formula without checks only looks at the comparisons. -/
theorem holds_congr_of_checks {f : Logic α β} (h : f.checks = []) {t t' : Assignment}
    (ht : t.comparison = t'.comparison) : f.holds t = f.holds t' := by
  induction f generalizing t t' with
  | comparison a => simp [holds, ht]
  | check b => simp [checks] at h
  | const value => rfl
  | not f ih => simp [holds, ih h ht]
  | and f g ihf ihg | or f g ihf ihg =>
    obtain ⟨hf, hg⟩ := List.append_eq_nil_iff.1 h
    have hafter : (t.after f.comparisons.length f.checks.length).comparison =
        (t'.after f.comparisons.length f.checks.length).comparison := by
      simp [Assignment.after, ht]
    simp [holds, ihf hf ht, ihg hg hafter]

/-! ## Formulas that say the same -/

/-- The same leaves of each kind in the same order, and the same truth. -/
structure Same (f g : Logic α β) : Prop where
  comparisons : f.comparisons = g.comparisons
  checks : f.checks = g.checks
  holds : ∀ t, f.holds t = g.holds t

namespace Same

theorem refl (f : Logic α β) : Same f f := ⟨rfl, rfl, fun _ => rfl⟩

theorem symm {f g : Logic α β} (h : Same f g) : Same g f :=
  ⟨h.comparisons.symm, h.checks.symm, fun t => (h.holds t).symm⟩

theorem trans {f g k : Logic α β} (h : Same f g) (h' : Same g k) : Same f k :=
  ⟨h.comparisons.trans h'.comparisons, h.checks.trans h'.checks,
    fun t => (h.holds t).trans (h'.holds t)⟩

theorem and {f f' g g' : Logic α β} (hf : Same f f') (hg : Same g g') :
    Same (f.and g) (f'.and g') where
  comparisons := by simp [Logic.comparisons, hf.comparisons, hg.comparisons]
  checks := by simp [Logic.checks, hf.checks, hg.checks]
  holds t := by simp [Logic.holds, hf.holds, hg.holds, hf.comparisons, hf.checks]

end Same

theorem same_and_assoc (f g k : Logic α β) : Same ((f.and g).and k) (f.and (g.and k)) where
  comparisons := by simp [comparisons]
  checks := by simp [checks]
  holds t := by simp [holds, comparisons, checks, Bool.and_assoc]

theorem same_true_and (f : Logic α β) : Same ((const true).and f) f :=
  ⟨by simp [comparisons], by simp [checks], fun t => by simp [holds, comparisons, checks]⟩

theorem same_and_true (f : Logic α β) : Same (f.and (const true)) f :=
  ⟨by simp [comparisons], by simp [checks], fun t => by simp [holds]⟩

/-- Comparisons and checks may be written in either order. -/
theorem same_and_comm {f g : Logic α β} (hf : f.checks = []) (hg : g.comparisons = []) :
    Same (f.and g) (g.and f) where
  comparisons := by simp [comparisons, hg]
  checks := by simp [checks, hf]
  holds t := by
    have hg' : g.holds (t.after f.comparisons.length 0) = g.holds t :=
      holds_congr_of_comparisons hg (by simp [Assignment.after])
    have hf' : f.holds (t.after 0 g.checks.length) = f.holds t :=
      holds_congr_of_checks hf (by simp [Assignment.after])
    simp [holds, hf, hg, hf', hg', Bool.and_comm]

theorem same_all_cons (f : Logic α β) (fs : List (Logic α β)) :
    Same (all (f :: fs)) (f.and (all fs)) := by
  cases fs with
  | nil => exact (same_and_true f).symm
  | cons g rest => exact Same.refl _

theorem same_all_append (fs gs : List (Logic α β)) :
    Same (all (fs ++ gs)) ((all fs).and (all gs)) := by
  induction fs with
  | nil => exact (same_true_and _).symm
  | cons f rest ih =>
    refine (same_all_cons f (rest ++ gs)).trans ?_
    refine (Same.and (Same.refl f) ih).trans ?_
    refine (same_and_assoc f (all rest) (all gs)).symm.trans ?_
    exact Same.and (same_all_cons f rest).symm (Same.refl _)

/-- A conjunction of conjunctions is the conjunction of all their parts. -/
theorem same_all_flatMap {ι : Type} (parts : ι → List (Logic α β)) (is : List ι) :
    Same (all (is.flatMap parts)) (all (is.map fun i => all (parts i))) := by
  induction is with
  | nil => exact Same.refl _
  | cons i rest ih =>
    rw [List.flatMap_cons, List.map_cons]
    refine (same_all_append _ _).trans ?_
    exact (Same.and (Same.refl _) ih).trans (same_all_cons _ _).symm

end Logic

end GraphMapper
