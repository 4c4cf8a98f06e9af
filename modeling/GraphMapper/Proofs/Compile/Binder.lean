import Mathlib.Data.List.Nodup
import Mathlib.Data.List.Perm.Subperm
import GraphMapper.Compile.Binder
import GraphMapper.Proofs.Text.Word

/-!
# No parameter is bound twice

A hint, an underscore and a number make a name, so one hint gives as many names
as there are numbers, and one of the next few is always free.  A binding
therefore never replaces another: `Adds` says what a run of the compiler does
to the parameters, and nothing of what was bound before is lost.
-/

namespace GraphMapper

theorem Dict.get?_eq_none_iff {α : Type} {d : Dict α} {k : String} :
    d.get? k = none ↔ k ∉ d.keys := by
  have hkeys := Dict.contains_eq_contains_keys d k
  rw [Dict.contains] at hkeys
  rw [← List.contains_iff_mem, ← hkeys]
  cases d.get? k <;> simp

theorem Dict.keys_insert_perm {α : Type} {d : Dict α} {k : String} (h : k ∉ d.keys) (v : α) :
    (d.insert k v).keys.Perm (k :: d.keys) := by
  induction d with
  | nil => exact List.Perm.refl _
  | cons e rest ih =>
    obtain ⟨key, value⟩ := e
    have hkey : key ≠ k := fun heq => h (heq ▸ List.mem_cons_self)
    have hrest : k ∉ keys rest := fun hmem => h (List.mem_cons_of_mem key hmem)
    rw [insert]
    by_cases hlt : k < key
    · rw [if_pos hlt]
      exact List.Perm.refl _
    · rw [if_neg hlt, if_neg hkey]
      exact ((ih hrest).cons key).trans (List.Perm.swap k key _)

namespace Binder

theorem paramName_injective (hint : String) : Function.Injective (paramName hint) := by
  intro m n h
  have hrepr : Nat.toDigits 10 m = Nat.toDigits 10 n := by
    have htext := congrArg String.toList ((String.append_right_inj (hint ++ "_")).1 h)
    rwa [Nat.toString_eq_repr, Nat.toString_eq_repr, Nat.toList_repr, Nat.toList_repr] at htext
  rw [← Nat.ofDigitChars_toDigits (n := m) (b := 10) (by decide) (by decide), hrepr,
    Nat.ofDigitChars_toDigits (by decide) (by decide)]

/-- Among one more names than there are parameters, one is free. -/
theorem exists_free (b : Binder) (hint : String) (last : Nat) :
    ∃ i ∈ List.range (b.params.length + 1),
      b.params.contains (paramName hint (last + 1 + i)) = false := by
  by_contra hnone
  have htaken : ∀ i ∈ List.range (b.params.length + 1),
      paramName hint (last + 1 + i) ∈ b.params.keys := by
    intro i hi
    by_contra hfree
    refine hnone ⟨i, hi, ?_⟩
    rw [Dict.contains, Dict.get?_eq_none_iff.2 hfree]
    rfl
  have hinjective : Function.Injective fun i => paramName hint (last + 1 + i) := by
    intro i j hij
    exact Nat.add_left_cancel (paramName_injective hint hij)
  have hnodup : ((List.range (b.params.length + 1)).map
      fun i => paramName hint (last + 1 + i)).Nodup :=
    List.Nodup.map hinjective List.nodup_range
  have hsubset : (List.range (b.params.length + 1)).map
      (fun i => paramName hint (last + 1 + i)) ⊆ b.params.keys := by
    intro name hname
    obtain ⟨i, hi, rfl⟩ := List.mem_map.1 hname
    exact htaken i hi
  have hlength := (hnodup.subperm hsubset).length_le
  rw [List.length_map, List.length_range, Dict.keys, List.length_map] at hlength
  exact absurd hlength (by omega)

/-- The number of a binding is the least one above the last that makes a free name. -/
theorem nextNumber_spec (b : Binder) (hint : String) :
    (b.numbers.get? hint).getD 0 < b.nextNumber hint ∧
      b.params.contains (paramName hint (b.nextNumber hint)) = false ∧
      ∀ n, (b.numbers.get? hint).getD 0 < n → n < b.nextNumber hint →
        b.params.contains (paramName hint n) = true := by
  obtain ⟨i, hi, hfree⟩ := b.exists_free hint ((b.numbers.get? hint).getD 0)
  have hsome : ((List.range (b.params.length + 1)).find? fun i =>
      !b.params.contains (paramName hint ((b.numbers.get? hint).getD 0 + 1 + i))).isSome := by
    rw [List.find?_isSome]
    exact ⟨i, hi, by rw [hfree]; rfl⟩
  obtain ⟨j, hj⟩ := Option.isSome_iff_exists.1 hsome
  have hnumber : b.nextNumber hint = (b.numbers.get? hint).getD 0 + 1 + j := by
    simp only [nextNumber, hj, Option.getD_some]
  obtain ⟨hfound, _, hbefore⟩ := List.find?_range_eq_some.1 hj
  rw [hnumber]
  refine ⟨by omega, Bool.not_eq_true' _ ▸ hfound, fun n hlast hn => ?_⟩
  have htaken := hbefore (n - ((b.numbers.get? hint).getD 0 + 1)) (by omega)
  rwa [Nat.add_sub_cancel' hlast, Bool.not_not] at htaken

/-- A binding takes a name that is free. -/
theorem bind_fresh (b : Binder) (hint : String) (v : Value) :
    (b.bind hint v).1 ∉ b.params.keys := by
  have hfree := (b.nextNumber_spec hint).2.1
  rwa [Dict.contains, Option.isSome_eq_false_iff, Option.isNone_iff_eq_none,
    Dict.get?_eq_none_iff] at hfree

/-- A number is chosen by the last one and the names that are taken alone. -/
theorem nextNumber_congr {b b' : Binder} {hint : String}
    (hlast : b'.numbers.get? hint = b.numbers.get? hint)
    (htaken : ∀ n, b'.params.contains (paramName hint n) = b.params.contains (paramName hint n)) :
    b'.nextNumber hint = b.nextNumber hint := by
  obtain ⟨habove, hfree, hleast⟩ := b.nextNumber_spec hint
  obtain ⟨habove', hfree', hleast'⟩ := b'.nextNumber_spec hint
  rw [hlast] at habove' hleast'
  rw [htaken] at hfree'
  rcases Nat.lt_trichotomy (b'.nextNumber hint) (b.nextNumber hint) with hlt | heq | hlt
  · have hcontains := hleast _ habove' hlt
    rw [hfree'] at hcontains
    cases hcontains
  · exact heq
  · have hcontains := hleast' _ habove hlt
    rw [htaken, hfree] at hcontains
    cases hcontains

/-- What a run of the compiler does to the parameters: it adds some, under new names, and keeps
those that are there. -/
structure Adds (b : Binder) (names : List String) (b' : Binder) : Prop where
  keys : b'.params.keys.Perm (b.params.keys ++ names)
  keeps : ∀ name v, b.params.get? name = some v → b'.params.get? name = some v
  nodup : b.params.keys.Nodup → b'.params.keys.Nodup

namespace Adds

theorem refl (b : Binder) : Adds b [] b :=
  ⟨by rw [List.append_nil], fun _ _ h => h, id⟩

theorem trans {b₁ b₂ b₃ : Binder} {names names' : List String} (h : Adds b₁ names b₂)
    (h' : Adds b₂ names' b₃) : Adds b₁ (names ++ names') b₃ where
  keys := by
    rw [← List.append_assoc]
    exact h'.keys.trans (h.keys.append_right names')
  keeps name v hv := h'.keeps name v (h.keeps name v hv)
  nodup hb := h'.nodup (h.nodup hb)

end Adds

/-- A binding adds its name and value. -/
theorem adds_bind (b : Binder) (hint : String) (v : Value) :
    b.Adds [(b.bind hint v).1] (b.bind hint v).2 ∧
      (b.bind hint v).2.params.get? (b.bind hint v).1 = some v := by
  have hfresh := b.bind_fresh hint v
  have hkeys := Dict.keys_insert_perm hfresh v
  refine ⟨⟨?_, ?_, ?_⟩, Dict.get?_insert_self _ _ _⟩
  · exact hkeys.trans (List.perm_append_singleton _ _).symm
  · intro name w hw
    have hname : (b.bind hint v).1 ≠ name := by
      rintro rfl
      rw [Dict.get?_eq_none_iff.2 hfresh] at hw
      cases hw
    exact (Dict.get?_insert _ _ _ _).trans ((if_neg hname).trans hw)
  · intro hnodup
    exact hkeys.nodup_iff.2 (List.nodup_cons.2 ⟨hfresh, hnodup⟩)

theorem isName_bind {b : Binder} {hint : String} (h : IsName hint) (v : Value) :
    IsName (b.bind hint v).1 :=
  (h.append (IsWord.of_isIdentifier rfl)).append (IsWord.of_nat _)

end Binder

end GraphMapper
