import Mathlib.Data.List.Forall2
import Mathlib.Data.List.Nodup
import GraphMapper.Database.Driver

/-!
# Steps that succeed, and steps that fail

What it takes that a sequence of steps succeeds: each of them succeeds, on what
the one before it left.  Steps may only fail, or keep a state as well.  A
sequence fails in some ways only (`Fails`) where each of its steps does.
-/

namespace GraphMapper

/-- Where the keys of items are distinct, looking for the key of an item finds it. -/
theorem find?_key {α κ : Type} [BEq κ] [LawfulBEq κ] {key : α → κ} {as : List α}
    (hdistinct : (as.map key).Nodup) {a : α} (ha : a ∈ as) :
    (as.find? fun b => key b == key a) = some a := by
  have hsome : (as.find? fun b => key b == key a).isSome = true :=
    List.find?_isSome.2 ⟨a, ha, beq_self_eq_true _⟩
  obtain ⟨b, hb⟩ := Option.isSome_iff_exists.1 hsome
  have hkey : key b = key a := by simpa using List.find?_some hb
  rw [hb, List.inj_on_of_nodup_map hdistinct (List.mem_of_find?_eq_some hb) ha hkey]

/-! ## Steps that may fail -/

section Except

variable {ε α β : Type}

theorem bind_eq_ok {x : Except ε α} {f : α → Except ε β} {y : β} :
    (x >>= f) = .ok y ↔ ∃ a, x = .ok a ∧ f a = .ok y := by
  cases x <;> simp [bind, Except.bind]

theorem pure_eq_ok {a y : α} : (pure a : Except ε α) = .ok y ↔ a = y := by
  simp [pure, Except.pure]

theorem map_eq_ok {x : Except ε α} {f : α → β} {y : β} :
    (f <$> x) = .ok y ↔ ∃ a, x = .ok a ∧ f a = y := by
  cases x <;> simp [Functor.map, Except.map]

theorem throw_ne_ok {e : ε} {y : α} : (throw e : Except ε α) ≠ .ok y := by
  simp [throw, throwThe, MonadExceptOf.throw]

theorem throw_bind_ne_ok {e : ε} {f : α → Except ε β} {y : β} :
    ((throw e : Except ε α) >>= f) ≠ .ok y := by
  simp [throw, throwThe, MonadExceptOf.throw, bind, Except.bind]

/-- Steps behind a check succeed where the check lets them through. -/
theorem check_eq_ok {c : Prop} [Decidable c] {e : ε} {f : β → Except ε α} {x : Except ε α} {y : α} :
    (if c then (throw e : Except ε β) >>= f else x) = .ok y ↔ ¬ c ∧ x = .ok y := by
  by_cases h : c
  · simp [h, throw_bind_ne_ok]
  · simp [h]

theorem exists_eq_ok {x : Except ε α} (h : x.isOk = true) : ∃ a, x = .ok a := by
  cases x with
  | error e => cases h
  | ok a => exact ⟨a, rfl⟩

theorem eq_ok_of_toOption {x : Except ε α} {a : α} (h : x.toOption = some a) : x = .ok a := by
  cases x with
  | error e => cases h
  | ok b => exact congrArg Except.ok (Option.some.inj h)

theorem mapError_eq_ok {ε' : Type} {x : Except ε α} {f : ε → ε'} {y : α} :
    x.mapError f = .ok y ↔ x = .ok y := by
  cases x <;> simp [Except.mapError]

theorem lift_eq_ok {x : Except Error α} {y : α} :
    (liftM x : Except Halt α) = .ok y ↔ x = .ok y :=
  mapError_eq_ok

theorem lift_bind_eq_ok {x : Except Error α} {f : α → Except Halt β} {y : β} :
    ((liftM x : Except Halt α) >>= f) = .ok y ↔ ∃ a, x = .ok a ∧ f a = .ok y := by
  simp only [bind_eq_ok, lift_eq_ok]

/-- A successful pass over a list succeeds item by item. -/
theorem forall₂_of_mapM {f : α → Except ε β} {as : List α} {bs : List β}
    (h : as.mapM f = .ok bs) : List.Forall₂ (fun a b => f a = .ok b) as bs := by
  induction as generalizing bs with
  | nil =>
    rw [List.mapM_nil, pure_eq_ok] at h
    subst h
    exact .nil
  | cons a rest ih =>
    rw [List.mapM_cons, bind_eq_ok] at h
    obtain ⟨b, hb, h⟩ := h
    obtain ⟨bs', hbs, h⟩ := bind_eq_ok.1 h
    obtain rfl := pure_eq_ok.1 h
    exact .cons hb (ih hbs)

/-- Every item of a related list is related to some item of the other. -/
theorem exists_of_mem_forall₂ {R : α → β → Prop} {as : List α} {bs : List β}
    (h : List.Forall₂ R as bs) {y : β} (hy : y ∈ bs) : ∃ a ∈ as, R a y := by
  induction h with
  | nil => cases hy
  | @cons a b as bs hab _ ih =>
    rcases List.mem_cons.1 hy with rfl | hy
    · exact ⟨a, List.mem_cons_self, hab⟩
    · obtain ⟨a', ha', hay⟩ := ih hy
      exact ⟨a', List.mem_cons_of_mem a ha', hay⟩

/-- What is found in one of two related lists has its partner in the other. -/
theorem exists_find?_of_forall₂ {R : α → β → Prop} {p : α → Bool} {q : β → Bool} {as : List α}
    {bs : List β} (h : List.Forall₂ R as bs) (hpq : ∀ a b, R a b → p a = q b) {b : β}
    (hb : bs.find? q = some b) : ∃ a, as.find? p = some a ∧ R a b := by
  induction h with
  | nil => cases hb
  | @cons a b' as bs hab _ ih =>
    rw [List.find?_cons] at hb ⊢
    rw [hpq a b' hab]
    cases hq : q b' with
    | true =>
      rw [hq] at hb
      obtain rfl := Option.some.inj hb
      exact ⟨a, rfl, hab⟩
    | false =>
      rw [hq] at hb
      exact ih hb

/-- Functions that agree on the items of a list map it alike. -/
theorem mapM_congr {f g : α → Except ε β} {as : List α} (h : ∀ a ∈ as, f a = g a) :
    as.mapM f = as.mapM g := by
  induction as with
  | nil => rfl
  | cons a rest ih =>
    obtain ⟨hfirst, hrest⟩ := List.forall_mem_cons.1 h
    rw [List.mapM_cons, List.mapM_cons, hfirst, ih hrest]

/-- Functions that agree where one succeeds map lists alike where that one does. -/
theorem mapM_eq_ok_of_imp {f g : α → Except ε β} {as : List α} {bs : List β}
    (hfg : ∀ a b, f a = .ok b → g a = .ok b) (h : as.mapM f = .ok bs) : as.mapM g = .ok bs := by
  induction as generalizing bs with
  | nil => exact h
  | cons a rest ih =>
    rw [List.mapM_cons] at h ⊢
    obtain ⟨b, hb, h⟩ := bind_eq_ok.1 h
    obtain ⟨bs', hbs', h⟩ := bind_eq_ok.1 h
    exact bind_eq_ok.2 ⟨b, hfg a b hb, bind_eq_ok.2 ⟨bs', ih hbs', h⟩⟩

/-- A pass undoes another one if it undoes it item by item. -/
theorem mapM_undo {f : α → Except ε β} {g : β → Except ε α} {as : List α} {bs : List β}
    (hundo : ∀ a ∈ as, ∀ b, f a = .ok b → g b = .ok a) (h : as.mapM f = .ok bs) :
    bs.mapM g = .ok as := by
  induction as generalizing bs with
  | nil =>
    rw [List.mapM_nil, pure_eq_ok] at h
    subst h
    rfl
  | cons a rest ih =>
    obtain ⟨hfirst, hrest⟩ := List.forall_mem_cons.1 hundo
    rw [List.mapM_cons] at h
    obtain ⟨b, hb, h⟩ := bind_eq_ok.1 h
    obtain ⟨bs', hbs', h⟩ := bind_eq_ok.1 h
    obtain rfl := pure_eq_ok.1 h
    rw [List.mapM_cons, hfirst b hb, ih hrest hbs']
    rfl

/-- Every result of a successful pass comes from some item. -/
theorem exists_of_mem_mapM {f : α → Except ε β} {as : List α} {bs : List β}
    (h : as.mapM f = .ok bs) {y : β} (hy : y ∈ bs) : ∃ a ∈ as, f a = .ok y :=
  exists_of_mem_forall₂ (forall₂_of_mapM h) hy

/-- A pass over a list succeeds, or it fails as some item does. -/
theorem mapM_ok_or_error (f : α → Except ε β) (as : List α) :
    (∃ bs, as.mapM f = .ok bs) ∨ ∃ a ∈ as, ∃ e, f a = .error e ∧ as.mapM f = .error e := by
  induction as with
  | nil => exact .inl ⟨[], rfl⟩
  | cons a rest ih =>
    rw [List.mapM_cons]
    cases ha : f a with
    | error e => exact .inr ⟨a, List.mem_cons_self, e, ha, rfl⟩
    | ok b =>
      rcases ih with ⟨bs, hbs⟩ | ⟨a', ha', e, herror, hrest⟩
      · rw [hbs]
        exact .inl ⟨b :: bs, rfl⟩
      · rw [hrest]
        exact .inr ⟨a', List.mem_cons_of_mem a ha', e, herror, rfl⟩

/-- A successful check of a list checks every item. -/
theorem forM_eq_ok {f : α → Except ε Unit} {as : List α} {u : Unit}
    (h : as.forM f = .ok u) : ∀ a ∈ as, f a = .ok () := by
  induction as with
  | nil =>
    intro a ha
    cases ha
  | cons a rest ih =>
    obtain ⟨v, hfirst, hrest⟩ := bind_eq_ok.1 h
    intro a' ha'
    rcases List.mem_cons.1 ha' with rfl | ha'
    · exact hfirst
    · exact ih hrest a' ha'

/-- A check of a list succeeds where it does for every item. -/
theorem forM_eq_ok_of_forall {f : α → Except ε Unit} {as : List α} (h : ∀ a ∈ as, f a = .ok ()) :
    as.forM f = .ok () := by
  induction as with
  | nil => rfl
  | cons a rest ih =>
    obtain ⟨hfirst, hrest⟩ := List.forall_mem_cons.1 h
    exact bind_eq_ok.2 ⟨(), hfirst, ih hrest⟩

/-- In a successful pass along a list every item is passed, from some state. -/
theorem exists_of_foldlM {σ : Type} {f : σ → α → Except ε σ} {as : List α} {s s' : σ}
    (h : as.foldlM f s = .ok s') : ∀ a ∈ as, ∃ t t', f t a = .ok t' := by
  induction as generalizing s with
  | nil =>
    intro a ha
    cases ha
  | cons a rest ih =>
    obtain ⟨t, hfirst, hrest⟩ := bind_eq_ok.1 h
    intro a' ha'
    rcases List.mem_cons.1 ha' with rfl | ha'
    · exact ⟨s, t, hfirst⟩
    · exact ih hrest a' ha'

end Except

/-! ## Steps that fail in some ways only -/

/-- A computation that ends with one of some errors, where it does not succeed. -/
def Fails {ε α : Type} (P : ε → Prop) (x : Except ε α) : Prop := ∀ e, x = .error e → P e

namespace Fails

variable {ε α β σ : Type} {P : ε → Prop} {x : Except ε α} {f : α → Except ε β}

theorem ok (a : α) : Fails P (.ok a : Except ε α) := nofun

theorem error {e : ε} (he : P e) : Fails P (.error e : Except ε α) := fun _ h =>
  Except.error.inj h ▸ he

theorem bind (hx : Fails P x) (hf : ∀ a, x = .ok a → Fails P (f a)) : Fails P (x >>= f) := by
  cases x with
  | ok a => exact hf a rfl
  | error e => exact error (hx e rfl)

theorem mapM {l : List α} (hf : ∀ a ∈ l, Fails P (f a)) : Fails P (l.mapM f) := by
  induction l with
  | nil => exact ok []
  | cons a rest ih =>
    rw [List.mapM_cons]
    refine (hf a List.mem_cons_self).bind fun b _ => ?_
    exact (ih fun a' ha' => hf a' (List.mem_cons_of_mem a ha')).bind fun bs _ => ok (b :: bs)

theorem foldlM {f : σ → α → Except ε σ} {l : List α} {s : σ}
    (hf : ∀ s, ∀ a ∈ l, Fails P (f s a)) : Fails P (l.foldlM f s) := by
  induction l generalizing s with
  | nil => exact ok s
  | cons a rest ih =>
    rw [List.foldlM_cons]
    refine (hf s a List.mem_cons_self).bind fun s' _ => ?_
    exact ih fun s a' ha' => hf s a' (List.mem_cons_of_mem a ha')

theorem forM {g : α → Except ε Unit} {l : List α} (hg : ∀ a, Fails P (g a)) :
    Fails P (l.forM g) := by
  induction l with
  | nil => exact ok ()
  | cons a rest ih => exact (hg a).bind fun _ _ => ih

theorem mapError {ε' : Type} {y : Except ε' α} {g : ε' → ε} (hy : Fails (fun e => P (g e)) y) :
    Fails P (y.mapError g) := by
  cases y with
  | ok a => exact ok a
  | error e => exact error (hy e rfl)

theorem lift {P : Halt → Prop} {y : Except Error α} (hy : Fails (fun e => P (.error e)) y) :
    Fails P (liftM y : Except Halt α) :=
  mapError hy

end Fails

/-! ## Tasks -/

namespace Task

variable {σ α β : Type} {t : Task σ α} {k : α → Task σ β} {s s' : σ}

theorem run_bind_ok {a : α} (h : t.run.run s = (.ok a, s')) :
    (t >>= k).run.run s = (k a).run.run s' := by
  show (t.run >>= ExceptT.bindCont k).run s = _
  rw [StateT.run_bind, h]
  rfl

theorem run_bind_error {e : Error} (h : t.run.run s = (.error e, s')) :
    (t >>= k).run.run s = (.error e, s') := by
  show (t.run >>= ExceptT.bindCont k).run s = _
  rw [StateT.run_bind, h]
  rfl

theorem run_bind_eq_ok {b : β} (h : (t >>= k).run.run s = (.ok b, s')) :
    ∃ a s₁, t.run.run s = (.ok a, s₁) ∧ (k a).run.run s₁ = (.ok b, s') := by
  obtain ⟨result, s₁, ht⟩ : ∃ result s₁, t.run.run s = (result, s₁) := ⟨_, _, rfl⟩
  cases result with
  | error e =>
    rw [run_bind_error ht] at h
    cases h
  | ok a =>
    rw [run_bind_ok ht] at h
    exact ⟨a, s₁, ht, h⟩

theorem run_pure_eq_ok {a b : α} (h : (pure a : Task σ α).run.run s = (.ok b, s')) :
    a = b ∧ s = s' := by
  obtain ⟨hok, hs⟩ := Prod.mk.inj h
  exact ⟨Except.ok.inj hok, hs⟩

theorem run_get_eq_ok {a : σ} (h : (get : Task σ σ).run.run s = (.ok a, s')) : s = a ∧ s = s' := by
  obtain ⟨hok, hs⟩ := Prod.mk.inj h
  exact ⟨Except.ok.inj hok, hs⟩

theorem run_set_eq_ok {a : σ} {u : PUnit} (h : (set a : Task σ PUnit).run.run s = (.ok u, s')) :
    a = s' :=
  (Prod.mk.inj h).2

theorem run_lift_eq_ok {x : Except Error α} {a : α}
    (h : (liftM x : Task σ α).run.run s = (.ok a, s')) : x = .ok a ∧ s = s' := by
  cases x with
  | ok b =>
    obtain ⟨hok, hs⟩ := Prod.mk.inj h
    exact ⟨hok, hs⟩
  | error e => cases (Prod.mk.inj h).1

end Task

end GraphMapper
