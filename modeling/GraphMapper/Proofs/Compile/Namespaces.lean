import GraphMapper.Proofs.Compile.Parameters

/-!
# Subqueries keep to their namespaces

A subquery that is spliced into a plan leaves the parameters of the plan as they
are, and adds parameters under its own namespace only
(`QueryPlan.subquery_keeps_parameters`).

A compilation under a namespace binds hints that start with it, and does nothing
else to the binder; what follows from that alone is proved once for all compiling
functions (`Compile.Rules`).  It is used twice.  A run under a namespace leaves
a binder that stands beside the one it began with (`Binder.Besides`): whatever
is new has to do with the namespace.  And from two binders that stand beside each
other, a run under another namespace makes two that still do, with the same names
for the same values.

Names may look like namespaces, so that what is bound before a subquery may
share its hints.  What is bound behind it may not: the later subqueries have other
numbers, and the bounds of a page have other names (`Apart`).
-/

namespace GraphMapper

/-! ## Texts that start apart -/

/-- No text starts with both of two texts. -/
def Apart (s t : String) : Prop := ∀ u v, s ++ u ≠ t ++ v

namespace Apart

variable {s t : String}

theorem append (h : Apart s t) (u v : String) : Apart (s ++ u) (t ++ v) := by
  intro x y heq
  rw [String.append_assoc, String.append_assoc] at heq
  exact h _ _ heq

theorem append_right (h : Apart s t) (v : String) : Apart s (t ++ v) := by
  rw [← String.append_empty (s := s)]
  exact h.append "" v

theorem append_left (h : Apart s t) (u : String) : Apart (s ++ u) t := by
  rw [← String.append_empty (s := t)]
  exact h.append u ""

/-- What texts start with in common does not tell them apart. -/
theorem cons (h : Apart s t) (u : String) : Apart (u ++ s) (u ++ t) := by
  intro x y heq
  rw [String.append_assoc, String.append_assoc] at heq
  exact h _ _ ((String.append_right_inj u).1 heq)

end Apart

/-- A number ends where the underscore behind it stands. -/
theorem apart_numbers {m n : Nat} (h : m ≠ n) : Apart (toString m ++ "_") (toString n ++ "_") := by
  have hdigits (n : Nat) (u : String) :
      ((toString n ++ "_" ++ u).toList.takeWhile Char.isDigit) = (toString n).toList := by
    rw [String.toList_append, String.toList_append, List.append_assoc,
      List.takeWhile_append_of_pos fun c => isDigit_of_mem_toString]
    exact List.append_nil _
  intro u v heq
  have htext := congrArg (fun s : String => s.toList.takeWhile Char.isDigit) heq
  simp only [hdigits] at htext
  refine h (Binder.paramName_injective "" ?_)
  unfold Binder.paramName
  rw [String.toList_inj.1 htext]

theorem subspace_eq (space : String) (n : Nat) :
    subspace space n = space ++ ("sq" ++ toString n ++ "_") := by
  simp only [subspace, String.append_assoc]

theorem apart_subspace {m n : Nat} (h : m ≠ n) (space : String) :
    Apart (subspace space m) (subspace space n) := by
  rw [subspace_eq, subspace_eq, String.append_assoc, String.append_assoc]
  exact ((apart_numbers h).cons "sq").cons space

/-- No bound of a page has a name that starts like a subquery. -/
theorem apart_page {hint : String} (h : hint = "skip" ∨ hint = "limit") (space : String) (n : Nat) :
    Apart (subspace space n) (space ++ hint) := by
  rw [subspace_eq, String.append_assoc]
  refine Apart.cons (fun u v heq => ?_) space
  have htext := congrArg String.toList heq
  rcases h with rfl | rfl <;> simp [String.toList_append] at htext

/-! ## Binders -/

namespace Binder

/-- A binder that stands beside another: it holds what the other one holds, and besides that
parameters of a namespace only; hints that start apart from the namespace have the same numbers. -/
structure Besides (space : String) (b b' : Binder) : Prop where
  keeps : ∀ name v, b.params.get? name = some v → b'.params.get? name = some v
  added : ∀ name v, b'.params.get? name = some v →
    b.params.get? name = some v ∨ ∃ rest, name = space ++ rest
  numbers : ∀ hint, Apart space hint → b'.numbers.get? hint = b.numbers.get? hint

namespace Besides

variable {space : String} {b b' b'' : Binder}

theorem refl (b : Binder) : b.Besides space b :=
  ⟨fun _ _ h => h, fun _ _ h => .inl h, fun _ _ => rfl⟩

theorem trans (h : b.Besides space b') (h' : b'.Besides space b'') : b.Besides space b'' where
  keeps name v hv := h'.keeps name v (h.keeps name v hv)
  added name v hv := (h'.added name v hv).elim (h.added name v) .inr
  numbers hint hhint := (h'.numbers hint hhint).trans (h.numbers hint hhint)

/-- A binding under the namespace. -/
theorem of_bind (b : Binder) (space rest : String) (v : Value) :
    b.Besides space (b.bind (space ++ rest) v).2 where
  keeps := (b.adds_bind (space ++ rest) v).1.keeps
  added name w hw := by
    have hname : (if (b.bind (space ++ rest) v).1 = name then some v else b.params.get? name) =
        some w := (Dict.get?_insert _ _ _ _).symm.trans hw
    split at hname
    · next heq =>
      refine .inr ⟨rest ++ "_" ++ toString (b.nextNumber (space ++ rest)), ?_⟩
      rw [← heq]
      simp only [bind, paramName, String.append_assoc]
    · exact .inl hname
  numbers hint hhint := by
    have hne : space ++ rest ≠ hint := fun heq => hhint rest "" (by rw [heq, String.append_empty])
    exact (Dict.get?_insert _ _ _ _).trans (if_neg hne)

/-- Names that start apart from the namespace are taken in both or in none. -/
theorem get?_eq (h : b.Besides space b') {name : String} (hname : Apart space name) :
    b'.params.get? name = b.params.get? name := by
  cases hv : b.params.get? name with
  | some v => exact h.keeps name v hv
  | none =>
    cases hv' : b'.params.get? name with
    | none => rfl
    | some v =>
      rcases h.added name v hv' with hv'' | ⟨rest, hrest⟩
      · exact hv''.symm.trans hv
      · exact absurd (by rw [hrest, String.append_empty]) (hname rest "")

/-- A binding under a hint that starts apart from the namespace takes the same name. -/
theorem bind (h : b.Besides space b') {hint : String} (hhint : Apart space hint) (v : Value) :
    (b'.bind hint v).1 = (b.bind hint v).1 ∧
      (b.bind hint v).2.Besides space (b'.bind hint v).2 := by
  have hname (n : Nat) : Apart space (paramName hint n) := by
    unfold paramName
    rw [String.append_assoc]
    exact hhint.append_right _
  have hnumber : b'.nextNumber hint = b.nextNumber hint := by
    refine nextNumber_congr (h.numbers hint hhint) fun n => ?_
    rw [Dict.contains, Dict.contains, h.get?_eq (hname n)]
  have hsame : (b'.bind hint v).1 = (b.bind hint v).1 := by
    simp only [Binder.bind, hnumber]
  have hparams (b : Binder) (name : String) : (b.bind hint v).2.params.get? name =
      if (b.bind hint v).1 = name then some v else b.params.get? name := Dict.get?_insert _ _ _ _
  have hnumbers (b : Binder) (other : String) : (b.bind hint v).2.numbers.get? other =
      if hint = other then some (b.nextNumber hint) else b.numbers.get? other :=
    Dict.get?_insert _ _ _ _
  refine ⟨hsame, fun name w => ?_, fun name w => ?_, fun other hother => ?_⟩
  · rw [hparams, hparams, hsame]
    split
    · exact id
    · exact h.keeps name w
  · rw [hparams, hparams, hsame]
    split
    · exact .inl
    · exact h.added name w
  · rw [hnumbers, hnumbers, hnumber, h.numbers other hother]

end Besides

end Binder

/-! ## Compilations under a namespace -/

/-- A property of compilations that comes of what they are put together from, if they bind hints of
a namespace only. -/
structure Compile.Rules (space : String) (R : ∀ α : Type, Compile α → Prop) : Prop where
  lift {α : Type} (x : Except Halt α) : R α (liftM x)
  bind {α β : Type} {m : Compile α} {f : α → Compile β} (hm : R α m) (hf : ∀ a, R β (f a)) :
    R β (m >>= f)
  bindParam (hint : String) (v : Value) : R String (bindParam (space ++ hint) v)

namespace Compile.Rules

variable {space : String} {R : ∀ α : Type, Compile α → Prop}

theorem pure (h : Rules space R) {α : Type} (a : α) : R α (Pure.pure a) := h.lift (.ok a)

theorem throw (h : Rules space R) {α : Type} (e : Halt) : R α (MonadExcept.throw e) :=
  h.lift (.error e)

theorem liftError (h : Rules space R) {α : Type} (x : Except Error α) : R α (liftM x) :=
  h.lift (liftM x)

/-- A check that may throw, before something else. -/
theorem check (h : Rules space R) {α : Type} {c : Prop} [Decidable c] {e : Halt} {m : Compile α}
    (hm : R α m) : R α (if c then (MonadExcept.throw e : Compile Unit) >>= fun _ => m else m) := by
  split
  · exact h.bind (h.throw e) fun _ => hm
  · exact hm

/-- What starts with a longer namespace starts with a shorter one. -/
theorem append (h : Rules space R) (rest : String) : Rules (space ++ rest) R where
  lift := h.lift
  bind := h.bind
  bindParam hint v := by
    rw [String.append_assoc]
    exact h.bindParam (rest ++ hint) v

theorem compileCondition (h : Rules space R) (scope : Scope) (c : Condition) :
    R _ (GraphMapper.compileCondition scope space c) := by
  unfold GraphMapper.compileCondition
  refine h.bind (h.liftError _) fun _ => h.bind (h.liftError _) fun lowered => ?_
  split
  · exact h.pure _
  · refine h.bind ?_ fun name => h.pure _
    unfold paramHint
    rw [String.append_assoc, String.append_assoc]
    exact h.bindParam _ _

theorem compilePredicate (h : Rules space R) (scope : Scope) (p : Predicate) :
    R _ (GraphMapper.compilePredicate scope space p) := by
  have hall {ps : List Predicate}
      (ih : ∀ p ∈ ps, R _ (GraphMapper.compilePredicate scope space p)) :
      R _ (compilePredicates scope space ps) := by
    induction ps with
    | nil =>
      rw [compilePredicates]
      exact h.pure _
    | cons p rest ihrest =>
      rw [compilePredicates]
      refine h.bind (ih p List.mem_cons_self) fun f => ?_
      exact h.bind (ihrest fun q hq => ih q (List.mem_cons_of_mem p hq)) fun fs => h.pure _
  induction p using Predicate.induction with
  | leaf c =>
    rw [GraphMapper.compilePredicate]
    exact h.compileCondition scope c
  | and parts ih | or parts ih =>
    rw [GraphMapper.compilePredicate]
    exact h.bind (hall ih) fun fs => h.pure _
  | not p ih =>
    rw [GraphMapper.compilePredicate]
    exact h.bind ih fun f => h.pure _

theorem compileMatch (h : Rules space R) (s : Selection) (scope : Scope) :
    R _ (s.compileMatch scope space) := by
  unfold Selection.compileMatch
  dsimp only
  split
  · exact h.pure _
  · exact h.bind (h.compilePredicate scope _) fun f => h.pure _

theorem compileBound (h : Rules space R) (keyword hint : String) (n? : Option Nat) :
    R _ (Selection.compileBound space keyword hint n?) := by
  unfold Selection.compileBound
  split
  · exact h.pure _
  · split
    · exact h.bind (h.bindParam _ _) fun name => h.pure _
    · exact h.throw _

theorem compilePage (h : Rules space R) (s : Selection) : R _ (s.compilePage space) :=
  h.bind (h.compileBound _ _ _) fun _ => h.bind (h.compileBound _ _ _) fun _ => h.pure _

theorem compileReturn (h : Rules space R) (s : Selection) (scope : Scope)
    (outputs : List Selection.Output) : R _ (s.compileReturn scope space outputs) := by
  unfold Selection.compileReturn
  dsimp only
  split
  · refine h.bind (h.throw _) fun _ => h.check ?_
    exact h.bind (h.liftError _) fun _ => h.bind (h.compilePage s) fun _ => h.pure _
  · refine h.check ?_
    exact h.bind (h.liftError _) fun _ => h.bind (h.compilePage s) fun _ => h.pure _

theorem compileEnding (h : Rules space R) (s : Selection) (scope : Scope) (taken : List String)
    (ending : Ending) : R _ (s.compileEnding scope space taken ending) := by
  cases ending with
  | count => exact h.check (h.bind (h.compilePage s) fun _ => h.pure _)
  | result | handOut =>
    exact h.bind (h.liftError _) fun _ => h.bind (h.compileReturn s scope _) fun _ => h.pure _

theorem compileFront (h : Rules space R) (r : Registry) (s : Selection) (imports : List String) :
    R _ (s.compileFront r space imports) :=
  h.bind (h.lift _) fun scope => h.bind (h.compileMatch s scope) fun _ =>
    h.bind (h.liftError _) fun _ => h.pure _

/-- Subqueries whose plans are compiled by the rules of any namespace are compiled by the rules of
theirs. -/
theorem compileSubqueries_of_plans {r : Registry} {qs : List (Subquery QueryPlan)} {number : Nat}
    (h : ∀ n, number ≤ n → Rules (subspace space n) R)
    (hplans : ∀ q ∈ qs, ∀ space imports ending, Rules space R →
      R _ (GraphMapper.compilePlan r space imports ending q.plan)) (scope : Scope) :
    R _ (compileSubqueries r space number scope qs) := by
  have hnumber := h number (Nat.le_refl number)
  induction qs generalizing number scope with
  | nil =>
    rw [compileSubqueries]
    exact hnumber.pure _
  | cons q rest ih =>
    obtain ⟨plan, returns, imports⟩ := q
    rw [compileSubqueries]
    refine hnumber.bind (hnumber.liftError _) fun _ => ?_
    refine hnumber.bind (hplans _ List.mem_cons_self _ _ _ hnumber) fun _ => ?_
    refine hnumber.bind (hnumber.liftError _) fun scope' => ?_
    have hrest : ∀ n, number + 1 ≤ n → Rules (subspace space n) R :=
      fun n hn => h n (Nat.le_of_succ_le hn)
    exact hnumber.bind (ih hrest (fun q hq => hplans q (List.mem_cons_of_mem _ hq)) scope'
      (hrest _ (Nat.le_refl _))) fun _ => hnumber.pure _

/-- A plan is compiled by the rules of its namespace. -/
theorem compilePlan (h : Rules space R) (r : Registry) (p : QueryPlan) (imports : List String)
    (ending : Ending) : R _ (GraphMapper.compilePlan r space imports ending p) := by
  induction p using QueryPlan.induction generalizing space imports ending with
  | mk s qs ih =>
    have hsubspaces : ∀ n, 1 ≤ n → Rules (subspace space n) R := by
      intro n _
      rw [subspace_eq]
      exact h.append _
    have hplans : ∀ q ∈ qs, ∀ space imports ending, Rules space R →
        R _ (GraphMapper.compilePlan r space imports ending q.plan) :=
      fun q hq _ imports ending h => ih q hq h imports ending
    rw [GraphMapper.compilePlan]
    refine h.bind (h.compileFront r s imports) fun x => ?_
    refine h.bind (compileSubqueries_of_plans hsubspaces hplans x.2) fun y => ?_
    exact h.bind (h.compileEnding s y.2 _ ending) fun _ => h.pure _

/-- Subqueries are compiled by the rules of their namespaces. -/
theorem compileSubqueries {number : Nat} (h : ∀ n, number ≤ n → Rules (subspace space n) R)
    (r : Registry) (scope : Scope) (qs : List (Subquery QueryPlan)) :
    R _ (GraphMapper.compileSubqueries r space number scope qs) :=
  compileSubqueries_of_plans h
    (fun q _ _ imports ending h => h.compilePlan r q.plan imports ending) scope

/-- A run under a namespace adds what has to do with the namespace. -/
theorem besides (space : String) :
    Rules space fun _ m => ∀ b x b', m b = .ok (x, b') → b.Besides space b' where
  lift x b y b' h := by
    obtain ⟨_, rfl⟩ := run_lift_eq_ok.1 h
    exact Binder.Besides.refl b
  bind hm hf b y b' h := by
    obtain ⟨a, b₁, ha, h⟩ := run_bind_eq_ok.1 h
    exact (hm b a b₁ ha).trans (hf a b₁ y b' h)
  bindParam hint v b name b' h := by
    obtain rfl : (b.bind (space ++ hint) v).2 = b' := congrArg Prod.snd (Except.ok.inj h)
    exact Binder.Besides.of_bind b space hint v

/-- From a binder beside another, a run under another namespace takes the same names, and makes
binders that stand beside each other again. -/
theorem beside {ns : String} (hspace : Apart ns space) :
    Rules space fun _ m => ∀ b b' x b₁, b.Besides ns b' → m b = .ok (x, b₁) →
      ∃ b₁', m b' = .ok (x, b₁') ∧ b₁.Besides ns b₁' where
  lift x b b' y b₁ hb h := by
    obtain ⟨hx, rfl⟩ := run_lift_eq_ok.1 h
    exact ⟨b', run_lift_eq_ok.2 ⟨hx, rfl⟩, hb⟩
  bind hm hf b b' y b₂ hb h := by
    obtain ⟨a, b₁, ha, h⟩ := run_bind_eq_ok.1 h
    obtain ⟨b₁', ha', hb₁⟩ := hm b b' a b₁ hb ha
    obtain ⟨b₂', h', hb₂⟩ := hf a b₁ b₁' y b₂ hb₁ h
    exact ⟨b₂', run_bind_eq_ok.2 ⟨a, b₁', ha', h'⟩, hb₂⟩
  bindParam hint v b b' name b₁ hb h := by
    obtain ⟨hname, hbound⟩ := hb.bind (hspace.append_right hint) v
    obtain ⟨rfl, rfl⟩ := Prod.mk.inj (Except.ok.inj h)
    refine ⟨(b'.bind (space ++ hint) v).2, ?_, hbound⟩
    exact congrArg Except.ok (Prod.ext hname rfl)

end Compile.Rules

/-! ## What comes after a subquery -/

theorem Selection.compileBound_eq (space keyword hint : String) (n? : Option Nat) :
    compileBound space keyword hint n? = compileBound (space ++ hint) keyword "" n? := by
  simp only [compileBound, String.append_empty]

/-- The page of a plan is bound beside what its subqueries bind. -/
theorem Binder.Besides.compilePage {s : Selection} {space rest : String} {n : Nat}
    {b b' b₁ b₁' : Binder} {page page' : Cypher.Page}
    (hb : b.Besides (subspace space n ++ rest) b') (h : s.compilePage space b = .ok (page, b₁))
    (h' : s.compilePage space b' = .ok (page', b₁')) :
    b₁.Besides (subspace space n ++ rest) b₁' := by
  have hskip := Compile.Rules.beside ((apart_page (.inl rfl) space n).append_left rest)
  have hlimit := Compile.Rules.beside ((apart_page (.inr rfl) space n).append_left rest)
  have hrun := hskip.bind (hskip.compileBound "SKIP" "" s.pagination.skip?) fun skip? =>
    hskip.bind (hlimit.compileBound "LIMIT" "" s.pagination.limit?) fun limit? =>
      hskip.pure (⟨skip?, limit?⟩ : Cypher.Page)
  simp only [← Selection.compileBound_eq] at hrun
  obtain ⟨b₂, hpage, hb₂⟩ := hrun b b' page b₁ hb h
  obtain ⟨rfl, rfl⟩ := Prod.mk.inj (Except.ok.inj (hpage.symm.trans h'))
  exact hb₂

/-! ## Plans with one more subquery -/

namespace QueryPlan

/-- A plan, and the same plan with one more subquery, in it or in the plan of one of its
subqueries; the positions of the subqueries lead to the new one. -/
inductive Appends : List Nat → QueryPlan → QueryPlan → Prop
  | here {s : Selection} {qs : List (Subquery QueryPlan)} {q : Subquery QueryPlan} :
    Appends [qs.length + 1] (mk s qs) (mk s (qs ++ [q]))
  | inside {s : Selection} {before after : List (Subquery QueryPlan)} {plan plan' : QueryPlan}
    {returns imports : List String} {path : List Nat} (h : Appends path plan plan') :
    Appends ((before.length + 1) :: path) (mk s (before ++ ⟨plan, returns, imports⟩ :: after))
      (mk s (before ++ ⟨plan', returns, imports⟩ :: after))

/-- The namespace of the subquery that some positions lead to. -/
def namespaceAt : List Nat → String
  | [] => ""
  | n :: path => "sq" ++ toString n ++ "_" ++ namespaceAt path

/-- The call that splices a plan in appends it. -/
theorem Appends.of_call {r : Registry} {p inner q : QueryPlan} {returns imports : List String}
    (h : p.call r (.subquery inner returns imports) = .ok q) :
    Appends [p.subqueries.length + 1] p q := by
  obtain ⟨s, qs⟩ := p
  obtain ⟨_, _, rfl⟩ := subquery_eq_ok h
  exact .here

/-- One more subquery adds parameters of its namespace, wherever the plan is spliced in. -/
theorem Appends.besides {r : Registry} {path : List Nat} {p q : QueryPlan}
    (h : Appends path p q) {space : String} {imports : List String} {ending : Ending}
    {b b₁ b₁' : Binder} {x x' : List Cypher.Clause × ResultShape}
    (hrun : compilePlan r space imports ending p b = .ok (x, b₁))
    (hrun' : compilePlan r space imports ending q b = .ok (x', b₁')) :
    b₁.Besides (space ++ namespaceAt path) b₁' := by
  induction h generalizing space imports ending b b₁ b₁' x x' with
  | @here s qs q =>
    obtain ⟨_, _, _, _, _, b₂, _, hfront, hcalls, hlast, _⟩ := compilePlan_eq_ok hrun
    obtain ⟨_, _, _, _, _, _, _, hfront', hcalls', hlast', _⟩ := compilePlan_eq_ok hrun'
    cases hfront.symm.trans hfront'
    obtain ⟨_, _, _, _, hbefore, hnew, _⟩ := compileSubqueries_append_eq_ok hcalls'
    cases hcalls.symm.trans hbefore
    rw [Nat.add_comm] at hnew
    obtain ⟨_, _, _, _, _, _, hplan, _, hnil, _⟩ := compileSubqueries_cons_eq_ok hnew
    obtain ⟨_, _, rfl⟩ := compileSubqueries_nil_eq_ok hnil
    have hb := (Compile.Rules.besides (subspace space (qs.length + 1))).compilePlan r q.plan
      q.imports (.handOut q.returns) b₂ _ _ hplan
    obtain ⟨_, hpage, _⟩ := Selection.takePage_compileEnding hlast
    obtain ⟨_, hpage', _⟩ := Selection.takePage_compileEnding hlast'
    rw [namespaceAt, ← String.append_assoc, ← subspace_eq]
    rw [← String.append_empty (s := subspace space (qs.length + 1))] at hb
    exact hb.compilePage hpage hpage'
  | @inside s before after plan plan' returns imports path _ ih =>
    obtain ⟨_, _, _, _, _, _, _, hfront, hcalls, hlast, _⟩ := compilePlan_eq_ok hrun
    obtain ⟨_, _, _, _, _, _, _, hfront', hcalls', hlast', _⟩ := compilePlan_eq_ok hrun'
    cases hfront.symm.trans hfront'
    obtain ⟨_, _, _, _, hbefore, hcalls, _⟩ := compileSubqueries_append_eq_ok hcalls
    obtain ⟨_, _, _, _, hbefore', hcalls', _⟩ := compileSubqueries_append_eq_ok hcalls'
    cases hbefore.symm.trans hbefore'
    rw [Nat.add_comm] at hcalls hcalls'
    obtain ⟨_, _, _, _, _, _, hplan, htake, hafter, _⟩ := compileSubqueries_cons_eq_ok hcalls
    obtain ⟨_, _, _, _, _, _, hplan', htake', hafter', _⟩ := compileSubqueries_cons_eq_ok hcalls'
    cases htake.symm.trans htake'
    -- The later subqueries have namespaces of their own.
    have hlater (n : Nat) (hn : before.length + 1 + 1 ≤ n) : Compile.Rules (subspace space n) _ :=
      Compile.Rules.beside ((apart_subspace (Nat.ne_of_lt hn) space).append_left (namespaceAt path))
    obtain ⟨_, hrun, hb⟩ := Compile.Rules.compileSubqueries hlater r _ after _ _ _ _
      (ih hplan hplan') hafter
    cases hrun.symm.trans hafter'
    obtain ⟨_, hpage, _⟩ := Selection.takePage_compileEnding hlast
    obtain ⟨_, hpage', _⟩ := Selection.takePage_compileEnding hlast'
    rw [namespaceAt, ← String.append_assoc, ← subspace_eq]
    exact hb.compilePage hpage hpage'

/-- One more subquery, nested to any depth, leaves the parameters of a plan as they are.

Whatever types, properties and storage names are called, a plan's parameters have the same names
and values with the subquery, and the names of all others start with the namespace of the
subquery's position. -/
theorem subquery_keeps_parameters {r : Registry} {path : List Nat} {p q : QueryPlan}
    {ending : Ending} {c c' : CompiledQuery} (h : Appends path p q)
    (hc : p.compileTo r ending = .ok c) (hc' : q.compileTo r ending = .ok c') :
    (∀ name v, c.params.get? name = some v → c'.params.get? name = some v) ∧
      ∀ name v, c'.params.get? name = some v →
        c.params.get? name = some v ∨ ∃ rest, name = namespaceAt path ++ rest := by
  obtain ⟨b, hrun, hparams⟩ := compileTo_eq_ok hc
  obtain ⟨b', hrun', hparams'⟩ := compileTo_eq_ok hc'
  have hb := h.besides hrun hrun'
  rw [String.empty_append] at hb
  rw [hparams, hparams']
  exact ⟨hb.keeps, hb.added⟩

theorem subquery_keeps_parameters_called :
    ∃ (r : Registry) (p inner q : QueryPlan) (c c' : CompiledQuery),
      p.call r (.subquery inner ["found"] []) = .ok q ∧ p.compile r = .ok c ∧
      q.compile r = .ok c' ∧
      (∀ name v, c.params.get? name = some v → c'.params.get? name = some v) ∧
      ∀ name v, c'.params.get? name = some v →
        c.params.get? name = some v ∨
          ∃ rest, name = namespaceAt [p.subqueries.length + 1] ++ rest := by
  have hrun : (do
      let r ← Sample.registered
      let inner₀ ← QueryPlan.new r "Supplier"
      let inner ← inner₀.calls (Sample.counted r)
      let p₀ ← QueryPlan.new r "Coffee"
      let p ← p₀.calls (Sample.valued r)
      let q ← p.call r (.subquery inner ["found"] [])
      let _ ← p.compile r
      q.compile r : Except Halt _).isOk = true := by
    decide +kernel
  obtain ⟨_, hrun⟩ := exists_eq_ok hrun
  obtain ⟨r, _, hrun⟩ := lift_bind_eq_ok.1 hrun
  obtain ⟨inner₀, _, hrun⟩ := lift_bind_eq_ok.1 hrun
  obtain ⟨inner, _, hrun⟩ := lift_bind_eq_ok.1 hrun
  obtain ⟨p₀, _, hrun⟩ := lift_bind_eq_ok.1 hrun
  obtain ⟨p, _, hrun⟩ := lift_bind_eq_ok.1 hrun
  obtain ⟨q, hq, hrun⟩ := lift_bind_eq_ok.1 hrun
  obtain ⟨c, hc, hc'⟩ := bind_eq_ok.1 hrun
  obtain ⟨hkeeps, hadded⟩ := subquery_keeps_parameters (.of_call hq) hc hc'
  exact ⟨r, p, inner, q, c, _, hq, hc, hc', hkeeps, hadded⟩

end QueryPlan

end GraphMapper
