import Mathlib.Data.List.Nodup
import Mathlib.Data.List.Infix
import GraphMapper.Proofs.Steps
import GraphMapper.Registry.Register

/-!
# Hierarchies of relationship types

The types of one label that extend one another form a forest (`Family`): the
names from the base of a type down to itself are a path in it, and a type
extends the types whose paths are prefixes of its own
(`Family.isSubtypeOf_iff`).  So two types that a third one extends are
themselves comparable.

As long as no registration is refused, the active type is the most derived of
those registered (`Registry.Settled`).  A family that is a chain is registered
in every order, and any other family in none (`Registry.chain_settles`).
-/

namespace GraphMapper

namespace RelationshipType

/-- The names from the base of a type down to the type itself. -/
def descent (t : RelationshipType) : List String := t.ancestors ++ [t.name]

/-- Two types are the same, or one extends the other. -/
def Comparable (t u : RelationshipType) : Prop :=
  t = u ∨ t.isSubtypeOf u.name = true ∨ u.isSubtypeOf t.name = true

/-- A type is among some others, and extends every other one of them. -/
def MostDerived (family : List RelationshipType) (t : RelationshipType) : Prop :=
  t ∈ family ∧ ∀ u ∈ family, u = t ∨ t.isSubtypeOf u.name = true

/-- Relationship types of one label that have names of their own, pass their checks, and are bases
or extend one another. -/
structure Family (label : String) (family : List RelationshipType) : Prop where
  checked : ∀ t ∈ family, checkRelationshipType t = .ok ()
  labels : ∀ t ∈ family, t.relType = label
  names : (family.map RelationshipType.name).Nodup
  derived : ∀ t ∈ family, t.ancestors = [] ∨ ∃ parent ∈ family, t.ancestors = parent.descent

theorem Comparable.symm {t u : RelationshipType} (h : t.Comparable u) : u.Comparable t := by
  rcases h with rfl | h | h
  · exact .inl rfl
  · exact .inr (.inr h)
  · exact .inr (.inl h)

namespace Family

variable {label : String} {family : List RelationshipType} {t u v : RelationshipType}

theorem eq_of_name (h : Family label family) (ht : t ∈ family) (hu : u ∈ family)
    (hname : t.name = u.name) : t = u :=
  List.inj_on_of_nodup_map h.names ht hu hname

/-- An ancestor is the name of a member, whose own path leads there. -/
theorem exists_of_mem_ancestors (h : Family label family) (ht : t ∈ family) {name : String}
    (hname : name ∈ t.ancestors) : ∃ u ∈ family, u.name = name ∧ u.descent <+: t.ancestors := by
  -- The path of a parent is shorter than that of the types that extend it.
  induction hlength : t.ancestors.length using Nat.strong_induction_on generalizing t with
  | _ n ih =>
    rcases h.derived t ht with hbase | ⟨parent, hparent, hancestors⟩
    · rw [hbase] at hname
      cases hname
    · have hleads : parent.ancestors <+: t.ancestors := by
        rw [hancestors]
        exact List.prefix_append _ _
      rw [hancestors, descent, List.mem_append, List.mem_singleton] at hname
      rcases hname with hname | rfl
      · have hshorter : parent.ancestors.length < n := by
          rw [← hlength, hancestors, descent, List.length_append]
          exact Nat.lt_succ_self _
        obtain ⟨u, hu, rfl, hdescent⟩ := ih _ hshorter hparent hname rfl
        exact ⟨u, hu, rfl, hdescent.trans hleads⟩
      · exact ⟨parent, hparent, rfl, hancestors ▸ List.prefix_rfl⟩

/-- A member extends another one whose path its own path goes on from. -/
theorem isSubtypeOf_iff (h : Family label family) (ht : t ∈ family) (hu : u ∈ family) :
    t.isSubtypeOf u.name = true ↔ u.descent <+: t.ancestors := by
  rw [isSubtypeOf, List.contains_iff_mem]
  constructor
  · intro hname
    obtain ⟨u', hu', hsame, hdescent⟩ := h.exists_of_mem_ancestors ht hname
    obtain rfl := h.eq_of_name hu' hu hsame
    exact hdescent
  · intro hdescent
    exact hdescent.subset (by simp [descent])

theorem isSubtypeOf_trans (h : Family label family) (ht : t ∈ family) (hu : u ∈ family)
    (hv : v ∈ family) (htu : t.isSubtypeOf u.name = true) (huv : u.isSubtypeOf v.name = true) :
    t.isSubtypeOf v.name = true := by
  rw [h.isSubtypeOf_iff ht hv]
  rw [h.isSubtypeOf_iff ht hu] at htu
  rw [h.isSubtypeOf_iff hu hv] at huv
  exact huv.trans ((List.prefix_append _ _).trans htu)

/-- Of two paths that go on to a third type, one goes on to the other's end. -/
theorem comparable_of_prefix (h : Family label family) (hu : u ∈ family) (hv : v ∈ family)
    (hleads : u.descent <+: v.descent) : u.Comparable v := by
  rcases List.prefix_concat_iff.1 hleads with hsame | hleads
  · have hname : u.name = v.name := (List.append_inj' hsame rfl).2 |> List.singleton_inj.1
    exact .inl (h.eq_of_name hu hv hname)
  · exact .inr (.inr ((h.isSubtypeOf_iff hv hu).2 hleads))

/-- The types that a type extends are comparable. -/
theorem comparable_of_isSubtypeOf (h : Family label family) (ht : t ∈ family) (hu : u ∈ family)
    (hv : v ∈ family) (htu : t.isSubtypeOf u.name = true) (htv : t.isSubtypeOf v.name = true) :
    u.Comparable v := by
  rw [h.isSubtypeOf_iff ht hu] at htu
  rw [h.isSubtypeOf_iff ht hv] at htv
  rcases List.prefix_or_prefix_of_prefix htu htv with huv | hvu
  · exact h.comparable_of_prefix hu hv huv
  · exact (h.comparable_of_prefix hv hu hvu).symm

/-- The types of which one is the most derived are comparable. -/
theorem comparable_of_mostDerived (h : Family label family) {some : List RelationshipType}
    (hsome : ∀ t ∈ some, t ∈ family) (htop : MostDerived some t) (hu : u ∈ some) (hv : v ∈ some) :
    u.Comparable v := by
  rcases htop.2 u hu with rfl | htu
  · rcases htop.2 v hv with rfl | htv
    · exact .inl rfl
    · exact .inr (.inl htv)
  · rcases htop.2 v hv with rfl | htv
    · exact .inr (.inr htu)
    · exact h.comparable_of_isSubtypeOf (hsome t htop.1) (hsome u hu) (hsome v hv) htu htv

end Family

end RelationshipType

namespace Registry

open RelationshipType

/-- A registry with some relationship types registered in turn, unless one of them is refused. -/
def registerRelationships (r : Registry) (ts : List RelationshipType) : Except Error Registry :=
  ts.foldlM registerRelationship r

/-- Some types have been registered, and the most derived one is active for their label. -/
def Settled (r : Registry) (label : String) (done : List RelationshipType) : Prop :=
  match r.activeFor? label with
  | none => done = []
  | some top => MostDerived done top

/-- An order of some types in which none is refused, and which leaves the most derived one active. -/
def Settles (label : String) (order : List RelationshipType) : Prop :=
  ∃ r, Registry.empty.registerRelationships order = .ok r ∧
    (order ≠ [] → ∃ top, MostDerived order top ∧ r.activeFor? label = some top)

/-- An order of some types in which one is refused, since the active type and the new one are not
comparable. -/
def Clashes (label : String) (order : List RelationshipType) : Prop :=
  ∃ bound ∈ order, ∃ t ∈ order,
    Registry.empty.registerRelationships order =
      .error (.relationshipRedefined label bound.name t.name)

variable {r : Registry} {label : String} {family done order : List RelationshipType}
  {t : RelationshipType}

theorem registerRelationship_eq (ht : checkRelationshipType t = .ok ()) :
    r.registerRelationship t =
      match takeover (r.activeFor? t.relType) t with
      | .replace => .ok { r with
          active := r.active.insert t.relType t, models := r.models.insert t.name t }
      | .keep => .ok { r with models := r.models.insert t.name t }
      | .conflict bound => .error (.relationshipRedefined t.relType bound t.name) := by
  rw [registerRelationship, ht]
  rfl

/-- A type that extends the most derived one takes its place. -/
theorem mostDerived_concat_new (h : Family label family) (hdone : ∀ u ∈ done, u ∈ family)
    (ht : t ∈ family) {top : RelationshipType} (htop : MostDerived done top)
    (hsub : t.isSubtypeOf top.name = true) : MostDerived (done ++ [t]) t := by
  refine ⟨by simp, fun u hu => ?_⟩
  rcases List.mem_append.1 hu with hu | hu
  · rcases htop.2 u hu with rfl | htopu
    · exact .inr hsub
    · exact .inr (h.isSubtypeOf_trans ht (hdone top htop.1) (hdone u hu) hsub htopu)
  · exact .inl (List.mem_singleton.1 hu)

/-- A type that the most derived one extends leaves it in its place. -/
theorem mostDerived_concat_old {top : RelationshipType} (htop : MostDerived done top)
    (hsub : top.isSubtypeOf t.name = true) : MostDerived (done ++ [t]) top := by
  refine ⟨List.mem_append_left _ htop.1, fun u hu => ?_⟩
  rcases List.mem_append.1 hu with hu | hu
  · exact htop.2 u hu
  · exact .inr (List.mem_singleton.1 hu ▸ hsub)

/-- A member joins those registered before it, unless the active one is not comparable to it. -/
theorem registerRelationship_settled (h : Family label family) (hdone : ∀ u ∈ done, u ∈ family)
    (ht : t ∈ family) (hnew : t ∉ done) (hr : r.Settled label done) :
    (∃ r', r.registerRelationship t = .ok r' ∧ r'.Settled label (done ++ [t])) ∨
      ∃ bound ∈ done, ¬ bound.Comparable t ∧
        r.registerRelationship t = .error (.relationshipRedefined label bound.name t.name) := by
  have hlabel := h.labels t ht
  unfold Settled at hr
  rw [registerRelationship_eq (h.checked t ht), hlabel]
  cases hactive : r.activeFor? label with
  | none =>
    rw [hactive] at hr
    subst hr
    refine .inl ⟨_, rfl, ?_⟩
    simp [Settled, activeFor?, MostDerived]
  | some top =>
    rw [hactive] at hr
    have hother : top ≠ t := fun heq => hnew (heq ▸ hr.1)
    have hname : top.name ≠ t.name := fun heq => hother (h.eq_of_name (hdone top hr.1) ht heq)
    simp only [takeover, if_neg hname]
    by_cases hsub : t.isSubtypeOf top.name = true
    · rw [if_pos hsub]
      refine .inl ⟨_, rfl, ?_⟩
      simpa [Settled, activeFor?] using mostDerived_concat_new h hdone ht hr hsub
    · rw [if_neg hsub]
      by_cases hsuper : top.isSubtypeOf t.name = true
      · rw [if_pos hsuper]
        refine .inl ⟨_, rfl, ?_⟩
        have hkept : Registry.activeFor? { r with models := r.models.insert t.name t } label =
            some top := hactive
        rw [Settled, hkept]
        exact mostDerived_concat_old hr hsuper
      · rw [if_neg hsuper]
        refine .inr ⟨top, hr.1, ?_, rfl⟩
        rintro (heq | hsuper' | hsub')
        · exact hother heq
        · exact hsuper hsuper'
        · exact hsub hsub'

/-- Members that are registered in turn leave the most derived of them active, unless one of them
is refused as not comparable to another. -/
theorem registerRelationships_settled (h : Family label family) (horder : ∀ t ∈ order, t ∈ family)
    (hnodup : order.Nodup) :
    (∃ r, Registry.empty.registerRelationships order = .ok r ∧ r.Settled label order) ∨
      ∃ bound ∈ order, ∃ t ∈ order, ¬ bound.Comparable t ∧
        Registry.empty.registerRelationships order =
          .error (.relationshipRedefined label bound.name t.name) := by
  induction order using List.reverseRecOn with
  | nil => exact .inl ⟨_, rfl, rfl⟩
  | append_singleton order t ih =>
    have hbefore : ∀ u ∈ order, u ∈ family := fun u hu => horder u (List.mem_append_left _ hu)
    have hfold : Registry.empty.registerRelationships (order ++ [t]) =
        Registry.empty.registerRelationships order >>= fun r => r.registerRelationship t := by
      simp [registerRelationships]
    obtain ⟨hnodup, _, hnew⟩ := List.nodup_append.1 hnodup
    have hnew : t ∉ order := fun hmem => hnew t hmem t (by simp) rfl
    rw [hfold]
    rcases ih hbefore hnodup with ⟨r, hr, hsettled⟩ | ⟨bound, hbound, u, hu, hclash, herror⟩
    · rw [hr]
      rcases registerRelationship_settled h hbefore (horder t (by simp)) hnew hsettled with
        hjoins | ⟨bound, hbound, hclash, herror⟩
      · exact .inl hjoins
      · exact .inr ⟨bound, List.mem_append_left _ hbound, t, by simp, hclash, herror⟩
    · rw [herror]
      exact .inr ⟨bound, List.mem_append_left _ hbound, u, List.mem_append_left _ hu, hclash, rfl⟩

/-- A family is registered in every order, which leaves the most derived member active for the label,
or every order has a registration that is refused.  It is the first exactly when, of every two
members, one extends the other. -/
theorem chain_settles (h : Family label family) :
    ((∀ order : List RelationshipType, order.Perm family → Settles label order) ∨
      ∀ order : List RelationshipType, order.Perm family → Clashes label order) ∧
    ((∀ order : List RelationshipType, order.Perm family → Settles label order) ↔
      ∀ t ∈ family, ∀ u ∈ family, t.Comparable u) := by
  have hcases (order : List RelationshipType) (horder : order.Perm family) :
      ((∀ t ∈ family, ∀ u ∈ family, t.Comparable u) ∧ Settles label order) ∨
        (¬ (∀ t ∈ family, ∀ u ∈ family, t.Comparable u) ∧ Clashes label order) := by
    have hmem : ∀ t ∈ order, t ∈ family := fun t => horder.mem_iff.1
    have hnodup : order.Nodup := horder.nodup_iff.2 h.names.of_map
    rcases registerRelationships_settled h hmem hnodup with
      ⟨r, hr, hsettled⟩ | ⟨bound, hbound, t, ht, hclash, herror⟩
    · unfold Settled at hsettled
      cases hactive : r.activeFor? label with
      | none =>
        rw [hactive] at hsettled
        subst hsettled
        obtain rfl := List.nil_perm.1 horder
        exact .inl ⟨by simp, r, hr, by simp⟩
      | some top =>
        rw [hactive] at hsettled
        refine .inl ⟨fun t ht u hu => ?_, r, hr, fun _ => ⟨top, hsettled, hactive⟩⟩
        exact h.comparable_of_mostDerived hmem hsettled (horder.mem_iff.2 ht) (horder.mem_iff.2 hu)
    · refine .inr ⟨fun hchain => ?_, bound, hbound, t, ht, herror⟩
      exact hclash (hchain bound (hmem bound hbound) t (hmem t ht))
  by_cases hchain : ∀ t ∈ family, ∀ u ∈ family, t.Comparable u
  · have hsettles : ∀ order : List RelationshipType, order.Perm family → Settles label order :=
      fun order horder => ((hcases order horder).resolve_right fun h => h.1 hchain).2
    exact ⟨.inl hsettles, fun _ => hchain, fun _ => hsettles⟩
  · have hclashes : ∀ order : List RelationshipType, order.Perm family → Clashes label order :=
      fun order horder => ((hcases order horder).resolve_left fun h => hchain h.1).2
    refine ⟨.inr hclashes, fun hsettles => ?_, fun h => absurd h hchain⟩
    obtain ⟨r, hr, _⟩ := hsettles family (.refl _)
    obtain ⟨bound, _, t, _, herror⟩ := hclashes family (.refl _)
    cases hr.symm.trans herror

end Registry

namespace Sample

/-- A kind of supply that others extend. -/
def supply : RelationshipType := .new "Supply" "SUPPLIES"

def express : RelationshipType := (RelationshipType.new "Express" "").extend supply

/-- A kind of supply that extends another kind. -/
def overnight : RelationshipType := (RelationshipType.new "Overnight" "").extend express

/-- A kind of supply that extends the first kind alone. -/
def bulk : RelationshipType := (RelationshipType.new "Bulk" "").extend supply

theorem chained_family : RelationshipType.Family "SUPPLIES" [overnight, supply, express] := by
  refine ⟨?_, by decide, by decide, ?_⟩
  · simp only [List.forall_mem_cons]
    exact ⟨rfl, rfl, rfl, by simp⟩
  · simp only [List.forall_mem_cons]
    exact ⟨.inr ⟨express, by simp, rfl⟩, .inl rfl, .inr ⟨supply, by simp, rfl⟩, by simp⟩

theorem forked_family : RelationshipType.Family "SUPPLIES" [express, bulk, supply] := by
  refine ⟨?_, by decide, by decide, ?_⟩
  · simp only [List.forall_mem_cons]
    exact ⟨rfl, rfl, rfl, by simp⟩
  · simp only [List.forall_mem_cons]
    exact ⟨.inr ⟨supply, by simp, rfl⟩, .inr ⟨supply, by simp, rfl⟩, .inl rfl, by simp⟩

end Sample

theorem Registry.chain_settles_supplies :
    Registry.Settles "SUPPLIES" [Sample.supply, Sample.overnight, Sample.express] ∧
      Registry.Clashes "SUPPLIES" [Sample.supply, Sample.bulk, Sample.express] := by
  have hchain : ∀ t ∈ [Sample.overnight, Sample.supply, Sample.express],
      ∀ u ∈ [Sample.overnight, Sample.supply, Sample.express], t.Comparable u := by
    simp [RelationshipType.Comparable, Sample.overnight, Sample.express, Sample.supply,
      RelationshipType.extend, RelationshipType.new, RelationshipType.isSubtypeOf]
  have hfork : ¬ Sample.express.Comparable Sample.bulk := by
    rintro (hsame | hsub | hsub)
    · exact absurd (congrArg RelationshipType.name hsame) (by decide)
    · exact absurd hsub (by decide)
    · exact absurd hsub (by decide)
  constructor
  · exact (chain_settles Sample.chained_family).2.2 hchain _ (.swap _ _ _)
  · obtain ⟨hall, hiff⟩ := chain_settles Sample.forked_family
    have hreversed : [Sample.supply, Sample.bulk, Sample.express].Perm
        [Sample.express, Sample.bulk, Sample.supply] :=
      List.reverse_perm [Sample.express, Sample.bulk, Sample.supply]
    refine (hall.resolve_left fun hsettles => hfork ?_) _ hreversed
    exact hiff.1 hsettles _ (by simp) _ (by simp)

end GraphMapper
