import GraphMapper.Proofs.Registry.Hierarchy
import GraphMapper.Proofs.Registry.Built

/-!
# Active relationship types

Two tables hold the relationship types, and a registration that is taken always
changes the one by name, but the one by label only where the new type has the
name of the active one or extends it.  `Registry.Indexed` says what the two have
to do with each other whatever is registered.

The active type extends the other types of its label as long as each active type
hands them on to the next (`Registry.HandsOn`).  A type that is registered again
need not: it takes the place of the earlier one of its name even where it has
given up what that one extended.
-/

namespace GraphMapper

namespace Registry

variable {r r' : Registry} {label name : String} {d t u : RelationshipType}
  {bound? : Option RelationshipType}

theorem takeover_eq_replace_iff :
    takeover bound? t = .replace ↔
      ∀ d, bound? = some d → d.name = t.name ∨ t.isSubtypeOf d.name = true := by
  cases bound? with
  | none => simp [takeover]
  | some d =>
    by_cases hname : d.name = t.name
    · simp [takeover, hname]
    · by_cases hsub : t.isSubtypeOf d.name = true
      · simp [takeover, hname, hsub]
      · by_cases hsuper : d.isSubtypeOf t.name = true <;> simp [takeover, hname, hsub, hsuper]

theorem takeover_eq_keep (h : takeover bound? t = .keep) :
    ∃ d, bound? = some d ∧ d.name ≠ t.name ∧ d.isSubtypeOf t.name = true := by
  cases bound? with
  | none => cases h
  | some d =>
    simp only [takeover] at h
    split at h
    · cases h
    · next hname =>
      split at h
      · cases h
      · split at h
        · next hsuper => exact ⟨d, rfl, hname, hsuper⟩
        · cases h

/-- A type that is registered is found by its name.  It becomes the active one of its label unless
the active one extends it. -/
inductive Takes (r : Registry) (t : RelationshipType) (r' : Registry) : Prop where
  | replaces
    (hlatest : ∀ d, r.activeFor? t.relType = some d →
      d.name = t.name ∨ t.isSubtypeOf d.name = true)
    (hactive : ∀ label, r'.activeFor? label =
      if t.relType = label then some t else r.activeFor? label)
  | keeps (d : RelationshipType) (hbound : r.activeFor? t.relType = some d)
    (hname : d.name ≠ t.name) (hsuper : d.isSubtypeOf t.name = true)
    (hactive : ∀ label, r'.activeFor? label = r.activeFor? label)

theorem registerRelationship_takes (h : r.registerRelationship t = .ok r') :
    r.Takes t r' ∧
      ∀ name, r'.models.get? name = if t.name = name then some t else r.models.get? name := by
  obtain ⟨hcheck, -, -, hmodels⟩ := registerRelationship_eq_ok h
  refine ⟨?_, fun name => by rw [hmodels, Dict.get?_insert]⟩
  rw [registerRelationship_eq hcheck] at h
  cases htakeover : takeover (r.activeFor? t.relType) t with
  | replace =>
    rw [htakeover] at h
    obtain rfl := Except.ok.inj h
    exact .replaces (takeover_eq_replace_iff.1 htakeover) fun label => Dict.get?_insert ..
  | keep =>
    rw [htakeover] at h
    obtain rfl := Except.ok.inj h
    obtain ⟨d, hbound, hname, hsuper⟩ := takeover_eq_keep htakeover
    exact .keeps d hbound hname hsuper fun _ => rfl
  | conflict bound =>
    rw [htakeover] at h
    cases h

/-- What the two tables of relationship types have to do with each other. -/
structure Indexed (r : Registry) : Prop where
  /-- An active type is active for its own label. -/
  label : ∀ label d, r.activeFor? label = some d → d.relType = label
  /-- A type is held by its own name. -/
  named : ∀ name u, r.models.get? name = some u → u.name = name
  /-- The name of an active type leads to it, or to a type of another label. -/
  found : ∀ label d, r.activeFor? label = some d →
    ∃ u, r.models.get? d.name = some u ∧ (u = d ∨ u.relType ≠ label)
  /-- Where there is a type for a label, there is an active one. -/
  bound : ∀ name u, r.models.get? name = some u → ∃ d, r.activeFor? u.relType = some d

theorem indexed_empty : empty.Indexed := ⟨nofun, nofun, nofun, nofun⟩

/-- The name of an active type leads to it or to another label, also after another type has been
registered. -/
theorem Indexed.found_of_insert (h : r.Indexed) (hd : r.activeFor? label = some d)
    (hother : t.relType = label → d.name ≠ t.name)
    (hmodels : ∀ name, r'.models.get? name = if t.name = name then some t else r.models.get? name) :
    ∃ u, r'.models.get? d.name = some u ∧ (u = d ∨ u.relType ≠ label) := by
  rw [hmodels]
  by_cases hname : t.name = d.name
  · exact ⟨t, if_pos hname, .inr fun hlabel => hother hlabel hname.symm⟩
  · rw [if_neg hname]
    exact h.found label d hd

theorem Indexed.registerRelationship (h : r.Indexed)
    (hregister : r.registerRelationship t = .ok r') : r'.Indexed := by
  obtain ⟨htakes, hmodels⟩ := registerRelationship_takes hregister
  have hnamed : ∀ name u, r'.models.get? name = some u → u.name = name := by
    intro name u hu
    rw [hmodels] at hu
    split at hu
    · next hname => rwa [← Option.some.inj hu]
    · exact h.named name u hu
  cases htakes with
  | replaces _ hactive =>
    refine ⟨fun label d hd => ?_, hnamed, fun label d hd => ?_, fun name u hu => ?_⟩
    · rw [hactive] at hd
      split at hd
      · next hlabel => rwa [← Option.some.inj hd]
      · exact h.label label d hd
    · rw [hactive] at hd
      split at hd
      · obtain rfl := Option.some.inj hd
        exact ⟨t, by rw [hmodels, if_pos rfl], .inl rfl⟩
      · next hlabel => exact h.found_of_insert hd (fun hsame => absurd hsame hlabel) hmodels
    · rw [hactive]
      split
      · exact ⟨t, rfl⟩
      · next hlabel =>
        rw [hmodels] at hu
        split at hu
        · exact absurd (congrArg _ (Option.some.inj hu)) hlabel
        · exact h.bound name u hu
  | keeps bound hbound hname _ hactive =>
    refine ⟨fun label d hd => ?_, hnamed, fun label d hd => ?_, fun name u hu => ?_⟩
    · exact h.label label d (hactive label ▸ hd)
    · rw [hactive] at hd
      refine h.found_of_insert hd (fun hlabel => ?_) hmodels
      rw [← hlabel, hbound] at hd
      exact Option.some.inj hd ▸ hname
    · rw [hactive]
      rw [hmodels] at hu
      split at hu
      · exact Option.some.inj hu ▸ ⟨bound, hbound⟩
      · exact h.bound name u hu

/-- The active type of a label extends every other type of the label. -/
def Covers (r : Registry) (label : String) : Prop :=
  ∀ d name u, r.activeFor? label = some d → r.relationshipType name = .ok u → u.relType = label →
    u ≠ d → d.isSubtypeOf u.name = true

/-- A type that becomes active extends the types of the label that the one before it extends. -/
def HandsOn (label : String) (r r' : Registry) : Prop :=
  ∀ d t name u, r.activeFor? label = some d → r'.activeFor? label = some t →
    r.relationshipType name = .ok u → u.relType = label → u.name ≠ t.name →
    d.isSubtypeOf u.name = true → t.isSubtypeOf u.name = true

theorem HandsOn.of_active_eq (h : r'.activeFor? label = r.activeFor? label) :
    HandsOn label r r' := by
  intro d t name u hd ht _ _ _ hextends
  rw [h, hd] at ht
  exact Option.some.inj ht ▸ hextends

/-- A type that has all the ancestors of the active one hands on what that one extends. -/
theorem HandsOn.of_ancestors
    (h : ∀ d t, r.activeFor? label = some d → r'.activeFor? label = some t →
      d.ancestors ⊆ t.ancestors) : HandsOn label r r' := by
  intro d t name u hd ht _ _ _ hextends
  rw [RelationshipType.isSubtypeOf, List.contains_iff_mem] at hextends ⊢
  exact h d t hd ht hextends

/-- A registration keeps the types of a label covered exactly when they are handed on. -/
theorem Covers.registerRelationship_iff (h : r.Indexed) (hcovers : r.Covers label)
    (hregister : r.registerRelationship t = .ok r') : r'.Covers label ↔ HandsOn label r r' := by
  obtain ⟨htakes, hmodels⟩ := registerRelationship_takes hregister
  -- A type that is found now is the new one, or was found before.
  have hfound : ∀ {name u}, r'.relationshipType name = .ok u →
      u = t ∨ r.relationshipType name = .ok u ∧ u.name ≠ t.name := by
    intro name u hu
    rw [relationshipType_eq_ok, hmodels] at hu
    split at hu
    · exact .inl (Option.some.inj hu).symm
    · next hname =>
      exact .inr ⟨relationshipType_eq_ok.2 hu, h.named name u hu ▸ Ne.symm hname⟩
  cases htakes with
  | keeps bound hbound _ hsuper hactive =>
    refine ⟨fun _ => .of_active_eq (hactive label), fun _ d name u hd hu hlabel hne => ?_⟩
    rw [hactive] at hd
    rcases hfound hu with rfl | ⟨hu, -⟩
    · rw [hlabel, hd] at hbound
      exact Option.some.inj hbound ▸ hsuper
    · exact hcovers d name u hd hu hlabel hne
  | replaces hlatest hactive =>
    by_cases hown : t.relType = label
    · have hnew : r'.activeFor? label = some t := by rw [hactive, if_pos hown]
      constructor
      · intro hcovers' d t' name u _ ht' hu hlabel hname _
        rw [hnew] at ht'
        obtain rfl := Option.some.inj ht'
        rw [relationshipType_eq_ok] at hu
        have hsame := h.named name u hu
        have hu' : r'.relationshipType name = .ok u := by
          rw [relationshipType_eq_ok, hmodels, if_neg (hsame ▸ Ne.symm hname), hu]
        exact hcovers' t name u hnew hu' hlabel fun heq => hname (heq ▸ rfl)
      · intro hhands d name u hd hu hlabel hne
        rw [hnew] at hd
        obtain rfl := Option.some.inj hd
        obtain ⟨hu, hname⟩ := (hfound hu).resolve_left hne
        -- The type was found while another one was active.
        obtain ⟨d, hd⟩ := h.bound name u (relationshipType_eq_ok.1 hu)
        rw [hlabel] at hd
        by_cases hsame : u = d
        · exact hsame ▸ (hlatest d (hown ▸ hd)).resolve_left (hsame ▸ hname)
        · exact hhands d t name u hd hnew hu hlabel hname (hcovers d name u hd hu hlabel hsame)
    · have hold : r'.activeFor? label = r.activeFor? label := by rw [hactive, if_neg hown]
      refine ⟨fun _ => .of_active_eq hold, fun _ d name u hd hu hlabel hne => ?_⟩
      rw [hold] at hd
      rcases hfound hu with rfl | ⟨hu, -⟩
      · exact absurd hlabel hown
      · exact hcovers d name u hd hu hlabel hne

/-- A call either registers a relationship type, or leaves all of them as they are. -/
theorem run_task_relationships (r : Registry) (c : RegistryCall) :
    (∃ t, r.registerRelationship t = .ok (c.task.run.run r).2) ∨
      (c.task.run.run r).2.active = r.active ∧ (c.task.run.run r).2.models = r.models := by
  rcases run_task_cases r c with ⟨t, rfl, -, hrun⟩ | ⟨t, r', rfl, hregister, hrun⟩ | ⟨e, hrun⟩
  · rw [hrun]
    exact .inr ⟨rfl, rfl⟩
  · rw [hrun]
    exact .inl ⟨t, hregister⟩
  · rw [hrun]
    exact .inr ⟨rfl, rfl⟩

theorem indexed_after (calls : List RegistryCall) : (after calls).Indexed := by
  induction calls using List.reverseRecOn with
  | nil => exact indexed_empty
  | append_singleton calls c ih =>
    rw [after_concat]
    rcases run_task_relationships (after calls) c with ⟨t, hregister⟩ | ⟨hactive, hmodels⟩
    · exact ih.registerRelationship hregister
    · obtain ⟨hlabel, hnamed, hfound, hbound⟩ := ih
      simp only [activeFor?] at hlabel hfound hbound
      constructor <;> simpa only [activeFor?, hactive, hmodels]

theorem Covers.after_concat_iff {calls : List RegistryCall} (h : (after calls).Covers label)
    (c : RegistryCall) :
    (after (calls ++ [c])).Covers label ↔ HandsOn label (after calls) (after (calls ++ [c])) := by
  rw [after_concat]
  rcases run_task_relationships (after calls) c with ⟨t, hregister⟩ | ⟨hactive, hmodels⟩
  · exact h.registerRelationship_iff (indexed_after calls) hregister
  · have hsame : ((c.task.run.run (after calls)).2).activeFor? label =
        (after calls).activeFor? label := congrArg (Dict.get? · label) hactive
    refine ⟨fun _ => .of_active_eq hsame, fun _ d name u hd hu => ?_⟩
    rw [relationshipType_eq_ok, hmodels] at hu
    exact h d name u (hsame ▸ hd) (relationshipType_eq_ok.2 hu)

/-- Whatever is registered, and whether it is taken or refused, the active type of a label is of
that label, and its name leads to it unless it leads to a type of another label.  In every registry
on the way it extends every other type of the label exactly when, at every call, the type that is
active then extends the types of the label that the one active before extends. -/
theorem active_covers (calls : List RegistryCall) (label : String) :
    (∀ d, (after calls).activeFor? label = some d → d.relType = label ∧
      ∃ u, (after calls).relationshipType d.name = .ok u ∧ (u = d ∨ u.relType ≠ label)) ∧
    ((∀ before, before <+: calls → (after before).Covers label) ↔
      ∀ before c, before ++ [c] <+: calls →
        HandsOn label (after before) (after (before ++ [c]))) := by
  constructor
  · intro d hd
    obtain ⟨u, hu, hfound⟩ := (indexed_after calls).found label d hd
    exact ⟨(indexed_after calls).label label d hd, u, relationshipType_eq_ok.2 hu, hfound⟩
  · constructor
    · intro hcovers before c hprefix
      have hbefore := hcovers before ((List.prefix_append before [c]).trans hprefix)
      exact (hbefore.after_concat_iff c).1 (hcovers _ hprefix)
    · intro hhands before
      induction before using List.reverseRecOn with
      | nil => exact fun _ _ _ _ hd => by cases hd
      | append_singleton before c ih =>
        intro hprefix
        have hbefore := ih ((List.prefix_append before [c]).trans hprefix)
        exact (hbefore.after_concat_iff c).2 (hhands before c hprefix)

end Registry

namespace Sample

/-- A kind of supply and one that extends it, which is then registered as a kind of its own. -/
def rebased : List RegistryCall :=
  [.relationship supply, .relationship express, .relationship (.new "Express" "SUPPLIES")]

/-- A kind of supply whose name is then registered for another label. -/
def moved : List RegistryCall :=
  [.relationship supply, .relationship (.new "Supply" "DELIVERS")]

/-- Kinds of supply, each of which extends those before it. -/
def refined : List RegistryCall :=
  [.relationship supply, .relationship express, .relationship overnight]

end Sample

/-- The active type need not extend the others of its label, and its name may lead to another
one. -/
theorem Registry.active_covers_not_always :
    ¬ (after Sample.rebased).Covers "SUPPLIES" ∧
      ∃ d, (after Sample.moved).activeFor? "SUPPLIES" = some d ∧
        (after Sample.moved).relationshipType d.name ≠ .ok d := by
  refine ⟨fun hcovers => ?_, Sample.supply, rfl, fun hfound => ?_⟩
  · have hextends := hcovers (.new "Express" "SUPPLIES") "Supply" Sample.supply rfl rfl rfl
      fun heq => absurd (congrArg RelationshipType.name heq) (by decide)
    exact absurd hextends (by decide)
  · have hlabel := congrArg RelationshipType.relType (Except.ok.inj hfound)
    exact absurd hlabel (by decide)

theorem Registry.active_covers_refined :
    Sample.overnight.relType = "SUPPLIES" ∧ (after Sample.refined).Covers "SUPPLIES" := by
  have hactive : (after Sample.refined).activeFor? "SUPPLIES" = some Sample.overnight := rfl
  obtain ⟨hheads, hcovers⟩ := active_covers Sample.refined "SUPPLIES"
  refine ⟨(hheads _ hactive).1, hcovers.2 (fun before c hprefix => ?_) _ List.prefix_rfl⟩
  obtain ⟨later, hcalls⟩ := hprefix
  refine HandsOn.of_ancestors fun d t hd ht => ?_
  match before with
  | [] => cases hd
  | [_] =>
    cases hcalls
    cases hd
    exact List.nil_subset _
  | [_, _] =>
    cases hcalls
    cases hd
    cases ht
    decide
  | _ :: _ :: _ :: _ => simp [Sample.refined] at hcalls

end GraphMapper
