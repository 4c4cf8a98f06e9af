import GraphMapper.Proofs.Registry.Tables
import GraphMapper.Proofs.Schema.Inheritance

/-!
# Types as they are built

A type is made from an empty one by declaring properties and extending other
types, and each of these steps keeps the names of its properties distinct.  A
registry holds the types that were registered and no others, so its types are
built when those are.
-/

namespace GraphMapper

namespace Property

/-- No two properties have one name. -/
def Distinct (ps : List Property) : Prop := (ps.map Property.name).Nodup

theorem distinct_nil : Distinct [] := List.nodup_nil

theorem Distinct.declare {ps : List Property} (h : Distinct ps) (p : Property) :
    Distinct (Property.declare ps p) :=
  DeclarationStep.nodup_addTo (.own p) h

theorem Distinct.inherit {ps : List Property} (h : Distinct ps) (parent : List Property) :
    Distinct (Property.inherit ps parent) :=
  DeclarationStep.nodup_addTo (.parent parent) h

end Property

/-- A relationship type is made by declaring properties and extending others, and everything but
its properties may be set. -/
inductive RelationshipType.Built : RelationshipType → Prop where
  | new (name relType : String) : Built (.new name relType)
  | withProperty {t : RelationshipType} (ht : Built t) (p : Property) : Built (t.withProperty p)
  | extend {t parent : RelationshipType} (ht : Built t) (hparent : Built parent) :
    Built (t.extend parent)
  | set {t : RelationshipType} (ht : Built t) (name relType : String) (ancestors : List String) :
    Built { t with name, relType, ancestors }

theorem RelationshipType.Built.distinct {t : RelationshipType} (h : t.Built) :
    Property.Distinct t.properties := by
  induction h with
  | new => exact Property.distinct_nil
  | withProperty _ p ih => exact ih.declare p
  | extend _ _ ih _ => exact ih.inherit _
  | set _ _ _ _ ih => exact ih

/-- A node type is made by adding labels, properties and relationships and extending others, and
its name and labels may be set. -/
inductive NodeType.Built : NodeType → Prop where
  | new (name : String) : Built (.new name)
  | withLabel {t : NodeType} (ht : Built t) (label : String) : Built (t.withLabel label)
  | withOptionalLabel {t : NodeType} (ht : Built t) (label : String) :
    Built (t.withOptionalLabel label)
  | withProperty {t : NodeType} (ht : Built t) (p : Property) : Built (t.withProperty p)
  | withRelationship {t : NodeType} (ht : Built t) (r : Relationship) :
    Built (t.withRelationship r)
  | extend {t parent : NodeType} (ht : Built t) (hparent : Built parent) : Built (t.extend parent)
  | set {t : NodeType} (ht : Built t) (name label : String) (ancestors optionalLabels : List String) :
    Built { t with name, label, ancestors, optionalLabels }

theorem NodeType.Built.distinct {t : NodeType} (h : t.Built) :
    Property.Distinct t.properties := by
  induction h with
  | new => exact Property.distinct_nil
  | withLabel _ _ ih | withOptionalLabel _ _ ih | withRelationship _ _ ih => exact ih
  | set _ _ _ _ _ ih => exact ih
  | withProperty _ p ih => exact ih.declare p
  | extend _ _ ih _ => exact ih.inherit _

/-- What a call registers is a type as it is built. -/
def RegistryCall.Built : RegistryCall → Prop
  | node t => t.Built
  | relationship t => t.Built

namespace Registry

theorem active_of_registerRelationship {r r' : Registry} {t : RelationshipType}
    (h : r.registerRelationship t = .ok r') :
    r'.active = r.active ∨ r'.active = r.active.insert t.relType t := by
  simp only [registerRelationship] at h
  obtain ⟨_, _, h⟩ := bind_eq_ok.1 h
  cases htakeover : takeover (r.activeFor? t.relType) t with
  | replace =>
    rw [htakeover] at h
    exact .inr (pure_eq_ok.1 h ▸ rfl)
  | keep =>
    rw [htakeover] at h
    exact .inl (pure_eq_ok.1 h ▸ rfl)
  | conflict bound =>
    rw [htakeover] at h
    exact absurd h throw_ne_ok

/-- The relationship types of a registry are built. -/
structure HoldsBuilt (r : Registry) : Prop where
  active : ∀ {label t}, r.activeFor? label = some t → t.Built
  models : ∀ {name t}, r.models.get? name = some t → t.Built

theorem holdsBuilt_empty : Registry.empty.HoldsBuilt := ⟨nofun, nofun⟩

theorem HoldsBuilt.run_task {r : Registry} (h : r.HoldsBuilt) {c : RegistryCall} (hc : c.Built) :
    (c.task.run.run r).2.HoldsBuilt := by
  rcases run_task_cases r c with ⟨t, rfl, -, hrun⟩ | ⟨t, r', rfl, hregister, hrun⟩ | ⟨e, hrun⟩
  · rw [hrun]
    exact ⟨h.active, h.models⟩
  · obtain ⟨-, -, -, hmodels⟩ := registerRelationship_eq_ok hregister
    rw [hrun]
    refine ⟨fun {label u} hu => ?_, fun {name u} hu => ?_⟩
    · rcases active_of_registerRelationship hregister with hactive | hactive
      · rw [activeFor?, hactive] at hu
        exact h.active hu
      · rw [activeFor?, hactive, Dict.get?_insert] at hu
        split at hu
        · cases hu
          exact hc
        · exact h.active hu
    · rw [hmodels, Dict.get?_insert] at hu
      split at hu
      · cases hu
        exact hc
      · exact h.models hu
  · rw [hrun]
    exact h

theorem holdsBuilt_after {calls : List RegistryCall} (h : ∀ c ∈ calls, c.Built) :
    (after calls).HoldsBuilt := by
  induction calls using List.reverseRecOn with
  | nil => exact holdsBuilt_empty
  | append_singleton calls c ih =>
    rw [after_concat]
    exact (ih fun c' hc' => h c' (by simp [hc'])).run_task (h c (by simp))

theorem relationshipType_eq_ok {r : Registry} {name : String} {t : RelationshipType} :
    r.relationshipType name = .ok t ↔ r.models.get? name = some t := by
  unfold relationshipType
  cases r.models.get? name <;> simp

/-- Every node type that is taken is built. -/
theorem built_of_mem_taken {calls : List RegistryCall} (h : ∀ c ∈ calls, c.Built) :
    ∀ t ∈ taken calls, t.Built := by
  induction calls using List.reverseRecOn with
  | nil => simp [taken, RegistryCall.steps]
  | append_singleton calls c ih =>
    have hcalls := ih fun c' hc' => h c' (by simp [hc'])
    have hstep (state : Registry × List NodeType) (hstate : ∀ t ∈ state.2, t.Built) :
        ∀ t ∈ (c.step state).2, t.Built := by
      unfold RegistryCall.step
      split
      · intro t ht
        rcases List.mem_append.1 ht with ht | ht
        · cases c with
          | node u =>
            obtain rfl : t = u := by simpa [RegistryCall.node?] using ht
            exact h (.node t) (by simp)
          | relationship u => simp [RegistryCall.node?] at ht
        · exact hstate t ht
      · exact hstate
    rw [taken, RegistryCall.steps, List.foldl_append]
    exact hstep _ hcalls

theorem built_of_nodeType {calls : List RegistryCall} (h : ∀ c ∈ calls, c.Built) {name : String}
    {t : NodeType} (ht : (after calls).nodeType name = .ok t) : t.Built :=
  built_of_mem_taken h t (mem_of_latest? ((holds_after calls).nodeType_eq_ok_iff.1 ht))

end Registry

end GraphMapper
