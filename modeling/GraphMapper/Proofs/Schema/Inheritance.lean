import Mathlib.Data.List.Induction
import Mathlib.Data.List.Nodup
import Mathlib.Logic.Relation
import GraphMapper.Schema.NodeType

/-!
# What a type inherits

A type is built by a sequence of calls, which declare properties and
relationships of its own, add labels and extend parents.  Own declarations are
put last in place of what has their name, and a parent's are added where the
name is free, so the order of a list of declarations depends on the order of the
calls.  What a name stands for does not: it is the last own declaration or, in
want of one, that of the first parent that has the name.

Properties and relationships are declared in the same way, so the run of both
kinds of step is looked at once, for declarations of any type that have names
(`declarations`).
-/

namespace GraphMapper

/-! ## Declarations with names -/

/-- What adds to a list of declarations. -/
inductive DeclarationStep (α : Type) where
  /-- A declaration that is the type's own. -/
  | own (a : α)
  /-- The declarations of a parent. -/
  | parent (as : List α)

namespace DeclarationStep

variable {α : Type}

/-- The own declaration of a step. -/
def own? : DeclarationStep α → Option α
  | own a => some a
  | parent _ => none

/-- The parent's declarations of a step. -/
def parent? : DeclarationStep α → Option (List α)
  | own _ => none
  | parent as => some as

/-- An own declaration takes the place of an earlier one, a parent's are added where no name is
taken. -/
def addTo (name : α → String) (as : List α) : DeclarationStep α → List α
  | own a => as.filter (fun b => name b != name a) ++ [a]
  | parent bs => bs.foldl (fun own b =>
      if (own.find? fun c => name c == name b).isSome then own else own ++ [b]) as

end DeclarationStep

/-- The declarations that some steps add up to. -/
def declarations {α : Type} (name : α → String) (steps : List (DeclarationStep α)) : List α :=
  steps.foldl (DeclarationStep.addTo name) []

namespace DeclarationStep

variable {α : Type} {name : α → String} {as bs : List α} {a : α} {n : String}

theorem addTo_parent_cons (b : α) :
    addTo name as (.parent (b :: bs)) =
      addTo name (if (as.find? fun c => name c == name b).isSome then as else as ++ [b])
        (.parent bs) :=
  rfl

/-- What another name stands for is untouched by an own declaration. -/
theorem find?_addTo_own : (addTo name as (.own a)).find? (fun b => name b == n) =
    if name a = n then some a else as.find? fun b => name b == n := by
  rw [addTo, List.find?_append]
  by_cases hn : name a = n
  · subst hn
    have hnone : ((as.filter fun b => name b != name a).find? fun b => name b == name a) = none :=
      List.find?_eq_none.2 (by simp)
    rw [hnone, Option.none_or, if_pos rfl]
    exact List.find?_cons_of_pos (beq_self_eq_true _)
  · have hsame : ((as.filter fun b => name b != name a).find? fun b => name b == n) =
        as.find? fun b => name b == n := by
      rw [List.find?_filter]
      congr 1
      funext b
      by_cases hb : name b = n
      · simp [hb, Ne.symm hn]
      · simp [hb]
    rw [hsame, if_neg hn, List.find?_cons_of_neg (by simpa using hn), List.find?_nil,
      Option.or_none]

/-- A parent's declaration counts where the name has none so far. -/
theorem find?_addTo_parent : (addTo name as (.parent bs)).find? (fun b => name b == n) =
    (as.find? fun b => name b == n).or (bs.find? fun b => name b == n) := by
  -- Each declaration is looked up among those added before it, so `as` grows as `bs` is run through.
  induction bs generalizing as with
  | nil => exact (Option.or_none).symm
  | cons b rest ih =>
    have hadded : ((if (as.find? fun c => name c == name b).isSome then as else as ++ [b]).find?
          fun c => name c == n) = (as.find? fun c => name c == n).or
            ([b].find? fun c => name c == n) := by
      split
      · next htaken =>
        by_cases hb : name b = n
        · rw [Option.or_of_isSome (hb ▸ htaken)]
        · rw [List.find?_cons_of_neg (by simpa using hb), List.find?_nil, Option.or_none]
      · exact List.find?_append
    rw [addTo_parent_cons, ih, hadded, Option.or_assoc, ← List.find?_append]
    rfl

theorem nodup_concat {as : List α} (h : (as.map name).Nodup) (ha : ∀ b ∈ as, name b ≠ name a) :
    ((as ++ [a]).map name).Nodup := by
  rw [List.map_append, List.map_singleton, List.nodup_append]
  refine ⟨h, List.nodup_singleton _, ?_⟩
  rintro _ hb _ hc rfl
  obtain ⟨b, hb, hname⟩ := List.mem_map.1 hb
  exact ha b hb (hname.trans (List.mem_singleton.1 hc))

theorem nodup_addTo (step : DeclarationStep α) (h : (as.map name).Nodup) :
    ((addTo name as step).map name).Nodup := by
  cases step with
  | own a =>
    refine nodup_concat (h.sublist (List.filter_sublist.map name)) fun b hb => ?_
    simpa using (List.mem_filter.1 hb).2
  | parent bs =>
    induction bs generalizing as with
    | nil => exact h
    | cons b rest ih =>
      rw [addTo_parent_cons]
      refine ih ?_
      split
      · exact h
      · next hfree =>
        refine nodup_concat h fun c hc hname => hfree ?_
        exact List.find?_isSome.2 ⟨c, hc, beq_iff_eq.2 hname⟩

end DeclarationStep

section Declarations

variable {α : Type} {name : α → String}

theorem declarations_concat (steps : List (DeclarationStep α)) (step : DeclarationStep α) :
    declarations name (steps ++ [step]) = step.addTo name (declarations name steps) := by
  rw [declarations, List.foldl_append]
  rfl

/-- No name is declared twice. -/
theorem nodup_declarations (steps : List (DeclarationStep α)) :
    ((declarations name steps).map name).Nodup := by
  induction steps using List.reverseRecOn with
  | nil => exact List.nodup_nil
  | append_singleton steps step ih =>
    rw [declarations_concat]
    exact DeclarationStep.nodup_addTo _ ih

/-- A name stands for its last own declaration or else for that of the first parent with one. -/
theorem find?_declarations (steps : List (DeclarationStep α)) (n : String) :
    (declarations name steps).find? (fun a => name a == n) =
      ((steps.filterMap DeclarationStep.own?).reverse.find? fun a => name a == n).or
        ((steps.filterMap DeclarationStep.parent?).findSome? fun as =>
          as.find? fun a => name a == n) := by
  induction steps using List.reverseRecOn with
  | nil => rfl
  | append_singleton steps step ih =>
    rw [declarations_concat, List.filterMap_append, List.filterMap_append]
    cases step with
    | own a =>
      rw [DeclarationStep.find?_addTo_own, ih]
      by_cases ha : name a = n <;>
        simp [List.filterMap_cons, DeclarationStep.own?, DeclarationStep.parent?, ha]
    | parent as =>
      rw [DeclarationStep.find?_addTo_parent, ih, Option.or_assoc]
      simp [List.filterMap_cons, DeclarationStep.own?, DeclarationStep.parent?,
        List.findSome?_append]

end Declarations

/-! ## Building a type -/

/-- A call on a type that is being built. -/
inductive BuilderCall where
  | withLabel (label : String)
  | withOptionalLabel (label : String)
  | withProperty (p : Property)
  | withRelationship (r : Relationship)
  | extend (parent : NodeType)

namespace BuilderCall

/-- The type after a call. -/
def apply (t : NodeType) : BuilderCall → NodeType
  | withLabel label => t.withLabel label
  | withOptionalLabel label => t.withOptionalLabel label
  | withProperty p => t.withProperty p
  | withRelationship r => t.withRelationship r
  | extend parent => t.extend parent

/-- The property that a call declares. -/
def property? : BuilderCall → Option Property
  | withProperty p => some p
  | _ => none

/-- The relationship that a call declares. -/
def relationship? : BuilderCall → Option Relationship
  | withRelationship r => some r
  | _ => none

/-- The type that a call extends. -/
def parent? : BuilderCall → Option NodeType
  | extend parent => some parent
  | _ => none

/-- What a call adds to the properties. -/
def propertyStep? : BuilderCall → Option (DeclarationStep Property)
  | withProperty p => some (.own p)
  | extend parent => some (.parent parent.properties)
  | _ => none

/-- What a call adds to the relationships. -/
def relationshipStep? : BuilderCall → Option (DeclarationStep Relationship)
  | withRelationship r => some (.own r)
  | extend parent => some (.parent parent.relationships)
  | _ => none

end BuilderCall

namespace NodeType

/-- A type of some name, built by some calls. -/
def build (name : String) (calls : List BuilderCall) : NodeType :=
  calls.foldl BuilderCall.apply (.new name)

variable {name : String} {calls : List BuilderCall}

theorem build_concat (name : String) (calls : List BuilderCall) (call : BuilderCall) :
    build name (calls ++ [call]) = call.apply (build name calls) := by
  rw [build, List.foldl_append]
  rfl

/-- The own properties of a type, as they are declared one after another. -/
def ownProperties (calls : List BuilderCall) : List Property :=
  calls.filterMap BuilderCall.property?

/-- The own relationships of a type, as they are declared one after another. -/
def ownRelationships (calls : List BuilderCall) : List Relationship :=
  calls.filterMap BuilderCall.relationship?

/-- The types that are extended, one after another. -/
def parents (calls : List BuilderCall) : List NodeType := calls.filterMap BuilderCall.parent?

section Kind

variable {α : Type} {key : α → String} {field : NodeType → List α}
  {step? : BuilderCall → Option (DeclarationStep α)} {own? : BuilderCall → Option α}

/-- Declarations of some kind are those of the calls that add to them. -/
theorem declarations_build (hnew : field (.new name) = [])
    (hstep : ∀ t call, field (call.apply t) =
      (step? call).elim (field t) fun step => step.addTo key (field t)) :
    field (build name calls) = declarations key (calls.filterMap step?) := by
  induction calls using List.reverseRecOn with
  | nil => exact hnew
  | append_singleton calls call ih =>
    rw [build_concat, hstep, List.filterMap_append, List.filterMap_cons, List.filterMap_nil, ih]
    cases step? call with
    | none => exact (congrArg _ (List.append_nil _)).symm
    | some step => exact (declarations_concat _ step).symm

/-- The steps of a kind of declaration, told by what a call declares and what it extends. -/
theorem find?_declarations_build (n : String)
    (hown : ∀ call, (step? call).bind DeclarationStep.own? = own? call)
    (hparent : ∀ call, (step? call).bind DeclarationStep.parent? = call.parent?.map field) :
    (declarations key (calls.filterMap step?)).find? (fun a => key a == n) =
      ((calls.filterMap own?).reverse.find? fun a => key a == n).or
        ((parents calls).findSome? fun parent => (field parent).find? fun a => key a == n) := by
  have hfields : (calls.filterMap step?).filterMap DeclarationStep.parent? =
      (parents calls).map field := by
    rw [List.filterMap_filterMap, funext hparent, parents, List.map_filterMap]
  rw [find?_declarations, hfields, List.findSome?_map, List.filterMap_filterMap, funext hown]
  rfl

end Kind

theorem properties_build : (build name calls).properties =
    declarations Property.name (calls.filterMap BuilderCall.propertyStep?) :=
  declarations_build rfl fun _ call => by cases call <;> rfl

theorem relationships_build : (build name calls).relationships =
    declarations Relationship.name (calls.filterMap BuilderCall.relationshipStep?) :=
  declarations_build rfl fun _ call => by cases call <;> rfl

/-- A property's name stands for the last own property of it or else for that of the first parent
with one. -/
theorem property?_build (n : String) : (build name calls).property? n =
    ((ownProperties calls).reverse.find? fun p => p.name == n).or
      ((parents calls).findSome? fun parent => parent.property? n) := by
  rw [property?, Property.find?, properties_build]
  exact find?_declarations_build n (fun call => by cases call <;> rfl)
    fun call => by cases call <;> rfl

theorem relationship?_build (n : String) : (build name calls).relationship? n =
    ((ownRelationships calls).reverse.find? fun r => r.name == n).or
      ((parents calls).findSome? fun parent => parent.relationship? n) := by
  rw [relationship?, Relationship.find?, relationships_build]
  exact find?_declarations_build n (fun call => by cases call <;> rfl)
    fun call => by cases call <;> rfl

/-! ### Labels -/

theorem mem_labels {t : NodeType} {label : String} :
    label ∈ t.labels ↔ label ∈ t.ancestors ∨ label = t.label := by
  rw [labels, LabelSet.mem_ofList, List.mem_append, List.mem_singleton]

theorem mem_ancestors_extend {t parent : NodeType} {label : String} :
    label ∈ (t.extend parent).ancestors ↔ label ∈ t.ancestors ∨ label ∈ parent.labels := by
  simp only [extend, mem_labels, List.mem_append, List.mem_filter, List.mem_singleton,
    Bool.not_eq_true', ← Bool.not_eq_true, List.contains_iff_mem]
  tauto

theorem mem_ancestors_build {label : String} : label ∈ (build name calls).ancestors ↔
    ∃ parent ∈ parents calls, label ∈ parent.labels := by
  induction calls using List.reverseRecOn with
  | nil => exact ⟨nofun, nofun⟩
  | append_singleton calls call ih =>
    have hparents : parents (calls ++ [call]) = parents calls ++ call.parent?.toList := by
      rw [parents, List.filterMap_append]
      cases call <;> rfl
    rw [build_concat, hparents]
    cases call with
    | extend parent =>
      rw [BuilderCall.apply, mem_ancestors_extend, ih]
      simp [BuilderCall.parent?, or_and_right, exists_or]
    | withLabel | withOptionalLabel | withProperty | withRelationship =>
      rw [← List.append_nil (parents calls)] at ih
      exact ih

/-- A type carries its own label and those of the types that it extends. -/
theorem mem_labels_build {label : String} : label ∈ (build name calls).labels ↔
    (∃ parent ∈ parents calls, label ∈ parent.labels) ∨ label = (build name calls).label := by
  rw [mem_labels, mem_ancestors_build]

/-- A type extends another if the calls that it is built with do. -/
def Extends (t parent : NodeType) : Prop :=
  ∃ name calls, t = build name calls ∧ parent ∈ parents calls

theorem Extends.labels {t parent : NodeType} (h : Extends t parent) :
    ∀ label ∈ parent.labels, label ∈ t.labels := by
  obtain ⟨name, calls, rfl, hparent⟩ := h
  exact fun label hlabel => mem_labels_build.2 (.inl ⟨parent, hparent, hlabel⟩)

/-- A type carries the labels of every type above it. -/
theorem labels_of_transGen {t ancestor : NodeType} (h : Relation.TransGen Extends t ancestor) :
    ∀ label ∈ ancestor.labels, label ∈ t.labels := by
  induction h with
  | single hextends => exact hextends.labels
  | tail _ hextends ih => exact fun label hlabel => ih label (hextends.labels label hlabel)

/-- However the calls are ordered by which a type is built, no two of its properties and no two of
its relationships have one name; a name stands for the last own declaration or else for that of the
first parent with one; and the type carries its own label and the labels of its parents, and so
those of all types above it. -/
theorem build_inherits (name : String) (calls : List BuilderCall) :
    ((build name calls).properties.map Property.name).Nodup ∧
      ((build name calls).relationships.map Relationship.name).Nodup ∧
      (∀ n, (build name calls).property? n =
        ((ownProperties calls).reverse.find? fun p => p.name == n).or
          ((parents calls).findSome? fun parent => parent.property? n)) ∧
      (∀ n, (build name calls).relationship? n =
        ((ownRelationships calls).reverse.find? fun r => r.name == n).or
          ((parents calls).findSome? fun parent => parent.relationship? n)) ∧
      (∀ label, label ∈ (build name calls).labels ↔
        (∃ parent ∈ parents calls, label ∈ parent.labels) ∨ label = (build name calls).label) ∧
      ∀ ancestor, Relation.TransGen Extends (build name calls) ancestor →
        ∀ label ∈ ancestor.labels, label ∈ (build name calls).labels := by
  refine ⟨?_, ?_, property?_build, relationship?_build, fun _ => mem_labels_build,
    fun _ => labels_of_transGen⟩
  · rw [properties_build]
    exact nodup_declarations _
  · rw [relationships_build]
    exact nodup_declarations _

end NodeType

namespace Sample

/-- A property of a codec that nothing else is said about. -/
def plainProperty (name : String) (codec : Codec) : Property :=
  ⟨name, none, codec, false, none, .none, false⟩

/-- Places, with a name. -/
def place : NodeType := .build "Place" [.withProperty (plainProperty "name" (.string none))]

/-- Farms are places, with a size and a harvest in tonnes. -/
def farm : NodeType :=
  .build "Farm" [.withProperty (plainProperty "size" .integer), .extend place,
    .withProperty (plainProperty "harvest" .float)]

/-- Shops are places, with a size in words and an address. -/
def shop : NodeType :=
  .build "Shop" [.extend place, .withProperty (plainProperty "size" (.string none)),
    .withRelationship ⟨"address", ["Address"], "AT", .outgoing, .zeroOrMore, .strict, none⟩]

/-- Farm shops have declarations of their own before, between and after those of the parents. -/
def farmShop : List BuilderCall :=
  [.withProperty (plainProperty "harvest" .boolean), .extend farm,
    .withProperty (plainProperty "name" .json), .extend shop,
    .withProperty (plainProperty "name" .uniqueId)]

end Sample

open Sample (plainProperty place farm shop farmShop)

/-- A farm shop's name is the one declared last, its harvest the one declared before there was a
parent with one, its size the farm's and its address the shop's; and it is a place. -/
theorem NodeType.build_inherits_farmShop :
    (build "FarmShop" farmShop).property? "name" = some (plainProperty "name" .uniqueId) ∧
      (build "FarmShop" farmShop).property? "harvest" = some (plainProperty "harvest" .boolean) ∧
      (build "FarmShop" farmShop).property? "size" = farm.property? "size" ∧
      (build "FarmShop" farmShop).relationship? "address" = shop.relationship? "address" ∧
      Relation.TransGen Extends (build "FarmShop" farmShop) place ∧
      "Place" ∈ (build "FarmShop" farmShop).labels := by
  obtain ⟨_, _, hproperty, hrelationship, _, habove⟩ := build_inherits "FarmShop" farmShop
  have hfarm : Extends (build "FarmShop" farmShop) farm := ⟨_, _, rfl, List.mem_cons_self⟩
  have hplace : Extends farm place := ⟨_, _, rfl, List.mem_cons_self⟩
  refine ⟨hproperty "name", hproperty "harvest", hproperty "size", hrelationship "address",
    .tail (.single hfarm) hplace, habove place (.tail (.single hfarm) hplace) "Place" ?_⟩
  decide +kernel

end GraphMapper
