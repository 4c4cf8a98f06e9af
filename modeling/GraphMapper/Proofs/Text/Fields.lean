import GraphMapper.Proofs.Text.Hops
import GraphMapper.Proofs.Text.Word

/-!
# Fields and their written form

A field path is read from its written form or not at all: `parse_eq_ok_iff` says
which paths are read (`FieldPath.Readable`), and that each is read from
`FieldPath.text` only.

Not every written path is read again.  The property is cut off at the last
double underscore and the hops are cut apart from the left, so that an
underscore next to a double one may end up on its other side: where a hop with
another behind it ends in an underscore, and where a property behind a double
underscore begins with one.  `addressable_iff` says that nothing else goes
wrong, and `text_shared` that no way of reading would help, for there are
two paths with one written form.
-/

namespace GraphMapper

/-- An identifier without a double underscore. -/
structure IsSimple (name : String) : Prop where
  identifier : Limits.checkIdentifier name = .ok ()
  single : Text.Single name.toList

instance (name : String) : Decidable (IsSimple name) :=
  decidable_of_iff ((Limits.isIdentifier name.toList = true ∧
      name.utf8ByteSize ≤ Limits.maxIdentifier) ∧ Text.Single name.toList) <| by
    rw [← Limits.checkIdentifier_eq_ok_iff]
    exact ⟨fun h => ⟨h.1, h.2⟩, fun h => ⟨h.identifier, h.single⟩⟩

theorem legible_iff {hops : List String} :
    Legible hops ↔ hops ≠ [] ∧ (∀ hop ∈ hops, Text.Single hop.toList) ∧
      ∀ hop ∈ hops.dropLast, hop.toList.getLast? ≠ some '_' := by
  rw [legible_iff_isCut]
  constructor
  · rintro ⟨hne, hsingle, hends⟩
    rw [← List.map_dropLast] at hends
    exact ⟨fun hnil => hne (hnil ▸ rfl), List.forall_mem_map.1 hsingle, fun hop hmem =>
      hends _ (List.mem_map_of_mem hmem)⟩
  · rintro ⟨hne, hsingle, hends⟩
    refine ⟨fun hnil => hne (List.map_eq_nil_iff.1 hnil), List.forall_mem_map.2 hsingle, ?_⟩
    rw [← List.map_dropLast]
    intro part hpart
    obtain ⟨hop, hmem, rfl⟩ := List.mem_map.1 hpart
    exact hends hop hmem

/-- No bar stands in a word. -/
theorem IsWord.bar_notMem {s : String} (h : IsWord s) : '|' ∉ s.toList := by
  intro hbar
  exact absurd (h '|' hbar) (by decide)

namespace FieldPath

variable {text : List Char} {f : FieldPath}

/-! ## Where a field is cut -/

/-- A bar is looked for first, and a double underscore where there is none. -/
theorem split_eq_iff {hopPart : Option (List Char)} {property : List Char}
    {onRelationship : Bool} :
    split text = (hopPart, property, onRelationship) ↔
      match hopPart, onRelationship with
      | some hops, true => Text.splitFirst? '|' text = some (hops, property)
      | some hops, false => Text.splitFirst? '|' text = none ∧
          Text.splitLastDouble? text = some (hops, property)
      | none, true => False
      | none, false => Text.splitFirst? '|' text = none ∧
          Text.splitLastDouble? text = none ∧ text = property := by
  rw [split]
  cases Text.splitFirst? '|' text with
  | some p => cases hopPart <;> cases onRelationship <;> simp [Prod.ext_iff]
  | none =>
    cases Text.splitLastDouble? text <;> cases hopPart <;> cases onRelationship <;>
      simp [Prod.ext_iff]

theorem split_relationship_iff {hops property : List Char} :
    split text = (some hops, property, true) ↔ text = hops ++ '|' :: property ∧ '|' ∉ hops :=
  split_eq_iff.trans Text.splitFirst?_eq_some_iff

theorem split_node_iff {hops property : List Char} :
    split text = (some hops, property, false) ↔ '|' ∉ text ∧
      text = hops ++ '_' :: '_' :: property ∧ Text.Single ('_' :: property) :=
  split_eq_iff.trans (and_congr Text.splitFirst?_eq_none_iff Text.splitLastDouble?_eq_some_iff)

theorem split_root_iff {property : List Char} :
    split text = (none, property, false) ↔ '|' ∉ text ∧ Text.Single text ∧ text = property :=
  split_eq_iff.trans (and_congr Text.splitFirst?_eq_none_iff
    (and_congr_left' Text.splitLastDouble?_eq_none_iff))

/-- The hops that are parsed before a property, if there are any. -/
def parseHops? : Option (List Char) → Except Error (List String)
  | some part => parseHops part
  | none => pure []

/-- What it takes to parse a field that is cut in some way. -/
theorem parse_eq_ok_of_split {hopPart : Option (List Char)} {property : List Char}
    {onRelationship : Bool} (h : split text = (hopPart, property, onRelationship)) :
    parse text = .ok f ↔ parseHops? hopPart = .ok f.hops ∧
      ¬ (onRelationship = true ∧ f.hops = []) ∧ Limits.checkIdentifier f.property = .ok () ∧
      f.property.toList = property ∧ f.onRelationship = onRelationship := by
  have hparse : parse text = (do
      let hops ← parseHops? hopPart
      if onRelationship ∧ hops = [] then
        throw (.invalidFilter (String.ofList text) .noHop)
      requireIdentifier (String.ofList property)
      return ⟨hops, String.ofList property, onRelationship⟩) := by
    rw [parse, h]
    cases hopPart <;> rfl
  rw [hparse]
  constructor
  · intro h
    obtain ⟨hops, hhops, h⟩ := bind_eq_ok.1 h
    obtain ⟨hrelationship, h⟩ := check_eq_ok.1 h
    obtain ⟨_, hproperty, h⟩ := bind_eq_ok.1 h
    obtain rfl := pure_eq_ok.1 h
    exact ⟨hhops, hrelationship, requireIdentifier_eq_ok.1 hproperty, String.toList_ofList, rfl⟩
  · rintro ⟨hhops, hrelationship, hproperty, rfl, rfl⟩
    refine bind_eq_ok.2 ⟨f.hops, hhops, check_eq_ok.2 ⟨hrelationship, ?_⟩⟩
    rw [String.ofList_toList]
    exact bind_eq_ok.2 ⟨(), requireIdentifier_eq_ok.2 hproperty, rfl⟩

/-! ## What is read, and from what -/

theorem text_of_root (h : f.hops = []) : f.text = f.property := if_pos h

theorem toList_text_relationship (hne : f.hops ≠ []) (h : f.onRelationship = true) :
    f.text.toList = (Text.joinDouble f.hops).toList ++ '|' :: f.property.toList := by
  rw [FieldPath.text, if_neg hne, if_pos h, String.toList_append, String.toList_append,
    List.append_assoc]
  rfl

theorem toList_text_node (hne : f.hops ≠ []) (h : f.onRelationship = false) :
    f.text.toList = (Text.joinDouble f.hops).toList ++ '_' :: '_' :: f.property.toList := by
  rw [FieldPath.text, if_neg hne, if_neg (Bool.eq_false_iff.1 h), String.toList_append,
    String.toList_append, List.append_assoc]
  rfl

/-- A field path that is read from its written form. -/
structure Readable (f : FieldPath) : Prop where
  few : f.hops.length ≤ Limits.maxHops
  hops : ∀ hop ∈ f.hops, IsSimple hop
  /-- A hop with another behind it ends in no underscore. -/
  ends : ∀ hop ∈ f.hops.dropLast, hop.toList.getLast? ≠ some '_'
  property : Limits.checkIdentifier f.property = .ok ()
  /-- A property of a relationship has a hop before it. -/
  relationship : f.onRelationship = true → f.hops ≠ []
  /-- A property of a node holds no cut, and does not reach into the one before it. -/
  node : f.onRelationship = false →
    Text.Single f.property.toList ∧ (f.hops ≠ [] → f.property.toList.head? ≠ some '_')

instance (f : FieldPath) : Decidable f.Readable :=
  decidable_of_iff (f.hops.length ≤ Limits.maxHops ∧ (∀ hop ∈ f.hops, IsSimple hop) ∧
      (∀ hop ∈ f.hops.dropLast, hop.toList.getLast? ≠ some '_') ∧
      (Limits.isIdentifier f.property.toList = true ∧
        f.property.utf8ByteSize ≤ Limits.maxIdentifier) ∧
      (f.onRelationship = true → f.hops ≠ []) ∧
      (f.onRelationship = false → Text.Single f.property.toList ∧
        (f.hops ≠ [] → f.property.toList.head? ≠ some '_'))) <| by
    rw [← Limits.checkIdentifier_eq_ok_iff]
    exact ⟨fun ⟨hfew, hhops, hends, hproperty, hrelationship, hnode⟩ =>
      ⟨hfew, hhops, hends, hproperty, hrelationship, hnode⟩,
      fun h => ⟨h.few, h.hops, h.ends, h.property, h.relationship, h.node⟩⟩

theorem readable_iff_of_hops (hne : f.hops ≠ []) :
    f.Readable ↔ parseHops (Text.joinDouble f.hops).toList = .ok f.hops ∧
      Limits.checkIdentifier f.property = .ok () ∧
      (f.onRelationship = false → Text.Single ('_' :: f.property.toList)) := by
  rw [parseHops_eq_ok_iff, legible_iff]
  constructor
  · intro h
    exact ⟨⟨rfl, ⟨hne, fun hop hmem => (h.hops hop hmem).single, h.ends⟩, h.few,
      fun hop hmem => (h.hops hop hmem).identifier⟩, h.property, fun hnode =>
        Text.single_underscore_cons_iff.2 ⟨(h.node hnode).1, (h.node hnode).2 hne⟩⟩
  · rintro ⟨⟨-, ⟨-, hsingle, hends⟩, hfew, hidentifier⟩, hproperty, hnode⟩
    refine ⟨hfew, fun hop hmem => ⟨hidentifier hop hmem, hsingle hop hmem⟩, hends, hproperty,
      fun _ => hne, fun h => ?_⟩
    obtain ⟨hword, hhead⟩ := Text.single_underscore_cons_iff.1 (hnode h)
    exact ⟨hword, fun _ => hhead⟩

theorem readable_iff_of_root (hnil : f.hops = []) :
    f.Readable ↔ Limits.checkIdentifier f.property = .ok () ∧ f.onRelationship = false ∧
      Text.Single f.property.toList := by
  constructor
  · intro h
    have hnode : f.onRelationship = false :=
      Bool.eq_false_iff.2 fun hon => h.relationship hon hnil
    exact ⟨h.property, hnode, (h.node hnode).1⟩
  · rintro ⟨hproperty, hnode, hsingle⟩
    exact ⟨by simp [hnil], by simp [hnil], by simp [hnil], hproperty,
      fun hon => absurd hon (Bool.eq_false_iff.1 hnode), fun _ =>
        ⟨hsingle, fun hne => absurd hnil hne⟩⟩

theorem isWord_of_checkIdentifier {name : String} (h : Limits.checkIdentifier name = .ok ()) :
    IsWord name :=
  (IsName.of_checkIdentifier h).word

theorem Readable.bar_notMem_chain (h : f.Readable) : '|' ∉ (Text.joinDouble f.hops).toList := by
  have hwords : ∀ hop ∈ f.hops, IsWord hop := fun hop hmem =>
    isWord_of_checkIdentifier (h.hops hop hmem).identifier
  exact (IsWord.joinDouble hwords).bar_notMem

theorem Readable.bar_notMem_property (h : f.Readable) : '|' ∉ f.property.toList :=
  (isWord_of_checkIdentifier h.property).bar_notMem

theorem Readable.parse_text (h : f.Readable) : parse f.text.toList = .ok f := by
  have hbar := h.bar_notMem_property
  by_cases hnil : f.hops = []
  · obtain ⟨hproperty, hnode, hsingle⟩ := (readable_iff_of_root hnil).1 h
    rw [text_of_root hnil, parse_eq_ok_of_split (split_root_iff.2 ⟨hbar, hsingle, rfl⟩), hnil]
    exact ⟨rfl, by simp, hproperty, rfl, hnode⟩
  · obtain ⟨hhops, hproperty, hsingle⟩ := (readable_iff_of_hops hnil).1 h
    have hchain := h.bar_notMem_chain
    cases hon : f.onRelationship with
    | true =>
      rw [toList_text_relationship hnil hon,
        parse_eq_ok_of_split (split_relationship_iff.2 ⟨rfl, hchain⟩)]
      exact ⟨hhops, fun hroot => hnil hroot.2, hproperty, rfl, hon⟩
    | false =>
      have hnode : '|' ∉ (Text.joinDouble f.hops).toList ++ '_' :: '_' :: f.property.toList := by
        simp [hchain, hbar]
      rw [toList_text_node hnil hon,
        parse_eq_ok_of_split (split_node_iff.2 ⟨hnode, rfl, hsingle hon⟩)]
      exact ⟨hhops, by simp, hproperty, rfl, hon⟩

theorem readable_of_parse (h : parse text = .ok f) : f.Readable ∧ f.text.toList = text := by
  rcases hsplit : split text with ⟨hopPart, property, onRelationship⟩
  obtain ⟨hhops, hrelationship, hproperty, rfl, rfl⟩ := (parse_eq_ok_of_split hsplit).1 h
  cases hopPart with
  | none =>
    have hnil : f.hops = [] := (pure_eq_ok.1 hhops).symm
    have hnode : f.onRelationship = false :=
      Bool.eq_false_iff.2 fun hon => hrelationship ⟨hon, hnil⟩
    rw [hnode] at hsplit
    obtain ⟨-, hsingle, rfl⟩ := split_root_iff.1 hsplit
    exact ⟨(readable_iff_of_root hnil).2 ⟨hproperty, hnode, hsingle⟩, by rw [text_of_root hnil]⟩
  | some part =>
    obtain ⟨rfl, hlegible, -⟩ := parseHops_eq_ok_iff.1 hhops
    have hne : f.hops ≠ [] := hlegible.ne_nil
    cases hon : f.onRelationship with
    | true =>
      rw [hon] at hsplit
      obtain ⟨rfl, -⟩ := split_relationship_iff.1 hsplit
      exact ⟨(readable_iff_of_hops hne).2 ⟨hhops, hproperty, by simp [hon]⟩,
        toList_text_relationship hne hon⟩
    | false =>
      rw [hon] at hsplit
      obtain ⟨-, rfl, hsingle⟩ := split_node_iff.1 hsplit
      exact ⟨(readable_iff_of_hops hne).2 ⟨hhops, hproperty, fun _ => hsingle⟩,
        toList_text_node hne hon⟩

/-- A field path is parsed from its written form and from nothing else, and only if it is
readable. -/
theorem parse_eq_ok_iff : parse text = .ok f ↔ f.Readable ∧ f.text.toList = text := by
  refine ⟨readable_of_parse, ?_⟩
  rintro ⟨h, rfl⟩
  exact h.parse_text

/-- The hops of a parsed field are parsed from their chain. -/
theorem parseHops_of_parse (h : parse text = .ok f) (hne : f.hops ≠ []) :
    parseHops (Text.joinDouble f.hops).toList = .ok f.hops :=
  ((readable_iff_of_hops hne).1 (readable_of_parse h).1).1

theorem legible_of_parse (h : parse text = .ok f) (hne : f.hops ≠ []) : Legible f.hops :=
  legible_of_parseHops (parseHops_of_parse h hne)

/-! ## Written paths that are read again -/

/-- A chain of hops with a property behind it is read as what it was written for, unless an
underscore next to a double one belongs on the side where it is not looked for. -/
theorem addressable_iff (hne : f.hops ≠ []) (hfew : f.hops.length ≤ Limits.maxHops)
    (hhops : ∀ hop ∈ f.hops, IsSimple hop) (hproperty : IsSimple f.property) :
    f.text = Text.joinDouble f.hops ++ (if f.onRelationship then "|" else "__") ++ f.property ∧
      (parse f.text.toList = .ok f ↔
        (∀ hop ∈ f.hops.dropLast, hop.toList.getLast? ≠ some '_') ∧
          (f.onRelationship = false → f.property.toList.head? ≠ some '_')) := by
  constructor
  · rw [FieldPath.text, if_neg hne]
    split <;> rfl
  · rw [parse_eq_ok_iff, and_iff_left rfl]
    constructor
    · exact fun h => ⟨h.ends, fun hnode => (h.node hnode).2 hne⟩
    · rintro ⟨hends, hhead⟩
      exact ⟨hfew, hhops, hends, hproperty.identifier, fun _ => hne,
        fun hnode => ⟨hproperty.single, fun _ => hhead hnode⟩⟩

end FieldPath

namespace Sample

/-- The postal code of the town that a home is in. -/
def townCode : FieldPath := ⟨["_home", "town_"], "zip_code", false⟩

end Sample

theorem FieldPath.addressable_iff_townCode :
    Sample.townCode.hops ≠ [] ∧ Sample.townCode.hops.length ≤ Limits.maxHops ∧
      (∀ hop ∈ Sample.townCode.hops, IsSimple hop) ∧ IsSimple Sample.townCode.property ∧
      Sample.townCode.text = "_home__town___zip_code" ∧
      parse "_home__town___zip_code".toList = .ok Sample.townCode := by
  have hne : Sample.townCode.hops ≠ [] := by decide
  have hfew : Sample.townCode.hops.length ≤ Limits.maxHops := by decide
  have hhops : ∀ hop ∈ Sample.townCode.hops, IsSimple hop := by decide +kernel
  have hproperty : IsSimple Sample.townCode.property := by decide +kernel
  obtain ⟨htext, hread⟩ := addressable_iff hne hfew hhops hproperty
  have hwritten : Sample.townCode.text = "_home__town___zip_code" := htext
  refine ⟨hne, hfew, hhops, hproperty, hwritten, ?_⟩
  rw [← hwritten, hread]
  decide +kernel

/-- Two paths may have one written form, and then one of them is not read from it: be it for a
property that begins with an underscore or for a hop that ends in one. -/
theorem FieldPath.text_shared :
    IsSimple "suppliers" ∧ IsSimple "_rank" ∧ IsSimple "made_" ∧ IsSimple "by" ∧ IsSimple "since" ∧
      FieldPath.text ⟨["suppliers"], "_rank", false⟩ = "suppliers___rank" ∧
      FieldPath.text ⟨["suppliers_"], "rank", false⟩ = "suppliers___rank" ∧
      parse "suppliers___rank".toList = .ok ⟨["suppliers_"], "rank", false⟩ ∧
      FieldPath.text ⟨["made_", "by"], "since", true⟩ = "made___by|since" ∧
      FieldPath.text ⟨["made", "_by"], "since", true⟩ = "made___by|since" ∧
      parse "made___by|since".toList = .ok ⟨["made", "_by"], "since", true⟩ :=
  ⟨by decide +kernel, by decide +kernel, by decide +kernel, by decide +kernel, by decide +kernel,
    rfl, rfl, rfl, rfl, rfl, rfl⟩

end GraphMapper
