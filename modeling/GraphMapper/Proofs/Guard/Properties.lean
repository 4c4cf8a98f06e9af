import GraphMapper.Proofs.Guard.Atomicity
import GraphMapper.Proofs.Result.Reading

/-!
# Edge properties, read back

What a guarded change stores on an edge is encoded by the relationship type that
the declaration names; what is read from an edge is decoded by the one that is
active for its label.  Where the active type reads the properties that were
given, they come back (`Change.created_edge_reads_back`).

A subtype that takes over a label may declare a property anew, and then it may
not come back (`Change.created_edge_lost`).
-/

namespace GraphMapper

/-! ## What is stored -/

namespace Registry

/-- Properties are created with what their given values are stored as. -/
theorem createdProperties_eq_ok {supplied : Properties} {ids : Identifiers} {position : Nat}
    {ps : List Property} {stored : List (String × Value)}
    (h : createdProperties supplied ids position ps = .ok stored) :
    List.Forall₂ StoredAs (givenValues supplied ids position ps) stored := by
  induction ps generalizing position stored with
  | nil =>
    cases h
    exact .nil
  | cons p rest ih =>
    obtain ⟨w?, hw, h⟩ := bind_eq_ok.1 h
    obtain ⟨others, hothers, h⟩ := bind_eq_ok.1 h
    obtain rfl := pure_eq_ok.1 h
    rw [givenValues]
    rcases Property.createdValue?_eq_ok hw with ⟨hnone, rfl⟩ | ⟨v, w, hsome, hencode, rfl⟩
    · rw [hnone]
      exact ih hothers
    · rw [hsome]
      exact .cons ⟨rfl, hencode⟩ (ih hothers)

section

variable {r : Registry} {ids : Identifiers} {rel : Relationship} {supplied : Properties}
  {stored : List (String × Value)} {name : String} {model : RelationshipType}

/-- The properties of an edge are created by the relationship type that its declaration names. -/
theorem createdProperties_of_edgeProperties (h : r.edgeProperties ids rel supplied = .ok stored)
    (hname : rel.model? = some name) (hmodel : r.relationshipType name = .ok model) :
    createdProperties supplied ids 0 model.properties = .ok stored := by
  rw [edgeProperties, hname] at h
  obtain ⟨model', hmodel', h⟩ := bind_eq_ok.1 h
  obtain rfl : model = model' := Except.ok.inj (hmodel.symm.trans hmodel')
  split at h
  · exact absurd h throw_ne_ok
  · exact h

/-- The properties of an edge are those of the relationship type that its declaration names. -/
theorem edgeProperties_eq_ok (h : r.edgeProperties ids rel supplied = .ok stored)
    (hname : rel.model? = some name) (hmodel : r.relationshipType name = .ok model) :
    List.Forall₂ StoredAs (givenValues supplied ids 0 model.properties) stored :=
  createdProperties_eq_ok (createdProperties_of_edgeProperties h hname hmodel)

end

end Registry

namespace EdgeRequest

theorem propertyParam_injective : Function.Injective propertyParam := fun _ _ h =>
  (String.append_right_inj _).1 h

/-- The parameters of a new edge hold what its pattern assigns. -/
theorem create_assigns (f : IdFunction) (edges : EdgeKind) (source target var : String)
    {stored : List (String × Value)} (hnodup : (stored.map Prod.fst).Nodup) :
    List.Forall₂ (Assigns ((create edges source target stored).params f))
      (edgePattern edges var stored).properties stored := by
  have hparam : ∀ e ∈ stored,
      ((create edges source target stored).params f).get? (propertyParam e.1) = some e.2 := by
    intro e he
    have hkeys : ((stored.map fun p => (propertyParam p.1, p.2)).map Prod.fst).Nodup := by
      rw [List.map_map]
      have hmap := hnodup.map propertyParam_injective
      rwa [List.map_map] at hmap
    have hget := Dict.get?_foldl_insert_of_mem hkeys (List.mem_map_of_mem he)
      (pairParams f source target)
    rwa [List.foldl_map] at hget
  refine List.forall₂_map_left_iff.2 (List.forall₂_same.2 fun e he => ?_)
  exact ⟨rfl, hparam e he⟩

end EdgeRequest

/-! ## What is read -/

namespace Change

variable {g : Guard} {ids : Identifiers} {c : Change}

/-- An edge holds exactly what a change creates it with: some properties of the relationship type
that the declaration names are given values, and what is assigned of them is stored. -/
inductive Creates (g : Guard) (ids : Identifiers) (c : Change) (model : RelationshipType) :
    List (Property × Value) → RawEdge → Prop
  | intro {target : Entity} {supplied : Properties} {rel : Relationship} {name : String}
    {stored properties : List (String × Value)} {edges : EdgeKind} {source other : String}
    {raw : RawEdge} (hcreated : c.created? = some (target, supplied))
    (hprepared : c.prepared g ids = .ok (rel, stored)) (hname : rel.model? = some name)
    (hmodel : g.registry.relationshipType name = .ok model)
    (hwrite : .create edges source other properties ∈ c.writes rel stored)
    (hlabel : raw.relType = edges.relType)
    (hraw : raw.properties = assigned (EdgeRequest.edgePattern edges "r" properties).properties
      ((EdgeRequest.create edges source other properties).params g.settings.idFunction)) :
    Creates g ids c model (givenValues supplied ids 0 model.properties) raw

/-- Every edge that is created by connecting two nodes can be read, and what was supplied for it
comes back, if some condition holds of the values that were given and of the type that is active for
its label. -/
def ReadsConnected (P : List (Property × Value) → RelationshipType → Prop) : Prop :=
  ∀ {calls : List RegistryCall} {g : Guard} {ids : Identifiers} {source target : Entity}
    {name : String} {supplied : Properties} {m m' : Memory} {warnings : List Breach}
    {model active : RelationshipType} {given : List (Property × Value)} {raw : RawEdge},
    (∀ call ∈ calls, call.Built) → g.registry = .after calls →
    ((connect source name target supplied).run g Memory.driver ids).run.run m = (.ok warnings, m') →
    (connect source name target supplied).Creates g ids model given raw →
    g.registry.activeFor? raw.relType = some active → P given active →
    ∃ e, g.registry.edge raw = .ok e ∧
      ReadBack (given.filter fun e => (supplied? supplied e.1).isSome) raw.properties e.properties

theorem create_of_mem_writes {rel : Relationship} {stored properties : List (String × Value)}
    {edges : EdgeKind} {source other : String}
    (h : .create edges source other properties ∈ c.writes rel stored) :
    edges = rel.edges ∧ properties = stored := by
  cases c <;>
    simp only [writes, List.mem_cons, List.not_mem_nil, or_false, EdgeRequest.create.injEq,
      reduceCtorEq, false_or] at h
  case connect | reconnect | replace => exact ⟨h.1, h.2.2.2⟩

theorem edgeProperties_of_prepared {target : Entity} {supplied : Properties} {rel : Relationship}
    {stored : List (String × Value)} (hcreated : c.created? = some (target, supplied))
    (hprepared : c.prepared g ids = .ok (rel, stored)) :
    g.registry.edgeProperties ids rel supplied = .ok stored := by
  rw [prepared, hcreated] at hprepared
  obtain ⟨rel', _, hprepared⟩ := bind_eq_ok.1 hprepared
  obtain ⟨_, _, hprepared⟩ := bind_eq_ok.1 hprepared
  obtain ⟨stored', hstored, hpair⟩ := bind_eq_ok.1 hprepared
  cases pure_eq_ok.1 hpair
  exact hstored

/-- An edge that holds what a change creates it with is read back, if the type that is active for
its label reads each property that was given a value, unless one of them is JSON that nests too
deeply.  The active type need not be the one that the declaration names. -/
theorem created_edge_reads_back {calls : List RegistryCall} (hcalls : ∀ call ∈ calls, call.Built)
    (hregistry : g.registry = .after calls) {model active : RelationshipType}
    {given : List (Property × Value)} {raw : RawEdge} (hcreates : c.Creates g ids model given raw)
    (hactive : g.registry.activeFor? raw.relType = some active)
    (hread : ∀ e ∈ given, e.1.ReadBy active.properties) :
    (∃ e, g.registry.edge raw = .ok e ∧ ReadBack given raw.properties e.properties) ∨
      ∃ p v, (p, v) ∈ given ∧ Json.maxDepth < p.codec.jsonNesting v ∧
        ∃ e, g.registry.edge raw = .error (.decode p.name e) := by
  obtain @⟨_, supplied, rel, _, _, _, _, source, other, _, hcreated, hprepared, hname, hmodel, hwrite,
    hlabel, hraw⟩ := hcreates
  obtain ⟨rfl, rfl⟩ := create_of_mem_writes hwrite
  have hbuilt := Registry.holdsBuilt_after hcalls
  rw [← hregistry] at hbuilt
  have hgiven : Property.Distinct ((givenValues supplied ids 0 model.properties).map Prod.fst) :=
    (hbuilt.models (Registry.relationshipType_eq_ok.1 hmodel)).distinct.sublist
      ((givenValues_sublist ..).map _)
  have hstored := Registry.edgeProperties_eq_ok (edgeProperties_of_prepared hcreated hprepared)
    hname hmodel
  have hassigns := EdgeRequest.create_assigns g.settings.idFunction rel.edges source other "r"
    (nodup_stored hgiven hread hstored)
  unfold Registry.edge
  rw [hactive]
  dsimp only
  rcases readProperties_assigned hgiven (hbuilt.active hactive).distinct hread hstored
    (List.Perm.refl _) hassigns with ⟨read, hok, hback⟩ | ⟨p, v, hg, hdeep, e, herror⟩
  · rw [← hraw] at hok hback
    rw [hok]
    exact .inl ⟨_, rfl, hback⟩
  · rw [← hraw] at herror
    rw [herror]
    exact .inr ⟨p, v, hg, hdeep, e, rfl⟩

end Change

namespace Sample

/-- A date that is stored as the beginning of an ownership. -/
def date (name : String) (codec : Codec) : Property :=
  ⟨name, some "begin", codec, false, none, .none, false⟩

def ownership (codec : Codec) : RelationshipType :=
  (RelationshipType.new "Ownership" "OWNS").withProperty (date "since" codec)

/-- Ownerships with a date of their own. -/
def adoption (codec : Codec) (own : Property) : RelationshipType :=
  ((RelationshipType.new "Adoption" "OWNS").withProperty own).extend (ownership codec)

def ownerships (codec : Codec) (own : Property) : List RegistryCall :=
  [.relationship (ownership codec), .relationship (adoption codec own)]

theorem ownerships_built (codec : Codec) (own : Property) :
    ∀ call ∈ ownerships codec own, call.Built := by
  have hownership : (ownership codec).Built := (RelationshipType.Built.new ..).withProperty _
  intro call hcall
  rcases List.mem_cons.1 hcall with rfl | hcall
  · exact hownership
  · obtain rfl := List.mem_singleton.1 hcall
    exact ((RelationshipType.Built.new ..).withProperty _).extend hownership

def petGuard (codec : Codec) (own : Property) : Guard :=
  ⟨.after (ownerships codec own), .default⟩

/-- The pets that a person owns since some date. -/
def datedPets : Relationship :=
  ⟨"pets", ["Pet"], "OWNS", .outgoing, .zeroOrMore, .strict, some "Ownership"⟩

/-- A person gets a pet on some date. -/
def getsPet (since : Value) : Change :=
  .connect ⟨"p", .ofList ["Person"], (NodeType.new "Person").withRelationship datedPets, []⟩ "pets"
    ⟨"t", .ofList ["Pet"], .new "Pet", []⟩ [("since", since)]

/-- The edge that holds the date. -/
def datedPet (stored : Value) : RawEdge := ⟨"e", "OWNS", "p", "t", [("begin", stored)]⟩

section

variable {codec : Codec} {own : Property} {since stored : Value}

/-- Adoptions take over from ownerships. -/
theorem after_ownerships (hown : (checkRelationshipType (adoption codec own)).isOk = true) :
    (petGuard codec own).registry.relationshipType "Ownership" = .ok (ownership codec) ∧
      (petGuard codec own).registry.activeFor? "OWNS" = some (adoption codec own) := by
  obtain ⟨_, hadoption⟩ := exists_eq_ok hown
  obtain ⟨_, hjson⟩ : ∃ u, checkRelationshipType (ownership .json) = .ok u :=
    exists_eq_ok (by decide +kernel)
  have hownership : checkRelationshipType (ownership codec) = .ok () := hjson
  have hfirst := Registry.after_relationship [] hownership rfl
  have hsecond := Registry.after_relationship ([] ++ [.relationship (ownership codec)])
    hadoption (by rw [hfirst]; rfl)
  rw [hfirst] at hsecond
  have hregistry : (petGuard codec own).registry = _ := hsecond
  have hname : (adoption codec own).name ≠ "Ownership" := show "Adoption" ≠ "Ownership" by decide
  rw [hregistry]
  refine ⟨Registry.relationshipType_eq_ok.2 ?_, Dict.get?_insert_self _ _ _⟩
  exact (Dict.get?_insert _ _ _ _).trans ((if_neg hname).trans (Dict.get?_insert_self _ _ _))

theorem supplied_since (hsince : since.isNull = false) :
    supplied? [("since", since)] (date "since" codec) = some since :=
  Option.filter_eq_some_iff.2 ⟨rfl, by rw [hsince]; rfl⟩

theorem prepared_getsPet (ids : Identifiers)
    (hown : (checkRelationshipType (adoption codec own)).isOk = true)
    (hsince : since.isNull = false) (hstored : codec.encode since = .ok stored) :
    (getsPet since).prepared (petGuard codec own) ids = .ok (datedPets, [("begin", stored)]) := by
  have hdeclared : (getsPet since).source.nodeType.relationship? "pets" = some datedPets := rfl
  have hencode : (date "since" codec).encode "since" since = .ok stored := mapError_eq_ok.2 hstored
  have hcreated : (date "since" codec).createdValue? [("since", since)] (ids 0) =
      .ok (some stored) := by
    rw [Property.createdValue?, supplied_since hsince]
    show (do return some (← (date "since" codec).encode "since" since)) = _
    rw [hencode]
    rfl
  have hproperties : (petGuard codec own).registry.edgeProperties ids datedPets
      [("since", since)] = .ok [("begin", stored)] := by
    rw [Registry.edgeProperties]
    show (Registry.relationshipType _ "Ownership" >>= _) = _
    rw [(after_ownerships hown).1]
    show (do
      let v? ← (date "since" codec).createdValue? [("since", since)] (ids 0)
      let others ← Registry.createdProperties [("since", since)] ids 1 []
      return (v?.map fun v => ("begin", v)).toList ++ others) = _
    rw [hcreated]
    rfl
  rw [Change.prepared_of_declared hdeclared]
  show (if datedPets.targets.any _ then
    (Registry.edgeProperties _ ids datedPets [("since", since)]).map (datedPets, ·) else _) = _
  rw [hproperties]
  exact if_pos rfl

theorem creates_datedPet (ids : Identifiers)
    (hown : (checkRelationshipType (adoption codec own)).isOk = true)
    (hsince : since.isNull = false) (hstored : codec.encode since = .ok stored) :
    (getsPet since).Creates (petGuard codec own) ids (ownership codec)
      [(date "since" codec, since)] (datedPet stored) := by
  have hgiven : givenValues [("since", since)] ids 0 (ownership codec).properties =
      [(date "since" codec, since)] := by
    have hvalue : (date "since" codec).given? [("since", since)] (ids 0) = some since := by
      rw [Property.given?, supplied_since hsince]
      rfl
    show ((date "since" codec).given? _ _ |>.map _).toList ++ [] = _
    rw [hvalue]
    rfl
  have hassigns := EdgeRequest.create_assigns (petGuard codec own).settings.idFunction
    datedPets.edges "p" "t" "r"
    (show ([("begin", stored)].map Prod.fst).Nodup from List.nodup_singleton _)
  rw [← hgiven]
  exact .intro rfl (prepared_getsPet ids hown hsince hstored) rfl (after_ownerships hown).1
    List.mem_cons_self rfl (assigned_eq hassigns).symm

theorem readBy_adoption (codec codec' : Codec) :
    (date "since" codec').ReadBy (adoption codec (date "since" codec')).properties :=
  ⟨date "since" codec', List.mem_singleton_self _, rfl, rfl, fun q hq => by
    obtain rfl := List.mem_singleton.1 hq
    exact ⟨fun _ => rfl, fun _ => rfl⟩⟩

/-- What comes of it when the person gets a pet. -/
def gotPet (codec : Codec) (own : Property) (since : Value) :
    Except Error (List Breach) × Memory :=
  ((getsPet since).run (petGuard codec own) Memory.driver fun _ => "").run.run .empty

/-- The date comes back if every connection is read back. -/
theorem exists_datedPet (codec : Codec) (own : Property) (since : Value)
    {P : List (Property × Value) → RelationshipType → Prop}
    (hreads : Change.ReadsConnected P)
    (hown : (checkRelationshipType (adoption codec own)).isOk = true)
    (hsince : since.isNull = false) (hstored : codec.encode since = .ok stored)
    (hrun : (gotPet codec own since).1.isOk = true)
    (hP : P [(date "since" codec, since)] (adoption codec own)) :
    ∃ e u, (petGuard codec own).registry.edge (datedPet stored) = .ok e ∧
      codec.decode stored = .ok u := by
  obtain ⟨warnings, hwarnings⟩ := exists_eq_ok hrun
  obtain ⟨e, he, hback⟩ := hreads (ownerships_built codec own) rfl (Prod.ext hwarnings rfl)
    (creates_datedPet _ hown hsince hstored) (after_ownerships hown).2 hP
  obtain ⟨w, u, hw, -, hu, -⟩ := hback _ _ (List.mem_filter.2
    ⟨List.mem_singleton_self _, by rw [supplied_since hsince]; rfl⟩)
  obtain rfl := Except.ok.inj (hstored.symm.trans hw)
  exact ⟨e, u, he, hu⟩

end

end Sample

namespace Change

theorem created_edge_reads_back_adopted :
    ∃ e, (Sample.petGuard .json (Sample.date "since" .json)).registry.edge
        (Sample.datedPet (.string (Sample.nested 1).text)) = .ok e ∧
      e.properties.get? "since" = some (Sample.nested 1) := by
  have hown : (checkRelationshipType
      (Sample.adoption .json (Sample.date "since" .json))).isOk = true := by decide +kernel
  rcases created_edge_reads_back (Sample.ownerships_built .json (Sample.date "since" .json)) rfl
      (Sample.creates_datedPet (fun _ => "") hown (show (Sample.nested 1).isNull = false from rfl) rfl)
      (Sample.after_ownerships hown).2
      (List.forall_mem_singleton.2 (Sample.readBy_adoption .json .json)) with
    ⟨e, he, hback⟩ | ⟨p, v, hmem, hdeep, -⟩
  · obtain ⟨w, u, hw, -, hu, hget⟩ := hback _ _ (List.mem_singleton_self _)
    cases hw
    obtain rfl := Except.ok.inj (Sample.decode_shallow.symm.trans hu)
    exact ⟨e, he, hget⟩
  · obtain ⟨rfl, rfl⟩ := Prod.mk.inj (List.mem_singleton.1 hmem)
    exact absurd hdeep (by decide +kernel)

/-- A connection may be made whose edge is not read back.

* The type that is active may declare a property with another codec.
* It may store another property under the same name.
* Where it does neither, JSON may nest too deeply. -/
theorem created_edge_lost :
    (¬ ReadsConnected fun given active => ∀ e ∈ given,
      e.1.codec.jsonNesting e.2 ≤ Json.maxDepth ∧
        ∃ codec, Property.ReadBy { e.1 with codec } active.properties) ∧
    (¬ ReadsConnected fun given active => ∀ e ∈ given,
      e.1.codec.jsonNesting e.2 ≤ Json.maxDepth ∧ e.1 ∈ active.properties) ∧
    ¬ ReadsConnected fun given active => ∀ e ∈ given, e.1.ReadBy active.properties := by
  refine ⟨fun hreads => ?_, fun hreads => ?_, fun hreads => ?_⟩
  · have hfails : ((Sample.petGuard (.string none) (Sample.date "since" .integer)).registry.edge
        (Sample.datedPet (.string "2020"))).isOk = false := by
      decide +kernel
    obtain ⟨e, _, he, -⟩ := Sample.exists_datedPet (.string none) (Sample.date "since" .integer)
      (.string "2020") hreads (by decide +kernel) rfl rfl (by decide +kernel)
      (List.forall_mem_singleton.2 ⟨Nat.zero_le _, .integer, Sample.readBy_adoption _ _⟩)
    rw [he] at hfails
    cases hfails
  · have hfails : ((Sample.petGuard (.string none) (Sample.date "until" .integer)).registry.edge
        (Sample.datedPet (.string "2020"))).isOk = false := by
      decide +kernel
    obtain ⟨e, _, he, -⟩ := Sample.exists_datedPet (.string none) (Sample.date "until" .integer)
      (.string "2020") hreads (by decide +kernel) rfl rfl (by decide +kernel)
      (List.forall_mem_singleton.2
        ⟨Nat.zero_le _, List.mem_cons_of_mem _ (List.mem_singleton_self _)⟩)
    rw [he] at hfails
    cases hfails
  · obtain ⟨_, u, -, hu⟩ := Sample.exists_datedPet .json (Sample.date "since" .json)
      (Sample.nested 127) hreads (by decide +kernel) rfl rfl (by decide +kernel)
      (List.forall_mem_singleton.2 (Sample.readBy_adoption .json .json))
    obtain ⟨e, he⟩ := Sample.decode_nested
    cases he.symm.trans hu

end Change

end GraphMapper
