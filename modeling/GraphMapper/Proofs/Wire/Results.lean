import GraphMapper.Proofs.Wire.Formats
import GraphMapper.Wire.Result

/-!
# Results and their shapes, written and read

Every shape comes back from its text, and so does every result without
floating-point numbers, however its lists and maps nest, as long as the reader goes
so deep (`Wire.results_read_back`).

Three ways of telling cases apart meet here.  A cell is named by the member that it
stands in, a value by its tree alone, and what a column holds by one of its members.
-/

namespace GraphMapper

open Json (MemberReadAs)

/-! ## Canonical results -/

/-- The maps inside a node are in order. -/
def RawNode.IsCanonical (n : RawNode) : Prop := (Value.map n.properties).IsCanonical

/-- The maps inside an edge are in order. -/
def RawEdge.IsCanonical (e : RawEdge) : Prop := (Value.map e.properties).IsCanonical

namespace Cell

mutual

/-- The maps inside a cell are in order. -/
def IsCanonical : Cell → Prop
  | value v => v.IsCanonical
  | node n => n.IsCanonical
  | edge e => e.IsCanonical
  | list items => AreCanonical items
  | map entries => Dict.IsSorted entries ∧ HasCanonical entries

/-- The maps inside some cells are in order. -/
def AreCanonical : List Cell → Prop
  | [] => True
  | c :: rest => IsCanonical c ∧ AreCanonical rest

/-- The maps inside the cells of some entries are in order. -/
def HasCanonical : List (String × Cell) → Prop
  | [] => True
  | (_, c) :: rest => IsCanonical c ∧ HasCanonical rest

end

mutual

/-- The floating-point numbers inside a cell, in order. -/
def floats : Cell → List Double
  | value v => v.floats
  | node n => (Value.map n.properties).floats
  | edge e => (Value.map e.properties).floats
  | list items => itemFloats items
  | map entries => entryFloats entries

/-- The floating-point numbers inside some cells. -/
def itemFloats : List Cell → List Double
  | [] => []
  | c :: rest => floats c ++ itemFloats rest

/-- The floating-point numbers inside the cells of some entries. -/
def entryFloats : List (String × Cell) → List Double
  | [] => []
  | (_, c) :: rest => floats c ++ entryFloats rest

end

end Cell

namespace QueryOutput

/-- The maps inside a result are in order. -/
def IsCanonical (o : QueryOutput) : Prop := ∀ row ∈ o.rows, Cell.AreCanonical row

/-- The floating-point numbers inside a result, in order. -/
def floats (o : QueryOutput) : List Double := o.rows.flatMap Cell.itemFloats

end QueryOutput

/-! ## Trees that are read as they are -/

theorem Value.readAs_self {v : Value} (h : v.floats = []) : Json.ReadAs v.toJson v.toJson := by
  have hread := v.readAs_toJson
  rwa [replaceFloats_eq_self h] at hread

namespace Wire

/-- A dictionary is written like the map of it. -/
theorem properties_eq (d : Dict Value) : properties d = (Value.map d).toJson := by
  have hmembers : d.mapValues Value.toJson = Value.entriesToJson d := by
    induction d with
    | nil => rfl
    | cons e rest ih => exact congrArg ((e.1, e.2.toJson) :: ·) ih
  rw [properties, hmembers, Value.toJson]

theorem readAs_strings (items : List String) : Json.ReadAs (strings items) (strings items) :=
  Json.readAs_array (List.forall₂_map_left_iff.2 (List.forall₂_map_right_iff.2
    (List.forall₂_same.2 fun s _ => Json.readAs_string s)))

theorem readAs_properties {d : Dict Value} (h : (Value.map d).floats = []) :
    Json.ReadAs (properties d) (properties d) := by
  rw [properties_eq]
  exact Value.readAs_self h

theorem readAs_rawNode {n : RawNode} (h : (Value.map n.properties).floats = []) :
    Json.ReadAs (rawNode.encode n) (rawNode.encode n) :=
  Json.readAs_object (.cons ⟨rfl, Json.readAs_string _⟩ (.cons ⟨rfl, readAs_strings _⟩
    (.cons ⟨rfl, readAs_properties h⟩ .nil)))

theorem readAs_rawEdge {e : RawEdge} (h : (Value.map e.properties).floats = []) :
    Json.ReadAs (rawEdge.encode e) (rawEdge.encode e) :=
  Json.readAs_object (.cons ⟨rfl, Json.readAs_string _⟩ (.cons ⟨rfl, Json.readAs_string _⟩
    (.cons ⟨rfl, Json.readAs_string _⟩ (.cons ⟨rfl, Json.readAs_string _⟩
      (.cons ⟨rfl, readAs_properties h⟩ .nil)))))

/-- An object of one member is read as it is, if its value is. -/
theorem readAs_tagged {tag : String} {j : Json} (h : Json.ReadAs j j) :
    Json.ReadAs (.object [(tag, j)]) (.object [(tag, j)]) :=
  Json.readAs_object (.cons ⟨rfl, h⟩ .nil)

mutual

/-- The tree of a cell without floating-point numbers is read as it is. -/
theorem readAs_cell : ∀ {c : Cell}, c.floats = [] → Json.ReadAs (encodeCell c) (encodeCell c)
  | .value _, h => readAs_tagged (Value.readAs_self h)
  | .node _, h => readAs_tagged (readAs_rawNode h)
  | .edge _, h => readAs_tagged (readAs_rawEdge h)
  | .list _, h => readAs_tagged (Json.readAs_array (readAs_cells h))
  | .map _, h => readAs_tagged (Json.readAs_object (readAs_entries h))

theorem readAs_cells : ∀ {cs : List Cell}, Cell.itemFloats cs = [] →
    List.Forall₂ Json.ReadAs (encodeCells cs) (encodeCells cs)
  | [], _ => .nil
  | _ :: _, h =>
    have hparts := List.append_eq_nil_iff.1 h
    .cons (readAs_cell hparts.1) (readAs_cells hparts.2)

theorem readAs_entries : ∀ {entries : List (String × Cell)}, Cell.entryFloats entries = [] →
    List.Forall₂ MemberReadAs (encodeEntries entries) (encodeEntries entries)
  | [], _ => .nil
  | (_, _) :: _, h =>
    have hparts := List.append_eq_nil_iff.1 h
    .cons ⟨rfl, readAs_cell hparts.1⟩ (readAs_entries hparts.2)

end

theorem readAs_queryOutput {o : QueryOutput} (h : o.floats = []) :
    Json.ReadAs (queryOutput.encode o) (queryOutput.encode o) := by
  have hrows : ∀ row ∈ o.rows, Cell.itemFloats row = [] := List.flatMap_eq_nil_iff.1 h
  refine Json.readAs_object (.cons ⟨rfl, readAs_strings _⟩ (.cons ⟨rfl, Json.readAs_array ?_⟩ .nil))
  exact List.forall₂_map_left_iff.2 (List.forall₂_map_right_iff.2
    (List.forall₂_same.2 fun row hrow => Json.readAs_array (readAs_cells (hrows row hrow))))

/-! ## Cells -/

theorem restores_properties {d : Dict Value} (h : (Value.map d).IsCanonical) :
    Restores (dict value) (properties d) d := by
  refine restores_dict (List.forall₂_map_left_iff.2 (List.forall₂_same.2 fun e he => ⟨rfl, ?_⟩)) h.1
  have hvalues : ∀ e ∈ d, e.2.IsCanonical := by
    have hall := h.2
    clear h he
    induction d with
    | nil => nofun
    | cons e rest ih => exact List.forall_mem_cons.2 ⟨hall.1, ih hall.2⟩
  exact restores_value (hvalues e he)

theorem restores_rawNode {n : RawNode} (h : n.IsCanonical) :
    Restores rawNode.decode (rawNode.encode n) n := by
  intro depth hdepth
  refine Option.bind_eq_some_iff.2 ⟨_, Record.ofJson?_object (by simp) (by simp) hdepth, ?_⟩
  refine Option.bind_eq_some_iff.2 ⟨_, Record.required_eq hdepth rfl (restores_string n.id), ?_⟩
  refine Option.bind_eq_some_iff.2 ⟨_, Record.required_eq hdepth rfl (restores_strings n.labels), ?_⟩
  exact Option.bind_eq_some_iff.2 ⟨_, Record.withDefault_eq hdepth rfl (restores_properties h), rfl⟩

theorem restores_rawEdge {e : RawEdge} (h : e.IsCanonical) :
    Restores rawEdge.decode (rawEdge.encode e) e := by
  intro depth hdepth
  refine Option.bind_eq_some_iff.2 ⟨_, Record.ofJson?_object (by simp) (by simp) hdepth, ?_⟩
  refine Option.bind_eq_some_iff.2 ⟨_, Record.required_eq hdepth rfl (restores_string e.id), ?_⟩
  refine Option.bind_eq_some_iff.2 ⟨_, Record.required_eq hdepth rfl (restores_string e.relType), ?_⟩
  refine Option.bind_eq_some_iff.2 ⟨_, Record.required_eq hdepth rfl (restores_string e.start), ?_⟩
  refine Option.bind_eq_some_iff.2 ⟨_, Record.required_eq hdepth rfl (restores_string e.finish), ?_⟩
  exact Option.bind_eq_some_iff.2 ⟨_, Record.withDefault_eq hdepth rfl (restores_properties h), rfl⟩

/-- A payload of any other kind holds no cells. -/
theorem decodePayload_leaf {tag : String} (hlist : tag ≠ "list") (hmap : tag ≠ "map") (depth : Nat)
    (j : Json) : decodePayload depth tag j = decodeLeaf depth tag j := by
  cases j <;> simp [decodePayload, hlist, hmap]

theorem decodeCells_eq_mapM (depth : Nat) (js : List Json) :
    decodeCells depth js = js.mapM (decodeCell depth) := by
  induction js with
  | nil => rfl
  | cons j rest ih => rw [decodeCells, ih, List.mapM_cons]

theorem decodeEntries_eq_mapM (depth : Nat) (members : List (String × Json)) :
    decodeEntries depth members =
      members.mapM fun m => (decodeCell depth m.2).map fun c => (m.1, c) := by
  induction members with
  | nil => rfl
  | cons m rest ih =>
    rw [decodeEntries, ih, List.mapM_cons]
    cases decodeCell depth m.2 <;> rfl

/-- The payload of a list is an array of cells. -/
theorem decodePayload_list (depth : Nat) (items : List Json) :
    decodePayload depth "list" (.array items) =
      (list decodeCell depth (.array items)).map .list := by
  rw [decodePayload, if_pos rfl, list, decodeCells_eq_mapM]
  split <;> rfl

/-- The payload of a map is an object of cells. -/
theorem decodePayload_map (depth : Nat) (members : List (String × Json)) :
    decodePayload depth "map" (.object members) =
      (dict decodeCell depth (.object members)).map .map := by
  rw [decodePayload, if_pos rfl, dict, decodeEntries_eq_mapM]
  split
  · rw [Option.map_map]
    rfl
  · rfl

/-- A cell is given back if what stands under its tag is. -/
theorem restores_tagged {α : Type} {item : Decoder α} {tag : String} {j : Json} {f : α → Cell} {a : α}
    (hpayload : ∀ depth, decodePayload depth tag j = (item depth j).map f) (h : Restores item j a) :
    Restores decodeCell (.object [(tag, j)]) (f a) := by
  intro depth hdepth
  have hnesting : (Json.object [(tag, j)]).nesting = j.nesting + 1 := by
    simp [Json.nesting, Json.membersNesting]
  rw [hnesting] at hdepth
  rw [decodeCell, if_pos (mayOpen_of_lt (by omega)), hpayload, h (depth + 1) (by omega)]
  rfl

mutual

/-- A cell is given back from its tree. -/
theorem restores_cell : ∀ {c : Cell}, c.IsCanonical → Restores decodeCell (encodeCell c) c
  | .value _, h =>
    restores_tagged (fun _ => decodePayload_leaf (by decide) (by decide) _ _) (restores_value h)
  | .node _, h =>
    restores_tagged (fun _ => decodePayload_leaf (by decide) (by decide) _ _) (restores_rawNode h)
  | .edge _, h =>
    restores_tagged (fun _ => decodePayload_leaf (by decide) (by decide) _ _) (restores_rawEdge h)
  | .list _, h => restores_tagged (fun _ => decodePayload_list _ _) (restores_list (restores_cells h))
  | .map _, h =>
    restores_tagged (fun _ => decodePayload_map _ _) (restores_dict (restores_entries h.2) h.1)

theorem restores_cells : ∀ {cs : List Cell}, Cell.AreCanonical cs →
    List.Forall₂ (Restores decodeCell) (encodeCells cs) cs
  | [], _ => .nil
  | _ :: _, h => .cons (restores_cell h.1) (restores_cells h.2)

theorem restores_entries : ∀ {entries : List (String × Cell)}, Cell.HasCanonical entries →
    List.Forall₂ (MemberRestores decodeCell) (encodeEntries entries) entries
  | [], _ => .nil
  | (_, _) :: _, h => .cons ⟨rfl, restores_cell h.1⟩ (restores_entries h.2)

end

theorem restores_queryOutput {o : QueryOutput} (h : o.IsCanonical) :
    Restores queryOutput.decode (queryOutput.encode o) o := by
  intro depth hdepth
  have hrows : Restores (list (list decodeCell))
      (.array (o.rows.map fun row => .array (encodeCells row))) o.rows :=
    restores_list (List.forall₂_map_left_iff.2 (List.forall₂_same.2 fun row hrow =>
      restores_list (restores_cells (h row hrow))))
  refine Option.bind_eq_some_iff.2 ⟨_, Record.ofJson?_object (by simp) (by simp) hdepth, ?_⟩
  refine Option.bind_eq_some_iff.2 ⟨_, Record.required_eq hdepth rfl (restores_strings o.columns), ?_⟩
  exact Option.bind_eq_some_iff.2 ⟨_, Record.required_eq hdepth rfl hrows, rfl⟩

/-! ## Shapes -/

theorem readAs_orNull (s? : Option String) : Json.ReadAs (orNull .string s?) (orNull .string s?) := by
  cases s? with
  | none => exact Json.readAs_null rfl rfl
  | some s => exact Json.readAs_string s

theorem readAs_kind (k : ColumnKind) : Json.ReadAs (encodeKind k) (encodeKind k) := by
  cases k with
  | root | projection => exact readAs_tagged (Json.readAs_string _)
  | node c =>
    exact Json.readAs_object (.cons ⟨rfl, Json.readAs_string _⟩ (.cons ⟨rfl, Json.readAs_string _⟩
      (.cons ⟨rfl, Json.readAs_string _⟩ (.cons ⟨rfl, readAs_orNull _⟩
        (.cons ⟨rfl, readAs_orNull _⟩ .nil)))))
  | edge key =>
    exact Json.readAs_object (.cons ⟨rfl, Json.readAs_string _⟩
      (.cons ⟨rfl, Json.readAs_string _⟩ .nil))

theorem readAs_column (c : Column) : Json.ReadAs (column.encode c) (column.encode c) :=
  Json.readAs_object (.cons ⟨rfl, Json.readAs_string _⟩ (.cons ⟨rfl, readAs_kind _⟩ .nil))

/-- What a column holds is told by the member that names its kind, and read from the others. -/
theorem decode_columnKind {kind : String} {rest : List (String × Json)} {depth : Nat}
    (hrest : ∀ m ∈ rest, m.1 ≠ "kind") (hreadable : haveReadable (depth + 1) rest = true)
    (hdepth : depth + (Json.object rest).nesting ≤ Json.maxDepth) :
    columnKind.decode depth (.object (("kind", .string kind) :: rest)) =
      decodeMembers kind depth (.object rest) := by
  have hnone : rest.filter (fun m => m.1 == "kind") = [] :=
    List.filter_eq_nil_iff.2 fun m hm => by simpa using hrest m hm
  have hall : rest.filter (fun m => m.1 != "kind") = rest :=
    List.filter_eq_self.2 fun m hm => by simpa using hrest m hm
  have hsplit : splitKind (.object (("kind", .string kind) :: rest)) = some (kind, .object rest) := by
    rw [splitKind, List.filter_cons_of_pos (by simp), List.filter_cons_of_neg (by simp), hnone, hall]
  have hopen : isReadable depth (.object rest) = true := by
    rw [Json.nesting] at hdepth
    rw [isReadable, mayOpen_of_lt (by omega), hreadable]
    rfl
  show (splitKind _ >>= _) = _
  rw [hsplit]
  exact if_pos hopen

theorem nesting_kind (kind : String) (rest : List (String × Json)) :
    (Json.object (("kind", .string kind) :: rest)).nesting = (Json.object rest).nesting := by
  simp [Json.nesting, Json.membersNesting]

theorem haveReadable_node (c : NodeColumn) (depth : Nat) :
    haveReadable depth [("key", .string c.key), ("hop", .string c.hop),
      ("parent", orNull .string c.parent?), ("relationship", orNull .string c.edge?)] = true := by
  cases c.parent? <;> cases c.edge? <;> rfl

theorem restores_kind (k : ColumnKind) : Restores columnKind.decode (encodeKind k) k := by
  intro depth hdepth
  cases k with
  | root | projection =>
    rw [encodeKind, nesting_kind] at hdepth
    exact decode_columnKind nofun rfl hdepth
  | node c =>
    rw [encodeKind, nesting_kind] at hdepth
    rw [encodeKind, decode_columnKind (by simp) (haveReadable_node c (depth + 1)) hdepth]
    refine Option.bind_eq_some_iff.2 ⟨_, Record.ofJson?_object (by simp) (by simp) hdepth, ?_⟩
    refine Option.bind_eq_some_iff.2 ⟨_, Record.required_eq hdepth rfl (restores_string c.key), ?_⟩
    refine Option.bind_eq_some_iff.2 ⟨_, Record.required_eq hdepth rfl (restores_string c.hop), ?_⟩
    refine Option.bind_eq_some_iff.2 ⟨_, Record.nullable_eq hdepth rfl (restores_orNull c.parent?), ?_⟩
    exact Option.bind_eq_some_iff.2 ⟨_, Record.nullable_eq hdepth rfl (restores_orNull c.edge?), rfl⟩
  | edge key =>
    rw [encodeKind, nesting_kind] at hdepth
    rw [encodeKind, decode_columnKind (by simp) rfl hdepth]
    refine Option.bind_eq_some_iff.2 ⟨_, Record.ofJson?_object (by simp) (by simp) hdepth, ?_⟩
    exact Option.bind_eq_some_iff.2 ⟨_, Record.required_eq hdepth rfl (restores_string key), rfl⟩

theorem restores_column (c : Column) : Restores column.decode (column.encode c) c := by
  intro depth hdepth
  refine Option.bind_eq_some_iff.2 ⟨_, Record.ofJson?_object (by simp) (by simp) hdepth, ?_⟩
  refine Option.bind_eq_some_iff.2 ⟨_, Record.required_eq hdepth rfl (restores_string c.name), ?_⟩
  exact Option.bind_eq_some_iff.2 ⟨_, Record.required_eq hdepth rfl (restores_kind c.kind), rfl⟩

theorem restores_mode (m : PathMode) :
    Restores pathModeNames.decode (pathModeNames.format.encode m) m := by
  cases m <;> exact fun _ _ => rfl

theorem restores_resultShape (s : ResultShape) :
    Restores resultShape.decode (resultShape.encode s) s := by
  obtain ⟨root?, mode?, columns⟩ := s
  intro depth hdepth
  have hcolumns : Restores (list column.decode) (.array (columns.map column.encode)) columns :=
    restores_list (List.forall₂_map_left_iff.2 (List.forall₂_same.2 fun c _ => restores_column c))
  refine Option.bind_eq_some_iff.2 ⟨_, Record.ofJson?_object ?_ ?_ hdepth, ?_⟩
  · cases root? <;> cases mode? <;> simp [memberOf]
  · cases root? <;> cases mode? <;> simp [memberOf]
  refine Option.bind_eq_some_iff.2 ⟨root?, Record.nullable_memberOf hdepth ?_ fun s =>
    restores_some (restores_string s), ?_⟩
  · cases root? <;> cases mode? <;> rfl
  refine Option.bind_eq_some_iff.2 ⟨mode?, Record.nullable_memberOf hdepth ?_ fun m =>
    restores_some (restores_mode m), ?_⟩
  · cases root? <;> cases mode? <;> rfl
  refine Option.bind_eq_some_iff.2 ⟨columns, Record.required_eq hdepth ?_ hcolumns, rfl⟩
  · cases root? <;> cases mode? <;> rfl

theorem readAs_memberOf {α : Type} {encode : α → Json} {name : String}
    (h : ∀ a, Json.ReadAs (encode a) (encode a)) (a? : Option α) :
    List.Forall₂ MemberReadAs (memberOf name encode a?) (memberOf name encode a?) := by
  cases a? with
  | none => exact .nil
  | some a => exact .cons ⟨rfl, h a⟩ .nil

theorem readAs_resultShape (s : ResultShape) :
    Json.ReadAs (resultShape.encode s) (resultShape.encode s) := by
  have hcolumns : MemberReadAs ("columns", .array (s.columns.map column.encode))
      ("columns", .array (s.columns.map column.encode)) :=
    ⟨rfl, Json.readAs_array (List.forall₂_map_left_iff.2 (List.forall₂_map_right_iff.2
      (List.forall₂_same.2 fun c _ => readAs_column c)))⟩
  exact Json.readAs_object (List.rel_append (List.rel_append
    (readAs_memberOf Json.readAs_string s.root?)
    (readAs_memberOf (fun _ => Json.readAs_string _) s.mode?)) (.cons hcolumns .nil))

theorem nesting_orNull (s? : Option String) : (orNull .string s?).nesting = 0 := by
  cases s? <;> rfl

theorem nesting_column (c : Column) : (column.encode c).nesting = 2 := by
  have hkind : (encodeKind c.kind).nesting = 1 := by
    cases c.kind <;> simp [encodeKind, Json.nesting, Json.membersNesting, nesting_orNull]
  simp [column, Json.nesting, Json.membersNesting, hkind]

/-- A shape nests itself, its columns, a column, and what that holds. -/
theorem nesting_resultShape (s : ResultShape) : (resultShape.encode s).nesting ≤ 4 := by
  obtain ⟨root?, mode?, columns⟩ := s
  have hcolumns : Json.itemsNesting (columns.map column.encode) ≤ 2 := by
    induction columns with
    | nil => exact Nat.zero_le _
    | cons c rest ih =>
      rw [List.map_cons, Json.itemsNesting, nesting_column]
      omega
  have hmembers : (resultShape.encode ⟨root?, mode?, columns⟩).nesting =
      Json.itemsNesting (columns.map column.encode) + 2 := by
    cases root? <;> cases mode? <;>
      simp [resultShape, memberOf, Json.nesting, Json.membersNesting, Names.format]
  omega

/-! ## Texts -/

/-- A shape comes back from its text, and so does a result without floating-point numbers whose text
nests no more brackets than the reader goes through. -/
theorem results_read_back :
    (∀ s : ResultShape, resultShape.read? (resultShape.write s) = some s) ∧
      ∀ o : QueryOutput, o.IsCanonical → o.floats = [] →
        (queryOutput.encode o).nesting ≤ Json.maxDepth →
        queryOutput.read? (queryOutput.write o) = some o := by
  constructor
  · intro s
    have hfits : (resultShape.encode s).nesting ≤ Json.maxDepth :=
      (nesting_resultShape s).trans (by decide)
    exact Format.read?_write (readAs_resultShape s) hfits (restores_resultShape s)
  · intro o hcanonical hfloats hfits
    exact Format.read?_write (readAs_queryOutput hfloats) hfits (restores_queryOutput hcanonical)

end Wire

namespace Sample

/-- A node next to a map in which an edge and a value are nested. -/
def nestedOutput : QueryOutput :=
  ⟨["bean", "rest"],
    [[.node ⟨"1", ["Bean"], [("name", .string "Java")]⟩,
      .map [("edges", .list [.edge ⟨"e", "GROWS_IN", "1", "2", []⟩]),
        ("stock", .value (.list [.int 3, .null, .map [("kind", .string "node")]]))]]]⟩

theorem isCanonical_nestedOutput : nestedOutput.IsCanonical := by
  have hsingle {α : Type} (entry : String × α) : Dict.IsSorted [entry] :=
    List.pairwise_singleton _ _
  have hentries (edges stock : Cell) : Dict.IsSorted [("edges", edges), ("stock", stock)] :=
    List.pairwise_pair.2 (show "edges" < "stock" by decide)
  intro row hrow
  obtain rfl := List.mem_singleton.1 hrow
  have hname : (Cell.node ⟨"1", ["Bean"], [("name", .string "Java")]⟩).IsCanonical :=
    ⟨hsingle _, trivial, trivial⟩
  have hedge : (Cell.edge ⟨"e", "GROWS_IN", "1", "2", []⟩).IsCanonical := ⟨Dict.isSorted_nil, trivial⟩
  have hkind : (Value.map [("kind", .string "node")]).IsCanonical := ⟨hsingle _, trivial, trivial⟩
  have hstock : (Value.list [.int 3, .null, .map [("kind", .string "node")]]).IsCanonical :=
    ⟨trivial, trivial, hkind, trivial⟩
  exact ⟨hname, ⟨hentries _ _, ⟨hedge, trivial⟩, hstock, trivial⟩, trivial⟩

end Sample

namespace Wire

theorem results_read_back_nested :
    queryOutput.read? (queryOutput.write Sample.nestedOutput) = some Sample.nestedOutput :=
  results_read_back.2 Sample.nestedOutput Sample.isCanonical_nestedOutput rfl (by decide +kernel)

end Wire

end GraphMapper
