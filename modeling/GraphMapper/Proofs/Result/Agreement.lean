import GraphMapper.Proofs.Compile.Columns
import GraphMapper.Proofs.Result.Subgraph

/-!
# Rows and graphs of one result

A result is read row by row, or into graphs.  The rows are read with a check:
a column that the shape declares as nodes or edges holds them, or null
(`ColumnKind.takes`).  The graphs are read without one: a cell is passed over if
it is no node, and so is an edge whose node is not there.

What a row returns in the column of a traversal's nodes is in the graph of its
root, and so is the edge beside it, where the parent is returned as well
(`QueryPlan.rows_within_subgraphs`).  What is passed over is lost without an
error (`QueryPlan.subgraphs_pass_over`).
-/

namespace GraphMapper

/-! ## Cells -/

/-- Whether a column takes a cell: one of its kind or null, or any if it declares none. -/
def ColumnKind.takes : ColumnKind → Cell → Bool
  | .root, c | .node _, c => c.node?.isSome || c.isNull
  | .edge _, c => c.edge?.isSome || c.isNull
  | .projection, _ => true

namespace Registry

variable {r : Registry} {c : Cell} {x : Resolved}

/-- A cell that its column takes is resolved like any other, and the others are refused. -/
theorem columnCell_eq (r : Registry) (column : String) (kind : ColumnKind) (c : Cell) :
    r.columnCell column (some kind) c =
      if kind.takes c then r.cell c else .error (.resolution (.notAnEntity column c.kind)) := by
  cases c with
  | value v => cases v <;> cases kind <;> rfl
  | node n => cases kind <;> rfl
  | edge e => cases kind <;> rfl
  | list items => cases kind <;> rfl
  | map entries => cases kind <;> rfl

theorem cell_of_columnCell {column : String} {kind? : Option ColumnKind}
    (h : r.columnCell column kind? c = .ok x) : r.cell c = .ok x := by
  cases kind? with
  | none => exact h
  | some kind =>
    rw [columnCell_eq] at h
    split at h
    · exact h
    · cases h

theorem takes_of_columnCell {column : String} {kind : ColumnKind}
    (h : r.columnCell column (some kind) c = .ok x) : kind.takes c = true := by
  rw [columnCell_eq] at h
  split at h
  · next htakes => exact htakes
  · cases h

/-- A node is resolved to an entity, an edge to an edge, and all else to neither. -/
theorem cell_eq_ok (h : r.cell c = .ok x) :
    (∃ raw e, c = .node raw ∧ x = .entity e ∧ r.entity raw = .ok e) ∨
      (∃ raw d, c = .edge raw ∧ x = .edge d ∧ r.edge raw = .ok d) ∨
        x.entity? = none ∧ x.edge? = none := by
  cases c with
  | value v =>
    cases h
    exact .inr (.inr ⟨rfl, rfl⟩)
  | node raw =>
    obtain ⟨e, he, h⟩ := bind_eq_ok.1 h
    exact .inl ⟨raw, e, rfl, (pure_eq_ok.1 h).symm, he⟩
  | edge raw =>
    obtain ⟨d, hd, h⟩ := bind_eq_ok.1 h
    exact .inr (.inl ⟨raw, d, rfl, (pure_eq_ok.1 h).symm, hd⟩)
  | list items =>
    obtain ⟨_, _, h⟩ := bind_eq_ok.1 h
    obtain rfl := pure_eq_ok.1 h
    exact .inr (.inr ⟨rfl, rfl⟩)
  | map entries =>
    obtain ⟨_, _, h⟩ := bind_eq_ok.1 h
    obtain rfl := pure_eq_ok.1 h
    exact .inr (.inr ⟨rfl, rfl⟩)

theorem node_of_cell {e : Entity} (h : r.cell c = .ok x) (he : x.entity? = some e) :
    ∃ raw, c = .node raw ∧ r.entity raw = .ok e := by
  obtain ⟨raw, e', rfl, rfl, hraw⟩ | ⟨_, _, _, rfl, _⟩ | ⟨hnone, _⟩ := cell_eq_ok h
  · cases he
    exact ⟨raw, rfl, hraw⟩
  · cases he
  · rw [hnone] at he
    cases he

theorem edge_of_cell {d : Edge} (h : r.cell c = .ok x) (hd : x.edge? = some d) :
    ∃ raw, c = .edge raw ∧ r.edge raw = .ok d := by
  obtain ⟨_, _, _, rfl, _⟩ | ⟨raw, d', rfl, rfl, hraw⟩ | ⟨_, hnone⟩ := cell_eq_ok h
  · cases hd
  · cases hd
    exact ⟨raw, rfl, hraw⟩
  · rw [hnone] at hd
    cases hd

end Registry

/-! ## Rows -/

/-- The column of a name is the one that has it. -/
theorem ResultShape.column?_name {shape : ResultShape} {c : Column}
    (hdistinct : (shape.columns.map Column.name).Nodup) (hc : c ∈ shape.columns) :
    shape.column? c.name = some c :=
  find?_key hdistinct hc

/-- The first cell of a name is the one in the first column of that name. -/
theorem find?_zip (columns : List String) (cells : List Cell) (name : String) :
    ((columns.zip cells).find? fun x => x.1 == name).map Prod.snd =
      (columns.findIdx? fun c => c == name).bind fun i => cells[i]? := by
  induction columns generalizing cells with
  | nil => rfl
  | cons column rest ih =>
    cases cells with
    | nil => simp
    | cons cell cells =>
      rw [List.zip_cons_cons, List.find?_cons, List.findIdx?_cons]
      cases hname : column == name with
      | true => rfl
      | false =>
        rw [ih cells]
        simp only [Bool.false_eq_true, if_false]
        cases rest.findIdx? fun c => c == name <;> rfl

namespace Registry

variable {r : Registry} {shape : ResultShape} {output : QueryOutput} {cells : List Cell} {row : Row}
  {name : String}

/-- A row that is resolved has a cell for each column, resolved as its column's. -/
theorem row_eq_ok {columns : List String} (h : r.row shape columns cells = .ok row) :
    List.Forall₂ (fun x y => y.1 = x.1 ∧
      r.columnCell x.1 ((shape.column? x.1).map Column.kind) x.2 = .ok y.2)
      (columns.zip cells) row := by
  unfold Registry.row at h
  split at h
  · cases h
  · refine (forall₂_of_mapM h).imp fun x y hy => ?_
    obtain ⟨resolved, hresolved, hy⟩ := bind_eq_ok.1 hy
    obtain rfl := pure_eq_ok.1 hy
    exact ⟨rfl, hresolved⟩

/-- A cell that stands beside the name of its column is the one in the column of that name. -/
theorem cell_of_mem_zip {c : Cell} (hdistinct : output.columns.Nodup)
    (hlength : cells.length = output.columns.length) (h : (name, c) ∈ output.columns.zip cells) :
    ((output.columnIndex? name).bind fun i => cells[i]?) = some c := by
  have hnames : ((output.columns.zip cells).map Prod.fst).Nodup := by
    rwa [List.map_fst_zip (Nat.le_of_eq hlength.symm)]
  have hfound := find?_key hnames h
  rw [QueryOutput.columnIndex?, ← find?_zip, hfound]
  rfl

/-- What a row shows in a column is its resolved cell there. -/
theorem cell_of_get? {x : Resolved} (h : r.row shape output.columns cells = .ok row)
    (hx : row.get? name = some x) :
    ∃ c, ((output.columnIndex? name).bind fun i => cells[i]?) = some c ∧ r.cell c = .ok x := by
  obtain ⟨y, hy, rfl⟩ := Option.map_eq_some_iff.1 hx
  obtain ⟨c, hc, _, hresolved⟩ := exists_find?_of_forall₂ (p := fun x => x.1 == name)
    (row_eq_ok h) (fun a b hab => by rw [hab.1]) hy
  refine ⟨c.2, ?_, cell_of_columnCell hresolved⟩
  rw [QueryOutput.columnIndex?, ← find?_zip, hc]
  rfl

/-- An entity of a row is a node of the result. -/
theorem node_of_entity? {e : Entity} (h : r.row shape output.columns cells = .ok row)
    (he : row.entity? name = some e) :
    ∃ raw, output.node? cells name = some raw ∧ r.entity raw = .ok e := by
  obtain ⟨x, hx, he⟩ := Option.bind_eq_some_iff.1 he
  obtain ⟨c, hc, hcell⟩ := cell_of_get? h hx
  obtain ⟨raw, rfl, hraw⟩ := node_of_cell hcell he
  exact ⟨raw, by rw [QueryOutput.node?, hc]; rfl, hraw⟩

/-- An edge of a row is an edge of the result. -/
theorem edge_of_edge? {d : Edge} (h : r.row shape output.columns cells = .ok row)
    (hd : row.edge? name = some d) :
    ∃ raw, output.edge? cells name = some raw ∧ r.edge raw = .ok d := by
  obtain ⟨x, hx, hd⟩ := Option.bind_eq_some_iff.1 hd
  obtain ⟨c, hc, hcell⟩ := cell_of_get? h hx
  obtain ⟨raw, rfl, hraw⟩ := edge_of_cell hcell hd
  exact ⟨raw, by rw [QueryOutput.edge?, hc]; rfl, hraw⟩

/-- Every column of a row that is resolved takes its cell. -/
theorem takes_of_row (houtput : output.columns = shape.columns.map Column.name)
    (hdistinct : (shape.columns.map Column.name).Nodup)
    (h : r.row shape output.columns cells = .ok row) :
    ∀ x ∈ shape.columns.zip cells, x.1.kind.takes x.2 = true := by
  intro x hx
  have hmem : (x.1.name, x.2) ∈ output.columns.zip cells := by
    rw [houtput, List.zip_map_left]
    exact List.mem_map_of_mem hx
  obtain ⟨y, _, _, hy⟩ := exists_of_mem_forall₂ (row_eq_ok h).flip hmem
  rw [ResultShape.column?_name hdistinct (List.of_mem_zip hx).1] at hy
  exact takes_of_columnCell hy

/-- Where every column takes its cell, the cells are resolved without regard to the columns. -/
theorem row_of_takes (houtput : output.columns = shape.columns.map Column.name)
    (hdistinct : (shape.columns.map Column.name).Nodup)
    (hlength : cells.length = output.columns.length)
    (htakes : ∀ x ∈ shape.columns.zip cells, x.1.kind.takes x.2 = true) :
    r.row shape output.columns cells =
      (output.columns.zip cells).mapM fun x => do return (x.1, ← r.cell x.2) := by
  unfold Registry.row
  rw [if_neg (not_not_intro hlength)]
  refine mapM_congr fun y hy => ?_
  rw [houtput, List.zip_map_left] at hy
  obtain ⟨x, hx, rfl⟩ := List.mem_map.1 hy
  have hcolumn := ResultShape.column?_name hdistinct (List.of_mem_zip hx).1
  show (do return (x.1.name, ← r.columnCell x.1.name _ x.2)) = _
  rw [hcolumn, Option.map_some, columnCell_eq, if_pos (htakes x hx)]
  rfl

end Registry

/-! ## Rows within graphs -/

/-- Two nodes or edges of a result are the same if they have the same identity. -/
structure QueryOutput.Consistent (output : QueryOutput) : Prop where
  nodes : ∀ row ∈ output.rows, ∀ row' ∈ output.rows, ∀ a b : RawNode, .node a ∈ row →
    .node b ∈ row' → a.id = b.id → a = b
  edges : ∀ row ∈ output.rows, ∀ row' ∈ output.rows, ∀ a b : RawEdge, .edge a ∈ row →
    .edge b ∈ row' → a.id = b.id → a = b

/-- A row has the parent of a node column, unless that is the root. -/
def Row.HasParent (row : Row) (n : NodeColumn) : Prop :=
  ∀ v, n.parent? = some v → (row.entity? v).isSome = true

/-- A graph has what a row returns by the traversals of a shape, on their paths: the entities whose
parents the row has, and the edges beside these.  Of an entity or an edge that differs from row to
row, the graph may have it as another row returns it. -/
structure Row.Within (output : QueryOutput) (shape : ResultShape) (row : Row) (g : Subgraph) :
    Prop where
  neighbors : ∀ c ∈ shape.columns, ∀ n, c.kind = .node n → row.HasParent n →
    ∀ e, row.entity? c.name = some e →
      ∃ e' ∈ g.neighborsOf n.key, e'.id = e.id ∧ (output.Consistent → e' = e)
  edges : ∀ c ∈ shape.columns, ∀ key, c.kind = .edge key →
    ∀ node ∈ shape.columns, ∀ n, node.kind = .node n → n.edge? = some c.name →
      row.HasParent n → (row.entity? node.name).isSome = true →
        ∀ d, row.edge? c.name = some d →
          ∃ d' ∈ g.edgesOf key, d'.id = d.id ∧ (output.Consistent → d' = d)

section Arrivals

variable {r : Registry} {shape : ResultShape} {output : QueryOutput} {cells : List Cell} {row : Row}
  {g : Subgraph} {root : String} {a : Arrival}

theorem QueryOutput.mem_of_node? {name : String} {raw : RawNode}
    (h : output.node? cells name = some raw) : .node raw ∈ cells := by
  obtain ⟨c, hc, hraw⟩ := Option.bind_eq_some_iff.1 h
  obtain ⟨i, _, hc⟩ := Option.bind_eq_some_iff.1 hc
  cases c <;> cases hraw
  exact List.mem_of_getElem? hc

theorem QueryOutput.mem_of_edge? {name : String} {raw : RawEdge}
    (h : output.edge? cells name = some raw) : .edge raw ∈ cells := by
  obtain ⟨c, hc, hraw⟩ := Option.bind_eq_some_iff.1 h
  obtain ⟨i, _, hc⟩ := Option.bind_eq_some_iff.1 hc
  cases c <;> cases hraw
  exact List.mem_of_getElem? hc

/-- What arrives is in some row. -/
theorem QueryOutput.Arrives.exists_row (h : output.Arrives shape root a) :
    ∃ cells ∈ output.rows, .node a.child ∈ cells ∧ ∀ raw, a.edge? = some raw → .edge raw ∈ cells := by
  obtain ⟨cells, hcells, _, _, _, _, _, column, _, n, _, ha⟩ := h
  obtain ⟨child, hchild, ha⟩ := Option.bind_eq_some_iff.1 ha
  obtain ⟨parent, _, ha⟩ := Option.bind_eq_some_iff.1 ha
  obtain rfl := Option.some.inj ha
  refine ⟨cells, hcells, mem_of_node? hchild, fun raw hraw => ?_⟩
  obtain ⟨name, _, hraw⟩ := Option.bind_eq_some_iff.1 hraw
  exact mem_of_edge? hraw

/-- An entity that a row returns arrives, if the row has its parent. -/
theorem Registry.arrival_of_entity? {name : String} {n : NodeColumn} {e : Entity}
    (h : r.row shape output.columns cells = .ok row) (hparent : row.HasParent n)
    (he : row.entity? name = some e) (root : String) :
    ∃ a, output.arrival? root cells name n = some a ∧ a.key = n.key ∧ r.entity a.child = .ok e ∧
      a.edge? = n.edge?.bind (output.edge? cells) := by
  obtain ⟨child, hchild, hentity⟩ := node_of_entity? h he
  obtain ⟨parent, hparent⟩ : ∃ parent, output.parentId? root cells n = some parent := by
    unfold QueryOutput.parentId?
    cases hname : n.parent? with
    | none => exact ⟨root, rfl⟩
    | some v =>
      obtain ⟨e', he'⟩ := Option.isSome_iff_exists.1 (hparent v hname)
      obtain ⟨raw, hraw, _⟩ := node_of_entity? h he'
      exact ⟨raw.id, congrArg (Option.map RawNode.id) hraw⟩
  refine ⟨⟨n.key, parent, child, n.edge?.bind (output.edge? cells)⟩, ?_, rfl, hentity, rfl⟩
  rw [QueryOutput.arrival?, hchild, hparent]
  rfl

namespace Subgraph.Collects

/-- A graph has the entity that arrives. -/
theorem exists_neighbor (h : g.Collects r (output.Arrives shape root))
    (ha : output.Arrives shape root a) {e : Entity} (he : r.entity a.child = .ok e) :
    ∃ e' ∈ g.neighborsOf a.key, e'.id = e.id ∧ (output.Consistent → e' = e) := by
  have hid := Registry.id_of_entity a.child e he
  obtain ⟨e', he', hid'⟩ := List.mem_map.1 ((h.mem_neighbors a.key e.id).2 ⟨a, ha, rfl, hid.symm⟩)
  refine ⟨e', he', hid', fun hconsistent => ?_⟩
  obtain ⟨a', ha', _, hresolved⟩ := h.neighbors_resolved a.key e' he'
  obtain ⟨cells, hcells, hchild, _⟩ := ha.exists_row
  obtain ⟨cells', hcells', hchild', _⟩ := ha'.exists_row
  have hsame : a'.child = a.child := by
    refine hconsistent.nodes cells' hcells' cells hcells _ _ hchild' hchild ?_
    rw [← Registry.id_of_entity a'.child e' hresolved, hid', hid]
  rw [hsame, he] at hresolved
  exact (Except.ok.inj hresolved).symm

/-- A graph has the edge by which an entity arrives. -/
theorem exists_edge (h : g.Collects r (output.Arrives shape root))
    (ha : output.Arrives shape root a) {raw : RawEdge} (hraw : a.edge? = some raw) {d : Edge}
    (hd : r.edge raw = .ok d) :
    ∃ d' ∈ g.edgesOf a.key, d'.id = d.id ∧ (output.Consistent → d' = d) := by
  have hid := Registry.id_of_edge raw d hd
  have hlink : a.link ∈ g.links := (h.mem_links a.link).2 ⟨a, ha, rfl⟩
  have hedge : a.link.edge? = some d.id := by rw [Arrival.link, hraw, hid]; rfl
  obtain ⟨d', hd', hid'⟩ := List.mem_map.1 ((h.mem_edges a.key d.id).2 ⟨a.link, hlink, rfl, hedge⟩)
  refine ⟨d', hd', hid', fun hconsistent => ?_⟩
  obtain ⟨a', raw', ha', _, hraw', hresolved⟩ := h.edges_resolved a.key d' hd'
  obtain ⟨cells, hcells, _, hmem⟩ := ha.exists_row
  obtain ⟨cells', hcells', _, hmem'⟩ := ha'.exists_row
  have hsame : raw' = raw := by
    refine hconsistent.edges cells' hcells' cells hcells _ _ (hmem' raw' hraw') (hmem raw hraw) ?_
    rw [← Registry.id_of_edge raw' d' hresolved, hid', hid]
  rw [hsame, hd] at hresolved
  exact (Except.ok.inj hresolved).symm

end Subgraph.Collects

end Arrivals

namespace Registry

variable {r : Registry} {shape : ResultShape} {output : QueryOutput} {cells : List Cell}
  {graphs : List Subgraph}

/-- Where a result is resolved into graphs, its rows are as long as its columns are many. -/
theorem length_of_subgraphs (h : r.subgraphs output shape = .ok graphs)
    (hcells : cells ∈ output.rows) : cells.length = output.columns.length := by
  obtain ⟨_, _, _, _, _, _, hfold⟩ := subgraphs_eq_ok h
  obtain ⟨_, _, hrow⟩ := exists_of_foldlM hfold cells hcells
  by_contra hlength
  unfold addRow at hrow
  dsimp only at hrow
  split at hrow
  · exact throw_bind_ne_ok hrow
  · next hequal => exact hequal hlength

/-- Where a result is resolved into graphs, a row is of a root, and there is a graph of that root. -/
theorem exists_graph_of_row (h : r.subgraphs output shape = .ok graphs)
    (hcells : cells ∈ output.rows) :
    ∃ rootName root, shape.root? = some rootName ∧ output.node? cells rootName = some root ∧
      ∃ g ∈ graphs, g.root.id = root.id ∧ g.Collects r (output.Arrives shape root.id) := by
  obtain ⟨rootName, rows, hname, hroots, hgathered, harrives⟩ := subgraphs_gathered h
  have hmem : output.node? cells rootName ∈ (rows.map Prod.fst).map some :=
    hroots ▸ List.mem_map_of_mem hcells
  obtain ⟨root, hroot, hnode⟩ := List.mem_map.1 hmem
  have hid : root.id ∈ (graphs.map Subgraph.root).map Entity.id :=
    hgathered.roots.mem_ids.2 ⟨root, hroot, rfl⟩
  obtain ⟨_, hgraph, hid⟩ := List.mem_map.1 hid
  obtain ⟨g, hg, rfl⟩ := List.mem_map.1 hgraph
  refine ⟨rootName, root, hname, hnode.symm, g, hg, hid, ?_⟩
  exact hid ▸ (hgathered.holds g hg).collects fun a => harrives g.root.id a

end Registry

/-- The two readings of a result agree, as far as it is what the shape of a plan says: a row is
refused for its kinds only where a traversal's column holds something else than its kind or null,
and what a row returns is in the graph of its root.  That leaves out the edges whose node is not
returned, or not there. -/
theorem QueryPlan.rows_within_subgraphs {r r' : Registry} {p : QueryPlan} {c : CompiledQuery}
    {output : QueryOutput} {graphs : List Subgraph} (h : p.compile r = .ok c)
    (houtput : output.columns = c.shape.columns.map Column.name)
    (hgraphs : r'.subgraphs output c.shape = .ok graphs) :
    ∀ cells ∈ output.rows,
      ((∀ x ∈ c.shape.columns.zip cells, x.1.kind ≠ .root → x.1.kind.takes x.2 = true) →
        r'.row c.shape output.columns cells =
          (output.columns.zip cells).mapM fun x => do return (x.1, ← r'.cell x.2)) ∧
      ∃ rootName root, c.shape.root? = some rootName ∧ output.node? cells rootName = some root ∧
        ∃ g ∈ graphs, g.root.id = root.id ∧
          ∀ row, r'.row c.shape output.columns cells = .ok row →
            (∀ x ∈ c.shape.columns.zip cells, x.1.kind.takes x.2 = true) ∧
            row.Within output c.shape g := by
  intro cells hcells
  obtain ⟨_, _, _, _, _, hdescribes⟩ := describes_compile h
  have hdistinct := hdescribes.distinct
  have hlength := Registry.length_of_subgraphs hgraphs hcells
  obtain ⟨rootName, root, hname, hroot, g, hg, hid, hcollects⟩ :=
    Registry.exists_graph_of_row hgraphs hcells
  refine ⟨fun htakes => ?_, rootName, root, hname, hroot, g, hg, hid, fun row hrow => ?_⟩
  · refine Registry.row_of_takes houtput hdistinct hlength fun x hx => ?_
    by_cases hkind : x.1.kind = .root
    · -- The root's column holds a node, or there would be no graphs.
      have hfirst : x.1 ∈ c.shape.columns.filter fun c => c.kind = .root :=
        List.mem_filter.2 ⟨(List.of_mem_zip hx).1, decide_eq_true hkind⟩
      rw [hdescribes.only, hname, Option.map_some, Option.toList_some, List.mem_singleton] at hfirst
      have hmem : (rootName, x.2) ∈ output.columns.zip cells := by
        rw [houtput, List.zip_map_left]
        exact List.mem_map.2 ⟨x, hx, Prod.ext (congrArg Column.name hfirst) rfl⟩
      rw [QueryOutput.node?, Registry.cell_of_mem_zip (houtput ▸ hdistinct) hlength hmem] at hroot
      have hnode : x.2.node?.isSome = true := Option.isSome_iff_exists.2 ⟨root, hroot⟩
      rw [hkind, ColumnKind.takes, hnode]
      rfl
    · exact htakes x hx hkind
  · refine ⟨Registry.takes_of_row houtput hdistinct hrow, ?_, ?_⟩
    · intro column hcolumn n hn hparent e he
      obtain ⟨a, ha, hkey, hentity, _⟩ := Registry.arrival_of_entity? hrow hparent he root.id
      have harrives : output.Arrives c.shape root.id a :=
        ⟨cells, hcells, rootName, root, hname, hroot, rfl, column, hcolumn, n, hn, ha⟩
      rw [← hkey]
      exact hcollects.exists_neighbor harrives hentity
    · intro column hcolumn key hkind node hnode n hn hedge hparent hthere d hd
      obtain ⟨e, he⟩ := Option.isSome_iff_exists.1 hthere
      obtain ⟨a, ha, hkey, _, hbeside⟩ := Registry.arrival_of_entity? hrow hparent he root.id
      have harrives : output.Arrives c.shape root.id a :=
        ⟨cells, hcells, rootName, root, hname, hroot, rfl, node, hnode, n, hn, ha⟩
      obtain ⟨raw, hraw, hresolved⟩ := Registry.edge_of_edge? hrow hd
      have hcrossed : a.edge? = some raw := by
        rw [hbeside, hedge]
        exact hraw
      -- The column beside a node has the node's key.
      have hsame : column = ⟨column.name, .edge n.key⟩ :=
        List.inj_on_of_nodup_map hdistinct hcolumn
          (hdescribes.edges node hnode n column.name hn hedge) rfl
      obtain rfl : n.key = key := by
        rw [hsame] at hkind
        exact ColumnKind.edge.inj hkind
      rw [← hkey]
      exact hcollects.exists_edge harrives hcrossed hresolved

namespace Sample

/-- A traversal that returns everything, and one along the same hop that returns its edges only. -/
def suppliedTwice (r : Registry) : List (Registry × PlanCall) :=
  [(r, .traverse "suppliers" ⟨some "s", false, true, true⟩ .fetch),
    (r, .traverse "suppliers" ⟨none, false, false, true⟩ .fetch)]

def suppliedShape : ResultShape :=
  ⟨some "coffee", some .fetch, [⟨"coffee", .root⟩, ⟨"s", .node ⟨"s", "suppliers", none, some "s_rel"⟩⟩,
    ⟨"s_rel", .edge "s"⟩, ⟨"r2", .edge "suppliers"⟩]⟩

/-- A coffee with something in the column of its supplier. -/
def suppliedCells (supplier : Cell) : List Cell :=
  [.node ⟨"c1", ["Coffee"], []⟩, supplier, .edge ⟨"1", "SUPPLIED_BY", "c1", "s1", []⟩,
    .edge ⟨"2", "SUPPLIED_BY", "c1", "s2", []⟩]

def suppliedOutput (supplier : Cell) : QueryOutput :=
  ⟨["coffee", "s", "s_rel", "r2"], [suppliedCells supplier]⟩

/-- The plan with its query, and the graphs of its result. -/
def suppliedGraphs (supplier : Cell) :
    Except Halt (Registry × QueryPlan × CompiledQuery × List Subgraph) := do
  let r ← registered
  let p₀ ← QueryPlan.new r "Coffee"
  let p ← p₀.calls (suppliedTwice r)
  let c ← p.compile r
  return (r, p, c, ← r.subgraphs (suppliedOutput supplier) c.shape)

theorem suppliedGraphs_eq_ok {supplier : Cell} {r : Registry} {p : QueryPlan} {c : CompiledQuery}
    {graphs : List Subgraph} (h : suppliedGraphs supplier = .ok (r, p, c, graphs)) :
    p.compile r = .ok c ∧ r.subgraphs (suppliedOutput supplier) c.shape = .ok graphs := by
  obtain ⟨_, _, h⟩ := lift_bind_eq_ok.1 h
  obtain ⟨_, _, h⟩ := lift_bind_eq_ok.1 h
  obtain ⟨_, _, h⟩ := lift_bind_eq_ok.1 h
  obtain ⟨_, hcompile, h⟩ := bind_eq_ok.1 h
  obtain ⟨_, hgraphs, h⟩ := lift_bind_eq_ok.1 h
  cases pure_eq_ok.1 h
  exact ⟨hcompile, hgraphs⟩

/-- A supplier, as it is stored. -/
def storedSupplier : Cell := .node ⟨"s1", ["Supplier"], []⟩

/-- With a supplier in its column the row is resolved, and returns both edges.  The graph has none
under the key of the traversal that returns its edges only. -/
theorem suppliedGraphs_stored :
    ∃ r p c graphs row, suppliedGraphs storedSupplier = .ok (r, p, c, graphs) ∧
      c.shape = suppliedShape ∧
      r.row c.shape (suppliedOutput storedSupplier).columns (suppliedCells storedSupplier) =
        .ok row ∧
      (row.edge? "r2").map Edge.id = some "2" ∧ ∀ g ∈ graphs, g.edgesOf "suppliers" = [] := by
  have hrun : (do
      let (r, _, c, graphs) ← suppliedGraphs storedSupplier
      let row ← r.row c.shape (suppliedOutput storedSupplier).columns (suppliedCells storedSupplier)
      return (c.shape, (row.edge? "r2").map Edge.id,
        graphs.all fun g => (g.edgesOf "suppliers").isEmpty)).toOption =
      some (suppliedShape, some "2", true) := by
    decide +kernel
  obtain ⟨⟨r, p, c, graphs⟩, hgraphs, hrun⟩ := bind_eq_ok.1 (eq_ok_of_toOption hrun)
  obtain ⟨row, hrow, hrun⟩ := lift_bind_eq_ok.1 hrun
  obtain ⟨hshape, hseen⟩ := Prod.mk.inj (pure_eq_ok.1 hrun)
  obtain ⟨hedge, hnone⟩ := Prod.mk.inj hseen
  refine ⟨r, p, c, graphs, row, hgraphs, hshape, hrow, hedge, fun g hg => ?_⟩
  exact List.isEmpty_iff.1 (List.all_eq_true.1 hnone g hg)

end Sample

theorem QueryPlan.rows_within_subgraphs_supplied :
    ∃ (r : Registry) (p : QueryPlan) (c : CompiledQuery) (graphs : List Subgraph) (row : Row),
      p.compile r = .ok c ∧
      (Sample.suppliedOutput Sample.storedSupplier).columns = c.shape.columns.map Column.name ∧
      r.subgraphs (Sample.suppliedOutput Sample.storedSupplier) c.shape = .ok graphs ∧
      r.row c.shape (Sample.suppliedOutput Sample.storedSupplier).columns
        (Sample.suppliedCells Sample.storedSupplier) = .ok row ∧
      ∃ g ∈ graphs, row.Within (Sample.suppliedOutput Sample.storedSupplier) c.shape g := by
  obtain ⟨r, p, c, graphs, row, hrun, hshape, hrow, _⟩ := Sample.suppliedGraphs_stored
  obtain ⟨hcompile, hgraphs⟩ := Sample.suppliedGraphs_eq_ok hrun
  have hcolumns : (Sample.suppliedOutput Sample.storedSupplier).columns =
      c.shape.columns.map Column.name := by
    rw [hshape]
    rfl
  obtain ⟨_, _, _, _, _, g, hg, _, hwithin⟩ :=
    rows_within_subgraphs hcompile hcolumns hgraphs _ List.mem_cons_self
  exact ⟨r, p, c, graphs, row, hcompile, hcolumns, hgraphs, hrow, g, hg, (hwithin row hrow).2⟩

/-- Graphs are made of a result that is refused row by row, since the column of a node holds a text;
and an edge that a row returns without its node is in no graph. -/
theorem QueryPlan.subgraphs_pass_over :
    (¬ ∀ (r : Registry) (p : QueryPlan) (c : CompiledQuery) (output : QueryOutput)
        (graphs : List Subgraph), p.compile r = .ok c →
        output.columns = c.shape.columns.map Column.name →
        r.subgraphs output c.shape = .ok graphs →
          ∀ cells ∈ output.rows, ∀ x ∈ c.shape.columns.zip cells, x.1.kind.takes x.2 = true) ∧
      ¬ ∀ (r : Registry) (p : QueryPlan) (c : CompiledQuery) (output : QueryOutput)
        (graphs : List Subgraph), p.compile r = .ok c →
        output.columns = c.shape.columns.map Column.name →
        r.subgraphs output c.shape = .ok graphs →
          ∀ cells ∈ output.rows, ∀ row, r.row c.shape output.columns cells = .ok row →
            ∃ g ∈ graphs, ∀ column ∈ c.shape.columns, ∀ key, column.kind = .edge key →
              ∀ d, row.edge? column.name = some d → d.id ∈ (g.edgesOf key).map Edge.id := by
  constructor
  · intro htakes
    have hrun : (do
        let (_, _, c, _) ← Sample.suppliedGraphs (.value (.string "Acme"))
        return c.shape).toOption = some Sample.suppliedShape := by
      decide +kernel
    obtain ⟨⟨r, p, c, graphs⟩, hrun, hshape⟩ := bind_eq_ok.1 (eq_ok_of_toOption hrun)
    obtain ⟨hcompile, hgraphs⟩ := Sample.suppliedGraphs_eq_ok hrun
    have hshape : c.shape = Sample.suppliedShape := pure_eq_ok.1 hshape
    have htext := htakes r p c _ graphs hcompile (by rw [hshape]; rfl) hgraphs _
      List.mem_cons_self (⟨"s", .node ⟨"s", "suppliers", none, some "s_rel"⟩⟩, .value (.string "Acme"))
      (by rw [hshape]; exact List.mem_cons_of_mem _ List.mem_cons_self)
    cases htext
  · intro hedges
    obtain ⟨r, p, c, graphs, row, hrun, hshape, hrow, hedge, hnone⟩ := Sample.suppliedGraphs_stored
    obtain ⟨hcompile, hgraphs⟩ := Sample.suppliedGraphs_eq_ok hrun
    obtain ⟨d, hd, _⟩ := Option.map_eq_some_iff.1 hedge
    obtain ⟨g, hg, hkeys⟩ := hedges r p c _ graphs hcompile (by rw [hshape]; rfl) hgraphs _
      List.mem_cons_self row hrow
    have hmem := hkeys ⟨"r2", .edge "suppliers"⟩ (by rw [hshape]; simp [Sample.suppliedShape])
      "suppliers" rfl d hd
    rw [hnone g hg] at hmem
    cases hmem

end GraphMapper
