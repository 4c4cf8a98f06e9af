import GraphMapper.Proofs.Result.Collection
import GraphMapper.Registry.Call

/-!
# What the rows of a root bring

A row brings its root's graph one arrival for each node column in which both a
node and its parent are there (`QueryOutput.Arrives`).  `Gathered` says that
each graph holds the arrivals of the rows of its root, and of no others; a row
keeps it, so it holds of a result as a whole.
-/

namespace GraphMapper

/-! ## Arrivals by name -/

namespace QueryOutput

variable (output : QueryOutput)

/-- The node in a column of a row. -/
def node? (row : List Cell) (name : String) : Option RawNode :=
  ((output.columnIndex? name).bind fun i => row[i]?).bind Cell.node?

/-- The edge in a column of a row. -/
def edge? (row : List Cell) (name : String) : Option RawEdge :=
  ((output.columnIndex? name).bind fun i => row[i]?).bind Cell.edge?

/-- The identity of the parent of a node column in a row of a root, if the parent is there. -/
def parentId? (root : String) (row : List Cell) (c : NodeColumn) : Option String :=
  match c.parent? with
  | none => some root
  | some parent => (output.node? row parent).map RawNode.id

/-- What a row of a root brings by a node column of a name. -/
def arrival? (root : String) (row : List Cell) (name : String) (c : NodeColumn) : Option Arrival :=
  do
  let child ← output.node? row name
  let parent ← output.parentId? root row c
  return ⟨c.key, parent, child, c.edge?.bind (output.edge? row)⟩

/-- An arrival that some row of a root brings by some node column of a shape. -/
def Arrives (shape : ResultShape) (root : String) (a : Arrival) : Prop :=
  ∃ row ∈ output.rows, ∃ rootName node, shape.root? = some rootName ∧
    output.node? row rootName = some node ∧ node.id = root ∧
    ∃ column ∈ shape.columns, ∃ c, column.kind = .node c ∧
      output.arrival? root row column.name c = some a

end QueryOutput

namespace TraversalColumn

variable {output : QueryOutput} {shape : ResultShape} {r : Registry}

/-- What a row of a root brings by a column. -/
def arrival? (root : RawNode) (row : List Cell) (c : TraversalColumn) : Option Arrival := do
  let child ← row[c.index]?.bind Cell.node?
  let parent ← c.parentId? root row
  return ⟨c.key, parent, child, c.rawEdge? row⟩

theorem locate_eq_ok {name : String} {i : Nat} (h : locate output name = .ok i) :
    output.columnIndex? name = some i := by
  unfold locate at h
  split at h
  · next hi =>
    cases h
    exact hi
  · cases h

theorem mapM_locate_eq_ok {name? : Option String} {i? : Option Nat}
    (h : name?.mapM (locate output) = .ok i?) :
    (name? = none ∧ i? = none) ∨
      ∃ name i, name? = some name ∧ i? = some i ∧ output.columnIndex? name = some i := by
  cases name? with
  | none => exact .inl ⟨rfl, (pure_eq_ok.1 h).symm⟩
  | some name =>
    obtain ⟨i, hi, rfl⟩ := map_eq_ok.1 h
    exact .inr ⟨name, i, rfl, rfl, locate_eq_ok hi⟩

/-- A column that was found brings what the column of its name does. -/
theorem arrival?_eq {name : String} {n : NodeColumn} {c : TraversalColumn}
    (h : ofColumn output name n = .ok c) (root : RawNode) (row : List Cell) :
    c.arrival? root row = output.arrival? root.id row name n := by
  obtain ⟨index, hindex, h⟩ := bind_eq_ok.1 h
  obtain ⟨parent?, hparent, h⟩ := bind_eq_ok.1 h
  obtain ⟨edge?, hedge, h⟩ := bind_eq_ok.1 h
  obtain rfl := pure_eq_ok.1 h
  have hchild : output.node? row name = row[index]?.bind Cell.node? := by
    rw [QueryOutput.node?, locate_eq_ok hindex]
    rfl
  have hparentId : parentId? ⟨n.key, index, parent?, edge?⟩ root row =
      output.parentId? root.id row n := by
    unfold QueryOutput.parentId? QueryOutput.node?
    rcases mapM_locate_eq_ok hparent with ⟨hname, rfl⟩ | ⟨parent, i, hname, rfl, hi⟩
    · rw [hname]
      rfl
    · simp only [hname, hi]
      rfl
  have hrawEdge : rawEdge? ⟨n.key, index, parent?, edge?⟩ row = n.edge?.bind (output.edge? row) := by
    rcases mapM_locate_eq_ok hedge with ⟨hname, rfl⟩ | ⟨edge, i, hname, rfl, hi⟩
    · rw [hname]
      rfl
    · rw [hname, Option.bind_some, QueryOutput.edge?, hi]
      rfl
  rw [arrival?, QueryOutput.arrival?, hchild, hparentId, hrawEdge]

theorem filterMap_arrival? {named : List (String × NodeColumn)} {columns : List TraversalColumn}
    (h : List.Forall₂ (fun c t => ofColumn output c.1 c.2 = .ok t) named columns) (root : RawNode)
    (row : List Cell) :
    columns.filterMap (arrival? root row) =
      named.filterMap fun c => output.arrival? root.id row c.1 c.2 := by
  induction h with
  | nil => rfl
  | cons hc _ ih => rw [List.filterMap_cons, List.filterMap_cons, arrival?_eq hc, ih]

/-- The columns that were found bring what the node columns of the shape do. -/
theorem mem_all {columns : List TraversalColumn} (h : all output shape = .ok columns)
    {root : RawNode} {row : List Cell} {a : Arrival} :
    a ∈ columns.filterMap (arrival? root row) ↔
      ∃ column ∈ shape.columns, ∃ c, column.kind = .node c ∧
        output.arrival? root.id row column.name c = some a := by
  rw [filterMap_arrival? (forall₂_of_mapM h), List.mem_filterMap]
  constructor
  · rintro ⟨⟨name, c⟩, hnamed, ha⟩
    obtain ⟨column, hcolumn, hnode⟩ := List.mem_filterMap.1 hnamed
    split at hnode
    · next hkind =>
      cases hnode
      exact ⟨column, hcolumn, c, hkind, ha⟩
    · cases hnode
  · rintro ⟨column, hcolumn, c, hkind, ha⟩
    exact ⟨(column.name, c), List.mem_filterMap.2 ⟨column, hcolumn, by rw [hkind]⟩, ha⟩

theorem addTo_eq (root : RawNode) (row : List Cell) (g : Subgraph) (c : TraversalColumn) :
    c.addTo r root row g =
      match c.arrival? root row with
      | some a => g.add r a
      | none => .ok g := by
  unfold addTo arrival?
  cases row[c.index]?.bind Cell.node? with
  | none => rfl
  | some child =>
    cases c.parentId? root row with
    | none => rfl
    | some parent => rfl

end TraversalColumn

/-! ## Rows -/

/-- A row adds to a graph what its columns bring, and leaves the root. -/
theorem Subgraph.Holds.foldlM_addTo {r : Registry} {g g' : Subgraph} {arrivals : List Arrival}
    {columns : List TraversalColumn} {root : RawNode} {row : List Cell} (h : g.Holds r arrivals)
    (hrow : columns.foldlM (fun g c => c.addTo r root row g) g = .ok g') :
    g'.Holds r (arrivals ++ columns.filterMap (TraversalColumn.arrival? root row)) ∧
      g'.root = g.root := by
  induction columns generalizing g arrivals with
  | nil =>
    obtain rfl := pure_eq_ok.1 hrow
    rw [List.filterMap_nil, List.append_nil]
    exact ⟨h, rfl⟩
  | cons c rest ih =>
    obtain ⟨g₁, hfirst, hrest⟩ := bind_eq_ok.1 hrow
    rw [List.filterMap_cons]
    dsimp only at hfirst
    rw [TraversalColumn.addTo_eq] at hfirst
    split at hfirst
    · next a ha =>
      obtain ⟨h₁, hroot₁⟩ := h.add hfirst
      obtain ⟨h', hroot'⟩ := ih h₁ hrest
      rw [List.append_assoc, List.singleton_append] at h'
      rw [ha]
      exact ⟨h', hroot'.trans hroot₁⟩
    · next hnone =>
      obtain rfl := Except.ok.inj hfirst
      rw [hnone]
      exact ih h hrest

/-- The arrivals that the rows of a root bring. -/
def arrivalsOf (rows : List (RawNode × List Arrival)) (root : String) : List Arrival :=
  (rows.filter fun row => row.1.id == root).flatMap Prod.snd

theorem mem_arrivalsOf {rows : List (RawNode × List Arrival)} {root : String} {a : Arrival} :
    a ∈ arrivalsOf rows root ↔ ∃ row ∈ rows, row.1.id = root ∧ a ∈ row.2 := by
  simp [arrivalsOf, List.mem_flatMap, and_assoc]

theorem arrivalsOf_concat (rows : List (RawNode × List Arrival)) (row : RawNode × List Arrival)
    (root : String) :
    arrivalsOf (rows ++ [row]) root =
      arrivalsOf rows root ++ if row.1.id = root then row.2 else [] := by
  simp only [arrivalsOf, List.filter_append, List.flatMap_append, List.filter_cons, List.filter_nil,
    beq_iff_eq]
  split <;> simp

/-- There is a graph for every root of some rows, and it holds what the rows of this root bring. -/
structure Gathered (r : Registry) (rows : List (RawNode × List Arrival)) (graphs : List Subgraph) :
    Prop where
  roots : Collected r.entity RawNode.id Entity.id (rows.map Prod.fst) (graphs.map Subgraph.root)
  holds : ∀ g ∈ graphs, g.Holds r (arrivalsOf rows g.root.id)

theorem gathered_nil {r : Registry} : Gathered r [] [] := ⟨collected_nil, by simp⟩

namespace Registry

variable {r : Registry} {root : RawNode} {f : Subgraph → Except Error Subgraph}
  {graphs graphs' : List Subgraph}

/-- The graph that is updated is one of its root, or a new one where there is none. -/
theorem updateGraph_eq_ok (h : r.updateGraph root f graphs = .ok graphs') :
    (∃ e g, r.entity root = .ok e ∧ f (.ofRoot e) = .ok g ∧
        (∀ g ∈ graphs, g.root.id ≠ root.id) ∧ graphs' = graphs ++ [g]) ∨
      ∃ before g after g', graphs = before ++ g :: after ∧ g.root.id = root.id ∧ f g = .ok g' ∧
        graphs' = before ++ g' :: after := by
  induction graphs generalizing graphs' with
  | nil =>
    obtain ⟨e, he, h⟩ := bind_eq_ok.1 h
    obtain ⟨g, hg, h⟩ := bind_eq_ok.1 h
    obtain rfl := pure_eq_ok.1 h
    exact .inl ⟨e, g, he, hg, by simp, rfl⟩
  | cons g rest ih =>
    rw [updateGraph] at h
    split at h
    · next hsame =>
      obtain ⟨g', hg', h⟩ := bind_eq_ok.1 h
      obtain rfl := pure_eq_ok.1 h
      exact .inr ⟨[], g, rest, g', rfl, hsame, hg', rfl⟩
    · next hother =>
      obtain ⟨rest', hrest, h⟩ := bind_eq_ok.1 h
      obtain rfl := pure_eq_ok.1 h
      rcases ih hrest with ⟨e, g', he, hg', hnone, rfl⟩ | ⟨before, g₁, after, g', rfl, hid, hg', rfl⟩
      · exact .inl ⟨e, g', he, hg', List.forall_mem_cons.2 ⟨hother, hnone⟩, rfl⟩
      · exact .inr ⟨g :: before, g₁, after, g', rfl, hid, hg', rfl⟩

end Registry

variable {r : Registry} {rows : List (RawNode × List Arrival)} {graphs graphs' : List Subgraph}
  {output : QueryOutput} {columns : List TraversalColumn}

namespace Gathered

theorem notMem_ids {root : String} (hnew : ∀ g ∈ graphs, g.root.id ≠ root) :
    root ∉ (graphs.map Subgraph.root).map Entity.id := by
  rw [List.map_map, List.mem_map]
  rintro ⟨g, hg, hid⟩
  exact hnew g hg hid

/-- What has no graph yet has brought nothing. -/
theorem arrivalsOf_eq_nil (h : Gathered r rows graphs) {root : String}
    (hnew : ∀ g ∈ graphs, g.root.id ≠ root) : arrivalsOf rows root = [] := by
  refine List.eq_nil_iff_forall_not_mem.2 fun a ha => notMem_ids hnew ?_
  obtain ⟨row, hrow, hroot, _⟩ := mem_arrivalsOf.1 ha
  exact h.roots.mem_ids.2 ⟨row.1, List.mem_map_of_mem hrow, hroot⟩

/-- A graph holds nothing more when a row of another root comes. -/
theorem holds_concat (h : Gathered r rows graphs) {g : Subgraph} (hg : g ∈ graphs)
    {row : RawNode × List Arrival} (hid : g.root.id ≠ row.1.id) :
    g.Holds r (arrivalsOf (rows ++ [row]) g.root.id) := by
  rw [arrivalsOf_concat, if_neg (Ne.symm hid), List.append_nil]
  exact h.holds g hg

/-- The first row of a root opens its graph. -/
theorem newGraph (h : Gathered r rows graphs) {g : Subgraph} {root : RawNode}
    {arrivals : List Arrival} (hnew : ∀ g ∈ graphs, g.root.id ≠ root.id)
    (hroot : r.entity root = .ok g.root) (hholds : g.Holds r arrivals) :
    Gathered r (rows ++ [(root, arrivals)]) (graphs ++ [g]) := by
  have hid := Registry.id_of_entity root g.root hroot
  refine ⟨?_, fun g' hg' => ?_⟩
  · rw [List.map_append, List.map_singleton, List.map_append, List.map_singleton]
    exact h.roots.new (notMem_ids hnew) hroot hid
  · rcases List.mem_append.1 hg' with hg' | hg'
    · exact h.holds_concat hg' (hnew g' hg')
    · obtain rfl := List.mem_singleton.1 hg'
      rw [hid, arrivalsOf_concat, if_pos rfl, h.arrivalsOf_eq_nil hnew]
      exact hholds

/-- A further row of a root changes its graph alone, for there is just one. -/
theorem sameGraph {before after : List Subgraph} {g g' : Subgraph} {root : RawNode}
    {arrivals : List Arrival} (h : Gathered r rows (before ++ g :: after))
    (hid : g.root.id = root.id) (hroot : g'.root = g.root)
    (hholds : g'.Holds r (arrivalsOf rows g.root.id ++ arrivals)) :
    Gathered r (rows ++ [(root, arrivals)]) (before ++ g' :: after) := by
  have hroots : (before ++ g' :: after).map Subgraph.root =
      (before ++ g :: after).map Subgraph.root := by
    rw [List.map_append, List.map_append, List.map_cons, List.map_cons, hroot]
  have hother : ∀ g'' ∈ before ++ after, g''.root.id ≠ root.id := by
    have hnodup := h.roots.nodup
    rw [List.map_map, (List.perm_middle.map _).nodup_iff, List.map_cons, List.nodup_cons] at hnodup
    intro g'' hg'' heq
    exact hnodup.1 (List.mem_map.2 ⟨g'', hg'', heq.trans hid.symm⟩)
  refine ⟨?_, fun g'' hg'' => ?_⟩
  · rw [hroots, List.map_append, List.map_singleton]
    refine h.roots.known ?_
    rw [← hid]
    exact List.mem_map_of_mem (List.mem_map_of_mem (by simp))
  · rcases List.mem_cons.1 (List.perm_middle.mem_iff.1 hg'') with rfl | hg''
    · rw [hroot, arrivalsOf_concat, if_pos hid.symm]
      exact hholds
    · exact h.holds_concat (List.perm_middle.mem_iff.2 (List.mem_cons_of_mem g hg''))
        (hother g'' hg'')

/-- A row goes to the graph of its root and to no other. -/
theorem updateGraph {root : RawNode} {row : List Cell} (h : Gathered r rows graphs)
    (hupdate : r.updateGraph root (fun g => columns.foldlM (fun g c => c.addTo r root row g) g)
      graphs = .ok graphs') :
    Gathered r (rows ++ [(root, columns.filterMap (TraversalColumn.arrival? root row))]) graphs' := by
  rcases Registry.updateGraph_eq_ok hupdate with
    ⟨e, g, he, hg, hnew, rfl⟩ | ⟨before, g, after, g', rfl, hid, hg', rfl⟩
  · obtain ⟨hholds, hroot⟩ := (Subgraph.holds_ofRoot e).foldlM_addTo hg
    obtain rfl : g.root = e := hroot
    exact h.newGraph hnew he hholds
  · obtain ⟨hholds, hroot⟩ := (h.holds g (by simp)).foldlM_addTo hg'
    exact h.sameGraph hid hroot hholds

end Gathered

/-- What a row brings, with its root. -/
def rowArrivals? (rootIndex : Nat) (columns : List TraversalColumn) (row : List Cell) :
    Option (RawNode × List Arrival) :=
  (row[rootIndex]?.bind Cell.node?).map fun root =>
    (root, columns.filterMap (TraversalColumn.arrival? root row))

variable {rootName : String} {rootIndex : Nat}

/-- A row that is added has a root. -/
theorem Registry.addRow_eq_ok {row : List Cell} (hindex : rootIndex < output.columns.length)
    (h : r.addRow output rootName rootIndex columns graphs row = .ok graphs') :
    ∃ root, row[rootIndex]? = some (.node root) ∧
      r.updateGraph root (fun g => columns.foldlM (fun g c => c.addTo r root row g) g) graphs =
        .ok graphs' := by
  unfold addRow at h
  split at h
  · next root hroot =>
    dsimp only at h
    split at h
    · exact absurd h throw_bind_ne_ok
    · exact ⟨root, hroot, h⟩
  · dsimp only at h
    split at h
    · exact absurd h throw_bind_ne_ok
    · exact absurd h throw_ne_ok
  · next hnone =>
    dsimp only at h
    split at h
    · exact absurd h throw_bind_ne_ok
    · next hlength =>
      -- A row is as long as the columns are, so the root's cell is there.
      have hshort := List.getElem?_eq_none_iff.1 hnone
      omega

theorem Gathered.addRow {row : List Cell} (h : Gathered r rows graphs)
    (hindex : rootIndex < output.columns.length)
    (hrow : r.addRow output rootName rootIndex columns graphs row = .ok graphs') :
    ∃ arrivals, rowArrivals? rootIndex columns row = some arrivals ∧
      Gathered r (rows ++ [arrivals]) graphs' := by
  obtain ⟨root, hroot, hupdate⟩ := Registry.addRow_eq_ok hindex hrow
  refine ⟨(root, columns.filterMap (TraversalColumn.arrival? root row)), ?_, h.updateGraph hupdate⟩
  rw [rowArrivals?, hroot]
  rfl

/-- Row by row, every graph holds what the rows of its root brought so far. -/
theorem Gathered.foldlM_addRow {cells : List (List Cell)} (h : Gathered r rows graphs)
    (hindex : rootIndex < output.columns.length)
    (hrows : cells.foldlM (r.addRow output rootName rootIndex columns) graphs = .ok graphs') :
    ∃ arrivals, cells.map (rowArrivals? rootIndex columns) = arrivals.map some ∧
      Gathered r (rows ++ arrivals) graphs' := by
  induction cells generalizing rows graphs with
  | nil =>
    obtain rfl := pure_eq_ok.1 hrows
    exact ⟨[], rfl, by rwa [List.append_nil]⟩
  | cons row rest ih =>
    obtain ⟨graphs₁, hfirst, hrest⟩ := bind_eq_ok.1 hrows
    obtain ⟨first, hfirst, h₁⟩ := h.addRow hindex hfirst
    obtain ⟨arrivals, harrivals, h'⟩ := ih h₁ hrest
    refine ⟨first :: arrivals, ?_, ?_⟩
    · rw [List.map_cons, hfirst, harrivals, List.map_cons]
    · rwa [List.append_cons]

/-! ## Results -/

namespace Registry

variable {shape : ResultShape}

theorem subgraphs_eq_ok (h : r.subgraphs output shape = .ok graphs) :
    ∃ rootName rootIndex columns, shape.root? = some rootName ∧
      output.columnIndex? rootName = some rootIndex ∧
      TraversalColumn.all output shape = .ok columns ∧
      output.rows.foldlM (r.addRow output rootName rootIndex columns) [] = .ok graphs := by
  unfold subgraphs at h
  split at h
  · dsimp only at h
    split at h
    · exact absurd h throw_bind_ne_ok
    · exact absurd h throw_ne_ok
  · next rootName hname =>
    dsimp only at h
    split at h
    · exact absurd h throw_bind_ne_ok
    · obtain ⟨rootIndex, hindex, h⟩ := bind_eq_ok.1 h
      obtain ⟨columns, hcolumns, h⟩ := bind_eq_ok.1 h
      split at h
      · exact absurd h throw_bind_ne_ok
      · exact ⟨rootName, rootIndex, columns, hname, TraversalColumn.locate_eq_ok hindex, hcolumns, h⟩

theorem map_fst_rowArrivals? (hindex : output.columnIndex? rootName = some rootIndex)
    (columns : List TraversalColumn) (row : List Cell) :
    (rowArrivals? rootIndex columns row).map Prod.fst = output.node? row rootName := by
  rw [rowArrivals?, Option.map_map, QueryOutput.node?, hindex]
  exact Option.map_id'

/-- The rows of a root bring the arrivals that the shape makes of them. -/
theorem mem_arrivalsOf_iff (hname : shape.root? = some rootName)
    (hindex : output.columnIndex? rootName = some rootIndex)
    (hcolumns : TraversalColumn.all output shape = .ok columns)
    (hrows : output.rows.map (rowArrivals? rootIndex columns) = rows.map some) {root : String}
    {a : Arrival} : a ∈ arrivalsOf rows root ↔ output.Arrives shape root a := by
  have hrow (row : List Cell) (node : RawNode) : output.node? row rootName = some node ↔
      rowArrivals? rootIndex columns row =
        some (node, columns.filterMap (TraversalColumn.arrival? node row)) := by
    rw [← map_fst_rowArrivals? hindex columns]
    constructor
    · intro h
      obtain ⟨t, ht, rfl⟩ := Option.map_eq_some_iff.1 h
      obtain ⟨_, _, rfl⟩ := Option.map_eq_some_iff.1 ht
      exact ht
    · intro h
      rw [h]
      rfl
  have hmem (t : RawNode × List Arrival) :
      t ∈ rows ↔ ∃ row ∈ output.rows, rowArrivals? rootIndex columns row = some t := by
    rw [← List.mem_map, hrows]
    simp
  rw [mem_arrivalsOf]
  constructor
  · rintro ⟨t, ht, hroot, ha⟩
    obtain ⟨row, hrowMem, hsome⟩ := (hmem t).1 ht
    obtain ⟨node, hnode, rfl⟩ := Option.map_eq_some_iff.1 hsome
    obtain rfl := hroot
    exact ⟨row, hrowMem, rootName, node, hname, (hrow row node).2 hsome, rfl,
      (TraversalColumn.mem_all hcolumns).1 ha⟩
  · rintro ⟨row, hrowMem, rootName', node, hname', hnode, rfl, hcolumn⟩
    obtain rfl := Option.some.inj (hname'.symm.trans hname)
    exact ⟨_, (hmem _).2 ⟨row, hrowMem, (hrow row node).1 hnode⟩, rfl,
      (TraversalColumn.mem_all hcolumns).2 hcolumn⟩

/-- Where a result is resolved into graphs, every row has a root, and the graphs hold what the rows
of their roots bring. -/
theorem subgraphs_gathered (h : r.subgraphs output shape = .ok graphs) :
    ∃ rootName rows, shape.root? = some rootName ∧
      output.rows.map (fun row => output.node? row rootName) = (rows.map Prod.fst).map some ∧
      Gathered r rows graphs ∧
      ∀ root a, a ∈ arrivalsOf rows root ↔ output.Arrives shape root a := by
  obtain ⟨rootName, rootIndex, columns, hname, hindex, hcolumns, hfold⟩ := subgraphs_eq_ok h
  have hbound : rootIndex < output.columns.length :=
    (List.findIdx?_eq_some_iff_getElem.1 hindex).1
  obtain ⟨rows, hrows, hgathered⟩ := gathered_nil.foldlM_addRow hbound hfold
  rw [List.nil_append] at hgathered
  refine ⟨rootName, rows, hname, ?_, hgathered, fun root a => ?_⟩
  · have hroots := congrArg (List.map (Option.map Prod.fst)) hrows
    simpa only [List.map_map, Function.comp_def, map_fst_rowArrivals? hindex, Option.map_some] using
      hroots
  · exact mem_arrivalsOf_iff hname hindex hcolumns hrows

/-- Where a result is resolved into graphs, every row has a root, and there is one graph for each
root, in order of first appearance.  The graph consists of what the rows of its root bring and of
nothing else, so the child of every link is there, and `children` finds one for each link. -/
theorem subgraphs_exact (h : r.subgraphs output shape = .ok graphs) :
    (∃ (rootName : String) (roots : List RawNode), shape.root? = some rootName ∧
      output.rows.map (fun row => output.node? row rootName) = roots.map some ∧
      graphs.map (fun g => g.root.id) = (roots.map RawNode.id).eraseDups ∧
      ∀ g ∈ graphs, ∃ root ∈ roots, r.entity root = .ok g.root) ∧
    ∀ g ∈ graphs, g.Collects r (output.Arrives shape g.root.id) ∧
      (∀ l ∈ g.links, l.child ∈ (g.neighborsOf l.key).map Entity.id) ∧
      ∀ parent key, (g.children parent key).map Entity.id =
        (g.links.filter fun l => l.key == key && l.parent == parent).map Link.child := by
  obtain ⟨rootName, rows, hname, hroots, hgathered, harrives⟩ := subgraphs_gathered h
  refine ⟨⟨rootName, rows.map Prod.fst, hname, hroots, ?_, fun g hg => ?_⟩, fun g hg => ?_⟩
  · rw [← hgathered.roots.ids, List.map_map]
    rfl
  · exact hgathered.roots.resolved _ (List.mem_map_of_mem hg)
  · have hcollects := (hgathered.holds g hg).collects fun a => harrives g.root.id a
    exact ⟨hcollects, fun l hl => hcollects.child_mem hl, hcollects.map_children⟩

end Registry

namespace Sample

/-- Guests are known by one label. -/
def guests : Registry := .after [.node (.new "Guest")]

/-- A cell with a guest. -/
def guest (id : String) : Cell := .node ⟨id, ["Guest"], []⟩

/-- Who met whom: Ann meets the same guest twice, and once nobody comes; Ben meets that guest
too. -/
def meetings : QueryOutput :=
  let met (id start : String) : Cell := .edge ⟨id, "MET", start, "cy", []⟩
  ⟨["root", "other", "met"], [[guest "ann", guest "cy", met "1" "ann"],
    [guest "ann", .value .null, .value .null], [guest "ben", guest "cy", met "2" "ben"],
    [guest "ann", guest "cy", met "1" "ann"], [guest "ann", guest "cy", met "3" "ann"]]⟩

/-- One traversal, with the edges that it crosses. -/
def meetingShape : ResultShape :=
  ⟨some "root", some .fetch, [⟨"root", .root⟩, ⟨"other", .node ⟨"met", "met", none, some "met"⟩⟩,
    ⟨"met", .edge "met"⟩]⟩

end Sample

theorem Registry.subgraphs_exact_meetings :
    ∃ graphs, Sample.guests.subgraphs Sample.meetings Sample.meetingShape = .ok graphs ∧
      graphs.map (fun g => (g.root.id, g.links.length)) = [("ann", 2), ("ben", 1)] ∧
      ∀ g ∈ graphs, g.Collects Sample.guests
        (Sample.meetings.Arrives Sample.meetingShape g.root.id) := by
  have hcounts : (Sample.guests.subgraphs Sample.meetings Sample.meetingShape).toOption.map
      (fun graphs => graphs.map fun g => (g.root.id, g.links.length)) =
        some [("ann", 2), ("ben", 1)] := by
    decide +kernel
  obtain ⟨graphs, hgraphs, hlengths⟩ := Option.map_eq_some_iff.1 hcounts
  cases hrun : Sample.guests.subgraphs Sample.meetings Sample.meetingShape with
  | error e =>
    rw [hrun] at hgraphs
    cases hgraphs
  | ok graphs' =>
    rw [hrun] at hgraphs
    obtain rfl := Option.some.inj hgraphs
    exact ⟨graphs', rfl, hlengths, fun g hg => ((subgraphs_exact hrun).2 g hg).1⟩

end GraphMapper
