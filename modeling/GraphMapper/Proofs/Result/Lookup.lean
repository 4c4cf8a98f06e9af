import GraphMapper.Result.Subgraph
import GraphMapper.Proofs.Steps

/-!
# Subgraphs look up columns that are there

Resolving subgraphs looks up columns by the names that the shape gives: the
root's, each node's, its parent's and its edge's.  Where the result has them
all, resolving does not fail for want of a column, whatever else may go wrong
(`Registry.findsColumns_subgraphs`).
-/

namespace GraphMapper

/-- A computation that does not fail for want of a column. -/
def FindsColumns {α : Type} (x : Except Error α) : Prop :=
  ∀ name, x ≠ .error (.resolution (.noColumn name))

namespace FindsColumns

variable {α β σ : Type}

theorem ok (a : α) : FindsColumns (.ok a : Except Error α) := nofun

theorem throw {e : Error} (he : ∀ name, e ≠ .resolution (.noColumn name)) :
    FindsColumns (MonadExcept.throw e : Except Error α) := fun name hname =>
  he name (Except.error.inj hname)

theorem throw_bind {e : Error} {f : α → Except Error β}
    (he : ∀ name, e ≠ .resolution (.noColumn name)) :
    FindsColumns ((MonadExcept.throw e : Except Error α) >>= f) :=
  throw he

theorem iff_fails {x : Except Error α} :
    FindsColumns x ↔ Fails (fun e => ∀ name, e ≠ .resolution (.noColumn name)) x :=
  ⟨fun h _ he name hname => h name (hname ▸ he), fun h name he => h _ he name rfl⟩

theorem bind {x : Except Error α} {f : α → Except Error β} (hx : FindsColumns x)
    (hf : ∀ a, FindsColumns (f a)) : FindsColumns (x >>= f) :=
  iff_fails.2 ((iff_fails.1 hx).bind fun a _ => iff_fails.1 (hf a))

theorem map {x : Except Error α} (hx : FindsColumns x) (f : α → β) : FindsColumns (f <$> x) := by
  rw [map_eq_pure_bind]
  exact hx.bind fun a => ok (f a)

theorem mapM {f : α → Except Error β} {l : List α} (hf : ∀ a ∈ l, FindsColumns (f a)) :
    FindsColumns (l.mapM f) :=
  iff_fails.2 (.mapM fun a ha => iff_fails.1 (hf a ha))

theorem mapM_option {f : α → Except Error β} {a? : Option α}
    (hf : ∀ a, a? = some a → FindsColumns (f a)) : FindsColumns (a?.mapM f) := by
  cases a? with
  | none => exact ok none
  | some a => exact (hf a rfl).map some

theorem foldlM {f : σ → α → Except Error σ} {l : List α} {s : σ}
    (hf : ∀ s a, FindsColumns (f s a)) : FindsColumns (l.foldlM f s) :=
  iff_fails.2 (.foldlM fun s a _ => iff_fails.1 (hf s a))

end FindsColumns

/-! ## Cells -/

theorem Property.findsColumns_read (p : Property) (raw : Dict Value) :
    FindsColumns (p.read raw) := by
  unfold Property.read
  split
  · cases p.codec.decode _ with
    | ok v => exact .ok v
    | error e => nofun
  · exact .ok _

theorem findsColumns_readProperties (declared : List Property) (raw : Dict Value) :
    FindsColumns (readProperties declared raw) :=
  .bind (.mapM fun p _ => (p.findsColumns_read raw).bind fun _ => .ok _) fun _ => .ok _

namespace Registry

variable (r : Registry)

theorem findsColumns_resolve (labels : LabelSet) : FindsColumns (r.resolve labels) := by
  unfold resolve
  split
  · exact .ok _
  · unfold LabelTable.search
    split
    · nofun
    · split
      · exact .ok _
      · nofun

theorem findsColumns_entity (raw : RawNode) : FindsColumns (r.entity raw) := by
  have hresolve := r.findsColumns_resolve (LabelSet.ofList raw.labels)
  unfold entity
  dsimp only
  split
  · exact (findsColumns_readProperties _ _).bind fun _ => .ok _
  · exact .throw nofun
  · next e _ he =>
    refine .throw fun name hname => hresolve name ?_
    rw [he, hname]

theorem findsColumns_edge (raw : RawEdge) : FindsColumns (r.edge raw) := by
  unfold edge
  dsimp only
  split
  · exact (findsColumns_readProperties _ _).bind fun _ => .ok _
  · exact .ok _

end Registry

/-! ## Rows -/

theorem findsColumns_collect {α β : Type} {resolve : α → Except Error β} {rawId : α → String}
    {id : β → String} {known : Dict (List β)} {key : String} {raw : α}
    (hraw : FindsColumns (resolve raw)) : FindsColumns (collect resolve rawId id known key raw) := by
  unfold collect
  dsimp only
  split
  · exact .ok _
  · exact hraw.bind fun _ => .ok _

theorem Subgraph.findsColumns_addNeighbor (r : Registry) (g : Subgraph) (key : String)
    (raw : RawNode) : FindsColumns (g.addNeighbor r key raw) :=
  (findsColumns_collect (r.findsColumns_entity raw)).bind fun _ => .ok _

theorem Subgraph.findsColumns_addEdge (r : Registry) (g : Subgraph) (key : String)
    (raw : RawEdge) : FindsColumns (g.addEdge r key raw) :=
  (findsColumns_collect (r.findsColumns_edge raw)).bind fun _ => .ok _

namespace TraversalColumn

variable {output : QueryOutput} {shape : ResultShape}

theorem findsColumns_addTo (r : Registry) (root : RawNode) (row : List Cell) (g : Subgraph)
    (c : TraversalColumn) : FindsColumns (c.addTo r root row g) := by
  unfold addTo
  split
  · refine (g.findsColumns_addNeighbor r _ _).bind fun g' => ?_
    dsimp only
    split
    · exact (g'.findsColumns_addEdge r _ _).bind fun _ => .ok _
    · exact .ok _
  · exact .ok _

theorem findsColumns_locate {name : String} (h : name ∈ output.columns) :
    FindsColumns (locate output name) := by
  unfold locate QueryOutput.columnIndex?
  cases hi : output.columns.findIdx? (· == name) with
  | some i => exact .ok i
  | none =>
    have hnone := List.findIdx?_eq_none_iff.1 hi name h
    simp at hnone

/-- A node column is found with its parent's and its edge's. -/
theorem findsColumns_ofColumn {name : String} {c : NodeColumn} (hname : name ∈ output.columns)
    (hparent : ∀ v, c.parent? = some v → v ∈ output.columns)
    (hedge : ∀ v, c.edge? = some v → v ∈ output.columns) :
    FindsColumns (ofColumn output name c) := by
  unfold ofColumn
  refine (findsColumns_locate hname).bind fun index => ?_
  refine FindsColumns.bind (.mapM_option fun v hv => findsColumns_locate (hparent v hv)) fun _ => ?_
  exact FindsColumns.bind (.mapM_option fun v hv => findsColumns_locate (hedge v hv)) fun _ => .ok _

end TraversalColumn

namespace Registry

variable (r : Registry)

theorem findsColumns_updateGraph (root : RawNode) {f : Subgraph → Except Error Subgraph}
    (hf : ∀ g, FindsColumns (f g)) (graphs : List Subgraph) :
    FindsColumns (r.updateGraph root f graphs) := by
  induction graphs with
  | nil =>
    unfold updateGraph
    exact (r.findsColumns_entity root).bind fun e => (hf _).bind fun g => .ok [g]
  | cons g rest ih =>
    unfold updateGraph
    split
    · exact (hf g).bind fun _ => .ok _
    · exact ih.bind fun _ => .ok _

theorem findsColumns_addRow (output : QueryOutput) (rootName : String) (rootIndex : Nat)
    (columns : List TraversalColumn) (graphs : List Subgraph) (row : List Cell) :
    FindsColumns (r.addRow output rootName rootIndex columns graphs row) := by
  unfold addRow
  split
  · next root _ =>
    dsimp only
    split
    · exact .throw_bind nofun
    · exact r.findsColumns_updateGraph root
        (fun g => .foldlM fun g c => TraversalColumn.findsColumns_addTo r root row g c) graphs
  · dsimp only
    split
    · exact .throw_bind nofun
    · exact .throw nofun
  · dsimp only
    split
    · exact .throw_bind nofun
    · exact .ok _

/-- Subgraphs are resolved without missing a column where the result has every column that the
shape names. -/
theorem findsColumns_subgraphs {output : QueryOutput} {shape : ResultShape}
    (hroot : ∀ v, shape.root? = some v → v ∈ output.columns)
    (hcolumns : ∀ c ∈ shape.columns, ∀ n, c.kind = .node n → c.name ∈ output.columns ∧
      (∀ v, n.parent? = some v → v ∈ output.columns) ∧
      ∀ v, n.edge? = some v → v ∈ output.columns) :
    FindsColumns (r.subgraphs output shape) := by
  have hall : FindsColumns (TraversalColumn.all output shape) := by
    refine .mapM fun column hcolumn => ?_
    obtain ⟨c, hc, hnode⟩ := List.mem_filterMap.1 hcolumn
    cases hkind : c.kind with
    | node n =>
      rw [hkind] at hnode
      obtain rfl := Option.some.inj hnode
      obtain ⟨hname, hparent, hedge⟩ := hcolumns c hc n hkind
      exact TraversalColumn.findsColumns_ofColumn hname hparent hedge
    | root | edge | projection =>
      rw [hkind] at hnode
      cases hnode
  unfold subgraphs
  split
  · dsimp only
    split
    · exact .throw_bind nofun
    · exact .throw nofun
  · next root hsome =>
    dsimp only
    split
    · exact .throw_bind nofun
    · refine (TraversalColumn.findsColumns_locate (hroot root hsome)).bind fun rootIndex => ?_
      refine hall.bind fun columns => ?_
      split
      · exact .throw_bind nofun
      · exact .foldlM fun graphs row => r.findsColumns_addRow output root rootIndex columns graphs row

end Registry

end GraphMapper
