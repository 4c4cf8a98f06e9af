import GraphMapper.Proofs.Result.Subgraph

/-!
# How often a child is found

The neighbours of a path stand once for each identity, but a parent's children
are found link by link, and two links may join the same pair: by two edges, or
by one edge and by none.  So an entity is among the children of a parent where
any way leads to it, and it is there as many times as ways do
(`Subgraph.ways`).  Rows alone do not repeat it.
-/

namespace GraphMapper

namespace Subgraph

/-- The ways from a parent to a child along a path: the edges between the two, and `none` where a
row reached the child without one. -/
def ways (g : Subgraph) (parent key child : String) : List (Option String) :=
  (g.links.filter fun l => l.key == key && l.parent == parent && l.child == child).map Link.edge?

variable {r : Registry} {g : Subgraph} {arrives : Arrival → Prop}

theorem mem_ways {parent key child : String} {edge? : Option String} :
    edge? ∈ g.ways parent key child ↔ ⟨key, parent, child, edge?⟩ ∈ g.links := by
  simp only [ways, List.mem_map, List.mem_filter, Bool.and_eq_true, beq_iff_eq]
  constructor
  · rintro ⟨l, ⟨hl, ⟨rfl, rfl⟩, rfl⟩, rfl⟩
    exact hl
  · intro hl
    exact ⟨_, ⟨hl, ⟨rfl, rfl⟩, rfl⟩, rfl⟩

namespace Collects

/-- No way stands twice, however many rows took it. -/
theorem nodup_ways (h : g.Collects r arrives) (parent key child : String) :
    (g.ways parent key child).Nodup := by
  refine List.Nodup.map_on (fun l hl l' hl' hedge => ?_) (h.nodup_links.filter _)
  simp only [List.mem_filter, Bool.and_eq_true, beq_iff_eq] at hl hl'
  obtain ⟨_, ⟨hkey, hparent⟩, hchild⟩ := hl
  obtain ⟨_, ⟨hkey', hparent'⟩, hchild'⟩ := hl'
  cases l
  cases l'
  simp_all

/-- A child is found once for each way to it. -/
theorem count_children (h : g.Collects r arrives) (parent key child : String) :
    ((g.children parent key).map Entity.id).count child = (g.ways parent key child).length := by
  rw [h.map_children, ways, List.length_map, List.count, List.countP_map, List.countP_filter,
    List.countP_eq_length_filter]
  congr 1
  refine List.filter_congr fun l _ => ?_
  rw [Function.comp_apply, Bool.and_comm]

theorem mem_ids_children (h : g.Collects r arrives) {parent key child : String} :
    child ∈ (g.children parent key).map Entity.id ↔
      ∃ l ∈ g.links, l.key = key ∧ l.parent = parent ∧ l.child = child := by
  simp only [h.map_children, List.mem_map, List.mem_filter, Bool.and_eq_true, beq_iff_eq, and_assoc]

/-- Every child is a neighbour, and a neighbour is a child where a link leads to it. -/
theorem mem_children (h : g.Collects r arrives) {parent key : String} {e : Entity} :
    e ∈ g.children parent key ↔
      e ∈ g.neighborsOf key ∧ ∃ l ∈ g.links, l.key = key ∧ l.parent = parent ∧ l.child = e.id := by
  constructor
  · intro he
    refine ⟨?_, h.mem_ids_children.1 (List.mem_map_of_mem he)⟩
    obtain ⟨l, _, hfound⟩ := List.mem_filterMap.1 he
    exact List.mem_of_find?_eq_some hfound
  · rintro ⟨he, hlink⟩
    obtain ⟨e', he', hid⟩ := List.mem_map.1 (h.mem_ids_children.2 hlink)
    obtain ⟨l, _, hfound⟩ := List.mem_filterMap.1 he'
    -- Both are neighbours of one path, where an identity stands for one entity.
    obtain rfl := List.inj_on_of_nodup_map (h.nodup_neighbors key)
      (List.mem_of_find?_eq_some hfound) he hid
    exact he'

/-- No child is repeated where at most one way leads from the parent to each, and only there. -/
theorem nodup_children_iff (h : g.Collects r arrives) (parent key : String) :
    ((g.children parent key).map Entity.id).Nodup ↔
      ∀ child, (g.ways parent key child).length ≤ 1 := by
  simp only [List.nodup_iff_count_le_one, h.count_children]

end Collects

end Subgraph

namespace Registry

variable {r : Registry} {output : QueryOutput} {shape : ResultShape} {graphs : List Subgraph}

/-- In every graph that a result is resolved into, the children of a parent along a path are the
neighbours of the path to which a link leads from the parent.  Each is there once for every way to
it, and the ways are those that some row of the root takes; so the children are distinct where no
two ways lead from the parent to one of them, and only there. -/
theorem children_by_ways (h : r.subgraphs output shape = .ok graphs) :
    ∀ g ∈ graphs, ∀ parent key,
      (∀ e, e ∈ g.children parent key ↔
        e ∈ g.neighborsOf key ∧
          ∃ l ∈ g.links, l.key = key ∧ l.parent = parent ∧ l.child = e.id) ∧
      (∀ l ∈ g.links, l.key = key → l.parent = parent →
        ∃ e ∈ g.children parent key, e.id = l.child) ∧
      (∀ child,
        ((g.children parent key).map Entity.id).count child = (g.ways parent key child).length ∧
        (g.ways parent key child).Nodup ∧
        ∀ edge?, edge? ∈ g.ways parent key child ↔
          ∃ a, output.Arrives shape g.root.id a ∧ a.link = ⟨key, parent, child, edge?⟩) ∧
      (((g.children parent key).map Entity.id).Nodup ↔
        ∀ child, (g.ways parent key child).length ≤ 1) := by
  obtain ⟨_, rows, _, _, hgathered, harrives⟩ := subgraphs_gathered h
  intro g hg parent key
  have hcollects := (hgathered.holds g hg).collects fun a => harrives g.root.id a
  refine ⟨fun e => hcollects.mem_children, fun l hl hkey hparent => ?_, fun child => ?_,
    hcollects.nodup_children_iff parent key⟩
  · exact List.mem_map.1 (hcollects.mem_ids_children.2 ⟨l, hl, hkey, hparent, rfl⟩)
  · refine ⟨hcollects.count_children parent key child, hcollects.nodup_ways parent key child,
      fun edge? => ?_⟩
    rw [Subgraph.mem_ways, hcollects.mem_links]

end Registry

/-- Ann met one guest on two occasions, in three rows, and finds that guest twice. -/
theorem Sample.exists_met : ∃ graphs, guests.subgraphs meetings meetingShape = .ok graphs ∧
    graphs.map (fun g => (g.root.id, (g.children g.root.id "met").map Entity.id,
      g.ways g.root.id "met" "cy")) =
        [("ann", ["cy", "cy"], [some "1", some "3"]), ("ben", ["cy"], [some "2"])] := by
  have hmet : (guests.subgraphs meetings meetingShape).toOption.map
      (fun graphs => graphs.map fun g => (g.root.id, (g.children g.root.id "met").map Entity.id,
        g.ways g.root.id "met" "cy")) =
          some [("ann", ["cy", "cy"], [some "1", some "3"]), ("ben", ["cy"], [some "2"])] := by
    decide +kernel
  obtain ⟨graphs, hgraphs, hmet⟩ := Option.map_eq_some_iff.1 hmet
  exact ⟨graphs, eq_ok_of_toOption hgraphs, hmet⟩

namespace Registry

theorem children_by_ways_meetings :
    ∃ graphs, Sample.guests.subgraphs Sample.meetings Sample.meetingShape = .ok graphs ∧
      graphs.map (fun g => g.ways g.root.id "met" "cy") = [[some "1", some "3"], [some "2"]] ∧
      ∀ g ∈ graphs, ∀ parent, ((g.children parent "met").map Entity.id).Nodup ↔
        ∀ child, (g.ways parent "met" child).length ≤ 1 := by
  obtain ⟨graphs, hrun, hmet⟩ := Sample.exists_met
  refine ⟨graphs, hrun, ?_, fun g hg parent => (children_by_ways hrun g hg parent "met").2.2.2⟩
  simpa [Function.comp_def] using congrArg (List.map fun met => met.2.2) hmet

/-- Two edges between one pair repeat the child. -/
theorem child_repeated :
    ∃ graphs, Sample.guests.subgraphs Sample.meetings Sample.meetingShape = .ok graphs ∧
      ¬ ∀ g ∈ graphs, ∀ parent key, ((g.children parent key).map Entity.id).Nodup := by
  obtain ⟨graphs, hrun, hmet⟩ := Sample.exists_met
  refine ⟨graphs, hrun, fun hnodup => ?_⟩
  obtain ⟨g, rest, rfl⟩ : ∃ g rest, graphs = g :: rest :=
    List.exists_cons_of_ne_nil fun hnil => by simp [hnil] at hmet
  have hchildren : (g.children g.root.id "met").map Entity.id = ["cy", "cy"] := by
    simpa using congrArg (fun met => (met.map fun m => m.2.1).head?) hmet
  have hdistinct := hnodup g List.mem_cons_self g.root.id "met"
  rw [hchildren] at hdistinct
  exact absurd hdistinct (by decide)

end Registry

end GraphMapper
