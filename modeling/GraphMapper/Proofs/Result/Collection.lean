import Mathlib.Data.List.Induction
import GraphMapper.Proofs.Steps
import GraphMapper.Result.Subgraph

/-!
# What a graph has collected

Neighbours, edges and links join a graph one by one, and each is left out when
its like is there.  What is collected so depends on what came and in which
order: the first of each identity (`Collected`, `Subgraph.Holds`).
-/

namespace GraphMapper

section EraseDups

variable {α : Type} [BEq α] [LawfulBEq α]

theorem eraseDups_concat_of_mem {as : List α} {a : α} (h : a ∈ as) :
    (as ++ [a]).eraseDups = as.eraseDups := by
  rw [List.eraseDups_append]
  simp [List.removeAll, h]

theorem eraseDups_concat_of_notMem {as : List α} {a : α} (h : a ∉ as) :
    (as ++ [a]).eraseDups = as.eraseDups ++ [a] := by
  rw [List.eraseDups_append]
  simp [List.removeAll, h, List.eraseDups_cons]

theorem nodup_eraseDups (as : List α) : as.eraseDups.Nodup := by
  induction as using List.reverseRecOn with
  | nil => exact List.nodup_nil
  | append_singleton as a ih =>
    by_cases h : a ∈ as
    · rw [eraseDups_concat_of_mem h]
      exact ih
    · rw [eraseDups_concat_of_notMem h]
      refine List.nodup_append.2 ⟨ih, List.pairwise_singleton _ a, fun b hb c hc hbc => ?_⟩
      rw [hbc, List.mem_singleton.1 hc] at hb
      exact h (List.mem_eraseDups.1 hb)

end EraseDups

/-! ## One of each identity -/

section Collected

variable {α β : Type} (resolve : α → Except Error β) (rawId : α → String) (id : β → String)

/-- The items collected from some raw ones: one of each identity, in the order of their first
appearance. -/
structure Collected (raws : List α) (items : List β) : Prop where
  ids : items.map id = (raws.map rawId).eraseDups
  resolved : ∀ b ∈ items, ∃ a ∈ raws, resolve a = .ok b

variable {resolve rawId id} {raws : List α} {items : List β} {a : α}

theorem collected_nil : Collected resolve rawId id [] [] := ⟨rfl, by simp⟩

namespace Collected

theorem mem_ids (h : Collected resolve rawId id raws items) {i : String} :
    i ∈ items.map id ↔ ∃ a ∈ raws, rawId a = i := by
  rw [h.ids, List.mem_eraseDups, List.mem_map]

theorem nodup (h : Collected resolve rawId id raws items) : (items.map id).Nodup := by
  rw [h.ids]
  exact nodup_eraseDups _

theorem resolved_concat (h : Collected resolve rawId id raws items) :
    ∀ b ∈ items, ∃ a' ∈ raws ++ [a], resolve a' = .ok b := fun b hb => by
  obtain ⟨a', ha', hb⟩ := h.resolved b hb
  exact ⟨a', List.mem_append_left _ ha', hb⟩

theorem known (h : Collected resolve rawId id raws items) (hknown : rawId a ∈ items.map id) :
    Collected resolve rawId id (raws ++ [a]) items where
  ids := by
    rw [h.ids, List.mem_eraseDups] at hknown
    rw [List.map_append, List.map_singleton, eraseDups_concat_of_mem hknown, h.ids]
  resolved := h.resolved_concat

theorem new {b : β} (h : Collected resolve rawId id raws items) (hnew : rawId a ∉ items.map id)
    (hb : resolve a = .ok b) (hid : id b = rawId a) :
    Collected resolve rawId id (raws ++ [a]) (items ++ [b]) where
  ids := by
    rw [h.ids, List.mem_eraseDups] at hnew
    rw [List.map_append, List.map_singleton, List.map_append, List.map_singleton,
      eraseDups_concat_of_notMem hnew, h.ids, hid]
  resolved b' hb' := by
    rcases List.mem_append.1 hb' with hb' | hb'
    · exact h.resolved_concat b' hb'
    · obtain rfl := List.mem_singleton.1 hb'
      exact ⟨a, by simp, hb⟩

/-- What is collected under the keys of a table, with one more item under one of them. -/
theorem collect {known known' : Dict (List β)} {raws : String → List α} {key : String}
    (hid : ∀ a b, resolve a = .ok b → id b = rawId a)
    (h : ∀ k, Collected resolve rawId id (raws k) ((known.get? k).getD []))
    (hcollect : GraphMapper.collect resolve rawId id known key a = .ok known') (k : String) :
    Collected resolve rawId id (raws k ++ if key = k then [a] else []) ((known'.get? k).getD []) := by
  have hany : (((known.get? key).getD []).any fun b => id b == rawId a) = true ↔
      rawId a ∈ ((known.get? key).getD []).map id := by simp
  unfold GraphMapper.collect at hcollect
  dsimp only at hcollect
  split at hcollect
  · next hknown =>
    obtain rfl := pure_eq_ok.1 hcollect
    split
    · next hkey =>
      subst hkey
      exact (h key).known (hany.1 hknown)
    · rw [List.append_nil]
      exact h k
  · next hnew =>
    obtain ⟨b, hb, hcollect⟩ := bind_eq_ok.1 hcollect
    obtain rfl := pure_eq_ok.1 hcollect
    rw [Dict.get?_insert]
    split
    · next hkey =>
      subst hkey
      exact (h key).new (fun hmem => hnew (hany.2 hmem)) hb (hid a b hb)
    · rw [List.append_nil]
      exact h k

end Collected

end Collected

namespace Registry

variable {r : Registry}

theorem id_of_entity (raw : RawNode) (e : Entity) (h : r.entity raw = .ok e) : e.id = raw.id := by
  unfold entity at h
  dsimp only at h
  split at h
  · obtain ⟨_, _, h⟩ := bind_eq_ok.1 h
    obtain rfl := pure_eq_ok.1 h
    rfl
  · exact absurd h throw_ne_ok
  · exact absurd h throw_ne_ok

theorem id_of_edge (raw : RawEdge) (e : Edge) (h : r.edge raw = .ok e) : e.id = raw.id := by
  unfold edge at h
  dsimp only at h
  split at h
  · obtain ⟨_, _, h⟩ := bind_eq_ok.1 h
    obtain rfl := pure_eq_ok.1 h
    rfl
  · obtain ⟨_, _, h⟩ := bind_eq_ok.1 h
    obtain rfl := pure_eq_ok.1 h
    rfl

end Registry

/-! ## Arrivals -/

/-- A child that was reached from a parent along a path. -/
structure Arrival where
  key : String
  parent : String
  child : RawNode
  edge? : Option RawEdge

/-- The link that an arrival leaves. -/
def Arrival.link (a : Arrival) : Link := ⟨a.key, a.parent, a.child.id, a.edge?.map RawEdge.id⟩

/-- The arrivals along the path of a key. -/
def arrivalsAlong (key : String) (arrivals : List Arrival) : List Arrival :=
  arrivals.filter fun a => a.key == key

theorem mem_arrivalsAlong {key : String} {arrivals : List Arrival} {a : Arrival} :
    a ∈ arrivalsAlong key arrivals ↔ a ∈ arrivals ∧ a.key = key := by
  simp [arrivalsAlong]

theorem arrivalsAlong_concat (key : String) (arrivals : List Arrival) (a : Arrival) :
    arrivalsAlong key (arrivals ++ [a]) =
      arrivalsAlong key arrivals ++ if a.key = key then [a] else [] := by
  simp only [arrivalsAlong, List.filter_append, List.filter_cons, List.filter_nil, beq_iff_eq]

namespace Subgraph

variable {r : Registry} {g g' : Subgraph} {arrivals : List Arrival}

/-- A graph with an arrival added. -/
def add (r : Registry) (g : Subgraph) (a : Arrival) : Except Error Subgraph := do
  let g ← g.addNeighbor r a.key a.child
  let g ←
    match a.edge? with
    | some edge => g.addEdge r a.key edge
    | none => pure g
  return g.addLink a.link

/-- A graph holds what some arrivals brought, path by path. -/
structure Holds (r : Registry) (g : Subgraph) (arrivals : List Arrival) : Prop where
  neighbors : ∀ key, Collected r.entity RawNode.id Entity.id
    ((arrivalsAlong key arrivals).map Arrival.child) (g.neighborsOf key)
  edges : ∀ key, Collected r.edge RawEdge.id Edge.id
    ((arrivalsAlong key arrivals).filterMap Arrival.edge?) (g.edgesOf key)
  links : g.links = (arrivals.map Arrival.link).eraseDups

theorem holds_ofRoot (root : Entity) : (ofRoot root).Holds r [] :=
  ⟨fun _ => collected_nil, fun _ => collected_nil, rfl⟩

theorem links_addLink {links : List Link} (h : g.links = links.eraseDups) (l : Link) :
    (g.addLink l).links = (links ++ [l]).eraseDups := by
  unfold addLink
  split
  · next hmem =>
    rw [List.contains_iff_mem, h, List.mem_eraseDups] at hmem
    rw [h, eraseDups_concat_of_mem hmem]
  · next hmem =>
    rw [List.contains_iff_mem, h, List.mem_eraseDups] at hmem
    rw [eraseDups_concat_of_notMem hmem, h]

theorem addLink_eq (g : Subgraph) (l : Link) :
    g.addLink l = { g with links := (g.addLink l).links } := by
  unfold addLink
  split <;> rfl

theorem add_eq_ok {a : Arrival} (h : g.add r a = .ok g') :
    ∃ neighbors edges,
      collect r.entity RawNode.id Entity.id g.neighbors a.key a.child = .ok neighbors ∧
      (match a.edge? with
        | some edge => collect r.edge RawEdge.id Edge.id g.edges a.key edge = .ok edges
        | none => edges = g.edges) ∧
      g' = addLink { g with neighbors, edges } a.link := by
  obtain ⟨g₁, hneighbor, h⟩ := bind_eq_ok.1 h
  obtain ⟨neighbors, hcollect, hneighbor⟩ := bind_eq_ok.1 hneighbor
  obtain rfl := pure_eq_ok.1 hneighbor
  cases hedge : a.edge? with
  | none =>
    simp only [hedge] at h
    exact ⟨neighbors, g.edges, hcollect, rfl, (pure_eq_ok.1 h).symm⟩
  | some edge =>
    simp only [hedge] at h
    obtain ⟨g₂, hadd, h⟩ := bind_eq_ok.1 h
    obtain ⟨edges, hedges, hadd⟩ := bind_eq_ok.1 hadd
    obtain rfl := pure_eq_ok.1 hadd
    exact ⟨neighbors, edges, hcollect, hedges, (pure_eq_ok.1 h).symm⟩

/-- An arrival joins those before it. -/
theorem Holds.add {a : Arrival} (h : g.Holds r arrivals) (hadd : g.add r a = .ok g') :
    g'.Holds r (arrivals ++ [a]) ∧ g'.root = g.root := by
  obtain ⟨neighbors, edges, hneighbors, hedges, rfl⟩ := add_eq_ok hadd
  have hlink := links_addLink (g := { g with neighbors, edges }) h.links a.link
  rw [addLink_eq, hlink]
  refine ⟨⟨fun key => ?_, fun key => ?_, by rw [List.map_append, List.map_singleton]⟩, rfl⟩
  · have hkey := Collected.collect Registry.id_of_entity h.neighbors hneighbors key
    have hchild : (if a.key = key then [a] else []).map Arrival.child =
        if a.key = key then [a.child] else [] := by
      split <;> rfl
    rw [arrivalsAlong_concat, List.map_append, hchild]
    exact hkey
  · rw [arrivalsAlong_concat, List.filterMap_append]
    cases hedge : a.edge? with
    | none =>
      rw [hedge] at hedges
      subst hedges
      have hnone : (if a.key = key then [a] else []).filterMap Arrival.edge? = [] := by
        split <;> simp [hedge]
      rw [hnone, List.append_nil]
      exact h.edges key
    | some edge =>
      rw [hedge] at hedges
      have hkey := Collected.collect Registry.id_of_edge h.edges hedges key
      have hsome : (if a.key = key then [a] else []).filterMap Arrival.edge? =
          if a.key = key then [edge] else [] := by
        split <;> simp [hedge]
      rw [hsome]
      exact hkey

/-- A graph consists of what some arrivals bring: the entities they reach and the edges they cross,
each once on its path, and a link for each way to reach one. -/
structure Collects (r : Registry) (g : Subgraph) (arrives : Arrival → Prop) : Prop where
  nodup_neighbors : ∀ key, ((g.neighborsOf key).map Entity.id).Nodup
  mem_neighbors : ∀ key id, id ∈ (g.neighborsOf key).map Entity.id ↔
    ∃ a, arrives a ∧ a.key = key ∧ a.child.id = id
  neighbors_resolved : ∀ key, ∀ e ∈ g.neighborsOf key,
    ∃ a, arrives a ∧ a.key = key ∧ r.entity a.child = .ok e
  nodup_links : g.links.Nodup
  mem_links : ∀ l, l ∈ g.links ↔ ∃ a, arrives a ∧ a.link = l
  nodup_edges : ∀ key, ((g.edgesOf key).map Edge.id).Nodup
  mem_edges : ∀ key id, id ∈ (g.edgesOf key).map Edge.id ↔
    ∃ l ∈ g.links, l.key = key ∧ l.edge? = some id
  edges_resolved : ∀ key, ∀ e ∈ g.edgesOf key,
    ∃ a raw, arrives a ∧ a.key = key ∧ a.edge? = some raw ∧ r.edge raw = .ok e

theorem Holds.mem_links (h : g.Holds r arrivals) (l : Link) :
    l ∈ g.links ↔ ∃ a ∈ arrivals, a.link = l := by
  rw [h.links, List.mem_eraseDups, List.mem_map]

theorem Holds.mem_neighbors (h : g.Holds r arrivals) (key id : String) :
    id ∈ (g.neighborsOf key).map Entity.id ↔ ∃ a ∈ arrivals, a.key = key ∧ a.child.id = id := by
  simp only [(h.neighbors key).mem_ids, List.mem_map, mem_arrivalsAlong]
  constructor
  · rintro ⟨_, ⟨a, ⟨ha, hkey⟩, rfl⟩, hid⟩
    exact ⟨a, ha, hkey, hid⟩
  · rintro ⟨a, ha, hkey, hid⟩
    exact ⟨a.child, ⟨a, ⟨ha, hkey⟩, rfl⟩, hid⟩

theorem Holds.mem_edges (h : g.Holds r arrivals) (key id : String) :
    id ∈ (g.edgesOf key).map Edge.id ↔ ∃ l ∈ g.links, l.key = key ∧ l.edge? = some id := by
  simp only [(h.edges key).mem_ids, List.mem_filterMap, mem_arrivalsAlong, h.mem_links]
  constructor
  · rintro ⟨raw, ⟨a, ⟨ha, hkey⟩, hedge⟩, rfl⟩
    exact ⟨a.link, ⟨a, ha, rfl⟩, hkey, congrArg (Option.map RawEdge.id) hedge⟩
  · rintro ⟨_, ⟨a, ha, rfl⟩, hkey, hid⟩
    obtain ⟨raw, hedge, rfl⟩ := Option.map_eq_some_iff.1 hid
    exact ⟨raw, ⟨a, ⟨ha, hkey⟩, hedge⟩, rfl⟩

theorem Holds.collects {arrives : Arrival → Prop} (h : g.Holds r arrivals)
    (harrives : ∀ a, a ∈ arrivals ↔ arrives a) : g.Collects r arrives where
  nodup_neighbors key := (h.neighbors key).nodup
  mem_neighbors key id := by simp only [h.mem_neighbors, harrives]
  neighbors_resolved key e he := by
    obtain ⟨raw, hraw, he⟩ := (h.neighbors key).resolved e he
    obtain ⟨a, ha, rfl⟩ := List.mem_map.1 hraw
    obtain ⟨ha, hkey⟩ := mem_arrivalsAlong.1 ha
    exact ⟨a, (harrives a).1 ha, hkey, he⟩
  nodup_links := by
    rw [h.links]
    exact nodup_eraseDups _
  mem_links l := by simp only [h.mem_links, harrives]
  nodup_edges key := (h.edges key).nodup
  mem_edges := h.mem_edges
  edges_resolved key e he := by
    obtain ⟨raw, hraw, he⟩ := (h.edges key).resolved e he
    obtain ⟨a, ha, hedge⟩ := List.mem_filterMap.1 hraw
    obtain ⟨ha, hkey⟩ := mem_arrivalsAlong.1 ha
    exact ⟨a, raw, (harrives a).1 ha, hkey, hedge, he⟩

/-- The child of every link is among the neighbours of its path. -/
theorem Collects.child_mem {arrives : Arrival → Prop} (h : g.Collects r arrives) {l : Link}
    (hl : l ∈ g.links) : l.child ∈ (g.neighborsOf l.key).map Entity.id := by
  obtain ⟨a, ha, rfl⟩ := (h.mem_links l).1 hl
  exact (h.mem_neighbors _ _).2 ⟨a, ha, rfl, rfl⟩

/-- Every link from a parent leads to one of its children, in order. -/
theorem Collects.map_children {arrives : Arrival → Prop} (h : g.Collects r arrives)
    (parent key : String) :
    (g.children parent key).map Entity.id =
      (g.links.filter fun l => l.key == key && l.parent == parent).map Link.child := by
  have hfound (links : List Link) (hlinks : ∀ l ∈ links, l ∈ g.links ∧ l.key = key) :
      (links.filterMap fun l => (g.neighborsOf key).find? fun e => e.id == l.child).map Entity.id =
        links.map Link.child := by
    induction links with
    | nil => rfl
    | cons l rest ih =>
      obtain ⟨⟨hl, rfl⟩, hrest⟩ := List.forall_mem_cons.1 hlinks
      obtain ⟨e, he, hid⟩ := List.mem_map.1 (h.child_mem hl)
      have hsome : ((g.neighborsOf l.key).find? fun e => e.id == l.child).isSome :=
        List.find?_isSome.2 ⟨e, he, beq_iff_eq.2 hid⟩
      obtain ⟨e', he'⟩ := Option.isSome_iff_exists.1 hsome
      have hid' : e'.id = l.child := by simpa using List.find?_some he'
      rw [List.filterMap_cons, he', List.map_cons, List.map_cons, ih hrest, hid']
  refine hfound _ fun l hl => ?_
  obtain ⟨hl, hkey⟩ := List.mem_filter.1 hl
  rw [Bool.and_eq_true, beq_iff_eq] at hkey
  exact ⟨hl, hkey.1⟩

end Subgraph

end GraphMapper
