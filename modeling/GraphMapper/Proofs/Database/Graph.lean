import GraphMapper.Database.Request
import GraphMapper.Guard.Check
import GraphMapper.Proofs.Steps
import GraphMapper.Integer64

/-!
# Drivers that hold a graph

What requests about edges mean where a graph is stored: what is answered, and
what is stored afterwards (`Graph.Answers`).  A driver holds a graph if what it
answers is true of it, in a transaction as well as outside (`Driver.Holds`); it
may fail at any request.  `Graph.driver` is such a driver.

Edges are counted as a pattern matches them: an edge that may have either
direction counts at both of its ends, and once where these are the same.
-/

namespace GraphMapper

/-! ## Kinds of edges -/

namespace EdgeKind

variable {k : EdgeKind} {us them : String} {e : RawEdge}

/-- Whether an edge is of a kind, seen from one node. -/
def isAt (k : EdgeKind) (us : String) (e : RawEdge) : Bool :=
  e.relType == k.relType &&
    match k.direction with
    | .outgoing => e.start == us
    | .incoming => e.finish == us
    | .either => e.start == us || e.finish == us

/-- Whether an edge is of a kind, seen from one node, and has another at its other end. -/
def joins (k : EdgeKind) (us them : String) (e : RawEdge) : Bool :=
  e.relType == k.relType &&
    match k.direction with
    | .outgoing => e.start == us && e.finish == them
    | .incoming => e.finish == us && e.start == them
    | .either => (e.start == us && e.finish == them) || (e.finish == us && e.start == them)

/-- The kind of the same edges, seen from their other ends. -/
def reversed (k : EdgeKind) : EdgeKind := ⟨k.relType, k.direction.reversed⟩

theorem isAt_of_joins (h : k.joins us them e = true) : k.isAt us e = true := by
  obtain ⟨relType, direction⟩ := k
  cases direction <;> simp only [joins, isAt, Bool.and_eq_true, Bool.or_eq_true] at h ⊢
  case outgoing | incoming => exact ⟨h.1, h.2.1⟩
  case either => exact ⟨h.1, h.2.imp And.left And.left⟩

theorem isAt_reversed_of_joins (h : k.joins us them e = true) :
    k.reversed.isAt them e = true := by
  obtain ⟨relType, direction⟩ := k
  cases direction <;> simp only [joins, Bool.and_eq_true, Bool.or_eq_true] at h
  all_goals simp only [isAt, reversed, Direction.reversed, Bool.and_eq_true, Bool.or_eq_true]
  case outgoing | incoming => exact ⟨h.1, h.2.2⟩
  case either => exact ⟨h.1, h.2.symm.imp And.right And.right⟩

/-- An edge that is seen from two nodes joins them, unless they are the same. -/
theorem joins_of_isAt (hne : us ≠ them ∨ k.direction ≠ .either) (hus : k.isAt us e = true)
    (hthem : k.reversed.isAt them e = true) : k.joins us them e = true := by
  obtain ⟨relType, direction⟩ := k
  cases direction <;> simp only [isAt, Bool.and_eq_true, Bool.or_eq_true, beq_iff_eq] at hus
  all_goals
    simp only [isAt, reversed, Direction.reversed, Bool.and_eq_true, Bool.or_eq_true,
      beq_iff_eq] at hthem
    simp only [joins, Bool.and_eq_true, Bool.or_eq_true, beq_iff_eq]
  case outgoing | incoming => exact ⟨hus.1, hus.2, hthem.2⟩
  case either =>
    have hne : us ≠ them := hne.resolve_right fun h => h rfl
    refine ⟨hus.1, ?_⟩
    rcases hus.2 with hstart | hfinish
    · exact .inl ⟨hstart, hthem.2.resolve_left fun h => hne (hstart.symm.trans h)⟩
    · exact .inr ⟨hfinish, hthem.2.resolve_right fun h => hne (hfinish.symm.trans h)⟩

end EdgeKind

/-! ## Graphs -/

/-- A finite multigraph of typed edges between nodes. -/
structure Graph where
  nodes : List RawNode
  /-- Several edges may agree in everything. -/
  edges : List RawEdge
  distinct : (nodes.map RawNode.id).Nodup
  joined : ∀ e ∈ edges, e.start ∈ nodes.map RawNode.id ∧ e.finish ∈ nodes.map RawNode.id

namespace Graph

variable {g : Graph} {k : EdgeKind} {us them : String}

/-- The identities of the nodes. -/
def ids (g : Graph) : List String := g.nodes.map RawNode.id

/-- The number of edges of a kind at a node. -/
def countAt (g : Graph) (k : EdgeKind) (us : String) : Nat := g.edges.countP (k.isAt us)

/-- The number of edges of a kind between two nodes. -/
def countBetween (g : Graph) (k : EdgeKind) (us them : String) : Nat :=
  g.edges.countP (k.joins us them)

/-- How many edges a node would keep if another lost all of its own. -/
def remaining (g : Graph) (k inverse : EdgeKind) (source : String) (n : RawNode) : Int :=
  g.countAt inverse n.id - g.countBetween k source n.id

/-- The neighbours with some label that would have fewer edges than a bound if a node lost all of
its own, one neighbour left out. -/
def lacking (g : Graph) (k : EdgeKind) (label : String) (inverse : EdgeKind) (least : Nat)
    (source : String) (kept? : Option String) : List RawNode :=
  g.nodes.filter fun n =>
    n.labels.contains label && kept? != some n.id && decide (0 < g.countBetween k source n.id) &&
      decide (g.remaining k inverse source n < least)

/-- The nodes with some label that have fewer or more edges than allowed. -/
def outside (g : Graph) (k : EdgeKind) (label : String) (least : Nat) (most? : Option Nat) :
    List RawNode :=
  g.nodes.filter fun n =>
    n.labels.contains label &&
      (decide (g.countAt k n.id < least) || most?.any fun most => decide (most < g.countAt k n.id))

/-- The graph without some edges. -/
def without (g : Graph) (gone : RawEdge → Bool) : Graph where
  nodes := g.nodes
  edges := g.edges.filter fun e => !gone e
  distinct := g.distinct
  joined e he := g.joined e (List.mem_filter.1 he).1

/-- The graph with an edge more. -/
def withEdge (g : Graph) (e : RawEdge) (h : e.start ∈ g.ids ∧ e.finish ∈ g.ids) : Graph where
  nodes := g.nodes
  edges := g.edges ++ [e]
  distinct := g.distinct
  joined e' he' := by
    rcases List.mem_append.1 he' with he' | he'
    · exact g.joined e' he'
    · rw [List.mem_singleton.1 he']
      exact h

end Graph

/-- Whether some properties are stored on an edge. -/
def RawEdge.carries (e : RawEdge) (properties : List (String × Value)) : Bool :=
  properties.all fun p => (e.properties.get? p.1).any fun v => v.same p.2

namespace Graph

/-- A row with the identity of a node, and a number for it. -/
def RowOf (f : IdFunction) (number : RawNode → Int) (n : RawNode) (row : List Cell) : Prop :=
  ∃ i : Int64, i.toInt = number n ∧ row = [.value (f.operand n.id), .value (.int i)]

/-- What a request is answered where a graph is stored, and the graph that is stored then. -/
inductive Answers (f : IdFunction) (g : Graph) : EdgeRequest → QueryOutput → Graph → Prop
  | countAt {k : EdgeKind} {us : String} {i : Int64} (hcount : i.toInt = g.countAt k us) :
    Answers f g (.countAt k us) (.scalar "count" (.int i)) g
  | countBetween {k : EdgeKind} {us them : String} {i : Int64}
    (hcount : i.toInt = g.countBetween k us them) :
    Answers f g (.countBetween k us them) (.scalar "count" (.int i)) g
  /-- The neighbours come in any order. -/
  | lacking {k inverse : EdgeKind} {label source : String} {least : Nat} {kept? : Option String}
    {ns : List RawNode} {rows : List (List Cell)}
    (hfound : ns.Perm (g.lacking k label inverse least source kept?))
    (hrows : List.Forall₂ (RowOf f (g.remaining k inverse source)) ns rows) :
    Answers f g (.lacking k label inverse least source kept?) ⟨["id", "remaining"], rows⟩ g
  | outside {k : EdgeKind} {label : String} {least : Nat} {most? : Option Nat}
    {ns : List RawNode} {rows : List (List Cell)}
    (hfound : ns.Perm (g.outside k label least most?))
    (hrows : List.Forall₂ (RowOf f fun n => g.countAt k n.id) ns rows) :
    Answers f g (.outside k label least most?) ⟨["id", "count"], rows⟩ g
  /-- An edge with the properties joins the nodes already. -/
  | found {k : EdgeKind} {us them : String} {properties : List (String × Value)} {e : RawEdge}
    {o : QueryOutput} (he : e ∈ g.edges) (hjoins : k.joins us them e = true)
    (hcarries : e.carries properties = true) : Answers f g (.create k us them properties) o g
  /-- A new edge joins the nodes, in one of the directions that the kind allows. -/
  | created {k : EdgeKind} {us them : String} {properties : List (String × Value)} {e : RawEdge}
    {o : QueryOutput} (hnew : ∀ e' ∈ g.edges, k.joins us them e' = true →
      e'.carries properties = false)
    (hends : e.start ∈ g.ids ∧ e.finish ∈ g.ids) (hjoins : k.joins us them e = true)
    (hproperties : e.properties = .ofList properties) :
    Answers f g (.create k us them properties) o (g.withEdge e hends)
  /-- There is no such pair of nodes. -/
  | nowhere {k : EdgeKind} {us them : String} {properties : List (String × Value)}
    {o : QueryOutput} (hnone : us ∉ g.ids ∨ them ∉ g.ids) :
    Answers f g (.create k us them properties) o g
  | deleted {k : EdgeKind} {us them : String} {o : QueryOutput} :
    Answers f g (.delete k us them) o (g.without (k.joins us them))
  | deletedAll {k : EdgeKind} {us : String} {o : QueryOutput} :
    Answers f g (.deleteAll k us) o (g.without (k.isAt us))

end Graph

/-- A driver holds a graph: `stored` is the one that is stored, and `seen` the one that a
transaction sees.  Whatever it answers is true of the graph, what a transaction changes is stored
when it is committed, and not before. -/
structure Driver.Holds {σ τ : Type} (d : Driver σ τ) (stored : σ → Graph) (seen : τ × σ → Graph) :
    Prop where
  execute {f : IdFunction} {r : EdgeRequest} {s s' : σ} {o : QueryOutput}
    (h : (d.execute (.edges f r)).run.run s = (.ok o, s')) :
    Graph.Answers f (stored s) r o (stored s')
  begin {s s' : σ} {tx : τ} (h : d.begin.run.run s = (.ok tx, s')) :
    stored s' = stored s ∧ seen (tx, s') = stored s
  executeIn {f : IdFunction} {r : EdgeRequest} {x x' : τ × σ} {o : QueryOutput}
    (h : (d.executeIn (.edges f r)).run.run x = (.ok o, x')) :
    Graph.Answers f (seen x) r o (seen x')
  unstored {r : Request} {x x' : τ × σ} {result : Except Error QueryOutput}
    (h : (d.executeIn r).run.run x = (result, x')) : stored x'.2 = stored x.2
  commit {tx : τ} {s s' : σ} (h : (d.commit tx).run.run s = (.ok (), s')) :
    stored s' = seen (tx, s)
  rollback {tx : τ} {s s' : σ} (h : (d.rollback tx).run.run s = (.ok (), s')) :
    stored s' = stored s

/-- A transaction that succeeds starts from the stored graph, and what it sees at its end is
stored. -/
theorem Driver.Holds.inTransaction_eq_ok {σ τ α : Type} {d : Driver σ τ} {stored : σ → Graph}
    {seen : τ × σ → Graph} (hd : d.Holds stored seen) {steps : Task (τ × σ) α} {s s' : σ} {a : α}
    (h : (d.inTransaction steps).run.run s = (.ok a, s')) :
    ∃ x x', seen x = stored s ∧ steps.run.run x = (.ok a, x') ∧ stored s' = seen x' := by
  unfold inTransaction at h
  obtain ⟨tx, s₁, hbegin, h⟩ := Task.run_bind_eq_ok h
  obtain ⟨s₂, s₃, hget, h⟩ := Task.run_bind_eq_ok h
  obtain ⟨rfl, rfl⟩ := Task.run_get_eq_ok hget
  obtain ⟨⟨result, tx', s₂⟩, hsteps⟩ : ∃ y, steps.run.run (tx, s₁) = y := ⟨_, rfl⟩
  rw [hsteps] at h
  obtain ⟨_, s₃, hset, h⟩ := Task.run_bind_eq_ok h
  obtain rfl := Task.run_set_eq_ok hset
  cases result with
  | ok b =>
    obtain ⟨_, s₄, hcommit, h⟩ := Task.run_bind_eq_ok h
    obtain ⟨rfl, rfl⟩ := Task.run_pure_eq_ok h
    exact ⟨(tx, s₁), (tx', s₂), (hd.begin hbegin).2, hsteps, hd.commit hcommit⟩
  | error e =>
    obtain ⟨_, s₄, _, h⟩ := Task.run_bind_eq_ok h
    cases (Prod.mk.inj h).1

/-! ## A driver that holds a graph -/

/-- An edge of a kind between two nodes. -/
def EdgeKind.edge (k : EdgeKind) (id us them : String) (properties : List (String × Value)) :
    RawEdge :=
  match k.direction with
  | .incoming => ⟨id, k.relType, them, us, .ofList properties⟩
  | .outgoing | .either => ⟨id, k.relType, us, them, .ofList properties⟩

theorem EdgeKind.joins_edge (k : EdgeKind) (id us them : String)
    (properties : List (String × Value)) : k.joins us them (k.edge id us them properties) = true := by
  obtain ⟨relType, direction⟩ := k
  cases direction <;> simp [joins, edge]

theorem EdgeKind.edge_ends {k : EdgeKind} {id us them : String}
    {properties : List (String × Value)} {ids : List String} (hus : us ∈ ids)
    (hthem : them ∈ ids) : (k.edge id us them properties).start ∈ ids ∧
      (k.edge id us them properties).finish ∈ ids := by
  unfold edge
  split
  · exact ⟨hthem, hus⟩
  · exact ⟨hus, hthem⟩
  · exact ⟨hus, hthem⟩

namespace Graph

/-- A number as it is answered. -/
def integer (i : Int) : Except Error Value :=
  match int64? i with
  | some i => .ok (.int i)
  | none => .error (.driver "integer overflow")

/-- The row of a node with a number. -/
def rowOf (f : IdFunction) (number : RawNode → Int) (n : RawNode) : Except Error (List Cell) := do
  return [.value (f.operand n.id), .value (← integer (number n))]

/-- Answers a request about edges. -/
def answer (f : IdFunction) (g : Graph) : EdgeRequest → Except Error (QueryOutput × Graph)
  | .countAt k us => do return (.scalar "count" (← integer (g.countAt k us)), g)
  | .countBetween k us them => do
    return (.scalar "count" (← integer (g.countBetween k us them)), g)
  | .lacking k label inverse least source kept? => do
    let found := g.lacking k label inverse least source kept?
    return (⟨["id", "remaining"], ← found.mapM (rowOf f (g.remaining k inverse source))⟩, g)
  | .outside k label least most? => do
    let found := g.outside k label least most?
    return (⟨["id", "count"], ← found.mapM (rowOf f fun n => g.countAt k n.id)⟩, g)
  | .create k us them properties =>
    if g.edges.any fun e => k.joins us them e && e.carries properties then .ok (.empty, g)
    else if h : us ∈ g.ids ∧ them ∈ g.ids then
      .ok (.empty, g.withEdge (k.edge (toString g.edges.length) us them properties)
        (EdgeKind.edge_ends h.1 h.2))
    else .ok (.empty, g)
  | .delete k us them => .ok (.empty, g.without (k.joins us them))
  | .deleteAll k us => .ok (.empty, g.without (k.isAt us))

/-- Runs a request about edges where a graph is stored. -/
def execute : Request → Task Graph QueryOutput
  | .edges f r => do
    let (o, g) ← answer f (← get) r
    set g
    return o
  | _ => throw (.driver "not about edges")

/-- Access to a stored graph.  A transaction works on a copy. -/
def driver : Driver Graph Graph where
  execute
  begin := get
  executeIn r := do
    let (tx, g) ← get
    let ran := (execute r).run.run tx
    set (ran.2, g)
    ran.1
  commit tx := set tx
  rollback _ := pure ()

theorem integer_eq_ok {i : Int} {v : Value} (h : integer i = .ok v) :
    ∃ j : Int64, j.toInt = i ∧ v = .int j := by
  unfold integer at h
  split at h
  · next j hj => exact ⟨j, toInt_of_int64? hj, (Except.ok.inj h).symm⟩
  · cases h

theorem rowOf_eq_ok {f : IdFunction} {number : RawNode → Int} {n : RawNode} {row : List Cell}
    (h : rowOf f number n = .ok row) : RowOf f number n row := by
  obtain ⟨v, hv, h⟩ := bind_eq_ok.1 h
  obtain ⟨i, hi, rfl⟩ := integer_eq_ok hv
  exact ⟨i, hi, (pure_eq_ok.1 h).symm⟩

/-- What is answered is true. -/
theorem answers_of_answer {f : IdFunction} {g g' : Graph} {r : EdgeRequest} {o : QueryOutput}
    (h : g.answer f r = .ok (o, g')) : Answers f g r o g' := by
  cases r with
  | countAt | countBetween =>
    obtain ⟨v, hv, h⟩ := bind_eq_ok.1 h
    obtain ⟨i, hi, rfl⟩ := integer_eq_ok hv
    obtain ⟨rfl, rfl⟩ := Prod.mk.inj (pure_eq_ok.1 h)
    first
    | exact .countAt hi
    | exact .countBetween hi
  | lacking | outside =>
    obtain ⟨rows, hrows, h⟩ := bind_eq_ok.1 h
    obtain ⟨rfl, rfl⟩ := Prod.mk.inj (pure_eq_ok.1 h)
    have hrows := (forall₂_of_mapM hrows).imp fun _ _ => rowOf_eq_ok
    first
    | exact .lacking (.refl _) hrows
    | exact .outside (.refl _) hrows
  | create k us them properties =>
    rw [answer] at h
    split at h
    · next hfound =>
      obtain ⟨e, he, hmatch⟩ := List.any_eq_true.1 hfound
      obtain ⟨hjoins, hcarries⟩ := Bool.and_eq_true_iff.1 hmatch
      obtain ⟨rfl, rfl⟩ := Prod.mk.inj (Except.ok.inj h)
      exact .found he hjoins hcarries
    · next hnone =>
      split at h
      · next hids =>
        obtain ⟨rfl, rfl⟩ := Prod.mk.inj (Except.ok.inj h)
        refine .created (fun e he hjoins => ?_) _ (k.joins_edge _ us them properties) ?_
        · refine Bool.eq_false_iff.2 fun hcarries => hnone (List.any_eq_true.2 ⟨e, he, ?_⟩)
          exact Bool.and_eq_true_iff.2 ⟨hjoins, hcarries⟩
        · unfold EdgeKind.edge
          split <;> rfl
      · next hids =>
        obtain ⟨rfl, rfl⟩ := Prod.mk.inj (Except.ok.inj h)
        exact .nowhere (Classical.not_and_iff_not_or_not.1 hids)
  | delete =>
    obtain ⟨rfl, rfl⟩ := Prod.mk.inj (Except.ok.inj h)
    exact .deleted
  | deleteAll =>
    obtain ⟨rfl, rfl⟩ := Prod.mk.inj (Except.ok.inj h)
    exact .deletedAll

theorem answers_execute {f : IdFunction} {g g' : Graph} {r : EdgeRequest} {o : QueryOutput}
    (h : (execute (.edges f r)).run.run g = (.ok o, g')) : Answers f g r o g' := by
  obtain ⟨g₁, g₂, hget, h⟩ := Task.run_bind_eq_ok h
  obtain ⟨rfl, rfl⟩ := Task.run_get_eq_ok hget
  obtain ⟨⟨o', g₃⟩, g₄, hlift, h⟩ := Task.run_bind_eq_ok h
  obtain ⟨hanswer, rfl⟩ := Task.run_lift_eq_ok hlift
  obtain ⟨_, g₅, hset, h⟩ := Task.run_bind_eq_ok h
  obtain rfl := Task.run_set_eq_ok hset
  obtain ⟨rfl, rfl⟩ := Task.run_pure_eq_ok h
  exact answers_of_answer hanswer

/-- A transaction runs a request on its own copy. -/
theorem run_executeIn (r : Request) (x : Graph × Graph) :
    (driver.executeIn r).run.run x =
      (((execute r).run.run x.1).1, ((execute r).run.run x.1).2, x.2) := by
  have hrun : (driver.executeIn r).run.run x =
      (liftM ((execute r).run.run x.1).1 : Task (Graph × Graph) QueryOutput).run.run
        (((execute r).run.run x.1).2, x.2) := rfl
  rw [hrun]
  cases ((execute r).run.run x.1).1 <;> rfl

/-- The stored graph is held. -/
theorem driver_holds : driver.Holds id Prod.fst where
  execute h := answers_execute h
  begin h := by
    obtain ⟨rfl, rfl⟩ := Task.run_get_eq_ok h
    exact ⟨rfl, rfl⟩
  executeIn h := by
    rw [run_executeIn] at h
    obtain ⟨ho, rfl⟩ := Prod.mk.inj h
    exact answers_execute (Prod.ext ho rfl)
  unstored h := by
    rw [run_executeIn] at h
    obtain ⟨_, rfl⟩ := Prod.mk.inj h
    rfl
  commit h := by
    obtain rfl := Task.run_set_eq_ok h
    rfl
  rollback h := by
    obtain ⟨_, rfl⟩ := Task.run_pure_eq_ok h
    rfl

end Graph

/-! ## Counting -/

namespace Graph

variable {g g' : Graph} {k : EdgeKind} {us : String} {gone p : RawEdge → Bool}

/-- The edges at a node are those that stay and those that go. -/
theorem countAt_without (g : Graph) (gone : RawEdge → Bool) (k : EdgeKind) (us : String) :
    g.countAt k us =
      (g.without gone).countAt k us + g.edges.countP fun e => k.isAt us e && gone e := by
  rw [countAt, countAt, without, List.countP_filter, List.countP_eq_countP_filter_add _ _ gone,
    Nat.add_comm, List.countP_filter, List.countP_filter]

theorem without_none (g : Graph) : (g.without fun _ => false) = g := by
  obtain ⟨nodes, edges, distinct, joined⟩ := g
  have hedges : (edges.filter fun _ => !false) = edges := List.filter_true edges
  unfold without
  congr

theorem countAt_without_le (gone : RawEdge → Bool) :
    (g.without gone).countAt k us ≤ g.countAt k us := by
  rw [g.countAt_without gone]
  exact Nat.le_add_right _ _

/-- No more edges go at a node than there are of a sort that covers them. -/
theorem countAt_le_without_add
    (h : ∀ e ∈ g.edges, k.isAt us e = true → gone e = true → p e = true) :
    g.countAt k us ≤ (g.without gone).countAt k us + g.edges.countP p := by
  rw [g.countAt_without gone]
  refine Nat.add_le_add_left (List.countP_mono_left fun e he hgone => ?_) _
  obtain ⟨hat, hgone⟩ := Bool.and_eq_true_iff.1 hgone
  exact h e he hat hgone

/-- No fewer edges go at a node than there are of a sort that is seen from it and goes. -/
theorem without_add_le_countAt
    (h : ∀ e ∈ g.edges, p e = true → k.isAt us e = true ∧ gone e = true) :
    (g.without gone).countAt k us + g.edges.countP p ≤ g.countAt k us := by
  rw [g.countAt_without gone]
  refine Nat.add_le_add_left (List.countP_mono_left fun e he hp => ?_) _
  exact Bool.and_eq_true_iff.2 (h e he hp)

theorem countAt_withEdge (k : EdgeKind) (us : String) {e : RawEdge}
    (h : e.start ∈ g.ids ∧ e.finish ∈ g.ids) :
    (g.withEdge e h).countAt k us = g.countAt k us + if k.isAt us e then 1 else 0 := by
  rw [countAt, withEdge, List.countP_append, List.countP_singleton]
  rfl

namespace Answers

variable {f : IdFunction} {source target : String} {kind : EdgeKind}
  {properties : List (String × Value)} {o : QueryOutput}

theorem countAt_le (h : Answers f g (.create kind source target properties) o g') :
    g.countAt k us ≤ g'.countAt k us := by
  cases h with
  | found | nowhere => exact Nat.le_refl _
  | created =>
    rw [countAt_withEdge]
    exact Nat.le_add_right _ _

theorem le_countAt_succ (h : Answers f g (.create kind source target properties) o g') :
    g'.countAt k us ≤ g.countAt k us + 1 := by
  cases h with
  | found | nowhere => exact Nat.le_succ _
  | created =>
    rw [countAt_withEdge]
    split
    · exact Nat.le_refl _
    · exact Nat.le_succ _

/-- What is created does not count where it is not seen. -/
theorem countAt_eq (h : Answers f g (.create kind source target properties) o g')
    (hat : ∀ e, kind.joins source target e = true → k.isAt us e = false) :
    g'.countAt k us = g.countAt k us := by
  cases h with
  | found | nowhere => rfl
  | created _ _ hjoins =>
    rw [countAt_withEdge, hat _ hjoins]
    rfl

/-- Where what is created is seen, there is an edge afterwards. -/
theorem countAt_pos (h : Answers f g (.create kind source target properties) o g')
    (hsource : source ∈ g.ids) (htarget : target ∈ g.ids)
    (hat : ∀ e, kind.joins source target e = true → k.isAt us e = true) :
    0 < g'.countAt k us := by
  cases h with
  | found he hjoins => exact List.countP_pos_iff.2 ⟨_, he, hat _ hjoins⟩
  | nowhere hnone => exact (hnone.elim (· hsource) (· htarget)).elim
  | created _ _ hjoins =>
    rw [countAt_withEdge, hat _ hjoins]
    exact Nat.succ_pos _

end Answers

/-! ## Reading answers -/

theorem Answers.edgeCount_countAt {f : IdFunction} {o : QueryOutput}
    (h : Answers f g (.countAt k us) o g') : g' = g ∧ o.edgeCount = g.countAt k us := by
  cases h with
  | countAt hcount => exact ⟨rfl, congrArg Int.toNat hcount⟩

theorem Answers.edgeCount_countBetween {f : IdFunction} {them : String} {o : QueryOutput}
    (h : Answers f g (.countBetween k us them) o g') :
    g' = g ∧ o.edgeCount = g.countBetween k us them := by
  cases h with
  | countBetween hcount => exact ⟨rfl, congrArg Int.toNat hcount⟩

theorem Answers.eq_of_delete {f : IdFunction} {them : String} {o : QueryOutput}
    (h : Answers f g (.delete k us them) o g') : g' = g.without (k.joins us them) := by
  cases h with
  | deleted => rfl

theorem Answers.eq_of_deleteAll {f : IdFunction} {o : QueryOutput}
    (h : Answers f g (.deleteAll k us) o g') : g' = g.without (k.isAt us) := by
  cases h with
  | deletedAll => rfl

/-- What is found is tallied, each node under its identity. -/
theorem tally_of_rows {f : IdFunction} {number : RawNode → Int} {ns : List RawNode}
    {rows : List (List Cell)} {column : String} (hcolumn : column ≠ "id")
    (h : List.Forall₂ (RowOf f number) ns rows) :
    QueryOutput.tally ⟨["id", column], rows⟩ column =
      ns.map fun n => ((f.operand n.id).identity, (number n).toNat) := by
  have hid (rows : List (List Cell)) :
      QueryOutput.columnIndex? ⟨["id", column], rows⟩ "id" = some 0 := rfl
  have hindex (rows : List (List Cell)) :
      QueryOutput.columnIndex? ⟨["id", column], rows⟩ column = some 1 := by
    simp [QueryOutput.columnIndex?, List.findIdx?_cons, hcolumn.symm]
  simp only [QueryOutput.tally, hid, hindex]
  induction h with
  | nil => rfl
  | cons hrow _ ih =>
    obtain ⟨i, hi, rfl⟩ := hrow
    rw [List.map_cons, ← hi, ← ih]
    rfl

/-- Where nothing is tallied, no neighbour would have too few edges. -/
theorem Answers.nil_of_tally {f : IdFunction} {inverse : EdgeKind} {label source : String}
    {least : Nat} {kept? : Option String} {o : QueryOutput}
    (h : Answers f g (.lacking k label inverse least source kept?) o g') :
    g' = g ∧ (o.tally "remaining" = [] → g.lacking k label inverse least source kept? = []) := by
  cases h with
  | lacking hfound hrows =>
    refine ⟨rfl, fun htally => ?_⟩
    rw [tally_of_rows (by decide) hrows, List.map_eq_nil_iff] at htally
    rw [htally] at hfound
    exact hfound.symm.eq_nil

/-- The nodes outside some bounds are tallied. -/
theorem Answers.tally_outside {f : IdFunction} {k : EdgeKind} {label : String} {least : Nat}
    {most? : Option Nat} {o : QueryOutput} (h : Answers f g (.outside k label least most?) o g') :
    g' = g ∧ ∃ ns : List RawNode, ns.Perm (g.outside k label least most?) ∧
      o.tally "count" = ns.map fun n => ((f.operand n.id).identity, g.countAt k n.id) := by
  cases h with
  | outside hfound hrows =>
    refine ⟨rfl, _, hfound, ?_⟩
    rw [tally_of_rows (by decide) hrows]
    simp only [Int.toNat_natCast]

end Graph

end GraphMapper
