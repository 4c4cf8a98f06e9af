import GraphMapper.Guard.Change
import GraphMapper.Proofs.Database.Graph
import GraphMapper.Registry.Register

/-!
# Guarded changes keep the bounds that they check

A change that succeeds without a warning keeps every bound that it covers
(`Change.run_keeps_covered_bounds`).  It covers a bound if no edge that counts
goes or comes, or if a declaration that it consults sets the bound: at the
source the one that the change names, at the other ends the first that covers
the edges from there.

It does not consult other declarations about the same edges, and may break
their bounds (`Change.connect_breaks_other_bound`).
-/

namespace GraphMapper

/-! ## Bounds -/

/-- A bound on a number of edges. -/
inductive Bound where
  | atLeast (least : Nat)
  | atMost (most : Nat)
deriving DecidableEq

/-- Whether a number is within a bound. -/
def Bound.Met : Bound → Nat → Prop
  | atLeast least, count => least ≤ count
  | atMost most, count => count ≤ most

instance : ∀ (b : Bound) (count : Nat), Decidable (b.Met count)
  | .atLeast least, count => Nat.decLe least count
  | .atMost most, count => Nat.decLe count most

namespace Cardinality

variable {c : Cardinality}

/-- The bounds that a declaration sets. -/
def bounds : Cardinality → List Bound
  | zeroOrMore => []
  | atMostOne => [.atMost 1]
  | atLeastOne => [.atLeast 1]
  | exactlyOne => [.atLeast 1, .atMost 1]

theorem least_of_mem_bounds {n : Nat} (h : .atLeast n ∈ c.bounds) : n = 1 ∧ c.least = 1 := by
  cases c <;> simp [bounds] at h <;> exact ⟨h, rfl⟩

theorem least_pos_of_mem_bounds {n : Nat} (h : .atLeast n ∈ c.bounds) : 0 < c.least :=
  Nat.lt_of_lt_of_eq Nat.one_pos (least_of_mem_bounds h).2.symm

theorem mem_bounds_of_least_pos (h : 0 < c.least) : .atLeast 1 ∈ c.bounds := by
  cases c <;> simp [least] at h <;> simp [bounds]

theorem most_of_mem_bounds {n : Nat} (h : .atMost n ∈ c.bounds) : n = 1 ∧ c.most? = some 1 := by
  cases c <;> simp [bounds] at h <;> exact ⟨h, rfl⟩

end Cardinality

/-! ## What checks find -/

namespace Graph

variable (g : Graph)

/-- An end has room for an edge once some of its edges are gone. -/
def HasRoom (id : String) (declared : Relationship) (leaving : Nat) : Prop :=
  ∀ most, .atMost most ∈ declared.cardinality.bounds → g.countAt declared.edges id ≤ leaving

/-- An end has enough edges once some are gone. -/
def HasEnough (id : String) (declared : Relationship) (leaving : Nat) : Prop :=
  ∀ least, .atLeast least ∈ declared.cardinality.bounds →
    least + leaving ≤ g.countAt declared.edges id

/-- A node has no edges where it has to have some. -/
def HasNone (id : String) (declared : Relationship) : Prop :=
  ∀ least, .atLeast least ∈ declared.cardinality.bounds → g.countAt declared.edges id = 0

/-- Every neighbour but one has enough edges once a node has lost its own. -/
def NoneLacking (r : Registry) (rel : Relationship) (source : Entity) (kept? : Option String) :
    Prop :=
  ∀ name ∈ rel.targets, ∀ type inverse least, r.nodeType name = .ok type →
    r.inverse? rel source.nodeType type = some inverse →
      .atLeast least ∈ inverse.cardinality.bounds →
        g.lacking rel.edges type.label inverse.edges least source.id kept? = []

variable {g}

/-- A neighbour that the search has passed over has enough edges without those to the node. -/
theorem NoneLacking.enough {r : Registry} {rel inverse : Relationship} {source : Entity}
    {kept? : Option String} {n : RawNode} {name : String} {type : NodeType}
    (h : g.NoneLacking r rel source kept?) (hn : n ∈ g.nodes) (hkept : kept? ≠ some n.id)
    (hname : name ∈ rel.targets) (htype : r.nodeType name = .ok type)
    (hlabel : n.labels.contains type.label = true)
    (hinverse : r.inverse? rel source.nodeType type = some inverse)
    (hmem : .atLeast 1 ∈ inverse.cardinality.bounds)
    (hbetween : 0 < g.countBetween rel.edges source.id n.id) :
    1 + g.countBetween rel.edges source.id n.id ≤ g.countAt inverse.edges n.id := by
  have hlacking := h name hname type inverse 1 htype hinverse hmem
  have hpassed := List.filter_eq_nil_iff.1 hlacking n hn
  by_contra hfew
  refine hpassed ?_
  simp only [hlabel, bne_iff_ne.2 hkept, hbetween, decide_true, Bool.true_and]
  refine decide_eq_true ?_
  unfold remaining
  omega

end Graph

namespace Guard

section Checks

variable {σ τ : Type} {d : Driver σ τ} {stored : σ → Graph} {seen : τ × σ → Graph}

/-- A task changes no edge, and where it reports nothing it has found something. -/
structure Finds (seen : τ × σ → Graph) (t : Task (τ × σ) (List Breach)) (P : Graph → Prop) :
    Prop where
  run : ∀ x warnings x', t.run.run x = (.ok warnings, x') →
    seen x' = seen x ∧ (warnings = [] → P (seen x))

theorem Finds.pure {P : Graph → Prop} (h : ∀ g, P g) : Finds seen (pure [] : Task (τ × σ) _) P := by
  constructor
  intro x warnings x' hrun
  obtain ⟨_, rfl⟩ := Task.run_pure_eq_ok hrun
  exact ⟨rfl, fun _ => h _⟩

/-- A task that runs with what a lookup yields finds what it finds of every yield. -/
theorem Finds.of_some {α : Type} {t : Task (τ × σ) (List Breach)} {P : α → Graph → Prop}
    {a? : Option α} {a : α} (ha : a? = some a) (ht : Finds seen t (P a)) :
    Finds seen t fun graph => ∀ a', a? = some a' → P a' graph := by
  constructor
  intro x warnings x' hrun
  obtain ⟨hsame, hfound⟩ := ht.run x warnings x' hrun
  refine ⟨hsame, fun hnil a' ha' => ?_⟩
  obtain rfl := Option.some.inj (ha.symm.trans ha')
  exact hfound hnil

/-- What is found where a task goes on. -/
theorem Finds.run_bind {β : Type} {t : Task (τ × σ) (List Breach)} {P : Graph → Prop}
    {k : List Breach → Task (τ × σ) β} {x x' : τ × σ} {b : β} {graph : Graph}
    (ht : Finds seen t P) (hx : seen x = graph) (h : (t >>= k).run.run x = (.ok b, x')) :
    ∃ warnings x₁, seen x₁ = graph ∧ (warnings = [] → P graph) ∧
      (k warnings).run.run x₁ = (.ok b, x') := by
  obtain ⟨warnings, x₁, hrun, h⟩ := Task.run_bind_eq_ok h
  obtain ⟨hsame, hfound⟩ := ht.run x warnings x₁ hrun
  rw [hx] at hsame hfound
  exact ⟨warnings, x₁, hsame, hfound, h⟩

theorem Finds.mapM {α : Type} {k : α → Task (τ × σ) (List Breach)} {P : α → Graph → Prop}
    {l : List α} (hk : ∀ a ∈ l, Finds seen (k a) (P a)) (x : τ × σ)
    (found : List (List Breach)) (x' : τ × σ) (hrun : (l.mapM k).run.run x = (.ok found, x')) :
    seen x' = seen x ∧ (found.flatten = [] → ∀ a ∈ l, P a (seen x)) := by
  induction l generalizing x found with
  | nil =>
    rw [List.mapM_nil] at hrun
    obtain ⟨_, rfl⟩ := Task.run_pure_eq_ok hrun
    exact ⟨rfl, fun _ a ha => absurd ha List.not_mem_nil⟩
  | cons a l ih =>
    rw [List.mapM_cons] at hrun
    obtain ⟨first, x₁, hfirst, hrun⟩ := Task.run_bind_eq_ok hrun
    obtain ⟨rest, x₂, hrest, hrun⟩ := Task.run_bind_eq_ok hrun
    obtain ⟨rfl, rfl⟩ := Task.run_pure_eq_ok hrun
    obtain ⟨hsame, hfound⟩ := (hk a List.mem_cons_self).run x first x₁ hfirst
    obtain ⟨hsame', hfound'⟩ := ih (fun a' ha' => hk a' (List.mem_cons_of_mem a ha')) x₁ rest hrest
    refine ⟨hsame'.trans hsame, fun hnil a' ha' => ?_⟩
    obtain ⟨hfirstNil, hrestNil⟩ := List.append_eq_nil_iff.1 hnil
    rcases List.mem_cons.1 ha' with rfl | ha'
    · exact hfound hfirstNil
    · rw [← hsame]
      exact hfound' hrestNil a' ha'

/-- What is refused or reported is not passed over. -/
theorem ne_nil_of_reject {soft : Bool} {declared : Relationship} {b : Breach}
    {warnings : List Breach} (h : reject soft declared b = .ok warnings) : warnings ≠ [] := by
  unfold reject at h
  split at h
  · cases h
    exact List.cons_ne_nil b []
  · cases h

theorem nil_of_rejectLacking {soft : Bool} {inverse : Relationship} {type : String}
    {found : List (String × Nat)} (h : rejectLacking soft inverse type found = .ok []) :
    found = [] := by
  obtain ⟨breaches, hbreaches, h⟩ := bind_eq_ok.1 h
  have hnil : breaches.flatten = [] := pure_eq_ok.1 h
  have hall := forall₂_of_mapM hbreaches
  cases hall with
  | nil => rfl
  | cons hfirst _ => exact absurd (List.append_eq_nil_iff.1 hnil).1 (ne_nil_of_reject hfirst)

variable (g : Guard) (hd : d.Holds stored seen) {x x' : τ × σ}

include hd

theorem countAt_eq_ok {e : EdgeEnd} {count : Nat}
    (h : (g.countAt d e).run.run x = (.ok count, x')) :
    seen x' = seen x ∧ count = (seen x).countAt e.declared.edges e.id := by
  obtain ⟨o, x₁, hask, h⟩ := Task.run_bind_eq_ok h
  obtain ⟨rfl, rfl⟩ := Task.run_pure_eq_ok h
  exact (hd.executeIn hask).edgeCount_countAt

theorem finds_checkRoom (soft : Bool) (e : EdgeEnd) (leaving : Nat) :
    Finds seen (g.checkRoom d soft e leaving) fun graph =>
      graph.HasRoom e.id e.declared leaving := by
  constructor
  intro x warnings x' hrun
  unfold checkRoom at hrun
  split at hrun
  · obtain ⟨count, x₁, hcount, hrun⟩ := Task.run_bind_eq_ok hrun
    obtain ⟨hsame, rfl⟩ := g.countAt_eq_ok hd hcount
    simp only at hrun
    split at hrun
    · obtain ⟨hreject, rfl⟩ := Task.run_lift_eq_ok hrun
      exact ⟨hsame, fun hnil => absurd hnil (ne_nil_of_reject hreject)⟩
    · next hnone =>
      obtain ⟨_, rfl⟩ := Task.run_pure_eq_ok hrun
      exact ⟨hsame, fun _ most _ => Nat.sub_eq_zero_iff_le.1 (Nat.eq_zero_of_not_pos hnone)⟩
  · next hmost =>
    obtain ⟨_, rfl⟩ := Task.run_pure_eq_ok hrun
    exact ⟨rfl, fun _ most hmem => absurd (Cardinality.most_of_mem_bounds hmem).2 hmost⟩

theorem finds_checkRemaining (soft : Bool) (e : EdgeEnd) (leaving : Nat) :
    Finds seen (g.checkRemaining d soft e leaving) fun graph =>
      graph.HasEnough e.id e.declared leaving := by
  constructor
  intro x warnings x' hrun
  unfold checkRemaining at hrun
  split at hrun
  · next hleast =>
    obtain ⟨count, x₁, hcount, hrun⟩ := Task.run_bind_eq_ok hrun
    obtain ⟨hsame, rfl⟩ := g.countAt_eq_ok hd hcount
    simp only at hrun
    split at hrun
    · obtain ⟨hreject, rfl⟩ := Task.run_lift_eq_ok hrun
      exact ⟨hsame, fun hnil => absurd hnil (ne_nil_of_reject hreject)⟩
    · next henough =>
      obtain ⟨_, rfl⟩ := Task.run_pure_eq_ok hrun
      refine ⟨hsame, fun _ least hmem => ?_⟩
      obtain ⟨rfl, hone⟩ := Cardinality.least_of_mem_bounds hmem
      rw [hone] at henough
      omega
  · next hleast =>
    obtain ⟨_, rfl⟩ := Task.run_pure_eq_ok hrun
    exact ⟨rfl, fun _ least hmem => absurd (Cardinality.least_pos_of_mem_bounds hmem) hleast⟩

theorem finds_checkInverseRoom (rel : Relationship) (source target : Entity) (leaving : Nat) :
    Finds seen (g.checkInverseRoom d rel source target leaving) fun graph =>
      ∀ inverse, g.registry.inverse? rel source.nodeType target.nodeType = some inverse →
        graph.HasRoom target.id inverse leaving := by
  unfold checkInverseRoom
  split
  · next hnone => exact .pure fun graph inverse h => by cases hnone.symm.trans h
  · next inverse hsome => exact .of_some hsome (g.finds_checkRoom hd ..)

theorem finds_checkInverseRemaining (rel : Relationship) (source target : Entity)
    (leaving : Nat) :
    Finds seen (g.checkInverseRemaining d rel source target leaving) fun graph =>
      ∀ inverse, g.registry.inverse? rel source.nodeType target.nodeType = some inverse →
        graph.HasEnough target.id inverse leaving := by
  unfold checkInverseRemaining
  split
  · next hnone => exact .pure fun graph inverse h => by cases hnone.symm.trans h
  · next inverse hsome => exact .of_some hsome (g.finds_checkRemaining hd ..)

theorem finds_checkNoneLeft (rel : Relationship) (source : Entity) :
    Finds seen (g.checkNoneLeft d rel source) fun graph => graph.HasNone source.id rel := by
  constructor
  intro x warnings x' hrun
  unfold checkNoneLeft at hrun
  split at hrun
  · obtain ⟨count, x₁, hcount, hrun⟩ := Task.run_bind_eq_ok hrun
    obtain ⟨hsame, rfl⟩ := g.countAt_eq_ok hd hcount
    split at hrun
    · obtain ⟨hreject, rfl⟩ := Task.run_lift_eq_ok hrun
      exact ⟨hsame, fun hnil => absurd hnil (ne_nil_of_reject hreject)⟩
    · next hnone =>
      obtain ⟨_, rfl⟩ := Task.run_pure_eq_ok hrun
      exact ⟨hsame, fun _ _ _ => Nat.eq_zero_of_not_pos hnone⟩
  · next hleast =>
    obtain ⟨_, rfl⟩ := Task.run_pure_eq_ok hrun
    exact ⟨rfl, fun _ least hmem => absurd (Cardinality.least_pos_of_mem_bounds hmem) hleast⟩

theorem finds_checkNeighborsOf (rel : Relationship) (source : Entity) (kept? : Option String)
    (name : String) :
    Finds seen (g.checkNeighborsOf d rel source kept? name) fun graph =>
      ∀ type inverse least, g.registry.nodeType name = .ok type →
        g.registry.inverse? rel source.nodeType type = some inverse →
          .atLeast least ∈ inverse.cardinality.bounds →
            graph.lacking rel.edges type.label inverse.edges least source.id kept? = [] := by
  constructor
  intro x warnings x' hrun
  unfold checkNeighborsOf at hrun
  obtain ⟨type, x₁, hlift, hrun⟩ := Task.run_bind_eq_ok hrun
  obtain ⟨htype, rfl⟩ := Task.run_lift_eq_ok hlift
  simp only at hrun
  split at hrun
  · next hnone =>
    obtain ⟨_, rfl⟩ := Task.run_pure_eq_ok hrun
    refine ⟨rfl, fun _ type' inverse least htype' hinverse _ => ?_⟩
    obtain rfl := Except.ok.inj (htype.symm.trans htype')
    cases hnone.symm.trans hinverse
  · next inverse hsome =>
    split at hrun
    · obtain ⟨o, x₂, hask, hrun⟩ := Task.run_bind_eq_ok hrun
      obtain ⟨hreject, rfl⟩ := Task.run_lift_eq_ok hrun
      obtain ⟨hsame, htally⟩ := (hd.executeIn hask).nil_of_tally
      refine ⟨hsame, fun hnil type' inverse' least htype' hinverse hmem => ?_⟩
      obtain rfl := Except.ok.inj (htype.symm.trans htype')
      obtain rfl := Option.some.inj (hsome.symm.trans hinverse)
      obtain ⟨rfl, hone⟩ := Cardinality.least_of_mem_bounds hmem
      rw [hone] at htally
      rw [hnil] at hreject
      exact htally (nil_of_rejectLacking hreject)
    · next hleast =>
      obtain ⟨_, rfl⟩ := Task.run_pure_eq_ok hrun
      refine ⟨rfl, fun _ type' inverse' least htype' hinverse hmem => absurd ?_ hleast⟩
      obtain rfl := Except.ok.inj (htype.symm.trans htype')
      obtain rfl := Option.some.inj (hsome.symm.trans hinverse)
      exact Cardinality.least_pos_of_mem_bounds hmem

theorem finds_checkNeighbors (rel : Relationship) (source : Entity) (kept? : Option String) :
    Finds seen (g.checkNeighbors d rel source kept?) fun graph =>
      graph.NoneLacking g.registry rel source kept? := by
  constructor
  intro x warnings x' hrun
  unfold checkNeighbors at hrun
  obtain ⟨found, x₁, hfound, hrun⟩ := Task.run_bind_eq_ok hrun
  obtain ⟨rfl, rfl⟩ := Task.run_pure_eq_ok hrun
  exact Finds.mapM (fun name _ => g.finds_checkNeighborsOf hd rel source kept? name) x found _ hfound

variable {β : Type} {b : β} {graph : Graph}

theorem run_bind_countBetween {rel : Relationship} {source target : Entity}
    {k : Nat → Task (τ × σ) β} (hx : seen x = graph)
    (h : (g.countBetween d rel source target >>= k).run.run x = (.ok b, x')) :
    ∃ x₁, seen x₁ = graph ∧
      (k (graph.countBetween rel.edges source.id target.id)).run.run x₁ = (.ok b, x') := by
  obtain ⟨count, x₁, hcount, h⟩ := Task.run_bind_eq_ok h
  obtain ⟨o, x₂, hask, hcount⟩ := Task.run_bind_eq_ok hcount
  obtain ⟨rfl, rfl⟩ := Task.run_pure_eq_ok hcount
  obtain ⟨hsame, hbetween⟩ := (hd.executeIn hask).edgeCount_countBetween
  rw [hx] at hsame hbetween
  rw [hbetween] at h
  exact ⟨x₂, hsame, h⟩

theorem run_bind_requireConnected {rel : Relationship} {source target : Entity}
    {k : Nat → Task (τ × σ) β} (hx : seen x = graph)
    (h : (g.requireConnected d rel source target >>= k).run.run x = (.ok b, x')) :
    0 < graph.countBetween rel.edges source.id target.id ∧ ∃ x₁, seen x₁ = graph ∧
      (k (graph.countBetween rel.edges source.id target.id)).run.run x₁ = (.ok b, x') := by
  obtain ⟨between, x₁, hconnected, h⟩ := Task.run_bind_eq_ok h
  unfold requireConnected at hconnected
  obtain ⟨x₂, hx₂, hconnected⟩ := g.run_bind_countBetween hd hx hconnected
  simp only at hconnected
  split at hconnected
  · obtain ⟨_, _, hthrow, _⟩ := Task.run_bind_eq_ok hconnected
    cases (Prod.mk.inj hthrow).1
  · next hsome =>
    obtain ⟨rfl, rfl⟩ := Task.run_pure_eq_ok hconnected
    exact ⟨Nat.pos_of_ne_zero hsome, x₂, hx₂, h⟩

theorem run_bind_write {r : EdgeRequest} {k : Unit → Task (τ × σ) β} (hx : seen x = graph)
    (h : (g.write d r >>= k).run.run x = (.ok b, x')) :
    ∃ o x₁, Graph.Answers g.settings.idFunction graph r o (seen x₁) ∧
      (k ()).run.run x₁ = (.ok b, x') := by
  obtain ⟨_, x₁, hwrite, h⟩ := Task.run_bind_eq_ok h
  obtain ⟨o, x₂, hask, hwrite⟩ := Task.run_bind_eq_ok hwrite
  obtain ⟨_, rfl⟩ := Task.run_pure_eq_ok hwrite
  rw [← hx]
  exact ⟨o, x₂, hd.executeIn hask, h⟩

end Checks

end Guard

/-! ## What changes do -/

namespace Change

/-- The edges that a change removes. -/
def removes (rel : Relationship) : Change → RawEdge → Bool
  | connect .., _ => false
  | disconnect source _ target, e | reconnect source _ target .., e =>
    rel.edges.joins source.id target.id e
  | disconnectAll source _, e | replace source .., e => rel.edges.isAt source.id e

/-- What a change makes of a graph: some edges go, and then one may come. -/
def Makes (f : IdFunction) (rel : Relationship) (c : Change) (before after : Graph) : Prop :=
  match c.created? with
  | none => after = before.without (c.removes rel)
  | some (target, _) => ∃ properties o, Graph.Answers f (before.without (c.removes rel))
      (.create rel.edges c.source.id target.id properties) o after

/-- What the checks of a change find where they report nothing. -/
def Passes (r : Registry) (rel : Relationship) (before : Graph) : Change → Prop
  | connect source _ target _ =>
    before.HasRoom source.id rel 0 ∧
      ∀ inverse, r.inverse? rel source.nodeType target.nodeType = some inverse →
        before.HasRoom target.id inverse 0
  | disconnect source _ target =>
    let between := before.countBetween rel.edges source.id target.id
    before.HasEnough source.id rel between ∧
      ∀ inverse, r.inverse? rel source.nodeType target.nodeType = some inverse →
        before.HasEnough target.id inverse between
  | reconnect source _ old target _ =>
    let between := before.countBetween rel.edges source.id old.id
    0 < between ∧ (old.id ≠ target.id →
      (∀ inverse, r.inverse? rel source.nodeType old.nodeType = some inverse →
        before.HasEnough old.id inverse between) ∧
      ∀ inverse, r.inverse? rel source.nodeType target.nodeType = some inverse →
        before.HasRoom target.id inverse 0)
  | disconnectAll source _ =>
    before.HasNone source.id rel ∧ before.NoneLacking r rel source none
  | replace source _ target _ =>
    before.NoneLacking r rel source (some target.id) ∧
      ∀ inverse, r.inverse? rel source.nodeType target.nodeType = some inverse →
        before.HasRoom target.id inverse (before.countBetween rel.edges source.id target.id)

/-- Steps that report nothing have checked the graph and changed it. -/
theorem steps_eq_ok {σ τ : Type} {d : Driver σ τ} {stored : σ → Graph} {seen : τ × σ → Graph}
    (hd : d.Holds stored seen) {g : Guard} {rel : Relationship}
    {properties : List (String × Value)} {c : Change} {x x' : τ × σ} {before : Graph}
    (hx : seen x = before) (h : (c.steps g d rel properties).run.run x = (.ok [], x')) :
    c.Passes g.registry rel before ∧ c.Makes g.settings.idFunction rel before (seen x') := by
  cases c with
  | connect source name target supplied =>
    obtain ⟨own, x₁, hx₁, hroom, h⟩ := (g.finds_checkRoom hd ..).run_bind hx h
    obtain ⟨other, x₂, hx₂, hinverse, h⟩ := (g.finds_checkInverseRoom hd ..).run_bind hx₁ h
    obtain ⟨o, x₃, hcreated, h⟩ := g.run_bind_write hd hx₂ h
    obtain ⟨hnil, rfl⟩ := Task.run_pure_eq_ok h
    obtain ⟨rfl, rfl⟩ := List.append_eq_nil_iff.1 hnil
    refine ⟨⟨hroom rfl, hinverse rfl⟩, properties, o, ?_⟩
    rw [← before.without_none] at hcreated
    exact hcreated
  | disconnect source name target =>
    obtain ⟨_, x₁, hx₁, h⟩ := g.run_bind_requireConnected hd hx h
    obtain ⟨own, x₂, hx₂, henough, h⟩ := (g.finds_checkRemaining hd ..).run_bind hx₁ h
    obtain ⟨other, x₃, hx₃, hinverse, h⟩ :=
      (g.finds_checkInverseRemaining hd ..).run_bind hx₂ h
    obtain ⟨o, x₄, hdeleted, h⟩ := g.run_bind_write hd hx₃ h
    obtain ⟨hnil, rfl⟩ := Task.run_pure_eq_ok h
    obtain ⟨rfl, rfl⟩ := List.append_eq_nil_iff.1 hnil
    exact ⟨⟨henough rfl, hinverse rfl⟩, hdeleted.eq_of_delete⟩
  | reconnect source name old target supplied =>
    obtain ⟨hconnected, x₁, hx₁, h⟩ := g.run_bind_requireConnected hd hx h
    have hmoves {moved : List Breach} {x : τ × σ} (hx : seen x = before)
        (h : (do
          g.write d (.delete rel.edges source.id old.id)
          g.write d (.create rel.edges source.id target.id properties)
          pure moved : Task (τ × σ) (List Breach)).run.run x = (.ok [], x')) :
        moved = [] ∧ (reconnect source name old target supplied).Makes g.settings.idFunction rel
          before (seen x') := by
      obtain ⟨o, x₂, hdeleted, h⟩ := g.run_bind_write hd hx h
      obtain ⟨o', x₃, hcreated, h⟩ := g.run_bind_write hd rfl h
      obtain ⟨rfl, rfl⟩ := Task.run_pure_eq_ok h
      rw [hdeleted.eq_of_delete] at hcreated
      exact ⟨rfl, properties, o', hcreated⟩
    dsimp only at h
    split at h
    · next hsame =>
      obtain ⟨_, hmakes⟩ := hmoves hx₁ h
      exact ⟨⟨hconnected, fun hne => absurd hsame hne⟩, hmakes⟩
    · obtain ⟨lost, x₂, hx₂, henough, h⟩ := (g.finds_checkInverseRemaining hd ..).run_bind hx₁ h
      obtain ⟨gained, x₃, hx₃, hroom, h⟩ := (g.finds_checkInverseRoom hd ..).run_bind hx₂ h
      obtain ⟨hnil, hmakes⟩ := hmoves hx₃ h
      obtain ⟨rfl, rfl⟩ := List.append_eq_nil_iff.1 hnil
      exact ⟨⟨hconnected, fun _ => ⟨henough rfl, hroom rfl⟩⟩, hmakes⟩
  | disconnectAll source name =>
    obtain ⟨own, x₁, hx₁, hnone, h⟩ := (g.finds_checkNoneLeft hd ..).run_bind hx h
    obtain ⟨others, x₂, hx₂, hothers, h⟩ := (g.finds_checkNeighbors hd ..).run_bind hx₁ h
    obtain ⟨o, x₃, hdeleted, h⟩ := g.run_bind_write hd hx₂ h
    obtain ⟨hnil, rfl⟩ := Task.run_pure_eq_ok h
    obtain ⟨rfl, rfl⟩ := List.append_eq_nil_iff.1 hnil
    exact ⟨⟨hnone rfl, hothers rfl⟩, hdeleted.eq_of_deleteAll⟩
  | replace source name target supplied =>
    obtain ⟨x₁, hx₁, h⟩ := g.run_bind_countBetween hd hx h
    obtain ⟨others, x₂, hx₂, hothers, h⟩ := (g.finds_checkNeighbors hd ..).run_bind hx₁ h
    obtain ⟨gained, x₃, hx₃, hroom, h⟩ := (g.finds_checkInverseRoom hd ..).run_bind hx₂ h
    obtain ⟨o, x₄, hdeleted, h⟩ := g.run_bind_write hd hx₃ h
    obtain ⟨o', x₅, hcreated, h⟩ := g.run_bind_write hd rfl h
    obtain ⟨hnil, rfl⟩ := Task.run_pure_eq_ok h
    obtain ⟨rfl, rfl⟩ := List.append_eq_nil_iff.1 hnil
    rw [hdeleted.eq_of_deleteAll] at hcreated
    exact ⟨⟨hothers rfl, hroom rfl⟩, properties, o', hcreated⟩

/-! ## What changes keep -/

/-- Whether a node is searched as one of a type when another loses all of its edges: a neighbour
with the label of a type that the relationship names. -/
def IsSearched (r : Registry) (rel : Relationship) (source : Entity) (n : RawNode)
    (type : NodeType) : Prop :=
  (source.id ≠ n.id ∨ rel.direction ≠ .either) ∧
    ∃ name ∈ rel.targets, r.nodeType name = .ok type ∧ n.labels.contains type.label = true

/-- Whether a change looks up the declaration at a node other than the source, and as of which
type: for a lower bound where edges go, and for an upper bound where one comes. -/
def Consults (r : Registry) (rel : Relationship) (n : RawNode) (type : NodeType) :
    Change → Bound → Prop
  | connect _ _ target _, .atMost _ | replace _ _ target _, .atMost _
  | disconnect _ _ target, .atLeast _ => n.id = target.id ∧ type = target.nodeType
  | reconnect _ _ old target _, .atLeast _ =>
    old.id ≠ target.id ∧ n.id = old.id ∧ type = old.nodeType
  | reconnect _ _ old target _, .atMost _ =>
    old.id ≠ target.id ∧ n.id = target.id ∧ type = target.nodeType
  | disconnectAll source _, .atLeast _ => IsSearched r rel source n type
  | replace source _ target _, .atLeast _ => n.id ≠ target.id ∧ IsSearched r rel source n type
  | connect .., .atLeast _ | disconnect .., .atMost _ | disconnectAll .., .atMost _ => False

/-- The node that an edge is moved away from. -/
def old? : Change → Option Entity
  | reconnect _ _ old _ _ => some old
  | connect .. | disconnect .. | disconnectAll .. | replace .. => none

/-- Whether a change sees to a bound on the edges of a kind at a node. -/
inductive Covers (r : Registry) (rel : Relationship) (before : Graph) (c : Change) (n : RawNode)
    (k : EdgeKind) : Bound → Prop
  /-- No edge that counts goes. -/
  | noneGoes {least : Nat}
    (h : ∀ e ∈ before.edges, c.removes rel e = true → k.isAt n.id e = false) :
    Covers r rel before c n k (.atLeast least)
  /-- The edge that comes counts. -/
  | comes {least : Nat} {target : Entity} {supplied : Properties}
    (hcreated : c.created? = some (target, supplied))
    (h : ∀ e, rel.edges.joins c.source.id target.id e = true → k.isAt n.id e = true) :
    Covers r rel before c n k (.atLeast least)
  /-- No edge that counts comes. -/
  | noneComes {most : Nat}
    (h : ∀ target supplied, c.created? = some (target, supplied) →
      ∀ e, rel.edges.joins c.source.id target.id e = true → k.isAt n.id e = false) :
    Covers r rel before c n k (.atMost most)
  /-- The edge that is moved away counts. -/
  | moved {most : Nat} {old : Entity} (hold : c.old? = some old)
    (h : ∀ e, rel.edges.joins c.source.id old.id e = true → k.isAt n.id e = true) :
    Covers r rel before c n k (.atMost most)
  /-- Every edge that counts goes. -/
  | allGo {most : Nat} (h : ∀ e ∈ before.edges, k.isAt n.id e = true → c.removes rel e = true) :
    Covers r rel before c n k (.atMost most)
  /-- The relationship of the change sets the bound, at the source. -/
  | source {b : Bound} (hn : n.id = c.source.id) (hk : k = rel.edges)
    (hb : b ∈ rel.cardinality.bounds) : Covers r rel before c n k b
  /-- The first declaration that covers the edges from the other end sets the bound. -/
  | inverse {b : Bound} {type : NodeType} {inverse : Relationship}
    (hconsults : c.Consults r rel n type b)
    (hinverse : r.inverse? rel c.source.nodeType type = some inverse) (hk : k = inverse.edges)
    (hb : b ∈ inverse.cardinality.bounds) : Covers r rel before c n k b

/-- The nodes between which a change creates an edge are in a graph. -/
def Within (c : Change) (g : Graph) : Prop :=
  ∀ target supplied, c.created? = some (target, supplied) →
    c.source.id ∈ g.ids ∧ target.id ∈ g.ids

namespace Makes

variable {f : IdFunction} {r : Registry} {rel : Relationship} {c : Change} {before after : Graph}
  {k : EdgeKind} {us : String}

theorem le_countAt (h : c.Makes f rel before after) :
    (before.without (c.removes rel)).countAt k us ≤ after.countAt k us := by
  unfold Makes at h
  split at h
  · exact Nat.le_of_eq (by rw [h])
  · obtain ⟨_, _, hcreated⟩ := h
    exact hcreated.countAt_le

/-- No more edges go at a node than there are of a sort that covers them. -/
theorem countAt_le_add {p : RawEdge → Bool} (h : c.Makes f rel before after) (k : EdgeKind)
    (us : String)
    (hgone : ∀ e ∈ before.edges, k.isAt us e = true → c.removes rel e = true → p e = true) :
    before.countAt k us ≤ after.countAt k us + before.edges.countP p :=
  Nat.le_trans (Graph.countAt_le_without_add hgone) (Nat.add_le_add_right h.le_countAt _)

/-- No fewer edges go at a node than there are of a sort that is seen from it and goes, and at
most one comes. -/
theorem countAt_add_le {p : RawEdge → Bool} (h : c.Makes f rel before after) (k : EdgeKind)
    (us : String)
    (hgone : ∀ e ∈ before.edges, p e = true → k.isAt us e = true ∧ c.removes rel e = true) :
    after.countAt k us + before.edges.countP p ≤ before.countAt k us + 1 := by
  have hleft := Nat.succ_le_succ (Graph.without_add_le_countAt hgone)
  have hcome : after.countAt k us ≤ (before.without (c.removes rel)).countAt k us + 1 := by
    unfold Makes at h
    split at h
    · rw [h]
      exact Nat.le_succ _
    · obtain ⟨_, _, hcreated⟩ := h
      exact hcreated.le_countAt_succ
  omega

/-- At most one edge comes. -/
theorem countAt_le_succ (h : c.Makes f rel before after) :
    after.countAt k us ≤ before.countAt k us + 1 := by
  have hcount := h.countAt_add_le k us (p := fun _ => false) fun _ _ => nofun
  rwa [List.countP_false] at hcount

/-- Where no edge that counts goes, the number does not fall. -/
theorem le_countAt_of_noneGoes (h : c.Makes f rel before after)
    (hat : ∀ e ∈ before.edges, c.removes rel e = true → k.isAt us e = false) :
    before.countAt k us ≤ after.countAt k us := by
  have hcount := h.countAt_le_add k us (p := fun _ => false) fun e he hus hgone =>
    (hat e he hgone).symm.trans hus
  rwa [List.countP_false] at hcount

/-- Where no edge that counts comes, the number does not rise. -/
theorem countAt_le_of_noneComes (h : c.Makes f rel before after)
    (hat : ∀ target supplied, c.created? = some (target, supplied) →
      ∀ e, rel.edges.joins c.source.id target.id e = true → k.isAt us e = false) :
    after.countAt k us ≤ before.countAt k us := by
  refine Nat.le_trans (Nat.le_of_eq ?_) (Graph.countAt_without_le (c.removes rel))
  unfold Makes at h
  split at h
  · rw [h]
  · next target supplied hcreated =>
    obtain ⟨_, _, hanswers⟩ := h
    exact hanswers.countAt_eq (hat target supplied hcreated)

theorem countAt_pos (h : c.Makes f rel before after) (hwithin : c.Within before) {target : Entity}
    {supplied : Properties} (hcreated : c.created? = some (target, supplied))
    (hat : ∀ e, rel.edges.joins c.source.id target.id e = true → k.isAt us e = true) :
    0 < after.countAt k us := by
  obtain ⟨hsource, htarget⟩ := hwithin target supplied hcreated
  unfold Makes at h
  rw [hcreated] at h
  obtain ⟨_, _, hanswers⟩ := h
  exact hanswers.countAt_pos hsource htarget hat

end Makes

theorem edges_of_inverse? {r : Registry} {rel inverse : Relationship} {source target : NodeType}
    (h : r.inverse? rel source target = some inverse) : inverse.edges = rel.edges.reversed := by
  have hinverse := List.find?_some h
  simp only [Registry.isInverse, Bool.and_eq_true, beq_iff_eq] at hinverse
  obtain ⟨⟨hrelType, hdirection⟩, _⟩ := hinverse
  exact congrArg₂ EdgeKind.mk hrelType hdirection

section Met

variable {f : IdFunction} {r : Registry} {rel inverse : Relationship} {c : Change}
  {before after : Graph} {n : RawNode} {type : NodeType} {least most : Nat}

/-- At the source a lower bound is kept that the relationship of the change sets. -/
theorem source_enough (hpasses : c.Passes r rel before) (hmakes : c.Makes f rel before after)
    (hwithin : c.Within before) (hmem : .atLeast least ∈ rel.cardinality.bounds)
    (hmet : least ≤ before.countAt rel.edges c.source.id) :
    least ≤ after.countAt rel.edges c.source.id := by
  obtain ⟨rfl, _⟩ := Cardinality.least_of_mem_bounds hmem
  cases c with
  | connect source name target supplied =>
    exact Nat.le_trans hmet (hmakes.le_countAt_of_noneGoes fun e _ hgone => by cases hgone)
  | disconnect source name target =>
    have henough := hpasses.1 1 hmem
    have hgone := hmakes.countAt_le_add rel.edges source.id fun e _ _ hgone => hgone
    exact Nat.le_of_add_le_add_right (Nat.le_trans henough hgone)
  | reconnect source name old target supplied =>
    exact hmakes.countAt_pos hwithin rfl fun e => EdgeKind.isAt_of_joins
  | disconnectAll source name =>
    have hnone := hpasses.1 1 hmem
    rw [Change.source, hnone] at hmet
    cases hmet
  | replace source name target supplied =>
    exact hmakes.countAt_pos hwithin rfl fun e => EdgeKind.isAt_of_joins

/-- Where the edge that is moved away counts, the number does not rise. -/
theorem moved_room {k : EdgeKind} {us : String} {old : Entity} (hpasses : c.Passes r rel before)
    (hmakes : c.Makes f rel before after) (hold : c.old? = some old)
    (hat : ∀ e, rel.edges.joins c.source.id old.id e = true → k.isAt us e = true) :
    after.countAt k us ≤ before.countAt k us := by
  cases c with
  | connect | disconnect | disconnectAll | replace => cases hold
  | reconnect source name old target supplied =>
    obtain rfl := Option.some.inj hold
    have hconnected : 0 < before.countBetween rel.edges source.id old.id := hpasses.1
    have hgone := hmakes.countAt_add_le k us fun e _ hjoins => ⟨hat e hjoins, hjoins⟩
    exact Nat.le_of_add_le_add_right (Nat.le_trans (Nat.add_le_add_left hconnected _) hgone)

/-- Where every edge that counts goes, at most one is there afterwards. -/
theorem allGo_room {k : EdgeKind} {us : String} (hmakes : c.Makes f rel before after)
    (hgo : ∀ e ∈ before.edges, k.isAt us e = true → c.removes rel e = true) :
    after.countAt k us ≤ 1 := by
  have hgone := hmakes.countAt_add_le k us fun e he hat => ⟨hat, hgo e he hat⟩
  rw [Nat.add_comm] at hgone
  exact Nat.le_of_add_le_add_left hgone

/-- At the source an upper bound is kept that the relationship of the change sets. -/
theorem source_room (hpasses : c.Passes r rel before) (hmakes : c.Makes f rel before after)
    (hmem : .atMost 1 ∈ rel.cardinality.bounds)
    (hmet : before.countAt rel.edges c.source.id ≤ 1) :
    after.countAt rel.edges c.source.id ≤ 1 := by
  cases c with
  | connect source name target supplied =>
    have hroom := hpasses.1 1 hmem
    exact Nat.le_trans hmakes.countAt_le_succ (Nat.succ_le_succ hroom)
  | disconnect | disconnectAll => exact Nat.le_trans (hmakes.countAt_le_of_noneComes nofun) hmet
  | reconnect source name old target supplied =>
    exact Nat.le_trans (moved_room hpasses hmakes rfl fun e => EdgeKind.isAt_of_joins) hmet
  | replace source name target supplied => exact allGo_room hmakes fun e _ hat => hat

/-- A neighbour that was found to have enough edges keeps enough when a node loses its own. -/
theorem neighbor_enough {source : Entity} {kept? : Option String} {name : String}
    (hothers : before.NoneLacking r rel source kept?) (hn : n ∈ before.nodes)
    (hkept : kept? ≠ some n.id) (hname : name ∈ rel.targets) (htype : r.nodeType name = .ok type)
    (hlabel : n.labels.contains type.label = true)
    (hinverse : r.inverse? rel source.nodeType type = some inverse)
    (hmem : .atLeast 1 ∈ inverse.cardinality.bounds)
    (hmet : 1 ≤ before.countAt inverse.edges n.id) {count : Nat}
    (hgone : before.countAt inverse.edges n.id ≤
      count + before.countBetween rel.edges source.id n.id) : 1 ≤ count := by
  by_cases hbetween : before.countBetween rel.edges source.id n.id = 0
  · rw [hbetween] at hgone
    exact Nat.le_trans hmet hgone
  · have henough := hothers.enough hn hkept hname htype hlabel hinverse hmem
      (Nat.pos_of_ne_zero hbetween)
    exact Nat.le_of_add_le_add_right (Nat.le_trans henough hgone)

/-- At another end a lower bound is kept that the declaration consulted there sets. -/
theorem inverse_enough (hpasses : c.Passes r rel before) (hmakes : c.Makes f rel before after)
    (hn : n ∈ before.nodes) (hconsults : c.Consults r rel n type (.atLeast 1))
    (hinverse : r.inverse? rel c.source.nodeType type = some inverse)
    (hmem : .atLeast 1 ∈ inverse.cardinality.bounds)
    (hmet : 1 ≤ before.countAt inverse.edges n.id) : 1 ≤ after.countAt inverse.edges n.id := by
  -- What goes at a neighbour joins it with the source.
  have hgone {source : Entity} (hends : source.id ≠ n.id ∨ rel.direction ≠ .either)
      (hremoves : c.removes rel = rel.edges.isAt source.id) :
      before.countAt inverse.edges n.id ≤
        after.countAt inverse.edges n.id + before.countBetween rel.edges source.id n.id := by
    refine hmakes.countAt_le_add inverse.edges n.id fun e _ hat hgone => ?_
    rw [edges_of_inverse? hinverse] at hat
    rw [hremoves] at hgone
    exact EdgeKind.joins_of_isAt hends hgone hat
  cases c with
  | connect => exact hconsults.elim
  | disconnect source name target =>
    obtain ⟨htarget, rfl⟩ := hconsults
    rw [htarget]
    have henough := hpasses.2 inverse hinverse 1 hmem
    have hgone := hmakes.countAt_le_add inverse.edges target.id fun e _ _ hgone => hgone
    exact Nat.le_of_add_le_add_right (Nat.le_trans henough hgone)
  | reconnect source name old target supplied =>
    obtain ⟨hne, hold, rfl⟩ := hconsults
    rw [hold]
    have henough := (hpasses.2 hne).1 inverse hinverse 1 hmem
    have hgone := hmakes.countAt_le_add inverse.edges old.id fun e _ _ hgone => hgone
    exact Nat.le_of_add_le_add_right (Nat.le_trans henough hgone)
  | disconnectAll source name =>
    obtain ⟨hends, target, htarget, htype, hlabel⟩ := hconsults
    exact neighbor_enough hpasses.2 hn nofun htarget htype hlabel hinverse hmem hmet
      (hgone hends rfl)
  | replace source name target supplied =>
    obtain ⟨hother, hends, accepted, haccepted, htype, hlabel⟩ := hconsults
    have hkept : some target.id ≠ some n.id := fun h => hother (Option.some.inj h).symm
    exact neighbor_enough hpasses.1 hn hkept haccepted htype hlabel hinverse hmem hmet
      (hgone hends rfl)

/-- At the target an upper bound is kept that the declaration consulted there sets. -/
theorem inverse_room (hpasses : c.Passes r rel before) (hmakes : c.Makes f rel before after)
    (hconsults : c.Consults r rel n type (.atMost 1))
    (hinverse : r.inverse? rel c.source.nodeType type = some inverse)
    (hmem : .atMost 1 ∈ inverse.cardinality.bounds) : after.countAt inverse.edges n.id ≤ 1 := by
  cases c with
  | connect source name target supplied =>
    obtain ⟨htarget, rfl⟩ := hconsults
    rw [htarget]
    have hroom := hpasses.2 inverse hinverse 1 hmem
    exact Nat.le_trans hmakes.countAt_le_succ (Nat.succ_le_succ hroom)
  | disconnect | disconnectAll => exact hconsults.elim
  | reconnect source name old target supplied =>
    obtain ⟨hne, htarget, rfl⟩ := hconsults
    rw [htarget]
    have hroom := (hpasses.2 hne).2 inverse hinverse 1 hmem
    exact Nat.le_trans hmakes.countAt_le_succ (Nat.succ_le_succ hroom)
  | replace source name target supplied =>
    obtain ⟨htarget, rfl⟩ := hconsults
    rw [htarget]
    have hroom := hpasses.2 inverse hinverse 1 hmem
    have hgone := hmakes.countAt_add_le inverse.edges target.id
      (p := rel.edges.joins source.id target.id) fun e _ hjoins => by
        rw [edges_of_inverse? hinverse]
        exact ⟨EdgeKind.isAt_reversed_of_joins hjoins, EdgeKind.isAt_of_joins hjoins⟩
    have hkept := Nat.le_trans hgone (Nat.succ_le_succ hroom)
    rw [Nat.add_comm] at hkept
    exact Nat.le_of_add_le_add_left hkept

/-- A bound that a change covers and that was met is met afterwards. -/
theorem Covers.met {k : EdgeKind} {declared : Relationship} {b : Bound}
    (h : c.Covers r rel before n k b) (hb : b ∈ declared.cardinality.bounds)
    (hpasses : c.Passes r rel before) (hmakes : c.Makes f rel before after)
    (hwithin : c.Within before) (hn : n ∈ before.nodes) (hmet : b.Met (before.countAt k n.id)) :
    b.Met (after.countAt k n.id) := by
  have hbound : b = .atLeast 1 ∨ b = .atMost 1 := by
    cases b with
    | atLeast least => exact .inl (congrArg _ (Cardinality.least_of_mem_bounds hb).1)
    | atMost most => exact .inr (congrArg _ (Cardinality.most_of_mem_bounds hb).1)
  cases h with
  | noneGoes hat => exact Nat.le_trans hmet (hmakes.le_countAt_of_noneGoes hat)
  | comes hcreated hat =>
    cases hbound.resolve_right nofun
    exact hmakes.countAt_pos hwithin hcreated hat
  | noneComes hat => exact Nat.le_trans (hmakes.countAt_le_of_noneComes hat) hmet
  | moved hold hat => exact Nat.le_trans (moved_room hpasses hmakes hold hat) hmet
  | allGo hgo =>
    cases hbound.resolve_left nofun
    exact allGo_room hmakes hgo
  | source hsource hk hmem =>
    subst hk
    rw [hsource] at hmet ⊢
    rcases hbound with rfl | rfl
    · exact source_enough hpasses hmakes hwithin hmem hmet
    · exact source_room hpasses hmakes hmem hmet
  | inverse hconsults hinverse hk hmem =>
    subst hk
    rcases hbound with rfl | rfl
    · exact inverse_enough hpasses hmakes hn hconsults hinverse hmem hmet
    · exact inverse_room hpasses hmakes hconsults hinverse hmem

end Met

theorem declaration_of_prepared {g : Guard} {ids : Identifiers} {c : Change} {rel : Relationship}
    {properties : List (String × Value)} (h : c.prepared g ids = .ok (rel, properties)) :
    c.source.declaration c.name = .ok rel := by
  unfold prepared at h
  split at h
  · obtain ⟨rel', hrel, h⟩ := bind_eq_ok.1 h
    obtain ⟨_, _, h⟩ := bind_eq_ok.1 h
    obtain ⟨_, _, h⟩ := bind_eq_ok.1 h
    obtain ⟨rfl, _⟩ := Prod.mk.inj (pure_eq_ok.1 h)
    exact hrel
  · obtain ⟨rel', hrel, h⟩ := bind_eq_ok.1 h
    obtain ⟨rfl, _⟩ := Prod.mk.inj (pure_eq_ok.1 h)
    exact hrel

/-- A guarded change that succeeds without a warning keeps every bound that it covers, at every
node and for every declaration of the node's type. -/
theorem run_keeps_covered_bounds {σ τ : Type} {d : Driver σ τ} {stored : σ → Graph}
    {seen : τ × σ → Graph} {g : Guard} {ids : Identifiers} {c : Change} {rel : Relationship}
    {s s' : σ} (hd : d.Holds stored seen) (hwithin : c.Within (stored s))
    (hrel : c.source.declaration c.name = .ok rel)
    (hrun : (c.run g d ids).run.run s = (.ok [], s')) :
    ∀ n ∈ (stored s).nodes, ∀ type, g.registry.resolve (.ofList n.labels) = .ok type →
      ∀ declared ∈ type.relationships, ∀ b ∈ declared.cardinality.bounds,
        c.Covers g.registry rel (stored s) n declared.edges b →
          b.Met ((stored s).countAt declared.edges n.id) →
            b.Met ((stored s').countAt declared.edges n.id) := by
  intro n hn _ _ declared _ b hb hcovers hmet
  rw [run_eq] at hrun
  obtain ⟨⟨rel', properties⟩, s₁, hlift, hrun⟩ := Task.run_bind_eq_ok hrun
  obtain ⟨hprepared, rfl⟩ := Task.run_lift_eq_ok hlift
  obtain rfl : rel = rel' := Except.ok.inj (hrel.symm.trans (declaration_of_prepared hprepared))
  obtain ⟨x, x', hx, hsteps, hstored⟩ := hd.inTransaction_eq_ok hrun
  obtain ⟨hpasses, hmakes⟩ := steps_eq_ok hd hx hsteps
  rw [hstored]
  exact hcovers.met hb hpasses hmakes hwithin hn hmet

end Change

namespace Sample

/-- The pets that a person owns. -/
def pets : Relationship := ⟨"pets", ["Pet"], "OWNS", .outgoing, .zeroOrMore, .strict, none⟩

/-- The house that a person owns: another declaration about the same edges. -/
def house : Relationship := ⟨"house", ["House"], "OWNS", .outgoing, .atMostOne, .strict, none⟩

/-- The owner of a pet. -/
def owner : Relationship := ⟨"owner", ["Person"], "OWNS", .incoming, .exactlyOne, .strict, none⟩

def person : NodeType := ((NodeType.new "Person").withRelationship pets).withRelationship house

def pet : NodeType := (NodeType.new "Pet").withRelationship owner

def owners : Except Error Registry := do
  let r ← Registry.empty.register person
  let r ← r.register pet
  r.register (.new "House")

/-- A person with a house, and a pet without an owner. -/
def household : Graph where
  nodes := [⟨"p", ["Person"], []⟩, ⟨"h", ["House"], []⟩, ⟨"t", ["Pet"], []⟩]
  edges := [⟨"0", "OWNS", "p", "h", []⟩]
  distinct := by decide
  joined := by decide

/-- The person takes the pet. -/
def takesPet : Change :=
  .connect ⟨"p", .ofList ["Person"], person, []⟩ "pets" ⟨"t", .ofList ["Pet"], pet, []⟩ []

/-- Whether nothing failed and nothing is reported. -/
def isClean : Except Error (List Breach) → Bool
  | .ok [] => true
  | _ => false

/-- Whether labels belong to a type with some declaration. -/
def declares (r : Registry) (labels : List String) (declared : Relationship) : Bool :=
  match r.resolve (.ofList labels) with
  | .ok type => decide (declared ∈ type.relationships)
  | .error _ => false

theorem eq_of_isClean {α : Type} {x : Except Error (List Breach) × α} (h : isClean x.1 = true) :
    x = (.ok [], x.2) := by
  obtain ⟨result, a⟩ := x
  unfold isClean at h
  split at h
  · next hresult => exact congrArg (·, a) hresult
  · cases h

theorem exists_of_declares {r : Registry} {labels : List String} {declared : Relationship}
    (h : declares r labels declared = true) :
    ∃ type, r.resolve (.ofList labels) = .ok type ∧ declared ∈ type.relationships := by
  unfold declares at h
  split at h
  · next type htype => exact ⟨type, htype, of_decide_eq_true h⟩
  · cases h

/-- What comes of it when the person takes the pet. -/
def takenPet (r : Registry) : Except Error (List Breach) × Graph :=
  (takesPet.run ⟨r, .default⟩ Graph.driver fun _ => "").run.run household

theorem exists_takenPet : ∃ r, isClean (takenPet r).1 = true ∧
    (takenPet r).2.countAt house.edges "p" = 2 ∧ declares r ["Person"] house = true ∧
    declares r ["Pet"] owner = true ∧ r.inverse? pets person pet = some owner := by
  have hrun : (do
      let r ← owners
      if isClean (takenPet r).1 ∧ (takenPet r).2.countAt house.edges "p" = 2 ∧
        declares r ["Person"] house ∧ declares r ["Pet"] owner ∧
        r.inverse? pets person pet = some owner then pure r
      else throw (Error.driver "")).isOk = true := by
    decide +kernel
  obtain ⟨_, hrun⟩ := exists_eq_ok hrun
  obtain ⟨r, _, hrun⟩ := bind_eq_ok.1 hrun
  split at hrun
  · next hfacts => exact ⟨r, hfacts⟩
  · cases hrun

theorem takesPet_within : takesPet.Within household := by
  rintro target supplied ⟨⟩
  decide

end Sample

theorem Change.run_keeps_covered_bounds_connected : ∃ (r : Registry) (after : Graph),
    Sample.takenPet r = (.ok [], after) ∧
      (Bound.atMost 1).Met (after.countAt Sample.owner.edges "t") := by
  obtain ⟨r, hclean, _, _, hdeclares, hinverse⟩ := Sample.exists_takenPet
  obtain ⟨type, htype, howner⟩ := Sample.exists_of_declares hdeclares
  have hrun := Sample.eq_of_isClean hclean
  refine ⟨r, _, hrun, ?_⟩
  have hrel : Sample.takesPet.source.declaration "pets" = .ok Sample.pets := rfl
  have hpet : ⟨"t", ["Pet"], []⟩ ∈ Sample.household.nodes := by simp [Sample.household]
  exact Change.run_keeps_covered_bounds Graph.driver_holds Sample.takesPet_within hrel hrun _ hpet
    type htype Sample.owner howner (.atMost 1) (by decide)
    (.inverse ⟨rfl, rfl⟩ hinverse rfl (by decide)) (by decide)

/-- Without that the bound is covered it may be broken: a declaration that the change does not name
is not consulted, though it is about the same edges. -/
theorem Change.connect_breaks_other_bound :
    ¬ ∀ (σ τ : Type) (d : Driver σ τ) (stored : σ → Graph) (seen : τ × σ → Graph) (g : Guard)
        (ids : Identifiers) (c : Change) (s s' : σ), d.Holds stored seen → c.Within (stored s) →
        (c.run g d ids).run.run s = (.ok [], s') →
          ∀ n ∈ (stored s).nodes, ∀ type, g.registry.resolve (.ofList n.labels) = .ok type →
            ∀ declared ∈ type.relationships, ∀ b ∈ declared.cardinality.bounds,
              b.Met ((stored s).countAt declared.edges n.id) →
                b.Met ((stored s').countAt declared.edges n.id) := by
  intro hkeeps
  obtain ⟨r, hclean, hcount, hdeclares, _⟩ := Sample.exists_takenPet
  obtain ⟨type, htype, hhouse⟩ := Sample.exists_of_declares hdeclares
  have hperson : ⟨"p", ["Person"], []⟩ ∈ Sample.household.nodes := by simp [Sample.household]
  have hmet := hkeeps _ _ _ _ _ _ _ _ _ _ Graph.driver_holds Sample.takesPet_within
    (Sample.eq_of_isClean hclean) _ hperson type htype Sample.house hhouse (.atMost 1) (by decide)
    (by decide)
  have hone : (Sample.takenPet r).2.countAt Sample.house.edges "p" ≤ 1 := hmet
  rw [hcount] at hone
  cases hone with
  | step h => cases h

end GraphMapper
