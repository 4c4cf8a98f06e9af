import GraphMapper.Proofs.Guard.Bounds
import GraphMapper.Registry.Call

/-!
# Removing all edges, and removing them one neighbour at a time

A neighbour has to keep enough edges whether a node loses the edges to it or
all of its edges.  The first change asks the declaration of the neighbour's own
type.  The second asks the declarations of the types that the relationship
lists, and searches the neighbours with their labels.

So removing all edges passes over a neighbour of which only a subtype asks for
edges, and one with none of the listed labels (`Change.clearing_exposes_neighbor`).
The two changes agree at every other neighbour
(`Change.clearing_protects_neighbor`): whatever declarations they ask, these
are about the same edges, and no declaration asks for more than one.
-/

namespace GraphMapper

/-! ## One neighbour -/

namespace Guard

variable {σ τ : Type} {d : Driver σ τ} {stored : σ → Graph} {seen : τ × σ → Graph} {g : Guard}
  {rel : Relationship} {source target : Entity} {leaving : Nat} {x : τ × σ}

/-- What removing the edges to a neighbour checks there passes: nothing is refused or reported,
and it fails only as the driver fails to count the neighbour's edges. -/
def PassesAt (g : Guard) (d : Driver σ τ) (rel : Relationship) (source target : Entity)
    (leaving : Nat) (x : τ × σ) : Prop :=
  let checked := ((g.checkInverseRemaining d rel source target leaving).run.run x).1
  checked = .ok [] ∨ ∃ e, checked = .error e ∧
    ((g.ask d (.countAt rel.edges.reversed target.id)).run.run x).1 = .error e

theorem run_checkRemaining (hd : d.Holds stored seen) {soft : Bool} {e : EdgeEnd}
    (henough : (seen x).HasEnough e.id e.declared leaving) :
    ((g.checkRemaining d soft e leaving).run.run x).1 = .ok [] ∨
      ∃ error, ((g.checkRemaining d soft e leaving).run.run x).1 = .error error ∧
        ((g.ask d (.countAt e.declared.edges e.id)).run.run x).1 = .error error := by
  unfold checkRemaining
  split
  · next hleast =>
    obtain ⟨⟨answer, x₁⟩, hask⟩ :
        ∃ y, (g.ask d (.countAt e.declared.edges e.id)).run.run x = y := ⟨_, rfl⟩
    cases answer with
    | error error =>
      have hcount : (g.countAt d e).run.run x = (.error error, x₁) := Task.run_bind_error hask
      exact .inr ⟨error, by rw [Task.run_bind_error hcount], by rw [hask]⟩
    | ok o =>
      have hcount : (g.countAt d e).run.run x = (.ok o.edgeCount, x₁) := Task.run_bind_ok hask
      obtain ⟨_, hedges⟩ := g.countAt_eq_ok hd hcount
      have hmem := Cardinality.mem_bounds_of_least_pos hleast
      have hremain : ¬ o.edgeCount - leaving < e.declared.cardinality.least := by
        have hone := henough 1 hmem
        rw [(Cardinality.least_of_mem_bounds hmem).2, hedges]
        omega
      refine .inl ?_
      rw [Task.run_bind_ok hcount]
      simp only [if_neg hremain]
      rfl
  · exact .inl rfl

/-- A neighbour that has enough edges as its declaration sees it passes. -/
theorem passesAt_of_hasEnough (hd : d.Holds stored seen)
    (henough : ∀ inverse, g.registry.inverse? rel source.nodeType target.nodeType = some inverse →
      (seen x).HasEnough target.id inverse leaving) :
    g.PassesAt d rel source target leaving x := by
  unfold PassesAt checkInverseRemaining
  split
  · exact .inl rfl
  · next inverse hinverse =>
    rw [← Change.edges_of_inverse? hinverse]
    exact run_checkRemaining hd (henough inverse hinverse)

end Guard

/-! ## All edges -/

namespace Change

/-- Whether a change first removes every edge that its node has of the kind. -/
def clears : Change → Bool
  | disconnectAll .. | replace .. => true
  | connect .. | disconnect .. | reconnect .. => false

/-- Whether a node with a type is not passed over where another loses all of its edges: nothing
asks for edges at the type, or something does at a listed type whose label the node has. -/
def SeesTo (r : Registry) (rel : Relationship) (source : NodeType) (n : RawNode)
    (type : NodeType) : Prop :=
  (∀ inverse, r.inverse? rel source type = some inverse → inverse.cardinality.least = 0) ∨
    ∃ name ∈ rel.targets, ∃ listed inverse, r.nodeType name = .ok listed ∧
      n.labels.contains listed.label = true ∧ r.inverse? rel source listed = some inverse ∧
        0 < inverse.cardinality.least

section

variable {σ τ : Type} {d : Driver σ τ} {stored : σ → Graph} {seen : τ × σ → Graph} {g : Guard}
  {ids : Identifiers} {c : Change} {r : Registry} {rel : Relationship} {before : Graph}
  {n : RawNode}

/-- A change that removes every edge has searched the neighbours. -/
theorem Passes.noneLacking (hpasses : c.Passes r rel before) (hclears : c.clears = true) :
    before.NoneLacking r rel c.source (c.created?.map (·.1.id)) := by
  cases c with
  | connect | disconnect | reconnect => cases hclears
  | disconnectAll source name => exact hpasses.2
  | replace source name target supplied => exact hpasses.1

/-- A neighbour that is not passed over has enough edges, whichever declaration is asked. -/
theorem SeesTo.hasEnough {source : Entity} {type : NodeType} {kept? : Option String}
    (hsees : SeesTo r rel source.nodeType n type)
    (hnone : before.NoneLacking r rel source kept?) (hn : n ∈ before.nodes)
    (hkept : kept? ≠ some n.id) (hlost : 0 < before.countBetween rel.edges source.id n.id)
    {inverse : Relationship} (hinverse : r.inverse? rel source.nodeType type = some inverse) :
    before.HasEnough n.id inverse (before.countBetween rel.edges source.id n.id) := by
  intro least hmem
  obtain ⟨rfl, hleast⟩ := Cardinality.least_of_mem_bounds hmem
  rcases hsees with hfree | ⟨name, hname, listed, asked, hlisted, hlabel, hasked, hpos⟩
  · exact absurd (hfree inverse hinverse) (by rw [hleast]; decide)
  · have hbound := Cardinality.mem_bounds_of_least_pos hpos
    have henough := hnone.enough hn hkept hname hlisted hlabel hasked hbound hlost
    rwa [edges_of_inverse? hinverse, ← edges_of_inverse? hasked]

/-- Where a change that removes every edge of a node succeeds without a warning, each neighbour that
loses edges and is not passed over could have been disconnected as far as it is concerned: the
check of that on the original graph passes. -/
theorem clearing_protects_neighbor {s s' : σ} (hd : d.Holds stored seen)
    (hclears : c.clears = true) (hrel : c.source.declaration c.name = .ok rel)
    (hrun : (c.run g d ids).run.run s = (.ok [], s')) :
    ∀ n ∈ (stored s).nodes, (∀ target supplied, c.created? = some (target, supplied) →
      target.id ≠ n.id) →
        0 < (stored s).countBetween rel.edges c.source.id n.id →
          ∀ target : Entity, target.id = n.id →
            SeesTo g.registry rel c.source.nodeType n target.nodeType →
              ∀ x, seen x = stored s → g.PassesAt d rel c.source target
                ((stored s).countBetween rel.edges c.source.id n.id) x := by
  intro n hn hother hlost target htarget hsees x hx
  rw [run_eq] at hrun
  obtain ⟨⟨rel', properties⟩, s₁, hlift, hrun⟩ := Task.run_bind_eq_ok hrun
  obtain ⟨hprepared, rfl⟩ := Task.run_lift_eq_ok hlift
  obtain rfl : rel = rel' := Except.ok.inj (hrel.symm.trans (declaration_of_prepared hprepared))
  obtain ⟨x₁, x₂, hx₁, hsteps, _⟩ := hd.inTransaction_eq_ok hrun
  obtain ⟨hpasses, _⟩ := steps_eq_ok hd hx₁ hsteps
  have hkept : c.created?.map (·.1.id) ≠ some n.id := by
    intro hkept
    obtain ⟨⟨created, supplied⟩, hcreated, hid⟩ := Option.map_eq_some_iff.1 hkept
    exact hother created supplied hcreated hid
  refine Guard.passesAt_of_hasEnough hd fun inverse hinverse => ?_
  rw [hx, htarget]
  exact hsees.hasEnough (hpasses.noneLacking hclears) hn hkept hlost hinverse

end

end Change

namespace Sample

/-- A kitten has to have an owner, whether other pets have to or not. -/
def kitten (pet : NodeType) : NodeType :=
  ((NodeType.new "Kitten").withRelationship owner).extend pet

def petTypes (pet : NodeType) : List RegistryCall := [.node person, .node pet, .node (kitten pet)]

def petShop (pet : NodeType) : Guard := ⟨.after (petTypes pet), .default⟩

/-- Two persons, of whom one or both own a kitten. -/
def litter (shared : Bool) : Graph where
  nodes := [⟨"p", ["Person"], []⟩, ⟨"q", ["Person"], []⟩, ⟨"t", ["Pet", "Kitten"], []⟩]
  edges := ⟨"0", "OWNS", "p", "t", []⟩ :: if shared then [⟨"1", "OWNS", "q", "t", []⟩] else []
  distinct := by decide
  joined := by cases shared <;> decide

/-- The first of the two persons. -/
def breeder : Entity := ⟨"p", .ofList ["Person"], person, []⟩

def kept (pet : NodeType) : Entity := ⟨"t", .ofList ["Pet", "Kitten"], kitten pet, []⟩

/-- The first person gives away all pets. -/
def givesAway : Change := .disconnectAll breeder "pets"

/-- What comes of it. -/
def givenAway (pet : NodeType) (shared : Bool) : Except Error (List Breach) × Graph :=
  (givesAway.run (petShop pet) Graph.driver fun _ => "").run.run (litter shared)

/-- What comes of the check that the kitten may lose one of its owners. -/
def checkedKitten (pet : NodeType) (shared : Bool) : Except Error (List Breach) :=
  (((petShop pet).checkInverseRemaining Graph.driver pets breeder (kept pet) 1).run.run
    (litter shared, litter shared)).1

theorem kept_mem (shared : Bool) : ⟨"t", ["Pet", "Kitten"], []⟩ ∈ (litter shared).nodes := by
  simp [litter]

end Sample

theorem Change.clearing_protects_neighbor_shared :
    Sample.isClean (Sample.givenAway Sample.pet true).1 = true ∧
      (Sample.petShop Sample.pet).registry.resolve (.ofList ["Pet", "Kitten"]) =
        .ok (Sample.kitten Sample.pet) ∧
      (Sample.petShop Sample.pet).PassesAt Graph.driver Sample.pets Sample.breeder
        (Sample.kept Sample.pet) 1 (Sample.litter true, Sample.litter true) := by
  have hclean : Sample.isClean (Sample.givenAway Sample.pet true).1 = true := by decide +kernel
  have hasked : (Sample.petShop Sample.pet).registry.inverse? Sample.pets Sample.person
      Sample.pet = some Sample.owner := by decide +kernel
  have hlisted : (Sample.petShop Sample.pet).registry.nodeType "Pet" = .ok Sample.pet := rfl
  have hsees : SeesTo (Sample.petShop Sample.pet).registry Sample.pets Sample.person
      ⟨"t", ["Pet", "Kitten"], []⟩ (Sample.kitten Sample.pet) :=
    .inr ⟨"Pet", by decide, _, _, hlisted, by decide, hasked, by decide⟩
  refine ⟨hclean, rfl, ?_⟩
  exact Change.clearing_protects_neighbor (c := Sample.givesAway) Graph.driver_holds rfl rfl
    (Sample.eq_of_isClean hclean) _ (Sample.kept_mem true) (fun _ _ => nofun) (by decide +kernel)
    (Sample.kept Sample.pet) rfl hsees _ rfl

/-- A neighbour that is passed over may not pass, though every bound is strict: the declaration of
its own type is not asked when all edges go. -/
theorem Change.clearing_exposes_neighbor :
    ¬ ∀ (σ τ : Type) (d : Driver σ τ) (stored : σ → Graph) (seen : τ × σ → Graph)
        (calls : List RegistryCall) (g : Guard) (ids : Identifiers) (c : Change)
        (rel : Relationship) (s s' : σ), d.Holds stored seen → g.registry = .after calls →
        g.settings.softInverse = false →
        (∀ type ∈ g.registry.nodeTypes, ∀ declared ∈ type.relationships,
          declared.enforcement = .strict) →
        c.clears = true → g.registry.resolve c.source.labels = .ok c.source.nodeType →
        c.source.declaration c.name = .ok rel → (c.run g d ids).run.run s = (.ok [], s') →
          ∀ n ∈ (stored s).nodes, (∀ target supplied, c.created? = some (target, supplied) →
            target.id ≠ n.id) → 0 < (stored s).countBetween rel.edges c.source.id n.id →
            ∀ target : Entity, target.id = n.id →
              g.registry.resolve (.ofList n.labels) = .ok target.nodeType →
                ∀ x, seen x = stored s → g.PassesAt d rel c.source target
                  ((stored s).countBetween rel.edges c.source.id n.id) x := by
  intro hprotects
  have hclean : Sample.isClean (Sample.givenAway (.new "Pet") false).1 = true := by decide +kernel
  have hstrict : ∀ type ∈ (Sample.petShop (.new "Pet")).registry.nodeTypes,
      ∀ declared ∈ type.relationships, declared.enforcement = .strict := by decide +kernel
  have hpasses : (Sample.petShop (.new "Pet")).PassesAt Graph.driver Sample.pets Sample.breeder
      (Sample.kept (.new "Pet")) 1 (Sample.litter false, Sample.litter false) :=
    hprotects _ _ _ _ _ (Sample.petTypes (.new "Pet")) _ _ Sample.givesAway _ _ _
      Graph.driver_holds rfl rfl hstrict rfl rfl rfl (Sample.eq_of_isClean hclean) _
      (Sample.kept_mem false) (fun _ _ => nofun) (by decide +kernel) (Sample.kept (.new "Pet")) rfl
      rfl _ rfl
  rcases hpasses with hpasses | ⟨e, _, hfailed⟩
  · have hrefused : Sample.isClean (Sample.checkedKitten (.new "Pet") false) = false := by
      decide +kernel
    have hchecked : Sample.checkedKitten (.new "Pet") false = .ok [] := hpasses
    rw [hchecked] at hrefused
    cases hrefused
  · -- The driver answers how many owners the kitten has.
    cases hfailed

end GraphMapper
