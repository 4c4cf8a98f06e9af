import GraphMapper.Cypher.Clause
import GraphMapper.Proofs.Cypher.Reading

/-!
# Scoping of statements

`AllScoped known cs after` says that the clauses `cs` are well scoped where the
variables `known` are in scope, and that `after` are in scope behind them.  It
has one rule for each clause:

* a pattern goes on from variables in scope and introduces new ones; a labelled
  node and an edge introduce their variables, a node without labels refers to
  one;
* a filter uses variables in scope, and an existence check introduces none;
* a stage uses variables in scope, and its outputs replace the scope;
* a nested statement starts with its imports, which have to be in scope, and
  adds the names that it returns, which have to be new;
* a returned item uses a variable in scope, and the ordering behind it sees the
  returned names, and the scope before them unless rows are grouped.
-/

namespace GraphMapper.Cypher

/-! ## Variables -/

/-- The variable that a node introduces, if it is written with labels. -/
def NodePattern.introduced (n : NodePattern) : List String :=
  if n.labels?.isSome then n.var?.toList else []

/-- The variable that a node refers to, if it is written without labels. -/
def NodePattern.referred (n : NodePattern) : List String :=
  if n.labels?.isSome then [] else n.var?.toList

namespace Pattern

variable {p : Pattern} {e : EdgePattern} {n : NodePattern}

/-- The variables that a pattern introduces, from left to right. -/
def introduced (p : Pattern) : List String :=
  p.start.introduced ++ p.steps.flatMap fun s => s.1.var?.toList ++ s.2.introduced

/-- The variables that a pattern refers to, from left to right. -/
def referred (p : Pattern) : List String :=
  p.start.referred ++ p.steps.flatMap fun s => s.2.referred

@[simp] theorem introduced_node : (node n).introduced = n.introduced := List.append_nil _

@[simp] theorem referred_node : (node n).referred = n.referred := List.append_nil _

@[simp] theorem introduced_extend :
    (p.extend e n).introduced = p.introduced ++ (e.var?.toList ++ n.introduced) := by
  simp [introduced, extend]

@[simp] theorem referred_extend : (p.extend e n).referred = p.referred ++ n.referred := by
  simp [referred, extend]

/-- A pattern that goes on from variables in scope and introduces new ones. -/
structure Scoped (known : List String) (p : Pattern) : Prop where
  referred : ∀ v ∈ p.referred, v ∈ known
  distinct : p.introduced.Nodup
  fresh : ∀ v ∈ p.introduced, v ∉ known

/-- A pattern that introduces nothing, and refers to variables in scope. -/
def Checks (known : List String) (p : Pattern) : Prop :=
  p.introduced = [] ∧ ∀ v ∈ p.referred, v ∈ known

end Pattern

/-- The variables that some patterns introduce. -/
def introducedBy (ps : List Pattern) : List String := ps.flatMap Pattern.introduced

theorem introducedBy_append_singleton (ps : List Pattern) (p : Pattern) :
    introducedBy (ps ++ [p]) = introducedBy ps ++ p.introduced := by
  simp [introducedBy]

/-- Patterns that are well scoped one after the other. -/
def PatternsScoped (known : List String) : List Pattern → Prop
  | [] => True
  | p :: ps => p.Scoped known ∧ PatternsScoped (known ++ p.introduced) ps

/-- The variable of an expression. -/
def exprVar : Expr Reference → String
  | .ref r => r.var
  | .apply _ arg => exprVar arg

namespace Item

/-- The variable that an item is made of. -/
def source : Item → String
  | var name => name
  | computed expr _ => exprVar expr

/-- Whether an item groups rows. -/
def isAggregate : Item → Bool
  | var _ => false
  | computed expr _ => expr.isAggregate

end Item

/-- The variables in scope behind returned items: a grouping leaves their names only. -/
def scopeBehind (known : List String) (items : List Item) : List String :=
  if items.any Item.isAggregate then items.map Item.name else known ++ items.map Item.name

/-- The variable that a sort term uses. -/
def SortTerm.source? : SortTerm → Option String
  | random => none
  | property lhs _ => some lhs.var

/-- The names that a clause returns. -/
def Clause.returned : Clause → List String
  | .returning items => items.map Item.name
  | _ => []

/-- The names that a statement returns. -/
def returnedBy (cs : List Clause) : List String := cs.flatMap Clause.returned

/-- A filter of variables in scope. -/
structure Formula.Scoped (known : List String) (f : Formula) : Prop where
  compared : ∀ v ∈ f.vars, v ∈ known
  checked : ∀ p ∈ f.logic.checks, p.Checks known

theorem Formula.Scoped.mono {known known' : List String} {f : Formula}
    (h : f.Scoped known) (hsub : known ⊆ known') : f.Scoped known' where
  compared v hv := hsub (h.compared v hv)
  checked p hp := ⟨(h.checked p hp).1, fun v hv => hsub ((h.checked p hp).2 v hv)⟩

theorem Formula.comparisons_logic (f : Formula) : f.logic.comparisons = f.atoms := by
  have hgroup {parts : List Formula} (ih : ∀ f ∈ parts, f.logic.comparisons = f.atoms) :
      (Formula.logics parts).flatMap Logic.comparisons =
        Formula.atomsOf parts := by
    induction parts with
    | nil => rfl
    | cons f rest ihrest =>
      rw [Formula.logics, List.flatMap_cons, Formula.atomsOf,
        ih f List.mem_cons_self, ihrest fun g hg => ih g (List.mem_cons_of_mem f hg)]
  induction f using Formula.induction with
  | atom | present | absent => rfl
  | all parts ih => rw [logic, Logic.comparisons_all, hgroup ih, atoms]
  | any parts ih => rw [logic, Logic.comparisons_any, hgroup ih, atoms]
  | not f ih => exact ih

/-! ## Clauses -/

mutual

/-- A clause is well scoped where some variables are in scope, and leaves some in scope. -/
inductive Clause.Scoped : List String → Clause → List String → Prop
  | matching {known : List String} {ps : List Pattern} (hps : PatternsScoped known ps) :
    Clause.Scoped known (.matching ps) (known ++ introducedBy ps)
  | optionalMatching {known : List String} {p : Pattern} (hp : p.Scoped known) :
    Clause.Scoped known (.optionalMatching p) (known ++ p.introduced)
  | filter {known : List String} {fs : List Formula} (hfs : ∀ f ∈ fs, f.Scoped known) :
    Clause.Scoped known (.filter fs) known
  | lateFilter {known : List String} {fs : List Formula} (hfs : ∀ f ∈ fs, f.Scoped known) :
    Clause.Scoped known (.lateFilter fs) known
  | stage {known : List String} {distinct : Bool} {items : List (Reference × String)}
    {order : List (Reference × Bool)} (hitems : ∀ i ∈ items, i.1.var ∈ known)
    (hnames : (items.map Prod.snd).Nodup) (horder : ∀ o ∈ order, o.1.var ∈ items.map Prod.snd) :
    Clause.Scoped known (.stage distinct items order) (items.map Prod.snd)
  | call {known imports after : List String} {body : List Clause}
    (himports : ∀ v ∈ imports, v ∈ known) (hbody : AllScoped imports body after)
    (hnames : (returnedBy body).Nodup) (hfresh : ∀ v ∈ returnedBy body, v ∉ known) :
    Clause.Scoped known (.call imports body) (known ++ returnedBy body)
  | keep {known : List String} {var : String} {page : Page} (hvar : var ∈ known) :
    Clause.Scoped known (.keep var page) [var]
  | returning {known : List String} {items : List Item} (hitems : ∀ i ∈ items, i.source ∈ known)
    (hnames : (items.map Item.name).Nodup) :
    Clause.Scoped known (.returning items) (scopeBehind known items)
  | ordering {known : List String} {terms : List SortTerm}
    (hterms : ∀ t ∈ terms, ∀ v, t.source? = some v → v ∈ known) :
    Clause.Scoped known (.ordering terms) known
  | paging {known : List String} {page : Page} : Clause.Scoped known (.paging page) known

/-- Clauses are well scoped one after the other. -/
inductive AllScoped : List String → List Clause → List String → Prop
  | nil {known : List String} : AllScoped known [] known
  | cons {known between after : List String} {c : Clause} {cs : List Clause}
    (hc : Clause.Scoped known c between) (hcs : AllScoped between cs after) :
    AllScoped known (c :: cs) after

end

/-! ## Putting clauses together -/

namespace PatternsScoped

variable {known known' : List String} {ps qs : List Pattern}

theorem append_iff : PatternsScoped known (ps ++ qs) ↔
    PatternsScoped known ps ∧ PatternsScoped (known ++ introducedBy ps) qs := by
  induction ps generalizing known with
  | nil => simp [PatternsScoped, introducedBy]
  | cons p rest ih =>
    simp only [List.cons_append, PatternsScoped, ih, introducedBy, List.flatMap_cons,
      List.append_assoc, and_assoc]

/-- The variables that patterns introduce are new to the scope before them. -/
theorem fresh (h : PatternsScoped known ps) : ∀ v ∈ introducedBy ps, v ∉ known := by
  induction ps generalizing known with
  | nil =>
    intro v hv
    cases hv
  | cons p rest ih =>
    obtain ⟨hp, hrest⟩ := h
    intro v hv
    rcases List.mem_append.1 hv with hv | hv
    · exact hp.fresh v hv
    · exact fun hknown => ih hrest v hv (List.mem_append_left _ hknown)

/-- More variables may be in scope, if the patterns introduce none of them. -/
theorem mono (h : PatternsScoped known ps) (hsub : known ⊆ known')
    (hfresh : ∀ v ∈ introducedBy ps, v ∉ known') : PatternsScoped known' ps := by
  induction ps generalizing known known' with
  | nil => trivial
  | cons p rest ih =>
    obtain ⟨hp, hrest⟩ := h
    have hlater := hrest.fresh
    refine ⟨⟨fun v hv => hsub (hp.referred v hv), hp.distinct, fun v hv => ?_⟩, ?_⟩
    · exact hfresh v (List.mem_append_left _ hv)
    · have hsub' : known ++ p.introduced ⊆ known' ++ p.introduced :=
        List.append_subset.2 ⟨List.subset_append_of_subset_left _ hsub,
          List.subset_append_right _ _⟩
      refine ih hrest hsub' fun v hv hknown => ?_
      rcases List.mem_append.1 hknown with hknown | hknown
      · exact hfresh v (List.mem_append_right _ hv) hknown
      · exact hlater v hv (List.mem_append_right _ hknown)

/-- A pattern may be extended by an edge to new variables. -/
theorem extend_last {p : Pattern} {e : EdgePattern} {n : NodePattern}
    (h : PatternsScoped known (ps ++ [p])) (hn : n.referred = [])
    (hdistinct : (e.var?.toList ++ n.introduced).Nodup)
    (hfresh : ∀ v ∈ e.var?.toList ++ n.introduced, v ∉ known ++ introducedBy (ps ++ [p])) :
    PatternsScoped known (ps ++ [p.extend e n]) := by
  rw [append_iff] at h ⊢
  obtain ⟨hps, ⟨hreferred, hp, hnew⟩, _⟩ := h
  rw [introducedBy_append_singleton] at hfresh
  refine ⟨hps, ⟨?_, ?_, ?_⟩, trivial⟩
  · rw [Pattern.referred_extend, hn, List.append_nil]
    exact hreferred
  · rw [Pattern.introduced_extend, List.nodup_append]
    refine ⟨hp, hdistinct, ?_⟩
    rintro v hv w hw rfl
    exact hfresh v hw (List.mem_append_right _ (List.mem_append_right _ hv))
  · intro v hv
    rw [Pattern.introduced_extend] at hv
    rcases List.mem_append.1 hv with hv | hv
    · exact hnew v hv
    · intro hknown
      rw [← List.append_assoc] at hfresh
      exact hfresh v hv (List.mem_append_left _ hknown)

end PatternsScoped

namespace AllScoped

variable {known between after : List String} {cs ds : List Clause}

theorem append (hcs : AllScoped known cs between) (hds : AllScoped between ds after) :
    AllScoped known (cs ++ ds) after := by
  induction cs generalizing known with
  | nil =>
    cases hcs
    exact hds
  | cons c rest ih =>
    cases hcs with
    | cons hc hrest => exact .cons hc (ih hrest)

theorem singleton {c : Clause} (hc : Clause.Scoped known c after) : AllScoped known [c] after :=
  .cons hc .nil

/-- A clause that keeps the scope may be left out. -/
theorem optional_clause {c : Clause} (hc : Clause.Scoped known c known) (omitted : Bool) :
    AllScoped known (if omitted then [] else [c]) known := by
  cases omitted with
  | true => exact .nil
  | false => exact .singleton hc

/-- Optional patterns, each in a clause of its own. -/
theorem optionalMatchings {ps : List Pattern} (h : PatternsScoped known ps) :
    AllScoped known (ps.map .optionalMatching) (known ++ introducedBy ps) := by
  induction ps generalizing known with
  | nil =>
    rw [introducedBy, List.flatMap_nil, List.append_nil]
    exact .nil
  | cons p rest ih =>
    obtain ⟨hp, hrest⟩ := h
    have htail := ih hrest
    rw [List.append_assoc] at htail
    exact .cons (.optionalMatching hp) htail

end AllScoped

end GraphMapper.Cypher
