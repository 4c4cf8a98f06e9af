import GraphMapper.Proofs.Compile.Counts

/-!
# What the final ordering sorts by

The compiler looks up the fields of an ordering in the scope of the patterns,
but a statement sorts behind its RETURN, where the returned items are in scope
as well, and alone if rows are grouped.

Up to the RETURN nothing comes between: a plan that is sorted by a field has no
transforms, and what its subqueries hand out is new (`Cypher.Clause.Spares`).
The RETURN keeps the variable (`Cypher.KeepsVariable`) exactly if it returns no
annotation of its name (`QueryPlan.orderings_refer`); whether an annotation has
the name of a variable is not checked.
-/

namespace GraphMapper

open Cypher (introducedBy AllScoped)

/-! ## Variables in statements -/

namespace Cypher

/-- The variables that the patterns of a clause introduce. -/
def Clause.introduced : Clause → List String
  | .matching ps => introducedBy ps
  | .optionalMatching p => p.introduced
  | _ => []

/-- A clause behind which a variable still stands for what it stood for: no stage, and no nested
statement that hands out its name. -/
def Clause.Spares (v : String) : Clause → Prop
  | .stage _ _ _ => False
  | .call _ body => v ∉ returnedBy body
  | _ => True

/-- Behind some returned items a variable stands for what it stood for before: no other item has its
name, and where rows are grouped it is itself returned. -/
structure KeepsVariable (items : List Item) (v : String) : Prop where
  alone : ∀ i ∈ items, i.name = v → i = .var v
  returned : items.any Item.isAggregate = true → .var v ∈ items

/-- Nested statements in scope hand out new names. -/
theorem AllScoped.spares {known after : List String} {cs : List Clause}
    (h : AllScoped known cs after) (hcalls : ∀ c ∈ cs, ∃ imports body, c = .call imports body)
    {v : String} (hv : v ∈ known) : ∀ c ∈ cs, c.Spares v := by
  induction cs generalizing known with
  | nil =>
    intro c hc
    cases hc
  | cons c rest ih =>
    cases h with
    | cons hc hrest =>
      obtain ⟨imports, body, rfl⟩ := hcalls c List.mem_cons_self
      cases hc with
      | call _ _ _ hfresh =>
        refine List.forall_mem_cons.2 ⟨fun hreturned => hfresh v hreturned hv, ?_⟩
        exact ih hrest (fun c hc => hcalls c (List.mem_cons_of_mem _ hc))
          (List.mem_append_left _ hv)

end Cypher

/-! ## Fields -/

/-- What a field path stands for: the root, or the node or the edge of the first binding of its
hops. -/
inductive Scope.Stands (s : Scope) (f : FieldPath) : String → Prop
  | root (hf : f.hops = []) : Stands s f s.rootVar
  | node {b : Binding} (hf : f.hops ≠ []) (hb : s.bindingOfChain? f.chain = some b)
    (hon : f.onRelationship = false) : Stands s f b.var
  | edge {b : Binding} (hf : f.hops ≠ []) (hb : s.bindingOfChain? f.chain = some b)
    (hon : f.onRelationship = true) : Stands s f b.edgeVar

/-- What a term of an ordering is written as. -/
inductive Scope.Sorts (s : Scope) : OrderTerm → Cypher.SortTerm → Prop
  | random : Sorts s .random .random
  | field {f : FieldPath} {lhs : Cypher.PropertyRef} (descending : Bool) (h : s.Stands f lhs.var) :
    Sorts s (.field f descending) (.property lhs descending)

namespace Scope

variable {s s' : Scope} {f : FieldPath} {v : String}

theorem stands_of_field {site : UseSite} {lhs : Cypher.PropertyRef} {p : Property}
    (h : s.field f site = .ok (lhs, p)) : s.Stands f lhs.var := by
  simp only [field] at h
  split at h
  · cases h
  split at h
  · next hf =>
    split at h
    · cases h
      exact .root hf
    · cases h
  · next hf =>
    split at h
    · cases h
    next b hb =>
    split at h
    · next hon =>
      split at h
      · cases h
        exact .edge hf hb hon
      · cases h
    · next hon =>
      split at h
      · cases h
        exact .node hf hb (Bool.eq_false_iff.2 hon)
      · cases h

theorem Stands.congr (h : s.Stands f v) (hbindings : s'.bindings = s.bindings)
    (hroot : s'.rootVar = s.rootVar) : s'.Stands f v := by
  have hfirst : s'.bindingOfChain? f.chain = s.bindingOfChain? f.chain := by
    rw [bindingOfChain?, bindingOfChain?, hbindings]
  cases h with
  | root hf => exact hroot ▸ .root hf
  | node hf hb hon => exact .node hf (hfirst.trans hb) hon
  | edge hf hb hon => exact .edge hf (hfirst.trans hb) hon

/-- What a field path stands for is in scope until a transform replaces the scope. -/
theorem Stands.mem {known : List String} (h : s.Stands f v) (hs : s.Shows known)
    (hplain : s.transformed? = none) : v ∈ known := by
  cases h with
  | root => exact hs.root hplain
  | node _ hb => exact (hs.bindings hplain _ (List.mem_of_find?_eq_some hb)).1
  | edge _ hb => exact (hs.bindings hplain _ (List.mem_of_find?_eq_some hb)).2

end Scope

/-! ## Returned items -/

namespace Selection

variable {s : Selection} {scope : Scope} {space : String} {outputs : List Output} {b b' : Binder}

/-- An item is returned as it is exactly where no annotation has its name. -/
def ComputesAnnotations (s : Selection) (outputs : List Output) : Prop :=
  ∀ o ∈ outputs, o.1 = .var o.1.name ↔ ∀ a ∈ s.annotations, a.name ≠ o.1.name

theorem computed_ne_var {e : Expr Cypher.Reference} {name name' : String} :
    Cypher.Item.computed e name ≠ .var name' :=
  nofun

theorem var_of_mem_bindingOutputs {bound : Binding} {o : Output}
    (h : o ∈ bindingOutputs scope bound) : o.1 = .var o.1.name := by
  obtain ⟨_, rfl⟩ | ⟨_, rfl⟩ := mem_bindingOutputs.1 h <;> rfl

theorem computesAnnotations_planOutputs {taken : List String}
    (hnodup : (outputs.map fun o => o.1.name).Nodup)
    (h : s.planOutputs scope taken = .ok outputs) : s.ComputesAnnotations outputs := by
  obtain ⟨annotations, hannotations, h⟩ := bind_eq_ok.1 h
  obtain rfl := pure_eq_ok.1 h
  rw [List.map_append, List.nodup_append] at hnodup
  obtain ⟨-, -, hdisjoint⟩ := hnodup
  have hpairs := forall₂_of_mapM hannotations
  intro o ho
  rcases List.mem_append.1 ho with ho | ho
  · -- What is matched or handed out is returned as it is, and not under an annotation's name.
    have hvar : o.1 = .var o.1.name := by
      rcases List.mem_append.1 ho with ho | ho
      · split at ho
        · obtain ⟨name, _, rfl⟩ := List.mem_map.1 ho
          rfl
        · rcases List.mem_cons.1 ho with rfl | ho
          · rfl
          · obtain ⟨bound, _, ho⟩ := List.mem_flatMap.1 ho
            exact var_of_mem_bindingOutputs ho
      · obtain ⟨name, _, rfl⟩ := List.mem_map.1 ho
        rfl
    refine iff_of_true hvar fun a ha hname => ?_
    obtain ⟨o', ho', hannotated⟩ := exists_of_mem_forall₂ hpairs.flip ha
    obtain ⟨e, _, rfl⟩ := annotated_eq_ok hannotated
    exact hdisjoint _ (List.mem_map_of_mem ho) _ (List.mem_map_of_mem ho') hname.symm
  · obtain ⟨a, ha, hannotated⟩ := exists_of_mem_mapM hannotations ho
    obtain ⟨e, _, rfl⟩ := annotated_eq_ok hannotated
    exact iff_of_false computed_ne_var fun hnone => hnone a ha rfl

theorem computesAnnotations_handedOut {names : List String}
    (h : names.mapM (s.handedOut scope) = .ok outputs) : s.ComputesAnnotations outputs := by
  intro o ho
  obtain ⟨name, _, hname⟩ := exists_of_mem_mapM h ho
  unfold handedOut at hname
  split at hname
  · next a ha =>
    obtain ⟨e, _, rfl⟩ := annotated_eq_ok hname
    exact iff_of_false computed_ne_var fun hnone => hnone a (List.mem_of_find?_eq_some ha) rfl
  · next hnone =>
    split at hname
    · cases hname
      refine iff_of_true rfl fun a ha => ?_
      show a.name ≠ name
      simpa using List.find?_eq_none.1 hnone a ha
    · cases hname

/-- A variable that is returned wherever rows are grouped is kept exactly if no annotation is
returned under its name. -/
theorem keepsVariable_iff {v : String} (h : s.ComputesAnnotations outputs)
    (hgroups : ∀ o ∈ outputs, o.1.isAggregate = true → v ∈ outputs.map fun o => o.1.name) :
    Cypher.KeepsVariable (outputs.map Prod.fst) v ↔
      ∀ a ∈ s.annotations, a.name = v → v ∉ (outputs.map Prod.fst).map Cypher.Item.name := by
  constructor
  · rintro hkeeps a ha rfl hmem
    obtain ⟨i, hi, hname⟩ := List.mem_map.1 hmem
    obtain ⟨o, ho, rfl⟩ := List.mem_map.1 hi
    have hvar := hkeeps.alone o.1 hi hname
    exact (h o ho).1 (hname.symm ▸ hvar) a ha hname.symm
  · intro hnone
    have halone : ∀ i ∈ outputs.map Prod.fst, i.name = v → i = .var v := by
      rintro i hi rfl
      obtain ⟨o, ho, rfl⟩ := List.mem_map.1 hi
      exact (h o ho).2 fun a ha hname => hnone a ha hname (List.mem_map_of_mem hi)
    refine ⟨halone, fun haggregate => ?_⟩
    obtain ⟨i, hi, hi'⟩ := List.any_eq_true.1 haggregate
    obtain ⟨o, ho, rfl⟩ := List.mem_map.1 hi
    obtain ⟨o', ho', hname⟩ := List.mem_map.1 (hgroups o ho hi')
    have hitem : o'.1 ∈ outputs.map Prod.fst := List.mem_map_of_mem ho'
    exact halone o'.1 hitem hname ▸ hitem

/-- A statement that ends with an ordering sorts what it returns by the terms of the plan. -/
theorem returning_of_ordering {known taken : List String} {ending : Ending}
    {last : List Cypher.Clause} {shape : ResultShape} {terms : List Cypher.SortTerm}
    (hshows : scope.Shows known) (hreturns : ∀ name ∈ s.transformReturns, name ∈ known)
    (htaken : ∀ name ∈ taken, name ∈ known)
    (hrun : s.compileEnding scope space taken ending b = .ok ((last, shape), b'))
    (hterms : .ordering terms ∈ last) :
    ∃ outputs page, s.ComputesAnnotations outputs ∧
      (∀ o ∈ outputs, o.1.isAggregate = true →
        (s.annotations.any fun a => a.expr.isAggregate) = true) ∧
      s.ordering.mapM (compileOrder scope (outputs.map fun o => o.1.name)
        (s.annotations.any fun a => a.expr.isAggregate)) = .ok terms ∧
      last = .returning (outputs.map Prod.fst) :: .ordering terms :: Cypher.pagedBy page := by
  have hreturn {outputs : List Output}
      (hreturn : s.compileReturn scope space outputs b = .ok (last, b')) :
      (outputs.map fun o => o.1.name).Nodup ∧ ∃ page,
        s.ordering.mapM (compileOrder scope (outputs.map fun o => o.1.name)
          (s.annotations.any fun a => a.expr.isAggregate)) = .ok terms ∧
        last = .returning (outputs.map Prod.fst) :: .ordering terms :: Cypher.pagedBy page := by
    obtain ⟨hnames, _, order, page, horder, _, rfl⟩ := compileReturn_eq_ok hreturn
    refine ⟨(nodup_of_firstRepeated? hnames).1, page, ?_⟩
    have hsame : order.isEmpty = false ∧ order = terms := by
      rcases List.mem_append.1 hterms with hterms | hterms
      · rcases List.mem_cons.1 hterms with hterms | hterms
        · cases hterms
        · split at hterms
          · cases hterms
          · next hempty =>
            cases List.mem_singleton.1 hterms
            exact ⟨Bool.eq_false_iff.2 hempty, rfl⟩
      · split at hterms
        · cases hterms
        · cases List.mem_singleton.1 hterms
    obtain ⟨hempty, rfl⟩ := hsame
    exact ⟨horder, by rw [hempty]; rfl⟩
  cases ending with
  | result =>
    obtain ⟨outputs, houtputs, hrun, _⟩ := compileEnding_result_eq_ok hrun
    obtain ⟨hnodup, page, horder, hlast⟩ := hreturn hrun
    have hsources := source_planOutputs hshows hreturns htaken houtputs
    exact ⟨outputs, page, computesAnnotations_planOutputs hnodup houtputs,
      fun o ho => (hsources o ho).2, horder, hlast⟩
  | count =>
    obtain ⟨_, page, _, rfl, _⟩ := compileCount_eq_ok hrun
    simp at hterms
  | handOut names =>
    obtain ⟨outputs, houtputs, hrun, _⟩ := compileEnding_handOut_eq_ok hrun
    obtain ⟨_, page, horder, hlast⟩ := hreturn hrun
    refine ⟨outputs, page, computesAnnotations_handedOut houtputs, fun o ho => ?_, horder, hlast⟩
    obtain ⟨name, _, hname⟩ := exists_of_mem_mapM houtputs ho
    exact (source_handedOut hshows hname).2.2

/-- The patterns of a scope are matched. -/
theorem introduced_matchClauses {early late : List Cypher.Formula} {v : String}
    (h : v ∈ introducedBy (mandatoryPatterns scope) ∨ v ∈ introducedBy scope.optional) :
    ∃ c ∈ matchClauses scope early late, v ∈ c.introduced := by
  have hoptional {p : Cypher.Pattern} (hp : p ∈ scope.optional) :
      Cypher.Clause.optionalMatching p ∈ matchClauses scope early late := by
    have hmem := List.mem_map_of_mem (f := Cypher.Clause.optionalMatching) hp
    simp only [matchClauses]
    split
    · exact List.mem_append_left _ hmem
    · exact List.mem_append_left _ (List.mem_append_right _ hmem)
  rcases h with h | h
  · have hpatterns : (mandatoryPatterns scope).isEmpty = false := by
      refine Bool.eq_false_iff.2 fun hempty => ?_
      rw [List.isEmpty_iff.1 hempty] at h
      cases h
    refine ⟨.matching (mandatoryPatterns scope), ?_, h⟩
    simp [matchClauses, hpatterns]
  · obtain ⟨p, hp, hv⟩ := List.mem_flatMap.1 h
    exact ⟨.optionalMatching p, hoptional hp, hv⟩

end Selection

/-- What a field path stands for is imported or introduced by the patterns. -/
theorem Scope.Stands.introduced {r : Registry} {s : Selection} {imports : List String}
    {scope : Scope} {f : FieldPath} {v : String} {early late : List Cypher.Formula}
    (h : scope.Stands f v) (hscope : s.scope r imports = .ok scope)
    (hplain : scope.transformed? = none) :
    v ∈ imports ∨ ∃ c ∈ Selection.matchClauses scope early late, v ∈ c.introduced := by
  have hmem := h.mem (Scope.Introduces.of_scope hscope).shows hplain
  rw [Scope.matched, List.append_assoc, List.mem_append, List.mem_append] at hmem
  exact hmem.imp_right Selection.introduced_matchClauses

/-- Patterns and filters take no variable's place, so only what follows them may. -/
theorem Cypher.spares_behind_matches {scope : Scope} {early late : List Cypher.Formula}
    {rest : List Cypher.Clause} {v : String} (h : ∀ c ∈ rest, c.Spares v) :
    ∀ c ∈ Selection.matchClauses scope early late ++ rest, c.Spares v := by
  intro c hc
  rcases List.mem_append.1 hc with hc | hc
  · obtain ⟨_, rfl⟩ | ⟨_, _, rfl⟩ | rfl | rfl | rfl := Selection.mem_matchClauses hc
    all_goals trivial
  · exact h c hc

/-! ## Plans -/

section Plans

variable {r : Registry} {scope scope' : Scope} {space : String} {b b' : Binder}

theorem call_of_mem_compileSubqueries {number : Nat} {qs : List (Subquery QueryPlan)}
    {calls : List Cypher.Clause}
    (h : compileSubqueries r space number scope qs b = .ok ((calls, scope'), b')) :
    ∀ c ∈ calls, ∃ imports body, c = .call imports body := by
  induction qs generalizing number scope calls b with
  | nil =>
    obtain ⟨rfl, _⟩ := compileSubqueries_nil_eq_ok h
    intro c hc
    cases hc
  | cons q rest ih =>
    obtain ⟨_, _, _, _, _, _, _, _, hcalls, rfl⟩ := compileSubqueries_cons_eq_ok h
    exact List.forall_mem_cons.2 ⟨⟨_, _, rfl⟩, ih hcalls⟩

/-- What the final ordering of a statement sorts by, wherever the statement is spliced in.

* The terms are those of the plan, and each field is written as what it stands for in the scope of
  the patterns.
* Its variable is introduced by a pattern, unless it is imported, and nothing up to the RETURN takes
  its place.
* The RETURN keeps it exactly if no annotation of its name is returned: then no other item has that
  name, and where rows are grouped the variable is itself an item. -/
theorem QueryPlan.orderings_refer {p : QueryPlan} {imports : List String} {ending : Ending}
    {clauses : List Cypher.Clause} {shape : ResultShape} {terms : List Cypher.SortTerm}
    (hrun : compilePlan r space imports ending p b = .ok ((clauses, shape), b'))
    (hterms : .ordering terms ∈ clauses) :
    ∃ scope rows items page, p.selection.scope r imports = .ok scope ∧
      clauses = rows ++ .returning items :: .ordering terms :: Cypher.pagedBy page ∧
      (∀ c ∈ rows, c.makesRows = true) ∧
      List.Forall₂ scope.Sorts p.selection.ordering terms ∧
      ∀ term ∈ terms, ∀ v, term.source? = some v →
        (v ∈ imports ∨ ∃ c ∈ rows, v ∈ c.introduced) ∧ (∀ c ∈ rows, c.Spares v) ∧
        (Cypher.KeepsVariable items v ↔
          ∀ a ∈ p.selection.annotations, a.name = v → v ∉ items.map Cypher.Item.name) := by
  obtain ⟨s, qs⟩ := p
  obtain ⟨front, scope', b₁, calls, scope'', b₂, last, hfront, hcalls, hlast, rfl⟩ :=
    compilePlan_eq_ok hrun
  have hrows : ∀ c ∈ front ++ calls, c.makesRows = true := fun c hc =>
    (List.mem_append.1 hc).elim (Selection.makesRows_compileFront hfront c)
      (makesRows_compileSubqueries hcalls c)
  have hterms : .ordering terms ∈ last := (List.mem_append.1 hterms).resolve_left fun hterms => by
    cases hrows _ hterms
  obtain ⟨after, _, hshows, hreturns⟩ := scoped_compileFront hfront
  obtain ⟨hscoped, hshows'⟩ := scoped_compileSubqueries (fun q _ => runsScoped q.plan) hshows hcalls
  obtain ⟨outputs, page, hcomputes, hgroups, horder, rfl⟩ := Selection.returning_of_ordering hshows'
    (fun name hname => List.mem_append_left _ (hreturns name hname))
    (fun name hname => List.mem_append_right _ hname) hlast hterms
  obtain ⟨scope, matched, stages, hscope, hmatched, hstages, rfl⟩ :=
    Selection.compileFront_eq_ok hfront
  obtain ⟨hbindings, hroot, htransformed⟩ := Selection.keeps_compileTransforms hstages
  obtain ⟨hbindings', hroot', htransformed'⟩ := keeps_compileSubqueries hcalls
  refine ⟨scope, matched ++ stages ++ calls, outputs.map Prod.fst, page, hscope, rfl, hrows, ?_, ?_⟩
  · refine (forall₂_of_mapM horder).imp fun o term hterm => ?_
    obtain ⟨rfl, rfl⟩ | ⟨f, descending, lhs, p, rfl, hfield, -, rfl⟩ :=
      Selection.compileOrder_eq_ok hterm
    · exact .random
    · exact .field descending ((Scope.stands_of_field hfield).congr
        (hbindings'.trans hbindings).symm (hroot'.trans hroot).symm)
  · intro term hterm v hv
    obtain ⟨o, _, ho⟩ := exists_of_mem_mapM horder hterm
    obtain ⟨rfl, rfl⟩ | ⟨f, descending, lhs, p, rfl, hfield, hgrouped, rfl⟩ :=
      Selection.compileOrder_eq_ok ho
    · cases hv
    obtain rfl := Option.some.inj hv
    -- A field is looked up only where there are no transforms.
    have hplain := Scope.transformed?_of_field hfield
    rw [htransformed'] at hplain
    have hnone : scope.transformed? = none ∧ s.transforms = [] := by
      rw [hplain] at htransformed
      simpa using htransformed
    rw [hnone.2] at hstages
    obtain ⟨rfl, rfl⟩ := Selection.compileTransforms_nil_eq_ok hstages
    obtain ⟨early, late, rfl⟩ := Selection.exists_matchClauses hmatched
    rw [List.append_nil]
    have hstands : scope.Stands f lhs.var :=
      (Scope.stands_of_field hfield).congr hbindings'.symm hroot'.symm
    refine ⟨(hstands.introduced hscope hplain).imp_right fun ⟨c, hc, hv⟩ =>
        ⟨c, List.mem_append_left _ hc, hv⟩,
      Cypher.spares_behind_matches
        (hscoped.spares (call_of_mem_compileSubqueries hcalls) (hstands.mem hshows hplain)),
      Selection.keepsVariable_iff hcomputes fun o ho haggregate =>
        hgrouped (hgroups o ho haggregate)⟩

end Plans

namespace Sample

/-- Coffees with a count of some name, sorted by the names of their suppliers, which are returned or
not. -/
def sorted (name : String) (nodes : Bool) :
    Except Halt (Registry × QueryPlan × CompiledQuery) := do
  let r ← registered
  let p₀ ← QueryPlan.new r "Coffee"
  let p ← p₀.calls [(r, .traverse "suppliers" ⟨some "s", false, nodes, false⟩ .fetch),
    (r, .annotate name (.apply (.count false) (.ref .root))),
    (r, .orderBy "suppliers__name".toList)]
  return (r, p, ← p.compile r)

theorem compile_of_sorted {name : String} {nodes : Bool} {r : Registry} {p : QueryPlan}
    {c : CompiledQuery} (h : sorted name nodes = .ok (r, p, c)) : p.compile r = .ok c := by
  obtain ⟨_, _, h⟩ := lift_bind_eq_ok.1 h
  obtain ⟨_, _, h⟩ := lift_bind_eq_ok.1 h
  obtain ⟨_, _, h⟩ := lift_bind_eq_ok.1 h
  obtain ⟨_, hcompile, h⟩ := bind_eq_ok.1 h
  cases pure_eq_ok.1 h
  exact hcompile

/-- What is returned and what it is sorted by, where that is all there is behind one clause. -/
def sortedReturn? : Cypher.Query → Option (List Cypher.Item × List Cypher.SortTerm)
  | [_, .returning items, .ordering terms] => some (items, terms)
  | _ => none

theorem mem_of_sortedReturn? {q : Cypher.Query} {items : List Cypher.Item}
    {terms : List Cypher.SortTerm} (h : sortedReturn? q = some (items, terms)) :
    .returning items ∈ q ∧ .ordering terms ∈ q := by
  unfold sortedReturn? at h
  split at h
  · cases h
    simp
  · cases h

end Sample

theorem QueryPlan.orderings_refer_sorted : ∃ r p c items, QueryPlan.compile r p = .ok c ∧
    .ordering [.property ⟨"s", "name"⟩ false] ∈ c.query ∧ .returning items ∈ c.query ∧
    Cypher.KeepsVariable items "s" := by
  have hrun : (do
      let (_, p, c) ← Sample.sorted "n" true
      return ((Sample.sortedReturn? c.query).map Prod.snd,
        p.selection.annotations.map Annotation.name)).toOption =
      some (some [.property ⟨"s", "name"⟩ false], ["n"]) := by
    decide +kernel
  obtain ⟨⟨r, p, c⟩, hsorted, hrun⟩ := bind_eq_ok.1 (eq_ok_of_toOption hrun)
  obtain ⟨hreturn, hnames⟩ := Prod.mk.inj (pure_eq_ok.1 hrun)
  obtain ⟨⟨_, _⟩, hreturn, rfl⟩ := Option.map_eq_some_iff.1 hreturn
  have hcompile := Sample.compile_of_sorted hsorted
  have hterms := (Sample.mem_of_sortedReturn? hreturn).2
  obtain ⟨_, hplan, _⟩ := compileTo_eq_ok hcompile
  obtain ⟨scope, rows, items, page, _, hquery, _, _, hrefer⟩ :=
    QueryPlan.orderings_refer hplan hterms
  refine ⟨r, p, c, items, hcompile, hterms, by simp [hquery], ?_⟩
  refine (hrefer _ List.mem_cons_self "s" rfl).2.2.2 fun a ha hname => ?_
  have hn : a.name ∈ p.selection.annotations.map Annotation.name := List.mem_map_of_mem ha
  rw [hnames, hname] at hn
  exact absurd (List.mem_singleton.1 hn) (by decide)

/-- An annotation may take the name that a plan sorts by: rows are grouped, and the variable is no
item any more. -/
theorem QueryPlan.ordering_by_annotation : ∃ r p c items, QueryPlan.compile r p = .ok c ∧
    c.text = "MATCH (coffee:Coffee)-[s_rel:SUPPLIED_BY]->(s:Supplier) " ++
      "RETURN coffee, count(coffee) AS s ORDER BY s.name" ∧
    .ordering [.property ⟨"s", "name"⟩ false] ∈ c.query ∧ .returning items ∈ c.query ∧
    ¬ Cypher.KeepsVariable items "s" := by
  have hrun : (do
      let (_, _, c) ← Sample.sorted "s" false
      return (c.text, Sample.sortedReturn? c.query)).toOption =
      some ("MATCH (coffee:Coffee)-[s_rel:SUPPLIED_BY]->(s:Supplier) " ++
          "RETURN coffee, count(coffee) AS s ORDER BY s.name",
        some ([.var "coffee", .computed (.apply (.count false) (.ref ⟨"coffee", []⟩)) "s"],
          [.property ⟨"s", "name"⟩ false])) := by
    decide +kernel
  obtain ⟨⟨r, p, c⟩, hsorted, hrun⟩ := bind_eq_ok.1 (eq_ok_of_toOption hrun)
  obtain ⟨htext, hreturn⟩ := Prod.mk.inj (pure_eq_ok.1 hrun)
  obtain ⟨hitems, hterms⟩ := Sample.mem_of_sortedReturn? hreturn
  refine ⟨r, p, c, _, Sample.compile_of_sorted hsorted, htext, hterms, hitems, fun hkeeps => ?_⟩
  have hreturned := hkeeps.returned rfl
  simp at hreturned

end GraphMapper
