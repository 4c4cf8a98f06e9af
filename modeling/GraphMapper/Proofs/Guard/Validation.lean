import GraphMapper.Guard.Validation
import GraphMapper.Proofs.Database.Graph
import GraphMapper.Proofs.Registry.Tables

/-!
# What validation reports

Every declaration is scanned for the nodes that break it, and of the declarations
of one name a node is reported with the first that it breaks (`Graph.Reports`).
So nothing is reported twice, and whatever is reported is broken.  A declaration
that a node breaks is reported if all others of its name that the node breaks
have its bound and count the same number (`Guard.validation_reports`).

Otherwise it may be passed over: unrelated types may declare relationships of one
name, and a node that belongs to both is reported once (`Guard.violation_passed_over`).
-/

namespace GraphMapper

/-! ## Broken declarations -/

theorem Cardinality.not_allows (c : Cardinality) (count : Nat) :
    (!c.allows count) =
      (decide (count < c.least) || c.most?.any fun most => decide (most < count)) := by
  unfold allows
  cases c.most? <;> simp only [Bool.not_and, ← decide_not, Nat.not_le, Bool.not_true,
    Option.any_none, Option.any_some]

namespace Graph

variable {g : Graph} {n : RawNode} {declared : NodeType × Relationship}
  {scanned : List (NodeType × Relationship)} {report : ValidationReport}

/-- Whether a node has the label of a type, and fewer or more edges than a declaration of the type
allows. -/
def breaks (g : Graph) (n : RawNode) (declared : NodeType × Relationship) : Bool :=
  n.labels.contains declared.1.label &&
    !declared.2.cardinality.allows (g.countAt declared.2.edges n.id)

/-- What is reported of a node that breaks a declaration. -/
def violation (g : Graph) (declared : NodeType × Relationship) (n : RawNode) : Violation :=
  ⟨n.id, declared.1.name, declared.2.name, declared.2.cardinality,
    g.countAt declared.2.edges n.id⟩

/-- The nodes that a scan of a declaration asks for are those that break it. -/
theorem outside_eq (g : Graph) (t : NodeType) (rel : Relationship) :
    g.outside rel.edges t.label rel.cardinality.least rel.cardinality.most? =
      g.nodes.filter fun n => g.breaks n (t, rel) := by
  simp only [outside, breaks, Cardinality.not_allows]

/-- The first of some declarations with a name that a node breaks. -/
def firstBroken? (g : Graph) (scanned : List (NodeType × Relationship)) (n : RawNode)
    (name : String) : Option (NodeType × Relationship) :=
  scanned.find? fun declared => declared.2.name == name && g.breaks n declared

/-- A report has one violation for each node and name of a relationship, of the first scanned
declaration with the name that the node breaks. -/
structure Reports (g : Graph) (scanned : List (NodeType × Relationship))
    (report : ValidationReport) : Prop where
  mem : ∀ v, v ∈ report.violations ↔ ∃ n ∈ g.nodes, ∃ declared,
    g.firstBroken? scanned n v.relationship = some declared ∧ v = g.violation declared n
  distinct : report.violations.Pairwise fun v w =>
    ¬ (v.elementId = w.elementId ∧ v.relationship = w.relationship)

end Graph

/-! ## One scan -/

namespace ValidationReport

theorem mentions_iff {report : ValidationReport} {id name : String} :
    report.mentions id name = true ↔
      ∃ v ∈ report.violations, v.elementId = id ∧ v.relationship = name := by
  simp [mentions]

/-- Of violations that differ in element or relationship those are added that the report does not
mention. -/
theorem violations_foldl_add {vs : List Violation} (hdistinct : vs.Pairwise fun v w =>
      ¬ (v.elementId = w.elementId ∧ v.relationship = w.relationship)) (report : ValidationReport) :
    (vs.foldl add report).violations =
      report.violations ++ vs.filter fun v => !report.mentions v.elementId v.relationship := by
  induction vs generalizing report with
  | nil => simp
  | cons v rest ih =>
    obtain ⟨hv, hrest⟩ := List.pairwise_cons.1 hdistinct
    rw [List.foldl_cons, ih hrest, add]
    cases hmentions : report.mentions v.elementId v.relationship with
    | true => rw [if_pos rfl, List.filter_cons_of_neg (by simp [hmentions])]
    | false =>
      have hsame : ∀ w ∈ rest, mentions ⟨report.violations ++ [v]⟩ w.elementId w.relationship =
          report.mentions w.elementId w.relationship := by
        intro w hw
        have hapart : (v.elementId == w.elementId && v.relationship == w.relationship) = false := by
          simpa using hv w hw
        simp [mentions, List.any_append, hapart]
      rw [if_neg Bool.false_ne_true, List.filter_cons_of_pos (by simp [hmentions]),
        List.filter_congr fun w hw => by rw [hsame w hw]]
      simp

end ValidationReport

namespace Graph

variable {g : Graph} {n : RawNode} {declared : NodeType × Relationship}
  {scanned : List (NodeType × Relationship)} {report : ValidationReport}

/-- Nodes with one identity are one. -/
theorem eq_of_id {n n' : RawNode} (hn : n ∈ g.nodes) (hn' : n' ∈ g.nodes) (h : n.id = n'.id) :
    n = n' :=
  List.inj_on_of_nodup_map g.distinct hn hn' h

theorem firstBroken?_eq_some {name : String} (h : g.firstBroken? scanned n name = some declared) :
    declared ∈ scanned ∧ declared.2.name = name ∧ g.breaks n declared = true := by
  have hfound := List.find?_some h
  simp only [Bool.and_eq_true, beq_iff_eq] at hfound
  exact ⟨List.mem_of_find?_eq_some h, hfound⟩

/-- One more declaration comes last. -/
theorem firstBroken?_concat {name : String} {found : NodeType × Relationship} :
    g.firstBroken? (scanned ++ [declared]) n name = some found ↔
      g.firstBroken? scanned n name = some found ∨ g.firstBroken? scanned n name = none ∧
        declared.2.name = name ∧ g.breaks n declared = true ∧ declared = found := by
  rw [firstBroken?, List.find?_append, Option.or_eq_some_iff]
  simp [firstBroken?, List.find?_singleton, and_assoc]

theorem Reports.nil (g : Graph) : g.Reports [] .empty :=
  ⟨by simp [firstBroken?, ValidationReport.empty], .nil⟩

/-- A report mentions a relationship of a node if the node breaks some scanned declaration of it. -/
theorem Reports.mentions_iff (h : g.Reports scanned report) (hn : n ∈ g.nodes) {name : String} :
    report.mentions n.id name = true ↔ (g.firstBroken? scanned n name).isSome := by
  rw [ValidationReport.mentions_iff, Option.isSome_iff_exists]
  constructor
  · rintro ⟨v, hv, hid, rfl⟩
    obtain ⟨n', hn', declared, hfirst, hviolation⟩ := (h.mem v).1 hv
    obtain rfl : n' = n := eq_of_id hn' hn (by rw [← hid, hviolation, violation])
    exact ⟨declared, hfirst⟩
  · rintro ⟨declared, hfirst⟩
    have hname := (firstBroken?_eq_some hfirst).2.1
    refine ⟨g.violation declared n, (h.mem _).2 ⟨n, hn, declared, ?_, rfl⟩, rfl, hname⟩
    rw [show (g.violation declared n).relationship = name from hname]
    exact hfirst

theorem Reports.fresh_iff (h : g.Reports scanned report) (hn : n ∈ g.nodes) {name : String} :
    (!report.mentions n.id name) = true ↔ g.firstBroken? scanned n name = none := by
  rw [Bool.not_eq_true', ← Bool.not_eq_true, h.mentions_iff hn, Bool.not_eq_true,
    Option.isSome_eq_false_iff, Option.isNone_iff_eq_none]

/-- The violations that one scan finds differ in their elements. -/
theorem pairwise_violations {ns : List RawNode}
    (hns : ns.Perm (g.nodes.filter fun n => g.breaks n declared)) :
    (ns.map (g.violation declared)).Pairwise fun v w =>
      ¬ (v.elementId = w.elementId ∧ v.relationship = w.relationship) := by
  have hids : (ns.map RawNode.id).Nodup := by
    rw [(hns.map RawNode.id).nodup_iff]
    exact g.distinct.sublist (List.filter_sublist.map _)
  rw [List.pairwise_map]
  exact (List.pairwise_map.1 hids).imp fun hne hsame => hne hsame.1

/-- A scan of one more declaration adds what the report does not mention. -/
theorem Reports.concat (h : g.Reports scanned report) {ns : List RawNode}
    (hns : ns.Perm (g.nodes.filter fun n => g.breaks n declared)) :
    g.Reports (scanned ++ [declared]) ((ns.map (g.violation declared)).foldl .add report) := by
  have hfound := pairwise_violations hns
  have hmem (n : RawNode) : n ∈ ns ↔ n ∈ g.nodes ∧ g.breaks n declared = true := by
    rw [hns.mem_iff, List.mem_filter]
  constructor
  · intro v
    rw [ValidationReport.violations_foldl_add hfound, List.mem_append, h.mem, List.mem_filter]
    constructor
    · rintro (⟨n, hn, first, hfirst, rfl⟩ | ⟨hv, hfresh⟩)
      · exact ⟨n, hn, first, firstBroken?_concat.2 (.inl hfirst), rfl⟩
      · obtain ⟨n, hn, rfl⟩ := List.mem_map.1 hv
        obtain ⟨hn, hbreaks⟩ := (hmem n).1 hn
        have hnone := (h.fresh_iff hn).1 hfresh
        exact ⟨n, hn, declared, firstBroken?_concat.2 (.inr ⟨hnone, rfl, hbreaks, rfl⟩), rfl⟩
    · rintro ⟨n, hn, first, hfirst, rfl⟩
      rcases firstBroken?_concat.1 hfirst with hfirst | ⟨hnone, -, hbreaks, rfl⟩
      · exact .inl ⟨n, hn, first, hfirst, rfl⟩
      · exact .inr ⟨List.mem_map.2 ⟨n, (hmem n).2 ⟨hn, hbreaks⟩, rfl⟩, (h.fresh_iff hn).2 hnone⟩
  · -- What is added differs from what was there, since that is not mentioned.
    rw [ValidationReport.violations_foldl_add hfound]
    refine List.pairwise_append.2 ⟨h.distinct, hfound.filter _, fun v hv w hw hsame => ?_⟩
    have hfresh := (List.mem_filter.1 hw).2
    rw [Bool.not_eq_true', Bool.eq_false_iff] at hfresh
    exact hfresh (ValidationReport.mentions_iff.2 ⟨v, hv, hsame⟩)

end Graph

/-! ## All scans -/

section Scans

variable {σ τ : Type} {d : Driver σ τ} {stored : σ → Graph} {seen : τ × σ → Graph} {g : Guard}
  {s : σ}

/-- A driver answers every request for the nodes outside some bounds while a graph is stored. -/
def Driver.AnswersScans (d : Driver σ τ) (stored : σ → Graph) (f : IdFunction) (held : Graph) :
    Prop :=
  ∀ s, stored s = held → ∀ (k : EdgeKind) (label : String) (least : Nat) (most? : Option Nat),
    ∃ o s', (d.execute (.edges f (.outside k label least most?))).run.run s = (.ok o, s')

/-- A graph's nodes have the identities that a function writes. -/
def Graph.WrittenBy (held : Graph) (f : IdFunction) : Prop :=
  ∀ n ∈ held.nodes, (f.operand n.id).identity = n.id

/-- A scan finds the violations of one declaration, and changes nothing. -/
theorem Guard.run_scan (hd : d.Holds stored seen)
    (hscans : d.AnswersScans stored g.settings.idFunction (stored s))
    (hids : (stored s).WrittenBy g.settings.idFunction) (t : NodeType) (rel : Relationship) :
    ∃ (ns : List RawNode) (s' : σ),
      (g.scan d t rel).run.run s = (.ok (ns.map ((stored s).violation (t, rel))), s') ∧
      stored s' = stored s ∧
      ns.Perm ((stored s).nodes.filter fun n => (stored s).breaks n (t, rel)) := by
  obtain ⟨o, s', hrun⟩ := hscans s rfl rel.edges t.label rel.cardinality.least
    rel.cardinality.most?
  obtain ⟨hstored, ns, hns, htally⟩ := (hd.execute hrun).tally_outside
  rw [Graph.outside_eq] at hns
  refine ⟨ns, s', ?_, hstored, hns⟩
  unfold scan
  dsimp only
  rw [Task.run_bind_ok hrun, htally, List.map_map]
  have hviolations : ns.map ((stored s).violation (t, rel)) =
      ns.map fun n => ⟨(g.settings.idFunction.operand n.id).identity, t.name, rel.name,
        rel.cardinality, (stored s).countAt rel.edges n.id⟩ := by
    refine List.map_congr_left fun n hn => ?_
    rw [hids n (List.mem_filter.1 (hns.mem_iff.1 hn)).1, Graph.violation]
  rw [hviolations]
  rfl

/-- Scans report the violations of their declarations after what was scanned before. -/
theorem Guard.run_scans (hd : d.Holds stored seen) {held : Graph}
    (hscans : d.AnswersScans stored g.settings.idFunction held)
    (hids : held.WrittenBy g.settings.idFunction) (declarations : List (NodeType × Relationship))
    {scanned : List (NodeType × Relationship)} {report : ValidationReport}
    (hreports : held.Reports scanned report) (hs : stored s = held) :
    ∃ report' s',
      (declarations.foldlM (fun (report : ValidationReport) (t, rel) => do
          return (← g.scan d t rel).foldl ValidationReport.add report) report).run.run s =
        (.ok report', s') ∧
      stored s' = held ∧ held.Reports (scanned ++ declarations) report' := by
  -- The report of what was scanned carries the induction: every scan takes up one declaration more.
  induction declarations generalizing s scanned report with
  | nil => exact ⟨report, s, rfl, hs, by rwa [List.append_nil]⟩
  | cons declared rest ih =>
    subst hs
    obtain ⟨ns, s₁, hrun, hstored, hns⟩ := run_scan hd hscans hids declared.1 declared.2
    obtain ⟨report', s', hrest, hkept, hreports'⟩ := ih (hreports.concat hns) hstored
    refine ⟨report', s', ?_, hkept, by rwa [List.append_assoc] at hreports'⟩
    have hstep : (do return (← g.scan d declared.1 declared.2).foldl .add report :
        Task σ ValidationReport).run.run s =
          (.ok ((ns.map ((stored s).violation declared)).foldl .add report), s₁) := by
      rw [Task.run_bind_ok hrun]
      rfl
    rw [List.foldlM_cons, Task.run_bind_ok hstep]
    exact hrest

end Scans

/-! ## Reports -/

/-- A report has a violation of a node with the name and the bound of a declaration, and the number
of the node's edges. -/
def ValidationReport.Has (report : ValidationReport) (held : Graph) (n : RawNode)
    (rel : Relationship) : Prop :=
  ∃ v ∈ report.violations, v.elementId = n.id ∧ v.relationship = rel.name ∧
    v.expected = rel.cardinality ∧ v.actual = held.countAt rel.edges n.id

namespace Graph.Reports

variable {held : Graph} {scanned : List (NodeType × Relationship)} {report : ValidationReport}
  {n : RawNode} {t : NodeType} {rel : Relationship}

/-- A node is reported under the name of a declaration that it breaks. -/
theorem exists_violation (h : held.Reports scanned report) (hn : n ∈ held.nodes)
    (hscanned : (t, rel) ∈ scanned) (hbreaks : held.breaks n (t, rel) = true) :
    ∃ first ∈ scanned, first.2.name = rel.name ∧ held.breaks n first = true ∧
      held.violation first n ∈ report.violations := by
  have hsome : (held.firstBroken? scanned n rel.name).isSome := by
    rw [firstBroken?, List.find?_isSome]
    exact ⟨(t, rel), hscanned, by simp [hbreaks]⟩
  obtain ⟨first, hfirst⟩ := Option.isSome_iff_exists.1 hsome
  obtain ⟨hmem, hname, hfirstBreaks⟩ := firstBroken?_eq_some hfirst
  refine ⟨first, hmem, hname, hfirstBreaks, (h.mem _).2 ⟨n, hn, first, ?_, rfl⟩⟩
  rw [violation, hname]
  exact hfirst

/-- Whatever is reported is broken. -/
theorem breaks_of_has (h : held.Reports scanned report) (hn : n ∈ held.nodes)
    (hhas : report.Has held n rel) :
    rel.cardinality.allows (held.countAt rel.edges n.id) = false := by
  obtain ⟨v, hv, hid, hname, hexpected, hactual⟩ := hhas
  obtain ⟨n', hn', first, hfirst, rfl⟩ := (h.mem v).1 hv
  obtain rfl := eq_of_id hn' hn hid
  have hbreaks := (firstBroken?_eq_some hfirst).2.2
  simp only [breaks, Bool.and_eq_true, Bool.not_eq_true'] at hbreaks
  rw [← hexpected, ← hactual]
  exact hbreaks.2

/-- A declaration that a node breaks is reported, if all others of its name that the node breaks
have its bound and count the same number. -/
theorem has_of_breaks (h : held.Reports scanned report) (hn : n ∈ held.nodes)
    (hscanned : (t, rel) ∈ scanned) (hbreaks : held.breaks n (t, rel) = true)
    (hsame : ∀ other ∈ scanned, other.2.name = rel.name → held.breaks n other = true →
      other.2.cardinality = rel.cardinality ∧
        held.countAt other.2.edges n.id = held.countAt rel.edges n.id) :
    report.Has held n rel := by
  obtain ⟨first, hmem, hname, hfirst, hv⟩ := h.exists_violation hn hscanned hbreaks
  obtain ⟨hcardinality, hcount⟩ := hsame first hmem hname hfirst
  exact ⟨_, hv, rfl, hname, hcardinality, hcount⟩

end Graph.Reports

namespace Guard

variable {σ τ : Type} {d : Driver σ τ} {stored : σ → Graph} {seen : τ × σ → Graph} {g : Guard}
  {s : σ} {calls : List RegistryCall}

/-- The declarations that are scanned are those of the registered types that bound anything. -/
theorem mem_boundedDeclarations (hregistry : g.registry = .after calls) {t : NodeType}
    {rel : Relationship} :
    (t, rel) ∈ g.boundedDeclarations ↔ g.registry.nodeType t.name = .ok t ∧
      rel ∈ t.relationships ∧ rel.cardinality ≠ .zeroOrMore := by
  have hholds := Registry.holds_after calls
  have hmem : t ∈ g.registry.nodeTypes ↔ g.registry.nodeType t.name = .ok t := by
    rw [hregistry, hholds.mem_nodeTypes, hholds.nodeType_eq_ok_iff, hholds.nodeType?]
  simp only [boundedDeclarations, List.mem_flatMap, List.mem_map, List.mem_filter, bne_iff_ne,
    Prod.mk.injEq, ← hmem]
  constructor
  · rintro ⟨t', ht, rel', hrel, rfl, rfl⟩
    exact ⟨ht, hrel⟩
  · rintro ⟨ht, hrel⟩
    exact ⟨t, ht, rel, hrel, rfl, rfl⟩

/-- Validation of a stored graph by a driver that answers every scan.  It changes nothing, and of the
declarations of one name it reports each node with the first that the node breaks, so no two
violations agree in element and relationship.

* A declaration of a registered type that a node with the label of the type breaks is reported, or
  else another of its name that the node breaks.
* If all others of its name that the node breaks have its bound and count the same number, it is
  reported if and only if the number is not allowed; and only if, in any case. -/
theorem validation_reports (hregistry : g.registry = .after calls) (hd : d.Holds stored seen)
    (hscans : d.AnswersScans stored g.settings.idFunction (stored s))
    (hids : (stored s).WrittenBy g.settings.idFunction) :
    ∃ report s', (g.validate d).run.run s = (.ok report, s') ∧ stored s' = stored s ∧
      (stored s).Reports g.boundedDeclarations report ∧
      ∀ n ∈ (stored s).nodes, ∀ (t : NodeType) (rel : Relationship),
        g.registry.nodeType t.name = .ok t → rel ∈ t.relationships → t.label ∈ n.labels →
        (report.Has (stored s) n rel →
          rel.cardinality.allows ((stored s).countAt rel.edges n.id) = false) ∧
        (rel.cardinality.allows ((stored s).countAt rel.edges n.id) = false →
          (∃ first ∈ g.boundedDeclarations, first.2.name = rel.name ∧
            (stored s).breaks n first = true ∧
            (stored s).violation first n ∈ report.violations) ∧
          ((∀ other ∈ g.boundedDeclarations, other.2.name = rel.name →
              (stored s).breaks n other = true → other.2.cardinality = rel.cardinality ∧
                (stored s).countAt other.2.edges n.id = (stored s).countAt rel.edges n.id) →
            report.Has (stored s) n rel)) := by
  obtain ⟨report, s', hrun, hstored, hreports⟩ :=
    run_scans hd hscans hids g.boundedDeclarations (.nil _) rfl
  rw [List.nil_append] at hreports
  refine ⟨report, s', hrun, hstored, hreports, fun n hn t rel ht hrel hlabel => ?_⟩
  refine ⟨hreports.breaks_of_has hn, fun houtside => ?_⟩
  have hbounded : rel.cardinality ≠ .zeroOrMore := by
    intro hfree
    rw [hfree] at houtside
    cases houtside
  have hscanned := (mem_boundedDeclarations hregistry).2 ⟨ht, hrel, hbounded⟩
  have hbreaks : (stored s).breaks n (t, rel) = true := by
    simp [Graph.breaks, hlabel, houtside]
  exact ⟨hreports.exists_violation hn hscanned hbreaks, hreports.has_of_breaks hn hscanned hbreaks⟩

end Guard

namespace Graph

/-- A stored graph is scanned for anything, unless it has more edges than can be counted. -/
theorem driver_answersScans {held : Graph} (hsmall : held.edges.length ≤ greatestInt64)
    (f : IdFunction) : driver.AnswersScans id f held := by
  intro s hs k label least most?
  obtain rfl : s = held := hs
  have hinteger (n : RawNode) : ∃ v, integer (s.countAt k n.id) = .ok v := by
    have hleast : leastInt64 = -2 ^ 63 := rfl
    have hle : s.countAt k n.id ≤ s.edges.length := List.countP_le_length
    rw [integer, int64?, if_pos ⟨by omega, by omega⟩]
    exact ⟨_, rfl⟩
  have hrow (n : RawNode) : ∃ row, rowOf f (fun n => s.countAt k n.id) n = .ok row := by
    obtain ⟨v, hv⟩ := hinteger n
    exact ⟨_, bind_eq_ok.2 ⟨v, hv, rfl⟩⟩
  rcases mapM_ok_or_error (rowOf f fun n => s.countAt k n.id) (s.outside k label least most?) with
    ⟨rows, hrows⟩ | ⟨n, -, e, herror, -⟩
  · have hanswer : s.answer f (.outside k label least most?) = .ok (⟨["id", "count"], rows⟩, s) :=
      bind_eq_ok.2 ⟨rows, hrows, rfl⟩
    have hexecute : (execute (.edges f (.outside k label least most?))).run.run s =
        (liftM (s.answer f (.outside k label least most?)) >>= fun answered => do
          set answered.2
          return answered.1 : Task Graph QueryOutput).run.run s := rfl
    rw [hanswer] at hexecute
    exact ⟨_, _, hexecute⟩
  · obtain ⟨row, hok⟩ := hrow n
    cases hok.symm.trans herror

end Graph

namespace Sample

/-- What authors and editors declare under one name. -/
def works (relType : String) (cardinality : Cardinality) : Relationship :=
  ⟨"works", ["Book"], relType, .outgoing, cardinality, .strict, none⟩

def author : NodeType := (NodeType.new "Author").withRelationship (works "WROTE" .atLeastOne)

def editor : NodeType := (NodeType.new "Editor").withRelationship (works "EDITED" .exactlyOne)

def press : Guard := ⟨.after [.node (.new "Book"), .node author, .node editor], .default⟩

/-- Someone who wrote nothing, and who edited nothing if an editor. -/
def idle (id : String) (labels : List String) : RawNode := ⟨id, labels, []⟩

/-- An author and another one who is an editor too. -/
def newspaper : Graph where
  nodes := [idle "a" ["Author"], idle "b" ["Author", "Editor"]]
  edges := []
  distinct := by decide
  joined := by simp

theorem newspaper_writtenBy : newspaper.WrittenBy press.settings.idFunction := fun _ _ => rfl

end Sample

namespace Guard

open Sample (press newspaper idle works author editor)

/-- An author who wrote nothing is reported. -/
theorem validation_reports_author : ∃ report s',
    (press.validate Graph.driver).run.run newspaper = (.ok report, s') ∧
      report.Has newspaper (idle "a" ["Author"]) (works "WROTE" .atLeastOne) := by
  obtain ⟨report, s', hrun, -, -, hfinds⟩ := validation_reports rfl Graph.driver_holds
    (Graph.driver_answersScans (by decide) _) Sample.newspaper_writtenBy
  obtain ⟨-, hbroken⟩ := hfinds (idle "a" ["Author"]) List.mem_cons_self author
    (works "WROTE" .atLeastOne) rfl (by decide) (by decide)
  exact ⟨report, s', hrun, (hbroken (by decide)).2 (by decide +kernel)⟩

/-- A declaration that a node breaks may be passed over, where the node breaks another of its
name. -/
theorem violation_passed_over :
    ¬ ∀ (σ τ : Type) (d : Driver σ τ) (stored : σ → Graph) (seen : τ × σ → Graph)
        (calls : List RegistryCall) (g : Guard) (s : σ), g.registry = .after calls →
        d.Holds stored seen → d.AnswersScans stored g.settings.idFunction (stored s) →
        (stored s).WrittenBy g.settings.idFunction →
        ∃ report s', (g.validate d).run.run s = (.ok report, s') ∧
          ∀ n ∈ (stored s).nodes, ∀ (t : NodeType) (rel : Relationship),
            g.registry.nodeType t.name = .ok t → rel ∈ t.relationships → t.label ∈ n.labels →
              (rel.cardinality.allows ((stored s).countAt rel.edges n.id) = false ↔
                report.Has (stored s) n rel) := by
  intro hfinds
  obtain ⟨report, s', hrun, hhas⟩ := hfinds _ _ Graph.driver _ _ _ press newspaper rfl
    Graph.driver_holds (Graph.driver_answersScans (by decide) _) Sample.newspaper_writtenBy
  have hreport : (press.validate Graph.driver).run.run newspaper =
      (.ok ⟨[⟨"a", "Author", "works", .atLeastOne, 0⟩, ⟨"b", "Author", "works", .atLeastOne, 0⟩]⟩,
        newspaper) := rfl
  obtain ⟨hok, -⟩ := Prod.mk.inj (hrun.symm.trans hreport)
  obtain rfl := Except.ok.inj hok
  obtain ⟨v, hv, -, -, hexpected, -⟩ := (hhas (idle "b" ["Author", "Editor"])
    (List.mem_cons_of_mem _ List.mem_cons_self) editor (works "EDITED" .exactlyOne) rfl (by decide)
    (by decide)).1 (by decide)
  have hpassed : ∀ v ∈ [(⟨"a", "Author", "works", .atLeastOne, 0⟩ : Violation),
      ⟨"b", "Author", "works", .atLeastOne, 0⟩], v.expected ≠ .exactlyOne := by decide
  exact hpassed v hv hexpected

end Guard

end GraphMapper
