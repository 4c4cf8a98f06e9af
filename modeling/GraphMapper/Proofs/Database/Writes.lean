import GraphMapper.Proofs.Cypher.Words
import GraphMapper.Proofs.Guard.Statements

/-!
# Statements that count as writes

A statement counts as a write where the word of a clause that changes what is
stored occurs anywhere in its text, and that is inside a name as well.  So what
changes the graph is always told as a write, but a statement that only reads is
told as one too where a label, relationship type or other name in it has such a
word (`Statement.isWrite_spelled`, `Statement.isWrite_reading`).

`Sends` goes through the steps of a guard: whatever a guard is asked, it sends
requests about edges and nothing else.
-/

namespace GraphMapper

/-! ## Requests about edges -/

namespace EdgeRequest

open Cypher (hasClause hasClause_append_of_leads hasClause_append_of_trails trails)

/-- The names of the schema that a request spells: relationship types, labels, and the properties
of an edge that it creates. -/
def names : EdgeRequest → List String
  | countAt edges _ | countBetween edges _ _ | delete edges _ _ | deleteAll edges _ =>
    [edges.relType]
  | lacking edges label inverse _ _ _ => [edges.relType, label, inverse.relType]
  | outside edges label _ _ => [label, edges.relType]
  | create edges _ _ properties => edges.relType :: properties.map Prod.fst

/-- A path has what its names have. -/
theorem hasClause_path {start finish : Cypher.NodePattern} {edges : EdgeKind} {var : String}
    (hstart : start.var?.toList.any hasClause = false) (hvar : hasClause var = false)
    (hfinish : finish.var?.toList.any hasClause = false) :
    hasClause (path start (edgePattern edges var []) finish) =
      (start.labels?.getD [] ++ edges.relType :: finish.labels?.getD []).any hasClause := by
  have hnode {n : Cypher.NodePattern} (h : n.var?.toList.any hasClause = false) :
      (Cypher.spelled n.pieces).any hasClause = (n.labels?.getD []).any hasClause := by
    rw [n.spelled_pieces, List.any_append, h, Bool.false_or]
  have hedge : (Cypher.spelled (edgePattern edges var []).pieces).any hasClause =
      hasClause edges.relType := by
    have hspelled : Cypher.spelled (edgePattern edges var []).pieces = [var, edges.relType] :=
      Cypher.EdgePattern.spelled_pieces rfl
    rw [hspelled, List.any_cons, hvar, Bool.false_or, List.any_cons, List.any_nil, Bool.or_false]
  rw [path, ← Cypher.Pattern.textOf_pieces, Cypher.Pattern.inert, Cypher.Pattern.spelled_pieces_step,
    List.any_append, List.any_append, hnode hstart, hnode hfinish, hedge, List.any_append,
    List.any_cons]

/-- What stands before a path is told apart from it by its first parenthesis. -/
theorem hasClause_append_path (s : String) {start finish : Cypher.NodePattern} {edges : EdgeKind}
    {var : String} (hstart : start.var?.toList.any hasClause = false)
    (hvar : hasClause var = false) (hfinish : finish.var?.toList.any hasClause = false) :
    hasClause (s ++ path start (edgePattern edges var []) finish) =
      (hasClause s ||
        (start.labels?.getD [] ++ edges.relType :: finish.labels?.getD []).any hasClause) := by
  have hsplit : hasClause (s ++ path start (edgePattern edges var []) finish) =
      (hasClause s || hasClause (path start (edgePattern edges var []) finish)) :=
    Text.holds_append (.inr (Cypher.Pattern.opens_text _))
  rw [hsplit, hasClause_path hstart hvar hfinish]

section Conditions

variable (f : IdFunction) (s : String)

theorem hasClause_append_isNode :
    hasClause (s ++ isNode f "us" "source_id") = hasClause s := by
  cases f <;> exact hasClause_append_of_trails rfl s

theorem hasClause_append_isPair : hasClause (s ++ isPair f) = hasClause s := by
  cases f <;> exact hasClause_append_of_trails rfl s

theorem hasClause_append_notKept (kept? : Option String) :
    hasClause (s ++ if kept?.isSome then " AND NOT " ++ isNode f "them" "target_id" else "") =
      hasClause s := by
  cases kept? with
  | none => exact congrArg hasClause String.append_empty
  | some kept =>
    rw [if_pos Option.isSome_some]
    cases f <;> exact hasClause_append_of_trails rfl s

theorem hasClause_append_apply {var : String} (hvar : var = "us" ∨ var = "them") :
    hasClause (s ++ f.apply var) = hasClause s := by
  rcases hvar with rfl | rfl <;> cases f <;> exact hasClause_append_of_trails rfl s

/-- The comparisons of a count with its bounds, of which there may be none. -/
theorem hasClause_append_bounds (least : Nat) (most? : Option Nat) :
    hasClause (s ++ " OR ".intercalate ((bounds least most?).map fun b => b.1)) = hasClause s := by
  unfold bounds
  by_cases hleast : least = 0
  · rw [if_pos hleast]
    cases most? with
    | none => exact congrArg hasClause String.append_empty
    | some most => exact hasClause_append_of_trails (t := "count > $max") rfl s
  · rw [if_neg hleast]
    cases most? with
    | none => exact hasClause_append_of_trails (t := "count < $min") rfl s
    | some most =>
      exact hasClause_append_of_trails (t := "count < $min" ++ " OR " ++ "count > $max") rfl s

theorem hasClause_matchAt (edges : EdgeKind) :
    hasClause (matchAt f edges) = hasClause edges.relType := by
  rw [matchAt, hasClause_append_isNode, hasClause_append_of_trails (t := " WHERE ") rfl,
    hasClause_append_of_leads rfl, hasClause_path rfl rfl rfl]
  exact Bool.or_false _

theorem hasClause_matchBetween (edges : EdgeKind) :
    hasClause (matchBetween f edges) = hasClause edges.relType := by
  rw [matchBetween, hasClause_append_isPair, hasClause_append_of_trails (t := " WHERE ") rfl,
    hasClause_append_of_leads rfl, hasClause_path rfl rfl rfl]
  exact Bool.or_false _

theorem hasClause_lacking (edges : EdgeKind) (label : String) (inverse : EdgeKind) (least : Nat)
    (source : String) (kept? : Option String) :
    hasClause ((lacking edges label inverse least source kept?).text f) =
      [edges.relType, label, inverse.relType].any hasClause := by
  show hasClause ("MATCH " ++ path us (edgePattern edges "r" []) ⟨some "them", some [label]⟩ ++
    " WHERE " ++ isNode f "us" "source_id" ++
    (if kept?.isSome then " AND NOT " ++ isNode f "them" "target_id" else "") ++
    " WITH them, count(r) AS removed OPTIONAL MATCH " ++
    path them (edgePattern inverse "r2" []) .anonymous ++
    " WITH them, removed, count(r2) AS total WHERE total - removed < $min RETURN " ++
    f.apply "them" ++ " AS id, total - removed AS remaining") = _
  rw [hasClause_append_of_trails (t := " AS id, total - removed AS remaining") rfl,
    hasClause_append_apply f _ (.inr rfl), hasClause_append_of_trails
      (t := " WITH them, removed, count(r2) AS total WHERE total - removed < $min RETURN ") rfl,
    hasClause_append_path _ rfl rfl rfl,
    hasClause_append_of_trails (t := " WITH them, count(r) AS removed OPTIONAL MATCH ") rfl,
    hasClause_append_notKept, hasClause_append_isNode,
    hasClause_append_of_trails (t := " WHERE ") rfl, hasClause_append_of_leads rfl,
    hasClause_path rfl rfl rfl, ← List.any_append]
  rfl

theorem hasClause_outside (edges : EdgeKind) (label : String) (least : Nat) (most? : Option Nat) :
    hasClause ((outside edges label least most?).text f) =
      [label, edges.relType].any hasClause := by
  have hnode : hasClause (Cypher.Pattern.node ⟨some "us", some [label]⟩).text =
      [label].any hasClause := by
    rw [← Cypher.Pattern.textOf_pieces, Cypher.Pattern.inert]
    rfl
  show hasClause ("MATCH " ++ (Cypher.Pattern.node ⟨some "us", some [label]⟩).text ++
    " OPTIONAL MATCH " ++ path us (edgePattern edges "r" []) .anonymous ++
    " WITH us, count(r) AS count WHERE " ++
    " OR ".intercalate ((bounds least most?).map fun b => b.1) ++ " RETURN " ++ f.apply "us" ++
    " AS id, count") = _
  rw [hasClause_append_of_trails (t := " AS id, count") rfl,
    hasClause_append_apply f _ (.inl rfl), hasClause_append_of_trails (t := " RETURN ") rfl,
    hasClause_append_bounds,
    hasClause_append_of_trails (t := " WITH us, count(r) AS count WHERE ") rfl,
    hasClause_append_path _ rfl rfl rfl,
    hasClause_append_of_trails (t := " OPTIONAL MATCH ") rfl, hasClause_append_of_leads rfl,
    hnode, ← List.any_append]
  rfl

end Conditions

/-- A request that only reads has the word of a clause exactly where one of its names has. -/
theorem hasClause_text_of_reading (f : IdFunction) {r : EdgeRequest} (hr : r.modifies = false) :
    hasClause (r.text f) = r.names.any hasClause := by
  cases r with
  | create | delete | deleteAll => cases hr
  | countAt edges source =>
    have hcount := hasClause_append_of_trails (t := " RETURN count(r) AS count") rfl
    exact (hcount _).trans ((hasClause_matchAt f edges).trans (Bool.or_false _).symm)
  | countBetween edges source target =>
    have hcount := hasClause_append_of_trails (t := " RETURN count(r) AS count") rfl
    exact (hcount _).trans ((hasClause_matchBetween f edges).trans (Bool.or_false _).symm)
  | lacking => exact hasClause_lacking ..
  | outside => exact hasClause_outside ..

/-- A request that changes what is stored has the word of a clause of its own. -/
theorem hasClause_text_of_modifying (f : IdFunction) {r : EdgeRequest} (hr : r.modifies = true) :
    hasClause (r.text f) = true := by
  cases r with
  | countAt | countBetween | lacking | outside => cases hr
  | create edges source target properties =>
    have hmerge : hasClause ("MATCH (us), (them) WHERE " ++ isPair f ++ " MERGE ") = true :=
      Text.holds_append_of_right rfl
    exact Text.holds_append_of_left (Text.holds_append_of_left hmerge)
  | delete edges source target => exact Text.holds_append_of_right rfl
  | deleteAll edges source => exact Text.holds_append_of_right rfl

end EdgeRequest

/-- A merge has the word of its own clause. -/
theorem MergeStatement.hasClause_text (m : MergeStatement) : Cypher.hasClause m.text = true := by
  have hmerge (s : String) : Cypher.hasClause ("MERGE (" ++ s) = true :=
    Text.holds_append_of_left rfl
  show Cypher.hasClause ("MERGE (" ++ m.var ++ _ ++ " " ++ _ ++ ")" ++ _ ++ " RETURN " ++ m.var) = true
  simp only [String.append_assoc]
  exact hmerge _

/-! ## What a guard sends -/

section Sends

variable {α β : Type} {f : IdFunction}

/-- A task that sends requests about edges to the scripted database, and nothing else. -/
structure Sends (f : IdFunction) (t : Task Memory α) : Prop where
  run : ∀ m, ∃ sent : List EdgeRequest, (t.run.run m).2.journal = m.journal ++ sent.map (.edges f)

namespace Sends

variable {t : Task Memory α} {k : α → Task Memory β}

theorem pure (a : α) : Sends f (Pure.pure a : Task Memory α) :=
  ⟨fun m => ⟨[], (List.append_nil m.journal).symm⟩⟩

theorem lift (x : Except Error α) : Sends f (liftM x : Task Memory α) := by
  cases x with
  | ok a => exact pure a
  | error e => exact ⟨fun m => ⟨[], (List.append_nil m.journal).symm⟩⟩

/-- One task after another sends what both send. -/
theorem bind (ht : Sends f t) (hk : ∀ a, Sends f (k a)) : Sends f (t >>= k) := by
  constructor
  intro m
  obtain ⟨sent, hsent⟩ := ht.run m
  rcases hrun : t.run.run m with ⟨result, m'⟩
  rw [hrun] at hsent
  cases result with
  | error e =>
    rw [Task.run_bind_error hrun]
    exact ⟨sent, hsent⟩
  | ok a =>
    obtain ⟨sent', hsent'⟩ := (hk a).run m'
    refine ⟨sent ++ sent', ?_⟩
    rw [Task.run_bind_ok hrun, hsent', hsent, List.map_append, List.append_assoc]

theorem foldlM {ι : Type} {k : α → ι → Task Memory α} (hk : ∀ a i, Sends f (k a i)) (l : List ι)
    (a : α) : Sends f (l.foldlM k a) := by
  induction l generalizing a with
  | nil => exact pure a
  | cons i rest ih =>
    rw [List.foldlM_cons]
    exact (hk a i).bind ih

theorem execute (r : EdgeRequest) : Sends f (Memory.execute (.edges f r)) := by
  constructor
  intro m
  refine ⟨[r], ?_⟩
  have hjournal : (m.reply (.edges f r)).2.journal = m.journal ++ [.edges f r] := by
    rw [Memory.reply]
    split <;> rfl
  have hrun : (Memory.execute (.edges f r)).run.run m =
      (do
        let output ← (m.reply (.edges f r)).1.result
        modify fun m => { m with committed := m.committed ++ [.edges f r] }
        return output : Task Memory QueryOutput).run.run (m.reply (.edges f r)).2 := rfl
  rw [hrun]
  cases (m.reply (.edges f r)).1 with
  | output o => exact hjournal
  | failure message => exact hjournal

/-- Ending a transaction sends nothing. -/
theorem inTransaction {steps : Task (List Request × Memory) α}
    {R : Option Error → List EdgeRequest → Prop} (h : Asks f steps R) :
    Sends f (Memory.driver.inTransaction steps) := by
  constructor
  intro m
  obtain ⟨asked, result, m', hrun, hended⟩ := Memory.inTransaction_driver h m
  rw [hrun]
  cases result with
  | ok a => exact ⟨asked, hended.1.journal⟩
  | error e => exact ⟨asked, hended.1.journal⟩

end Sends

/-- Every call of a guard sends requests about edges, and nothing else. -/
theorem GuardCall.sends (g : Guard) (ids : Identifiers) (call : GuardCall) :
    Sends g.settings.idFunction (call.task g Memory.driver ids) := by
  cases call with
  | change c =>
    have hrun : Sends g.settings.idFunction (c.run g Memory.driver ids) := by
      rw [c.run_eq]
      exact (Sends.lift _).bind fun x => .inTransaction (g.asks_steps c x.1 x.2)
    exact hrun.bind fun _ => .pure _
  | isConnected source name target =>
    have hrun : Sends g.settings.idFunction (g.isConnected Memory.driver source name target) :=
      (Sends.lift _).bind fun rel => (Sends.execute _).bind fun output => .pure _
    exact hrun.bind fun _ => .pure _
  | validate =>
    have hscan (t : NodeType) (rel : Relationship) :
        Sends g.settings.idFunction (g.scan Memory.driver t rel) :=
      (Sends.execute _).bind fun output => .pure _
    have hrun : Sends g.settings.idFunction (g.validate Memory.driver) :=
      .foldlM (fun report declared => (hscan ..).bind fun found => .pure _) _ _
    exact hrun.bind fun _ => .pure _

end Sends

/-! ## What counts as a write -/

/-- Whatever a call of a guard sends is a request about edges.  It is told as a write exactly where
it changes what is stored, or where a name of the schema in it has the word of a clause that does.
The statement of a plan is told as one exactly where something that it spells has such a word, and
a merge always is. -/
theorem Statement.isWrite_spelled (g : Guard) (ids : Identifiers) (call : GuardCall) (m : Memory) :
    (∃ sent : List EdgeRequest, ((call.task g Memory.driver ids).run.run m).2.journal =
      m.journal ++ sent.map (.edges g.settings.idFunction)) ∧
    (∀ r : EdgeRequest, (Request.edges g.settings.idFunction r).toStatement.isWrite =
      (r.modifies || r.names.any Cypher.hasClause)) ∧
    (∀ c : CompiledQuery, (Request.query c).toStatement.isWrite =
      (Cypher.spelled (Cypher.queryPieces c.query)).any Cypher.hasClause) ∧
    ∀ c : CompiledMerge, (Request.merge c).toStatement.isWrite = true := by
  refine ⟨(call.sends g ids).run m, fun r => ?_, fun c => ?_, fun c => ?_⟩
  · cases hr : r.modifies with
    | true => exact EdgeRequest.hasClause_text_of_modifying _ hr
    | false => exact (EdgeRequest.hasClause_text_of_reading _ hr).trans (Bool.false_or _).symm
  · have hinert := Cypher.inert_queryPieces c.query
    rw [Cypher.Inert, Cypher.textOf_queryPieces] at hinert
    exact hinert
  · exact c.statement.hasClause_text

namespace Sample

/-- The person that created a work. -/
def creator : Relationship :=
  ⟨"creator", ["Person"], "CREATED_BY", .outgoing, .zeroOrMore, .strict, none⟩

def work : NodeType := (NodeType.new "Work").withRelationship creator

def library : Guard := ⟨.after [.node (.new "Person"), .node work], .default⟩

/-- Whether a person created a work. -/
def isCreator : GuardCall :=
  .isConnected ⟨"w", .ofList ["Work"], work, []⟩ "creator"
    ⟨"p", .ofList ["Person"], .new "Person", []⟩

/-- Things of value, in capital letters. -/
def asset : NodeType := (NodeType.new "Asset").withLabel "ASSET"

end Sample

/-- What only reads may be told as a write: a count, for the name of the edges that it counts, and
the statement of a plan, for the label of its root. -/
theorem Statement.isWrite_reading :
    (∃ r : EdgeRequest,
      ((Sample.isCreator.task Sample.library Memory.driver fun _ => "").run.run
        Memory.empty).2.journal = [.edges .elementId r] ∧
      r.modifies = false ∧ (Request.edges .elementId r).toStatement.isWrite = true) ∧
    ∃ r p c, Registry.empty.register Sample.asset = .ok r ∧ QueryPlan.new r "Asset" = .ok p ∧
      p.compile r = .ok c ∧ c.text = "MATCH (asset:ASSET) RETURN asset" ∧
      (Request.query c).toStatement.isWrite = true := by
  constructor
  · have hwrite : Cypher.hasClause "CREATED_BY" = true := rfl
    refine ⟨.countBetween Sample.creator.edges "w" "p", rfl, rfl, ?_⟩
    have hspelled := EdgeRequest.hasClause_text_of_reading .elementId
      (r := .countBetween Sample.creator.edges "w" "p") rfl
    exact hspelled.trans hwrite
  · have hrun : ((do
        let r ← Registry.empty.register Sample.asset
        let p ← QueryPlan.new r "Asset"
        let c ← p.compile r
        return c.text : Except Halt _).toOption = some "MATCH (asset:ASSET) RETURN asset") := by
      decide +kernel
    obtain ⟨r, hr, hrun⟩ := lift_bind_eq_ok.1 (eq_ok_of_toOption hrun)
    obtain ⟨p, hp, hrun⟩ := lift_bind_eq_ok.1 hrun
    obtain ⟨c, hc, hrun⟩ := bind_eq_ok.1 hrun
    have htext := pure_eq_ok.1 hrun
    have hwrite : Cypher.hasClause "MATCH (asset:ASSET) RETURN asset" = true := rfl
    exact ⟨r, p, c, hr, hp, hc, htext, (congrArg Cypher.hasClause htext).trans hwrite⟩

end GraphMapper
