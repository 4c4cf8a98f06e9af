import Mathlib.Data.List.Nodup
import GraphMapper.Cypher.Clause

/-!
# Patterns as chains of edges

A pattern is read as the edges along it, each between the variables that it
joins.  Patterns that are matched one after the other are `Connected` when each
starts at a variable that is known or that an earlier one reaches, so that none
is matched on its own.
-/

namespace GraphMapper.Cypher

/-- An edge of a pattern, from the variable it starts at to the node it reaches. -/
structure Link where
  source? : Option String
  edge : EdgePattern
  target : NodePattern
deriving DecidableEq

namespace Pattern

variable {p : Pattern} {e : EdgePattern} {n : NodePattern}

/-- The edges that lead on from a variable. -/
def linksFrom (source? : Option String) : List (EdgePattern × NodePattern) → List Link
  | [] => []
  | (e, n) :: rest => ⟨source?, e, n⟩ :: linksFrom n.var? rest

/-- The edges of a pattern, in order. -/
def links (p : Pattern) : List Link := linksFrom p.start.var? p.steps

/-- The nodes of a pattern, in order. -/
def nodes (p : Pattern) : List NodePattern := p.start :: p.steps.map Prod.snd

/-- The variable where the edges from a variable on end. -/
def endFrom (source? : Option String) : List (EdgePattern × NodePattern) → Option String
  | [] => source?
  | (_, n) :: rest => endFrom n.var? rest

/-- The variable where a pattern ends. -/
def end? (p : Pattern) : Option String := endFrom p.start.var? p.steps

/-- The variables that the edges of a pattern reach. -/
def reached (p : Pattern) : List String := p.links.filterMap fun l => l.target.var?

theorem linksFrom_append (source? : Option String) (steps : List (EdgePattern × NodePattern)) :
    linksFrom source? (steps ++ [(e, n)]) =
      linksFrom source? steps ++ [⟨endFrom source? steps, e, n⟩] := by
  induction steps generalizing source? with
  | nil => rfl
  | cons s rest ih =>
    obtain ⟨e', n'⟩ := s
    simp only [List.cons_append, linksFrom, endFrom, ih]

theorem endFrom_append (source? : Option String) (steps : List (EdgePattern × NodePattern)) :
    endFrom source? (steps ++ [(e, n)]) = n.var? := by
  induction steps generalizing source? with
  | nil => rfl
  | cons s rest ih => exact ih s.2.var?

@[simp] theorem links_extend : (p.extend e n).links = p.links ++ [⟨p.end?, e, n⟩] :=
  linksFrom_append _ _

@[simp] theorem end?_extend : (p.extend e n).end? = n.var? := endFrom_append _ _

@[simp] theorem nodes_extend : (p.extend e n).nodes = p.nodes ++ [n] := by
  simp [nodes, extend]

@[simp] theorem start_extend : (p.extend e n).start = p.start := rfl

@[simp] theorem links_node : (node n).links = [] := rfl

@[simp] theorem end?_node : (node n).end? = n.var? := rfl

@[simp] theorem nodes_node : (node n).nodes = [n] := rfl

theorem linksFrom_target (source? : Option String) (steps : List (EdgePattern × NodePattern)) :
    (linksFrom source? steps).map Link.target = steps.map Prod.snd := by
  induction steps generalizing source? with
  | nil => rfl
  | cons s rest ih => simp only [linksFrom, List.map_cons, ih]

theorem exists_linkFrom (source? : Option String) {steps : List (EdgePattern × NodePattern)}
    {s : EdgePattern × NodePattern} (h : s ∈ steps) :
    ∃ l ∈ linksFrom source? steps, l.edge = s.1 ∧ l.target = s.2 := by
  induction steps generalizing source? with
  | nil => cases h
  | cons s' rest ih =>
    rcases List.mem_cons.1 h with rfl | h
    · exact ⟨_, List.mem_cons_self, rfl, rfl⟩
    · obtain ⟨l, hl, hedge, htarget⟩ := ih s'.2.var? h
      exact ⟨l, List.mem_cons_of_mem _ hl, hedge, htarget⟩

/-- Every step of a pattern is drawn by one of its edges. -/
theorem exists_link {s : EdgePattern × NodePattern} (h : s ∈ p.steps) :
    ∃ l ∈ p.links, l.edge = s.1 ∧ l.target = s.2 := exists_linkFrom _ h

/-- A node of a pattern is the one that it starts with, or an edge leads there. -/
theorem nodes_eq (p : Pattern) : p.nodes = p.start :: p.links.map Link.target := by
  rw [nodes, links, linksFrom_target]

end Pattern

/-- Every pattern starts at a known variable or at one that an earlier pattern reaches. -/
def Connected (known : List String) : List Pattern → Prop
  | [] => True
  | p :: rest => (∃ v ∈ known, p.start.var? = some v) ∧ Connected (known ++ p.reached) rest

namespace Connected

theorem append_iff {known : List String} {ps qs : List Pattern} :
    Connected known (ps ++ qs) ↔
      Connected known ps ∧ Connected (known ++ ps.flatMap Pattern.reached) qs := by
  induction ps generalizing known with
  | nil => simp [Connected]
  | cons p rest ih =>
    rw [List.cons_append, Connected, Connected, ih, List.flatMap_cons, List.append_assoc, and_assoc]

theorem mono {known known' : List String} {ps : List Pattern} (h : Connected known ps)
    (hsub : known ⊆ known') : Connected known' ps := by
  induction ps generalizing known known' with
  | nil => trivial
  | cons p rest ih =>
    obtain ⟨⟨v, hv, hstart⟩, hrest⟩ := h
    refine ⟨⟨v, hsub hv, hstart⟩, ih hrest ?_⟩
    intro w hw
    rcases List.mem_append.1 hw with hw | hw
    · exact List.mem_append_left _ (hsub hw)
    · exact List.mem_append_right _ hw

theorem start_mem {known : List String} {ps : List Pattern} (h : Connected known ps)
    {p : Pattern} (hp : p ∈ ps) :
    ∃ v ∈ known ++ ps.flatMap Pattern.reached, p.start.var? = some v := by
  obtain ⟨before, after, rfl⟩ := List.append_of_mem hp
  rw [append_iff] at h
  obtain ⟨_, ⟨v, hv, hstart⟩, _⟩ := h
  refine ⟨v, ?_, hstart⟩
  rw [List.flatMap_append]
  rcases List.mem_append.1 hv with hv | hv
  · exact List.mem_append_left _ hv
  · exact List.mem_append_right _ (List.mem_append_left _ hv)

/-- Patterns stay connected while the last one goes on. -/
theorem extend_last {known : List String} {ps : List Pattern} {p : Pattern} {e : EdgePattern}
    {n : NodePattern} (h : Connected known (ps ++ [p])) : Connected known (ps ++ [p.extend e n]) := by
  rw [append_iff] at h ⊢
  exact h

end Connected

end GraphMapper.Cypher
