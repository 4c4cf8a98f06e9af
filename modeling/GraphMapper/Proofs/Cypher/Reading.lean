import GraphMapper.Proofs.Cypher.Logic

/-!
# Reading a written filter

`readCondition` reads the tokens of a filter with the usual precedence: NOT
applies to the operand that follows it, AND gathers operands, OR closes the
conjunction before it, and parentheses open a group of their own.  Comparisons
and existence checks are its atoms.

The main statement is `readCondition_conditionTokens`: what a filter is written
as reads back as that filter, the parts of an unnested AND taken one by one.
-/

namespace GraphMapper.Cypher

/-- What the tokens of a filter say. -/
abbrev Reading : Type := Logic Atom Pattern

/-- A group that is being read. -/
structure Group where
  /-- The conjunctions that an OR has closed. -/
  alternatives : List Reading
  /-- The operands of the current conjunction. -/
  parts : List Reading
  /-- The NOTs before the next operand. -/
  negations : Nat

namespace Group

/-- The group of which nothing has been read. -/
def empty : Group := ⟨[], [], 0⟩

/-- A group with one operand more, under the NOTs before it. -/
def add (g : Group) (f : Reading) : Group :=
  ⟨g.alternatives, g.parts ++ [.negated g.negations f], 0⟩

/-- A group in which an OR closes the current conjunction. -/
def close (g : Group) : Group := ⟨g.alternatives ++ [.all g.parts], [], 0⟩

/-- What a group says. -/
def value (g : Group) : Reading := .any (g.alternatives ++ [.all g.parts])

end Group

mutual

/-- Reads on where an operand has to come, inside some groups that are still open. -/
def readOperand (outer : List Group) (g : Group) : List Token → Option Reading
  | .atom a :: ts => readConnective outer (g.add (.comparison a)) ts
  | .present p :: ts => readConnective outer (g.add (.check p)) ts
  | .true :: ts => readConnective outer (g.add (.const Bool.true)) ts
  | .false :: ts => readConnective outer (g.add (.const Bool.false)) ts
  | .not :: ts => readOperand outer { g with negations := g.negations + 1 } ts
  | .opening :: ts => readOperand (g :: outer) .empty ts
  | _ => none

/-- Reads on behind an operand. -/
def readConnective (outer : List Group) (g : Group) : List Token → Option Reading
  | [] => if outer.isEmpty then some g.value else none
  | .and :: ts => readOperand outer g ts
  | .or :: ts => readOperand outer g.close ts
  | .closing :: ts =>
    match outer with
    | o :: outer => readConnective outer (o.add g.value) ts
    | [] => none
  | _ => none

end

/-- What a written filter says, if it is well formed. -/
def readCondition (ts : List Token) : Option Reading := readOperand [] .empty ts

namespace Formula

mutual

/-- What a filter says. -/
def logic : Formula → Reading
  | atom a => .comparison a
  | present p => .check p
  | absent p => .not (.check p)
  | all parts => .all (logics parts)
  | any parts => .any (logics parts)
  | not f => .not f.logic

/-- What some filters say. -/
def logics : List Formula → List Reading
  | [] => []
  | f :: fs => f.logic :: logics fs

end

/-- The operands of a filter that stands on its own, where an AND needs no parentheses. -/
def operands : Formula → List Reading
  | all (f :: fs) => logics (f :: fs)
  | f => [f.logic]

theorem all_operands (f : Formula) : Logic.all f.operands = f.logic := by
  unfold operands
  split
  · rw [logic]
  · rfl

/-- Induction on filters, with the hypothesis for every part of a group. -/
@[elab_as_elim]
theorem induction {motive : Formula → Prop} (atom : ∀ a, motive (.atom a))
    (present : ∀ p, motive (.present p)) (absent : ∀ p, motive (.absent p))
    (all : ∀ parts, (∀ f ∈ parts, motive f) → motive (.all parts))
    (any : ∀ parts, (∀ f ∈ parts, motive f) → motive (.any parts))
    (not : ∀ f, motive f → motive (.not f)) (f : Formula) : motive f :=
  Formula.rec (motive_1 := motive) (motive_2 := fun fs => ∀ f ∈ fs, motive f)
    atom present absent all any not (by simp)
    (fun f fs hf hfs g hg => by
      rcases List.mem_cons.1 hg with rfl | hg
      · exact hf
      · exact hfs g hg) f

/-! ## Reading back -/

/-- Reading the tokens of a filter adds what it says to the group: as one operand where it is
nested, and operand by operand where it stands on its own. -/
structure ReadsBack (f : Formula) : Prop where
  nested : ∀ outer g ts, g.negations = 0 →
    readOperand outer g (f.tokens true ++ ts) =
      readConnective outer ⟨g.alternatives, g.parts ++ [f.logic], 0⟩ ts
  alone : ∀ outer g ts, g.negations = 0 →
    readOperand outer g (f.tokens false ++ ts) =
      readConnective outer ⟨g.alternatives, g.parts ++ f.operands, 0⟩ ts

variable {fs : List Formula}

theorem readConnective_tokensAfter_and (h : ∀ f ∈ fs, ReadsBack f) (outer : List Group)
    (alternatives parts : List Reading) (ts : List Token) :
    readConnective outer ⟨alternatives, parts, 0⟩ (tokensAfter .and fs ++ ts) =
      readConnective outer ⟨alternatives, parts ++ logics fs, 0⟩ ts := by
  induction fs generalizing parts with
  | nil => simp [tokensAfter, logics]
  | cons f rest ih =>
    have hrest := ih fun f' hf' => h f' (List.mem_cons_of_mem f hf')
    simp only [tokensAfter, List.cons_append, List.append_assoc, readConnective]
    rw [(h f List.mem_cons_self).nested _ _ _ rfl, hrest, logics]
    simp

/-- The alternatives of a group, up to its closing parenthesis. -/
theorem readConnective_tokensAfter_or (h : ∀ f ∈ fs, ReadsBack f) (outer : List Group)
    (alternatives : List Reading) (last : Reading) (o : Group) (ts : List Token) :
    readConnective (o :: outer) ⟨alternatives, [last], 0⟩ (tokensAfter .or fs ++ .closing :: ts) =
      readConnective outer (o.add (.any (alternatives ++ last :: logics fs))) ts := by
  induction fs generalizing alternatives last with
  | nil => simp [tokensAfter, readConnective, Group.value, Logic.all, logics]
  | cons f rest ih =>
    have hrest := ih fun f' hf' => h f' (List.mem_cons_of_mem f hf')
    simp only [tokensAfter, List.cons_append, List.append_assoc, readConnective]
    rw [(h f List.mem_cons_self).nested _ _ _ rfl]
    simp only [Group.close, Logic.all, List.nil_append]
    rw [hrest, logics]
    simp

/-- Reading behind an opening parenthesis what ends with the closing one. -/
theorem readOperand_parenthesized_alone {f : Formula} (h : ReadsBack f) (outer : List Group)
    (g : Group) (ts : List Token) :
    readOperand outer g (parenthesized (f.tokens false) ++ ts) =
      readConnective outer (g.add f.logic) ts := by
  simp only [parenthesized, List.cons_append, List.append_assoc, readOperand, List.nil_append]
  rw [h.alone _ _ _ rfl]
  simp [readConnective, Group.empty, Group.value, all_operands, Logic.any]

theorem readsBack (f : Formula) : ReadsBack f := by
  induction f using Formula.induction with
  | atom a =>
    constructor <;> intro outer g ts hg <;>
      simp [tokens, readOperand, Group.add, hg, logic, operands]
  | present p =>
    constructor <;> intro outer g ts hg <;>
      simp [tokens, readOperand, Group.add, hg, logic, operands]
  | absent p =>
    constructor <;> intro outer g ts hg <;>
      simp [tokens, readOperand, Group.add, hg, logic, operands]
  | not f ih =>
    constructor <;> intro outer g ts hg <;>
      · simp only [tokens, List.cons_append, readOperand]
        rw [readOperand_parenthesized_alone ih]
        simp [Group.add, hg, logic, operands]
  | all parts ih =>
    cases parts with
    | nil =>
      constructor <;> intro outer g ts hg <;>
        simp [tokens, readOperand, Group.add, hg, logic, logics, operands, Logic.all]
    | cons f rest =>
      have hf := ih f List.mem_cons_self
      have hrest := fun f' hf' => ih f' (List.mem_cons_of_mem f hf')
      constructor
      · intro outer g ts hg
        cases rest with
        | nil => simp [tokens, tokensAfter, hf.nested _ _ _ hg, logic, logics, Logic.all]
        | cons f' rest' =>
          simp only [tokens, List.isEmpty_cons, Bool.not_false, Bool.and_self, if_true,
            parenthesized, List.cons_append, List.append_assoc, List.nil_append, readOperand]
          rw [hf.nested _ _ _ rfl, readConnective_tokensAfter_and hrest]
          simp [readConnective, Group.empty, Group.value, Group.add, hg, logic, logics, Logic.any]
      · intro outer g ts hg
        simp only [tokens, Bool.false_and, Bool.false_eq_true, if_false, List.append_assoc]
        rw [hf.nested _ _ _ hg, readConnective_tokensAfter_and hrest]
        simp [operands, logics]
  | any parts ih =>
    cases parts with
    | nil =>
      constructor <;> intro outer g ts hg <;>
        simp [tokens, readOperand, Group.add, hg, logic, logics, operands, Logic.any]
    | cons f rest =>
      have hf := ih f List.mem_cons_self
      have hrest := fun f' hf' => ih f' (List.mem_cons_of_mem f hf')
      cases rest with
      | nil =>
        constructor <;> intro outer g ts hg <;>
          simp [tokens, tokensAfter, hf.nested _ _ _ hg, logic, logics, operands, Logic.any]
      | cons f' rest' =>
        constructor <;> intro outer g ts hg <;>
          · simp only [tokens, List.isEmpty_cons, Bool.false_eq_true, if_false, parenthesized,
              List.cons_append, List.append_assoc, List.nil_append, readOperand]
            rw [hf.nested _ _ _ rfl]
            simp only [Group.empty, List.nil_append]
            rw [readConnective_tokensAfter_or hrest]
            simp [Group.add, hg, logic, logics, operands]

end Formula

theorem readOperand_conditionTokens {fs : List Formula} (h : fs ≠ []) (parts : List Reading) :
    readOperand [] ⟨[], parts, 0⟩ (conditionTokens fs) =
      some (.all (parts ++ fs.flatMap Formula.operands)) := by
  fun_induction conditionTokens fs generalizing parts with
  | case1 => exact absurd rfl h
  | case2 f =>
    have hf := f.readsBack.alone [] ⟨[], parts, 0⟩ [] rfl
    rw [List.append_nil] at hf
    simp [hf, readConnective, Group.value, Logic.any]
  | case3 f fs hfs ih =>
    have hne : fs ≠ [] := fun hnil => hfs hnil
    rw [f.readsBack.alone _ _ _ rfl]
    simp only [readConnective]
    rw [ih hne]
    simp

/-- A written filter reads back as the conjunction of the filters that it is made of. -/
theorem readCondition_conditionTokens {fs : List Formula} (h : fs ≠ []) :
    readCondition (conditionTokens fs) = some (.all (fs.flatMap Formula.operands)) := by
  simpa [readCondition, Group.empty] using readOperand_conditionTokens h []

/-- An OR inside an AND keeps its parentheses, an AND inside an OR does not need any to read. -/
example (a b c : Atom) :
    readCondition [.opening, .atom a, .or, .atom b, .closing, .and, .not, .atom c] =
      some ((.and (.or (.comparison a) (.comparison b)) (.not (.comparison c)))) := rfl

end GraphMapper.Cypher
