import Mathlib.Data.List.Sigma
import GraphMapper.Database.Memory

/-!
# Which entry of a script answers

A database takes the entries that are used up out of its script.  Here the
script stays as it was at first, and each request is put down with the place of
the entry that answered it, if any did (`uses`).  A place is used by the first
request that reaches its entry (`Serves.used_iff_first`), unless the entry is to
stay.

What is left of the script of a database that replies is what those uses leave
(`serves_reply`).
-/

namespace GraphMapper

namespace Script

/-- A request with its result. -/
abbrev Exchange : Type := Request × Except Error QueryOutput

/-- The entries that some uses leave, with their places. -/
def left (script : Script) (uses : List (Option Nat)) : List (ScriptEntry × Nat) :=
  script.zipIdx.filter fun x => x.1.persistent || decide (some x.2 ∉ uses)

/-- No entry that is left before a place answers a text. -/
def NoneBefore (script : Script) (uses : List (Option Nat)) (text : String) (place : Nat) : Prop :=
  ∀ e place', (e, place') ∈ script.left uses → place' < place → e.answers text = false

/-- An entry that is left answers a text, and none that is left before it does. -/
structure FirstMatch (script : Script) (uses : List (Option Nat)) (text : String)
    (e : ScriptEntry) (place : Nat) : Prop where
  left : (e, place) ∈ script.left uses
  answers : e.answers text = true
  noneBefore : script.NoneBefore uses text place

/-- A request contains the pattern of the entry at a place, and no entry that is left before it
answers the request. -/
def Reaches (script : Script) (exchanges : List Exchange) (uses : List (Option Nat)) (place i : Nat) :
    Prop :=
  ∃ e x, script[place]? = some e ∧ exchanges[i]? = some x ∧ e.answers x.1.text = true ∧
    script.NoneBefore (uses.take i) x.1.text place

/-- The reply of the entry at a place, and without one an empty result. -/
def resultOf (script : Script) (use : Option Nat) : Except Error QueryOutput :=
  match use.bind fun place => script[place]? with
  | some e => e.reply.result
  | none => .ok .empty

/-- A request is answered by the first match, if there is one. -/
structure Answers (script : Script) (uses : List (Option Nat)) (x : Exchange) (use : Option Nat) :
    Prop where
  used : ∀ place, use = some place ↔ ∃ e, script.FirstMatch uses x.1.text e place
  result : x.2 = script.resultOf use

/-- Requests are answered from a script, each from what the requests before it left. -/
structure Serves (script : Script) (exchanges : List Exchange) (uses : List (Option Nat)) :
    Prop where
  length : uses.length = exchanges.length
  answers : ∀ i x use, exchanges[i]? = some x → uses[i]? = some use →
    script.Answers (uses.take i) x use

variable {script : Script} {exchanges : List Exchange} {uses : List (Option Nat)}
  {text : String} {e e' : ScriptEntry} {place place' : Nat}

/-! ## What is left -/

theorem mem_left :
    (e, place) ∈ script.left uses ↔
      script[place]? = some e ∧ (e.persistent = true ∨ some place ∉ uses) := by
  simp [left, List.mem_zipIdx_iff_getElem?]

theorem left_nil (script : Script) : script.left [] = script.zipIdx := by
  simp [left]

theorem left_concat_none : script.left (uses ++ [none]) = script.left uses := by
  simp [left]

/-- A use takes away the entry at its place, unless that is to stay. -/
theorem left_concat_some :
    script.left (uses ++ [some place]) =
      (script.left uses).filter fun x => x.1.persistent || x.2 != place := by
  rw [left, left, List.filter_filter]
  refine List.filter_congr fun x _ => ?_
  by_cases hplace : x.2 = place <;> cases x.1.persistent <;> simp [hplace]

/-- The entries are left in the order of the script. -/
theorem pairwise_left (script : Script) (uses : List (Option Nat)) :
    (script.left uses).Pairwise fun x y => x.2 < y.2 := by
  have hplaces : (script.zipIdx.map Prod.snd).Pairwise (· < ·) := by
    rw [List.zipIdx_map_snd]
    exact List.pairwise_lt_range'
  exact (List.pairwise_map.1 hplaces).filter _

theorem sublist_left (script : Script) (uses : List (Option Nat)) :
    ((script.left uses).map Prod.fst).Sublist script := by
  have h : ((script.left uses).map Prod.fst).Sublist (script.zipIdx.map Prod.fst) :=
    List.filter_sublist.map _
  rwa [List.zipIdx_map_fst] at h

/-- The entries that are to stay do. -/
theorem filter_persistent_left (script : Script) (uses : List (Option Nat)) :
    ((script.left uses).map Prod.fst).filter ScriptEntry.persistent =
      script.filter ScriptEntry.persistent := by
  have hkept : (script.left uses).filter (ScriptEntry.persistent ∘ Prod.fst) =
      script.zipIdx.filter (ScriptEntry.persistent ∘ Prod.fst) := by
    rw [left, List.filter_filter]
    refine List.filter_congr fun x _ => ?_
    simp only [Function.comp_apply]
    cases x.1.persistent <;> simp
  rw [List.filter_map, hkept, ← List.filter_map, List.zipIdx_map_fst]

/-! ## The entry that answers -/

theorem FirstMatch.place_le (h : script.FirstMatch uses text e place)
    (h' : script.FirstMatch uses text e' place') : place ≤ place' := by
  refine Nat.le_of_not_lt fun hlt => ?_
  have hnot : e'.answers text = false := h.noneBefore e' place' h'.left hlt
  rw [h'.answers] at hnot
  cases hnot

theorem FirstMatch.unique (h : script.FirstMatch uses text e place)
    (h' : script.FirstMatch uses text e' place') : (e, place) = (e', place') := by
  obtain rfl : place = place' := Nat.le_antisymm (h.place_le h') (h'.place_le h)
  have he := (mem_left.1 h.left).1
  rw [(mem_left.1 h'.left).1, Option.some_inj] at he
  rw [he]

/-- Looking through what is left finds the first match. -/
theorem find?_left_eq_some_iff :
    (script.left uses).find? (fun x => x.1.answers text) = some (e, place) ↔
      script.FirstMatch uses text e place := by
  have hfound {e : ScriptEntry} {place : Nat}
      (h : (script.left uses).find? (fun x => x.1.answers text) = some (e, place)) :
      script.FirstMatch uses text e place := by
    obtain ⟨hanswers, before, after, hsplit, hbefore⟩ := List.find?_eq_some_iff_append.1 h
    refine ⟨List.mem_of_find?_eq_some h, hanswers, fun e' place' hleft hlt => ?_⟩
    have hsorted := pairwise_left script uses
    rw [hsplit] at hleft hsorted
    rcases List.mem_append.1 hleft with hleft | hleft
    · simpa using hbefore _ hleft
    · -- From the match on, no place comes before its own.
      have hrest := (List.pairwise_append.1 hsorted).2.1
      rcases List.mem_cons.1 hleft with heq | hleft
      · cases heq
        exact absurd hlt (Nat.lt_irrefl _)
      · exact absurd (List.rel_of_pairwise_cons hrest hleft) (Nat.lt_asymm hlt)
  refine ⟨hfound, fun h => ?_⟩
  have hsome : ((script.left uses).find? fun x => x.1.answers text).isSome = true :=
    List.find?_isSome.2 ⟨(e, place), h.left, h.answers⟩
  obtain ⟨⟨e', place'⟩, hx⟩ := Option.isSome_iff_exists.1 hsome
  rw [hx, (hfound hx).unique h]

/-- What a script replies and what it leaves, by the places of its entries. -/
theorem take?_map (entries : List (ScriptEntry × Nat)) (hplaces : (entries.map Prod.snd).Nodup)
    (text : String) :
    Script.take? text (entries.map Prod.fst) =
      (entries.find? fun x => x.1.answers text).map fun x =>
        (x.1.reply, (entries.filter fun y => y.1.persistent || y.2 != x.2).map Prod.fst) := by
  induction entries with
  | nil => rfl
  | cons x rest ih =>
    obtain ⟨hnew, hrest⟩ := List.nodup_cons.1 hplaces
    rw [List.map_cons, take?, List.find?_cons]
    by_cases hx : x.1.answers text = true
    · -- Every other place is another one, so that only this entry may go.
      have hothers : rest.filter (fun y => y.1.persistent || y.2 != x.2) = rest := by
        refine List.filter_eq_self.2 fun y hy => ?_
        have hplace : y.2 ≠ x.2 := fun heq => hnew (heq ▸ List.mem_map_of_mem hy)
        simp [hplace]
      rw [if_pos hx, hx, Option.map_some, List.filter_cons, hothers]
      cases x.1.persistent <;> simp
    · rw [if_neg hx, Bool.eq_false_iff.2 hx, ih hrest, Option.map_map]
      refine Option.map_congr fun y hy => ?_
      have hplace : x.2 ≠ y.2 :=
        fun heq => hnew (heq ▸ List.mem_map_of_mem (List.mem_of_find?_eq_some hy))
      simp [hplace]

/-! ## Uses -/

/-- A place has been used before a request where an earlier request used it. -/
theorem mem_take_iff {use : Option Nat} {i : Nat} :
    use ∈ uses.take i ↔ ∃ j < i, uses[j]? = some use := by
  simp [List.mem_iff_getElem?, List.getElem?_take]

namespace Serves

theorem nil (script : Script) : script.Serves [] [] := ⟨rfl, by simp⟩

theorem concat (h : script.Serves exchanges uses) {x : Exchange} {use : Option Nat}
    (hx : script.Answers uses x use) : script.Serves (exchanges ++ [x]) (uses ++ [use]) := by
  have hlength : uses.length = exchanges.length := h.length
  refine ⟨by simp [hlength], fun i y use' hy huse' => ?_⟩
  rcases Nat.lt_trichotomy i exchanges.length with hi | rfl | hi
  · rw [List.getElem?_append_left hi] at hy
    rw [List.getElem?_append_left (hlength ▸ hi)] at huse'
    rw [List.take_append_of_le_length (hlength ▸ Nat.le_of_lt hi)]
    exact h.answers i y use' hy huse'
  · rw [List.getElem?_concat_length, Option.some_inj] at hy
    rw [← hlength, List.getElem?_concat_length, Option.some_inj] at huse'
    rwa [← hlength, List.take_left, ← hy, ← huse']
  · rw [List.getElem?_eq_none (by simp; omega)] at hy
    cases hy

/-- The entry that a request uses is its first match. -/
theorem used_iff (h : script.Serves exchanges uses) {i : Nat} {x : Exchange}
    (hx : exchanges[i]? = some x) :
    uses[i]? = some (some place) ↔ ∃ e, script.FirstMatch (uses.take i) x.1.text e place := by
  obtain ⟨hi, _⟩ := List.getElem?_eq_some_iff.1 hx
  rw [← h.length] at hi
  have huse : uses[i]? = some uses[i] := List.getElem?_eq_getElem hi
  rw [huse, Option.some_inj]
  exact (h.answers i x _ hx huse).used place

/-- An entry that does not stay is used by the first request that reaches it, and by no other. -/
theorem used_iff_first (h : script.Serves exchanges uses) (he : script[place]? = some e)
    (honce : e.persistent = false) (i : Nat) :
    uses[i]? = some (some place) ↔
      script.Reaches exchanges uses place i ∧
        ∀ j < i, ¬ script.Reaches exchanges uses place j := by
  have hleft (i : Nat) : (e, place) ∈ script.left (uses.take i) ↔ some place ∉ uses.take i := by
    simp [mem_left, he, honce]
  have hexchange {i : Nat} (hi : uses[i]? = some (some place)) : ∃ x, exchanges[i]? = some x := by
    obtain ⟨hi, _⟩ := List.getElem?_eq_some_iff.1 hi
    exact ⟨_, List.getElem?_eq_getElem (h.length ▸ hi)⟩
  have hmatch {i : Nat} {x : Exchange} {e' : ScriptEntry}
      (hfirst : script.FirstMatch (uses.take i) x.1.text e' place) : e' = e := by
    have he' := (mem_left.1 hfirst.left).1
    rw [he, Option.some_inj] at he'
    exact he'.symm
  have hreaches {i : Nat} (hi : uses[i]? = some (some place)) :
      script.Reaches exchanges uses place i := by
    obtain ⟨x, hx⟩ := hexchange hi
    obtain ⟨e', hfirst⟩ := (h.used_iff hx).1 hi
    obtain rfl := hmatch hfirst
    exact ⟨e', x, he, hx, hfirst.answers, hfirst.noneBefore⟩
  have huses {i : Nat} (hreach : script.Reaches exchanges uses place i)
      (hfree : some place ∉ uses.take i) : uses[i]? = some (some place) := by
    obtain ⟨e', x, he', hx, hanswers, hbefore⟩ := hreach
    rw [he, Option.some_inj] at he'
    subst he'
    exact (h.used_iff hx).2 ⟨e, (hleft i).2 hfree, hanswers, hbefore⟩
  constructor
  · intro hi
    refine ⟨hreaches hi, fun j hj hreach => ?_⟩
    obtain ⟨x, hx⟩ := hexchange hi
    obtain ⟨e', hfirst⟩ := (h.used_iff hx).1 hi
    obtain rfl := hmatch hfirst
    have hfree : some place ∉ uses.take i := (hleft i).1 hfirst.left
    -- At the earlier request the entry would have been free as well, so it would be used by then.
    have hearlier : uses[j]? = some (some place) :=
      huses hreach fun hmem => hfree (List.take_subset_take_left uses (Nat.le_of_lt hj) hmem)
    exact hfree (mem_take_iff.2 ⟨j, hj, hearlier⟩)
  · rintro ⟨hreach, hnone⟩
    refine huses hreach fun hmem => ?_
    obtain ⟨j, hj, hused⟩ := mem_take_iff.1 hmem
    exact hnone j hj (hreaches hused)

end Serves

end Script

namespace Memory

variable {script : Script} {exchanges : List Script.Exchange} {uses : List (Option Nat)} {m : Memory}

@[simp] theorem reply_journal (m : Memory) (r : Request) :
    (m.reply r).2.journal = m.journal ++ [r] := by
  rw [reply]
  split <;> rfl

@[simp] theorem reply_committed (m : Memory) (r : Request) :
    (m.reply r).2.committed = m.committed := by
  rw [reply]
  split <;> rfl

/-- A reply uses the first match, and takes it out of the script unless it is to stay. -/
theorem serves_reply (h : script.Serves exchanges uses)
    (hm : m.script = (script.left uses).map Prod.fst) (r : Request) :
    ∃ use, script.Serves (exchanges ++ [(r, (m.reply r).1.result)]) (uses ++ [use]) ∧
      (m.reply r).2.script = (script.left (uses ++ [use])).map Prod.fst := by
  have hplaces : ((script.left uses).map Prod.snd).Nodup := by
    refine (List.Pairwise.map Prod.snd (fun x y hlt => ?_) (Script.pairwise_left script uses))
    exact Nat.ne_of_lt hlt
  have htake := Script.take?_map _ hplaces r.text
  rw [← hm] at htake
  cases hfind : (script.left uses).find? fun x => x.1.answers r.text with
  | none =>
    rw [hfind, Option.map_none] at htake
    have hreply : m.reply r = (.output .empty, { m with journal := m.journal ++ [r] }) := by
      simp [reply, htake]
    refine ⟨none, h.concat ⟨fun place => ?_, by rw [hreply]; rfl⟩, ?_⟩
    · simp [← Script.find?_left_eq_some_iff, hfind]
    · rw [hreply, Script.left_concat_none]
      exact hm
  | some x =>
    obtain ⟨e, place⟩ := x
    rw [hfind, Option.map_some] at htake
    have hfirst := Script.find?_left_eq_some_iff.1 hfind
    have hreply : m.reply r = (e.reply, { m with
        journal := m.journal ++ [r]
        script := ((script.left uses).filter
          fun y => y.1.persistent || y.2 != place).map Prod.fst }) := by
      simp [reply, htake]
    refine ⟨some place, h.concat ⟨fun place' => ?_, ?_⟩, ?_⟩
    · constructor
      · intro hplace
        cases hplace
        exact ⟨e, hfirst⟩
      · rintro ⟨e', hfirst'⟩
        exact congrArg some (congrArg Prod.snd (hfirst.unique hfirst'))
    · rw [hreply, Script.resultOf, Option.bind_some, (Script.mem_left.1 hfirst.left).1]
    · rw [hreply, Script.left_concat_some]

end Memory

end GraphMapper
