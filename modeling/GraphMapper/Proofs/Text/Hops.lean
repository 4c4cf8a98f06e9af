import GraphMapper.FieldPath
import GraphMapper.Proofs.Steps
import GraphMapper.Proofs.Text.Cuts

/-!
# Hops and their written form

Hops are written with double underscores between them, and a text is cut at
double underscores from the left.  Hops that come of a cut are cut apart again
where they are joined (`Legible`), and so are the first few of them: no part but
the last ends in an underscore.

Two such lists of hops are therefore equal where their chains are, and
`parseHops_eq_ok_iff` says of every list of hops what text it is parsed from, if
there is one.
-/

namespace GraphMapper

/-! ## Legible hops -/

/-- Hops that are read back from their written form. -/
def Legible (hops : List String) : Prop :=
  (Text.splitDouble (Text.joinDouble hops).toList).map String.ofList = hops

theorem toList_joinDouble (hops : List String) :
    (Text.joinDouble hops).toList = ['_', '_'].intercalate (hops.map String.toList) :=
  String.toList_intercalate

theorem map_ofList_eq_iff {parts : List (List Char)} {names : List String} :
    parts.map String.ofList = names ↔ parts = names.map String.toList := by
  constructor
  · rintro rfl
    rw [List.map_map]
    exact (List.map_id'' (fun part => String.toList_ofList) parts).symm
  · rintro rfl
    rw [List.map_map]
    exact List.map_id'' (fun name => String.ofList_toList) names

theorem legible_iff_isCut {hops : List String} :
    Legible hops ↔ Text.IsCut (hops.map String.toList) := by
  rw [Legible, map_ofList_eq_iff, toList_joinDouble, Text.splitDouble_eq_iff]
  exact and_iff_left rfl

namespace Legible

variable {hops hops' : List String}

theorem ne_nil (h : Legible hops) : hops ≠ [] := by
  rintro rfl
  exact absurd (List.map_eq_nil_iff.1 h) (Text.splitDouble_ne_nil _)

/-- The parts of a text are legible, and so are the first few of them. -/
theorem of_splitDouble {text : List Char} {rest : List String}
    (h : (Text.splitDouble text).map String.ofList = hops ++ rest) (hne : hops ≠ []) :
    Legible hops := by
  have hparts := Text.isCut_splitDouble text
  rw [map_ofList_eq_iff.1 h, List.map_append] at hparts
  exact legible_iff_isCut.2
    (hparts.of_prefix (List.prefix_append _ _) fun hnil => hne (List.map_eq_nil_iff.1 hnil))

theorem of_prefix (h : Legible hops) (hbegins : hops' <+: hops) (hne : hops' ≠ []) :
    Legible hops' := by
  obtain ⟨rest, rfl⟩ := hbegins
  exact of_splitDouble h hne

theorem eq_of_joinDouble_eq (h : Legible hops) (h' : Legible hops')
    (heq : Text.joinDouble hops = Text.joinDouble hops') : hops = hops' := by
  unfold Legible at h h'
  rw [heq, h'] at h
  exact h.symm

end Legible

/-! ## Parsed hops -/

theorem requireIdentifier_eq_ok {name : String} {u : Unit} :
    requireIdentifier name = .ok u ↔ Limits.checkIdentifier name = .ok () :=
  mapError_eq_ok

theorem checkHopCount_eq_ok {count : Nat} {u : Unit} :
    liftLimit (Limits.checkHopCount count) = .ok u ↔ count ≠ 0 ∧ count ≤ Limits.maxHops := by
  rw [liftLimit, mapError_eq_ok, Limits.checkHopCount]
  split
  · simp_all
  · split
    · simp only [reduceCtorEq, false_iff]
      omega
    · simp only [true_iff]
      omega

/-- Hops are parsed from their written form alone, where they are legible identifiers and not too
many. -/
theorem parseHops_eq_ok_iff {text : List Char} {hops : List String} :
    parseHops text = .ok hops ↔ (Text.joinDouble hops).toList = text ∧ Legible hops ∧
      hops.length ≤ Limits.maxHops ∧ ∀ hop ∈ hops, Limits.checkIdentifier hop = .ok () := by
  have hread : (Text.splitDouble text).map String.ofList = hops ↔
      (Text.joinDouble hops).toList = text ∧ Legible hops := by
    rw [map_ofList_eq_iff, Text.splitDouble_eq_iff, ← legible_iff_isCut, ← toList_joinDouble,
      and_comm]
  rw [← and_assoc, ← hread]
  constructor
  · intro h
    obtain ⟨_, hcount, h⟩ := bind_eq_ok.1 h
    obtain ⟨_, hnames, h⟩ := bind_eq_ok.1 h
    obtain rfl := pure_eq_ok.1 h
    exact ⟨rfl, (checkHopCount_eq_ok.1 hcount).2, fun hop hmem =>
      requireIdentifier_eq_ok.1 (forM_eq_ok hnames hop hmem)⟩
  · rintro ⟨rfl, hcount, hnames⟩
    have hsome : ((Text.splitDouble text).map String.ofList).length ≠ 0 := fun hnone =>
      Text.splitDouble_ne_nil text (List.map_eq_nil_iff.1 (List.length_eq_zero_iff.1 hnone))
    exact bind_eq_ok.2 ⟨(), checkHopCount_eq_ok.2 ⟨hsome, hcount⟩, bind_eq_ok.2
      ⟨(), forM_eq_ok_of_forall fun hop hmem => requireIdentifier_eq_ok.2 (hnames hop hmem), rfl⟩⟩

theorem parseHops_eq_ok {text : List Char} {hops : List String} (h : parseHops text = .ok hops) :
    (Text.splitDouble text).map String.ofList = hops := by
  obtain ⟨rfl, hlegible, -⟩ := parseHops_eq_ok_iff.1 h
  exact hlegible

theorem legible_of_parseHops {text : List Char} {hops : List String}
    (h : parseHops text = .ok hops) : Legible hops :=
  (parseHops_eq_ok_iff.1 h).2.1

/-- Parsed hops are parsed again from their written form. -/
theorem parseHops_joinDouble {text : List Char} {hops : List String}
    (h : parseHops text = .ok hops) : parseHops (Text.joinDouble hops).toList = .ok hops := by
  rw [(parseHops_eq_ok_iff.1 h).1, h]

/-- What several hops are joined to is not parsed as one. -/
theorem eq_singleton_of_parseHops {hops : List String} (hne : hops ≠ []) {name : String}
    (h : parseHops (Text.joinDouble hops).toList = .ok [name]) : hops = [name] := by
  obtain ⟨htext, hlegible, -⟩ := parseHops_eq_ok_iff.1 h
  have hsingle : Text.Single name.toList :=
    Text.isCut_singleton_iff.1 (legible_iff_isCut.1 hlegible)
  rw [toList_joinDouble, toList_joinDouble, List.map_singleton, List.intercalate_singleton] at htext
  cases hops with
  | nil => exact absurd rfl hne
  | cons first rest =>
    cases rest with
    | nil =>
      rw [List.map_singleton, List.intercalate_singleton] at htext
      rw [String.toList_inj.1 htext]
    | cons second rest =>
      rw [List.map_cons, List.map_cons, List.intercalate_cons_cons] at htext
      exact absurd ⟨_, _, htext.symm⟩ hsingle

end GraphMapper
