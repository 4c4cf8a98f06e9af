import Mathlib.Data.List.MinMax
import GraphMapper.Proofs.Codec.Instants
import GraphMapper.Proofs.Json.Written

/-!
# Stored values can be read

Whatever a codec stores it can read back, with one exception: JSON text is
written to any depth of nesting and read only to a limited one.
-/

namespace GraphMapper.Codec

/-- How deeply the JSON texts nest that a value is stored in. -/
def jsonNesting : Codec → Value → Nat
  | json, v => v.toJson.nesting
  | array item, .list items => (items.map item.jsonNesting).foldr max 0
  | _, _ => 0

theorem exists_decode_string {maxLength : Option Nat} {v w : Value}
    (h : (string maxLength).encode v = .ok w) : ∃ u, (string maxLength).decode w = .ok u := by
  cases v with
  | null =>
    cases h
    exact ⟨.null, rfl⟩
  | string s =>
    simp only [encode, checkLength] at h
    split at h
    · split at h
      · cases h
      · cases h
        exact ⟨.string s, rfl⟩
    · cases h
      exact ⟨.string s, rfl⟩
  | _ => cases h

theorem exists_decode_integer {v w : Value} (h : integer.encode v = .ok w) :
    ∃ u, integer.decode w = .ok u := by
  cases v with
  | null =>
    cases h
    exact ⟨.null, rfl⟩
  | int i =>
    cases h
    exact ⟨.int i, rfl⟩
  | float x =>
    simp only [encode] at h
    split at h
    · cases h
      exact ⟨_, rfl⟩
    · cases h
  | _ => cases h

theorem exists_decode_datetime {v w : Value} (h : datetime.encode v = .ok w) :
    ∃ u, datetime.decode w = .ok u := by
  by_cases hnull : v = .null
  · subst hnull
    cases h
    exact ⟨.null, rfl⟩
  · rw [encode, bind_eq_ok] at h
    · obtain ⟨t, ht, hw⟩ := h
      cases hw
      obtain ⟨t', ht'⟩ := exists_instant_storedSeconds ht
      have hdecode : datetime.decode (.float (storedSeconds t.millis)) =
          (do return .string (← instant (.float (storedSeconds t.millis))).text) := rfl
      exact ⟨.string t'.text, hdecode.trans (by rw [ht']; rfl)⟩
    · exact hnull

/-- What a codec stores it reads back, unless it is JSON text that nests too deeply. -/
theorem exists_decode {c : Codec} {v w : Value} (h : c.encode v = .ok w)
    (hnesting : c.jsonNesting v ≤ Json.maxDepth) : ∃ u, c.decode w = .ok u := by
  induction c generalizing v w with
  | string maxLength => exact exists_decode_string h
  | integer => exact exists_decode_integer h
  | float =>
    cases v <;> cases h <;> exact ⟨_, rfl⟩
  | boolean =>
    cases v <;> cases h <;> exact ⟨_, rfl⟩
  | datetime => exact exists_decode_datetime h
  | json =>
    by_cases hnull : v = .null
    · subst hnull
      cases h
      exact ⟨.null, rfl⟩
    · obtain ⟨u, hu⟩ := Value.exists_parse_text hnesting
      rw [encode] at h
      · cases h
        exact ⟨u, by simp [decode, hu]⟩
      · exact hnull
  | uniqueId =>
    cases v <;> cases h <;> exact ⟨_, rfl⟩
  | array item ih =>
    cases v with
    | null =>
      cases h
      exact ⟨.null, rfl⟩
    | list items =>
      rw [encode, bind_eq_ok] at h
      obtain ⟨ws, hws, hw⟩ := h
      cases hw
      rcases mapM_ok_or_error item.decode ws with ⟨us, hus⟩ | ⟨w, hmem, e, herror, -⟩
      · exact ⟨.list us, by rw [decode, hus]; rfl⟩
      · obtain ⟨v, hv, hvw⟩ := exists_of_mem_mapM hws hmem
        have hle := List.le_max_of_le' 0 (List.mem_map_of_mem (f := item.jsonNesting) hv) le_rfl
        obtain ⟨u, hu⟩ := ih hvw (hle.trans hnesting)
        cases hu.symm.trans herror
    | _ => cases h

end GraphMapper.Codec

namespace GraphMapper.Sample

/-- Lists within lists. -/
def nested : Nat → Value
  | 0 => .list []
  | n + 1 => .list [nested n]

/-- A list within a list is read back. -/
theorem decode_shallow : Codec.json.decode (.string (nested 1).text) = .ok (nested 1) := by
  have hread : Json.readText .strict (nested 1).text.toList = .ok (.array [.array []]) :=
    (Value.readText_text _).trans rfl
  have hparse : Value.parse (nested 1).text = .ok (nested 1) := by
    rw [Value.parse, hread]
    rfl
  rw [Codec.decode, hparse]

/-- Lists that nest one deeper than the reader goes are not read back. -/
theorem decode_nested : ∃ e, Codec.json.decode (.string (nested 127).text) = .error e := by
  have hread : (Json.readText .strict (nested 127).toJson.compact).isOk = false := by
    decide +kernel
  rw [← Value.readText_text] at hread
  cases hresult : Json.readText .strict (nested 127).text.toList with
  | ok j =>
    rw [hresult] at hread
    cases hread
  | error failure =>
    obtain ⟨message, hparse⟩ : ∃ message, Value.parse (nested 127).text = .error message :=
      ⟨_, by rw [Value.parse, hresult]⟩
    exact ⟨.badJson message, by rw [Codec.decode, hparse]⟩

end GraphMapper.Sample
