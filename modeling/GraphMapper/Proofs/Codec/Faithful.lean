import GraphMapper.Proofs.Codec.Stored

/-!
# Stored values come back

What the codecs for text, integers, truth values, identifiers and JSON store they
read back as it was, and so do lists of what such a codec stores, to any depth
(`Codec.decode_encode`).  Floating-point numbers are left out: an integer codec
takes whole ones for integers, and JSON text need not keep them.
-/

namespace GraphMapper.Codec

/-- Codecs for what is stored without being rounded, and for lists of it. -/
def IsExact : Codec → Prop
  | string _ | integer | boolean | json | uniqueId => True
  | float | datetime => False
  | array item => item.IsExact

variable {v w : Value}

/-- JSON text is read back as the value with its floating-point numbers reread, unless it is nested
more deeply than the reader goes. -/
theorem succeedsWhen_decode_json (hv : v.IsCanonical) (h : json.encode v = .ok w) :
    Json.SucceedsWhen (v.toJson.nesting ≤ Json.maxDepth) (json.decode w)
      (v.replaceFloats Double.reread) := by
  by_cases hnull : v = .null
  · subst hnull
    cases h
    exact .of_ok (Nat.zero_le _) rfl
  · have hparse := Value.succeedsWhen_parse_text hv
    rw [encode] at h
    · cases h
      refine ⟨fun hfits => by rw [decode, hparse.ok hfits], fun hdeep => ?_⟩
      obtain ⟨message, hmessage⟩ := hparse.error hdeep
      exact ⟨.badJson message, by rw [decode, hmessage]⟩
    · exact hnull

theorem decode_encode_string {maxLength : Option Nat} (h : (string maxLength).encode v = .ok w) :
    (string maxLength).decode w = .ok v := by
  cases v with
  | null =>
    cases h
    rfl
  | string s =>
    obtain rfl : .string s = w := by
      simp only [encode, checkLength] at h
      split at h
      · split at h
        · cases h
        · exact Except.ok.inj h
      · exact Except.ok.inj h
    rfl
  | _ => cases h

/-- What a codec stores without rounding it reads back as it was, unless it is JSON text that nests
too deeply. -/
theorem decode_encode {c : Codec} (hc : c.IsExact) (hv : v.IsCanonical) (hfloats : v.floats = [])
    (hnesting : c.jsonNesting v ≤ Json.maxDepth) (h : c.encode v = .ok w) : c.decode w = .ok v := by
  induction c generalizing v w with
  | string maxLength => exact decode_encode_string h
  | integer =>
    cases v with
    | null | int =>
      cases h
      rfl
    | float => cases hfloats
    | _ => cases h
  | boolean | uniqueId =>
    cases v <;> cases h <;> rfl
  | json =>
    rw [(succeedsWhen_decode_json hv h).ok hnesting, Value.replaceFloats_eq_self hfloats]
  | float | datetime => exact hc.elim
  | array item ih =>
    cases v with
    | null =>
      cases h
      rfl
    | list items =>
      obtain ⟨ws, hws, hw⟩ := bind_eq_ok.1 h
      cases hw
      have hdecode : ws.mapM item.decode = .ok items := by
        refine mapM_undo (fun v hmem w hvw => ?_) hws
        have hle := List.le_max_of_le' 0 (List.mem_map_of_mem (f := item.jsonNesting) hmem) le_rfl
        exact ih hc (hv.of_mem v hmem) (Value.floats_eq_nil_of_mem hfloats v hmem)
          (hle.trans hnesting) hvw
      rw [decode, hdecode]
      rfl
    | _ => cases h

end GraphMapper.Codec

namespace GraphMapper.Sample

/-- Notes of several kinds, each to be stored as JSON text. -/
def notes : Value :=
  .list [.map [("most", .int Int64.maxValue), ("said", .string "\"so\"\n")], .list [.bool true, .null],
    .null]

/-- The notes, stored. -/
def storedNotes : Value :=
  .list [.string "\x7b\"most\":9223372036854775807,\"said\":\"\\\"so\\\"\\n\"\x7d",
    .string "[true,null]", .null]

/-- Notes are stored as JSON text and read back. -/
theorem decode_encode_notes :
    (Codec.array .json).encode notes = .ok storedNotes ∧
      (Codec.array .json).decode storedNotes = .ok notes := by
  have hstored : (Codec.array .json).encode notes = .ok storedNotes := by rfl
  have hsorted : ["most", "said"].Pairwise (· < ·) := by decide
  have hcanonical : notes.IsCanonical :=
    ⟨⟨hsorted, trivial, trivial, trivial⟩, ⟨trivial, trivial, trivial⟩, trivial, trivial⟩
  exact ⟨hstored, Codec.decode_encode trivial hcanonical rfl (by decide) hstored⟩

end GraphMapper.Sample
