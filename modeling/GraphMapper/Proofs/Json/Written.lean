import GraphMapper.Proofs.Json.Numbers
import GraphMapper.Proofs.Value.Floats

/-!
# Values, written and read

The JSON text of a value is read to its end by the strict reader, unless lists
and maps are nested more deeply than the reader goes; then it is refused
(`Value.succeedsWhen_parse_text`).  What is read is the value, but for its
floating-point numbers: each of them comes back as its own text is read
(`Double.reread`), which is some finite number, or null where it was infinite or
none.
-/

namespace GraphMapper.Json

/-! ## Strings -/

theorem hexFour?_digitChar :
    ∀ n < 32, hexFour? '0' '0' (Nat.digitChar (n / 16)) (Nat.digitChar (n % 16)) = some n := by
  decide

theorem readChars_writeChar (mode : Mode) (c : Char) (rest : List Char) :
    readChars mode (writeChar c ++ rest) = consChar c <$> readChars mode rest := by
  unfold writeChar
  split
  case h_8 hquote hslash _ _ _ _ _ =>
    split
    · next hcontrol =>
      have hleading : isLeading c.toNat = false := by simp [isLeading]; omega
      have htrailing : isTrailing c.toNat = false := by simp [isTrailing]; omega
      simp only [List.cons_append, List.nil_append]
      rw [readChars.eq_def]
      simp [hexFour?_digitChar _ hcontrol, hleading, htrailing]
    · next hplain =>
      have hquote' : c ≠ '"' := fun h => hquote h
      have hslash' : c ≠ '\\' := fun h => hslash h
      rw [List.singleton_append, readChars.eq_def]
      simp [hquote', hslash', hplain]
  all_goals
    rw [readChars.eq_def]
    rfl

/-- A string is read back as it was. -/
theorem readChars_flatMap (mode : Mode) (cs rest : List Char) :
    readChars mode (cs.flatMap writeChar ++ '"' :: rest) = .ok (some cs, rest) := by
  induction cs with
  | nil => rw [List.flatMap_nil, List.nil_append, readChars.eq_def]; rfl
  | cons c cs ih =>
    rw [List.flatMap_cons, List.append_assoc, readChars_writeChar, ih]
    rfl

/-! ## Nesting -/

mutual

/-- How many brackets are open at most. -/
def nesting : Json → Nat
  | array items => itemsNesting items + 1
  | object members => membersNesting members + 1
  | _ => 0

/-- How many brackets are open at most within some items. -/
def itemsNesting : List Json → Nat
  | [] => 0
  | j :: rest => max (nesting j) (itemsNesting rest)

/-- How many brackets are open at most within some members. -/
def membersNesting : List (String × Json) → Nat
  | [] => 0
  | (_, j) :: rest => max (nesting j) (membersNesting rest)

end

/-! ## Values -/

/-- A computation that succeeds with a result where something holds, and fails otherwise. -/
structure SucceedsWhen {ε α : Type} (holds : Prop) (x : Except ε α) (a : α) : Prop where
  ok : holds → x = .ok a
  error : ¬ holds → ∃ e, x = .error e

namespace SucceedsWhen

variable {ε α β : Type} {p q : Prop} {x : Except ε α} {a : α} {f : α → Except ε β} {b : β}

theorem of_ok (hp : p) (hx : x = .ok a) : SucceedsWhen p x a := ⟨fun _ => hx, fun h => absurd hp h⟩

theorem congr (h : SucceedsWhen p x a) (hpq : q ↔ p) : SucceedsWhen q x a :=
  ⟨fun hq => h.ok (hpq.1 hq), fun hq => h.error (mt hpq.2 hq)⟩

theorem bind (hx : SucceedsWhen p x a) (hf : SucceedsWhen q (f a) b) :
    SucceedsWhen (p ∧ q) (x >>= f) b := by
  refine ⟨fun ⟨hp, hq⟩ => bind_eq_ok.2 ⟨a, hx.ok hp, hf.ok hq⟩, fun hnot => ?_⟩
  by_cases hp : p
  · obtain ⟨e, he⟩ := hf.error fun hq => hnot ⟨hp, hq⟩
    exact ⟨e, by rw [hx.ok hp]; exact he⟩
  · obtain ⟨e, he⟩ := hx.error hp
    exact ⟨e, by rw [he]; rfl⟩

/-- What is made of a result does not change whether there is one. -/
theorem map (h : SucceedsWhen p x a) (g : α → β) :
    SucceedsWhen p (x >>= fun a => pure (g a)) (g a) := by
  refine ⟨fun hp => by rw [h.ok hp]; rfl, fun hp => ?_⟩
  obtain ⟨e, he⟩ := h.error hp
  exact ⟨e, by rw [he]; rfl⟩

end SucceedsWhen

/-- A text begins with what is neither blank nor a closing bracket. -/
def Starts (cs : List Char) : Prop :=
  ∃ c rest, cs = c :: rest ∧ isBlank c = false ∧ c ≠ ']'

/-- The strict reader reads the text of a tree to its end, as another tree, where it nests no more
brackets than are left, and refuses it otherwise. -/
structure ReadAs (j k : Json) : Prop where
  starts : Starts j.compact
  read : ∀ (fuel depth : Nat) {rest}, 2 * j.compact.length ≤ fuel → depth ≤ maxDepth → Ends rest →
    SucceedsWhen (depth + j.nesting ≤ maxDepth)
      (readValue .strict fuel depth (j.compact ++ rest)) (k, rest)

theorem skipBlanks_append {cs : List Char} (h : Starts cs) (rest : List Char) :
    skipBlanks (cs ++ rest) = cs ++ rest := by
  obtain ⟨c, cs, rfl, hblank, -⟩ := h
  simp [skipBlanks, hblank]

theorem exists_fuel {cs : List Char} {fuel : Nat} (h : Starts cs) (hfuel : 2 * cs.length ≤ fuel) :
    ∃ n, fuel = n + 1 := by
  obtain ⟨c, cs, rfl, -⟩ := h
  exact ⟨fuel - 1, by simp at hfuel; omega⟩

/-- A text without brackets is read at any depth. -/
theorem ReadAs.of_flat {j k : Json} {cs : List Char} (hcs : j.compact = cs) (hflat : j.nesting = 0)
    (hstarts : Starts cs) (hread : ∀ (fuel depth : Nat) {rest}, Ends rest →
      readValue .strict (fuel + 1) depth (cs ++ rest) = .ok (k, rest)) : ReadAs j k := by
  subst hcs
  refine ⟨hstarts, fun fuel depth rest hfuel hdepth hrest => ?_⟩
  obtain ⟨n, rfl⟩ := exists_fuel hstarts hfuel
  exact .of_ok (by omega) (hread n depth hrest)

theorem readAs_string (s : String) : ReadAs (.string s) (.string s) := by
  have hcompact : (Json.string s).compact = writeString s := rfl
  have hstarts : Starts (writeString s) := ⟨_, _, rfl, rfl, by decide⟩
  refine .of_flat hcompact rfl hstarts fun _ _ _ _ => ?_
  rw [readValue, skipBlanks_append hstarts]
  simp [writeString, readChars_flatMap, bind, Except.bind, pure, Except.pure]

theorem readAs_number {j : Json} {t : NumberText} (hj : j.compact = t.chars) (hflat : j.nesting = 0)
    (h : t.WellFormed) (hsize : isTooLarge t.json = false) : ReadAs j t.json := by
  obtain ⟨c, cs, hcs, hc⟩ : ∃ c cs, t.chars = c :: cs ∧ (c = '-' ∨ c.isDigit) := by
    obtain ⟨c, cs, hwhole⟩ := List.exists_cons_of_ne_nil h.whole.1.ne_nil
    have hdigit := h.whole.1.isDigit c (by simp [hwhole])
    cases hnegative : t.negative with
    | true => exact ⟨'-', _, by simp [NumberText.chars, hnegative]; rfl, .inl rfl⟩
    | false => exact ⟨c, _, by simp [NumberText.chars, hnegative, hwhole]; rfl, .inr hdigit⟩
  have hne (c' : Char) (hc' : c' ≠ '-' ∧ c'.isDigit = false) : c ≠ c' := by
    rintro rfl
    rcases hc with hc | hc
    · exact hc'.1 hc
    · rw [hc'.2] at hc
      cases hc
  have hblank : isBlank c = false := by
    simp [isBlank, hne ' ' (by decide), hne '\t' (by decide), hne '\n' (by decide),
      hne '\r' (by decide)]
  have hstarts : Starts t.chars := ⟨c, cs, hcs, hblank, hne ']' (by decide)⟩
  refine .of_flat hj hflat hstarts fun _ _ _ hrest => ?_
  have hread := NumberText.readNumber_append h hsize hrest
  rw [hcs, List.cons_append] at hread
  rw [readValue, skipBlanks_append hstarts, hcs, List.cons_append]
  simp [hne 'n' (by decide), hne 't' (by decide), hne 'f' (by decide), hne '"' (by decide),
    hne '[' (by decide), hne '\x7b' (by decide), hc, hread]

theorem starts_word {word : List Char}
    (h : word = ['n', 'u', 'l', 'l'] ∨ word = ['t', 'r', 'u', 'e'] ∨
      word = ['f', 'a', 'l', 's', 'e']) : Starts word := by
  rcases h with rfl | rfl | rfl <;> exact ⟨_, _, rfl, rfl, by decide⟩

/-- A tree that is written as null is read as null. -/
theorem readAs_null {j : Json} (hj : j.compact = ['n', 'u', 'l', 'l']) (hflat : j.nesting = 0) :
    ReadAs j .null := by
  have hstarts : Starts ['n', 'u', 'l', 'l'] := starts_word (.inl rfl)
  refine .of_flat hj hflat hstarts fun _ _ _ _ => ?_
  rw [readValue, skipBlanks_append hstarts]
  rfl

theorem readAs_bool (b : Bool) : ReadAs (.bool b) (.bool b) := by
  have hstarts : Starts (Json.bool b).compact := by
    cases b
    · exact starts_word (.inr (.inr rfl))
    · exact starts_word (.inr (.inl rfl))
  refine .of_flat rfl rfl hstarts fun _ _ _ _ => ?_
  rw [readValue, skipBlanks_append hstarts]
  cases b <;> rfl

/-! ## Items -/

section Items

variable {items read : List Json} {fuel depth : Nat} {rest : List Char}

/-- Items after the first one, each after a comma. -/
def laterItems (items : List Json) : List Char := items.flatMap fun j => ',' :: j.compact

/-- Items with commas between them. -/
def joinedItems : List Json → List Char
  | [] => []
  | j :: rest => j.compact ++ laterItems rest

theorem ends_laterItems (items : List Json) (rest : List Char) :
    Ends (laterItems items ++ ']' :: rest) := by
  cases items <;> simp [laterItems, Ends]

/-- One item, the first or one behind a comma, is read before the others. -/
theorem readItems_cons (first : Bool) {cs : List Char} (hcs : Starts cs) (behind : List Char) :
    readItems .strict (fuel + 1) depth first
        (if first then cs ++ behind else ',' :: (cs ++ behind)) =
      (readValue .strict fuel depth (cs ++ behind) >>= fun item =>
        readItems .strict fuel depth false item.2 >>= fun others =>
          pure (item.1 :: others.1, others.2)) := by
  have hskip := skipBlanks_append hcs behind
  obtain ⟨c, cs, rfl, -, hc⟩ := hcs
  have hcomma (cs : List Char) : skipBlanks (',' :: cs) = ',' :: cs := rfl
  rw [List.cons_append] at hskip
  cases first <;> simp [readItems, hcomma, hskip, hc, bind, Except.bind]

theorem ReadAs.cons_items {j k : Json} (first : Bool) {behind : List Char} {ns : Nat}
    (h : ReadAs j k) (hfuel : 2 * j.compact.length ≤ fuel) (hdepth : depth ≤ maxDepth)
    (hends : Ends behind) (hbehind : SucceedsWhen (depth + ns ≤ maxDepth)
      (readItems .strict fuel depth false behind) (read, rest)) :
    SucceedsWhen (depth + max j.nesting ns ≤ maxDepth)
      (readItems .strict (fuel + 1) depth first
        (if first then j.compact ++ behind else ',' :: (j.compact ++ behind)))
      (k :: read, rest) := by
  rw [readItems_cons first h.starts]
  refine .congr (.bind (h.read fuel depth hfuel hdepth hends)
    (hbehind.map fun others => (k :: others.1, others.2))) ?_
  omega

theorem readItems_later (h : List.Forall₂ ReadAs items read) (fuel depth : Nat) (rest : List Char)
    (hfuel : 2 * (laterItems items).length < fuel) (hdepth : depth ≤ maxDepth) :
    SucceedsWhen (depth + itemsNesting items ≤ maxDepth)
      (readItems .strict fuel depth false (laterItems items ++ ']' :: rest)) (read, rest) := by
  induction h generalizing fuel with
  | nil =>
    obtain ⟨fuel, rfl⟩ : ∃ n, fuel = n + 1 := ⟨fuel - 1, by omega⟩
    exact .of_ok hdepth rfl
  | @cons j k items read hfirst _ ih =>
    obtain ⟨fuel, rfl⟩ : ∃ n, fuel = n + 1 := ⟨fuel - 1, by omega⟩
    have hlength : (laterItems (j :: items)).length =
        j.compact.length + 1 + (laterItems items).length := by
      simp only [laterItems, List.flatMap_cons, List.length_append, List.length_cons]
    have htext : laterItems (j :: items) ++ ']' :: rest =
        ',' :: (j.compact ++ (laterItems items ++ ']' :: rest)) := by
      simp [laterItems]
    rw [htext]
    exact hfirst.cons_items false (by omega) hdepth (ends_laterItems items rest)
      (ih fuel (by omega))

theorem compactItems_eq (items : List Json) : compact.compactItems items = joinedItems items := by
  induction items with
  | nil => rfl
  | cons item rest ih =>
    cases rest with
    | nil => simp [compact.compactItems, joinedItems, laterItems]
    | cons next rest =>
      rw [compact.compactItems, ih]
      · simp [joinedItems, laterItems]
      · simp

theorem readAs_array (h : List.Forall₂ ReadAs items read) : ReadAs (.array items) (.array read) := by
  have hcompact : (Json.array items).compact = '[' :: joinedItems items ++ [']'] := by
    rw [compact, compactItems_eq]
  refine ⟨⟨'[', _, hcompact, rfl, by decide⟩, fun fuel depth rest hfuel hdepth _ => ?_⟩
  rw [hcompact] at hfuel ⊢
  simp only [List.cons_append, List.length_cons, List.length_append, List.length_nil] at hfuel
  obtain ⟨fuel, rfl⟩ : ∃ n, fuel = n + 1 := ⟨fuel - 1, by omega⟩
  have hskip (cs : List Char) : skipBlanks ('[' :: cs) = '[' :: cs := rfl
  rw [List.cons_append, List.cons_append, List.append_assoc, List.singleton_append, readValue, hskip,
    nesting]
  by_cases hopen : maxDepth ≤ depth
  · refine ⟨fun hfits => absurd hfits (by omega), fun _ => ?_⟩
    simp [hopen, failAt]
  · have hitems : SucceedsWhen (depth + 1 + itemsNesting items ≤ maxDepth)
        (readItems .strict fuel (depth + 1) true (joinedItems items ++ ']' :: rest))
        (read, rest) := by
      obtain ⟨fuel, rfl⟩ : ∃ n, fuel = n + 1 := ⟨fuel - 1, by omega⟩
      cases h with
      | nil => exact .of_ok (by simp only [itemsNesting]; omega) rfl
      | cons hfirst hrest =>
        simp only [joinedItems, List.length_append] at hfuel
        rw [joinedItems, List.append_assoc]
        exact hfirst.cons_items true (by omega) (by omega) (ends_laterItems _ rest)
          (readItems_later hrest fuel (depth + 1) rest (by omega) (by omega))
    show SucceedsWhen _ (if Mode.strict = Mode.strict ∧ maxDepth ≤ depth then _ else _) _
    rw [if_neg fun h => hopen h.2]
    refine .congr (hitems.map fun found => (Json.array found.1, found.2)) ?_
    omega

end Items

/-! ## Members -/

section Members

/-- A member is read under its key. -/
def MemberReadAs (m k : String × Json) : Prop := m.1 = k.1 ∧ ReadAs m.2 k.2

variable {members read : List (String × Json)} {fuel depth : Nat} {rest : List Char}

/-- A key with its value. -/
def memberText (m : String × Json) : List Char := writeString m.1 ++ ':' :: m.2.compact

/-- Members after the first one, each after a comma. -/
def laterMembers (members : List (String × Json)) : List Char :=
  members.flatMap fun m => ',' :: memberText m

/-- Members with commas between them. -/
def joinedMembers : List (String × Json) → List Char
  | [] => []
  | m :: rest => memberText m ++ laterMembers rest

theorem ends_laterMembers (members : List (String × Json)) (rest : List Char) :
    Ends (laterMembers members ++ '\x7d' :: rest) := by
  cases members <;> simp [laterMembers, Ends]

/-- One member, the first or one behind a comma, is read before the others. -/
theorem readMembers_cons (first : Bool) (m : String × Json) (behind : List Char) :
    readMembers .strict (fuel + 1) depth first
        (if first then memberText m ++ behind else ',' :: (memberText m ++ behind)) =
      (readValue .strict fuel depth (m.2.compact ++ behind) >>= fun value =>
        readMembers .strict fuel depth false value.2 >>= fun others =>
          pure (consMember (some m.1.toList) value.1 others.1, others.2)) := by
  have htext : memberText m ++ behind =
      '"' :: (m.1.toList.flatMap writeChar ++ '"' :: ':' :: (m.2.compact ++ behind)) := by
    simp [memberText, writeString]
  have hcomma (cs : List Char) : skipBlanks (',' :: cs) = ',' :: cs := rfl
  have hquote (cs : List Char) : skipBlanks ('"' :: cs) = '"' :: cs := rfl
  have hcolon (cs : List Char) : skipBlanks (':' :: cs) = ':' :: cs := rfl
  rw [htext]
  cases first <;>
    simp [readMembers, hcomma, hquote, hcolon, readChars_flatMap, bind, Except.bind]

theorem MemberReadAs.cons_members {m k : String × Json} (first : Bool) {behind : List Char}
    {ns : Nat} (h : MemberReadAs m k) (hfuel : 2 * m.2.compact.length ≤ fuel)
    (hdepth : depth ≤ maxDepth) (hends : Ends behind)
    (hbehind : SucceedsWhen (depth + ns ≤ maxDepth)
      (readMembers .strict fuel depth false behind) (some read, rest)) :
    SucceedsWhen (depth + max m.2.nesting ns ≤ maxDepth)
      (readMembers .strict (fuel + 1) depth first
        (if first then memberText m ++ behind else ',' :: (memberText m ++ behind)))
      (some (k :: read), rest) := by
  obtain ⟨key, j⟩ := m
  obtain ⟨key', k⟩ := k
  obtain ⟨rfl, hread⟩ : key = key' ∧ ReadAs j k := h
  have hmember : consMember (some key.toList) k (some read) = some ((key, k) :: read) := by
    rw [consMember, String.ofList_toList]
  rw [readMembers_cons first (key, j), ← hmember]
  refine .congr (.bind (hread.read fuel depth hfuel hdepth hends)
    (hbehind.map fun others => (consMember (some key.toList) k others.1, others.2))) ?_
  dsimp only
  omega

theorem readMembers_later (h : List.Forall₂ MemberReadAs members read) (fuel depth : Nat)
    (rest : List Char) (hfuel : 2 * (laterMembers members).length < fuel)
    (hdepth : depth ≤ maxDepth) :
    SucceedsWhen (depth + membersNesting members ≤ maxDepth)
      (readMembers .strict fuel depth false (laterMembers members ++ '\x7d' :: rest))
      (some read, rest) := by
  induction h generalizing fuel with
  | nil =>
    obtain ⟨fuel, rfl⟩ : ∃ n, fuel = n + 1 := ⟨fuel - 1, by omega⟩
    exact .of_ok hdepth rfl
  | @cons m k members read hfirst _ ih =>
    obtain ⟨fuel, rfl⟩ : ∃ n, fuel = n + 1 := ⟨fuel - 1, by omega⟩
    have hlength : m.2.compact.length + 1 + (laterMembers members).length ≤
        (laterMembers (m :: members)).length := by
      simp only [laterMembers, memberText, List.flatMap_cons, List.length_append, List.length_cons]
      omega
    have htext : laterMembers (m :: members) ++ '\x7d' :: rest =
        ',' :: (memberText m ++ (laterMembers members ++ '\x7d' :: rest)) := by
      simp [laterMembers]
    rw [htext]
    exact hfirst.cons_members false (by omega) hdepth (ends_laterMembers members rest)
      (ih fuel (by omega))

theorem compactMembers_eq (members : List (String × Json)) :
    compact.compactMembers members = joinedMembers members := by
  induction members with
  | nil => rfl
  | cons m rest ih =>
    obtain ⟨key, value⟩ := m
    cases rest with
    | nil => simp [compact.compactMembers, joinedMembers, laterMembers, memberText]
    | cons next rest =>
      rw [compact.compactMembers, ih]
      · simp [joinedMembers, laterMembers, memberText]
      · simp

theorem readAs_object (h : List.Forall₂ MemberReadAs members read) :
    ReadAs (.object members) (.object read) := by
  have hcompact : (Json.object members).compact = '\x7b' :: joinedMembers members ++ ['\x7d'] := by
    rw [compact, compactMembers_eq]
  refine ⟨⟨'\x7b', _, hcompact, rfl, by decide⟩, fun fuel depth rest hfuel hdepth _ => ?_⟩
  rw [hcompact] at hfuel ⊢
  simp only [List.cons_append, List.length_cons, List.length_append, List.length_nil] at hfuel
  obtain ⟨fuel, rfl⟩ : ∃ n, fuel = n + 1 := ⟨fuel - 1, by omega⟩
  have hskip (cs : List Char) : skipBlanks ('\x7b' :: cs) = '\x7b' :: cs := rfl
  rw [List.cons_append, List.cons_append, List.append_assoc, List.singleton_append, readValue, hskip,
    nesting]
  by_cases hopen : maxDepth ≤ depth
  · refine ⟨fun hfits => absurd hfits (by omega), fun _ => ?_⟩
    simp [hopen, failAt]
  · have hmembers : SucceedsWhen (depth + 1 + membersNesting members ≤ maxDepth)
        (readMembers .strict fuel (depth + 1) true (joinedMembers members ++ '\x7d' :: rest))
        (some read, rest) := by
      obtain ⟨fuel, rfl⟩ : ∃ n, fuel = n + 1 := ⟨fuel - 1, by omega⟩
      cases h with
      | nil => exact .of_ok (by simp only [membersNesting]; omega) rfl
      | cons hfirst hrest =>
        simp only [joinedMembers, memberText, List.length_append, List.length_cons] at hfuel
        rw [joinedMembers, List.append_assoc]
        exact hfirst.cons_members true (by omega) (by omega) (ends_laterMembers _ rest)
          (readMembers_later hrest fuel (depth + 1) rest (by omega) (by omega))
    show SucceedsWhen _ (if Mode.strict = Mode.strict ∧ maxDepth ≤ depth then _ else _) _
    rw [if_neg fun h => hopen h.2]
    refine .congr (hmembers.map _) ?_
    omega

end Members

end GraphMapper.Json

namespace GraphMapper.Json

variable {j k : Json}

/-- A tree is read as another one, unless it is nested more deeply than the reader goes. -/
theorem ReadAs.succeedsWhen_readText (h : ReadAs j k) :
    SucceedsWhen (j.nesting ≤ maxDepth) (readText .strict j.compact) k := by
  have hends : Ends [] := by simp [Ends]
  have hread := h.read (2 * j.compact.length + 2) 0 (by omega) (by omega) hends
  rw [List.append_nil, Nat.zero_add] at hread
  refine ⟨fun hfits => ?_, fun hdeep => ?_⟩
  · rw [readText, hread.ok hfits]
    rfl
  · obtain ⟨e, he⟩ := hread.error hdeep
    exact ⟨e, by rw [readText, he]; rfl⟩

/-- A finite number is read as some finite number. -/
theorem exists_readAs_real {x : Double} (h : x.isFinite) :
    ∃ y : Double, y.isFinite ∧ ReadAs (.real x) (.real y) := by
  obtain ⟨t, hwf, hreal, hvalue, hchars⟩ := exists_text_finite h
  obtain ⟨y, hy, hjson⟩ := NumberText.exists_json_eq_real hreal hvalue
  have hcompact : (Json.real x).compact = t.chars := by rw [compact, writeReal, if_pos h, hchars]
  exact ⟨y, hy, hjson ▸ readAs_number hcompact rfl hwf (NumberText.isTooLarge_json hvalue)⟩

theorem readAs_real_of_not_finite {x : Double} (h : ¬ x.isFinite) : ReadAs (.real x) .null :=
  readAs_null (by rw [compact, writeReal, if_neg h]) rfl

theorem readAs_int (i : Int64) : ReadAs (.int i.toInt) (.int i.toInt) := by
  obtain ⟨t, hwf, hjson, hchars⟩ := exists_text_int i
  have hread : ReadAs (.int i.toInt) t.json := readAs_number hchars rfl hwf (by rw [hjson]; rfl)
  rwa [hjson] at hread

end GraphMapper.Json

namespace GraphMapper

open Json (ReadAs MemberReadAs SucceedsWhen)

namespace Value

/-- The text of a value is read as it is laid out. -/
theorem readText_text (v : Value) :
    Json.readText .strict v.text.toList = Json.readText .strict v.toJson.compact := by
  rw [show v.text.toList = v.toJson.compact from String.toList_ofList]

/-- A value whose tree is read as another is read as the value of that one, unless it is nested more
deeply than the reader goes. -/
theorem succeedsWhen_parse {v : Value} {k : Json} (h : ReadAs v.toJson k) :
    SucceedsWhen (v.toJson.nesting ≤ Json.maxDepth) (parse v.text) ((ofJson? k).getD null) := by
  have hread := h.succeedsWhen_readText
  rw [← readText_text] at hread
  refine ⟨fun hfits => by rw [parse, hread.ok hfits], fun hdeep => ?_⟩
  obtain ⟨e, he⟩ := hread.error hdeep
  exact ⟨_, by rw [parse, he]⟩

end Value

/-! ## Floating-point numbers -/

namespace Double

/-- What the text of a number is read as. -/
def reread (x : Double) : Value := (Value.parse (Value.float x).text).toOption.getD .null

variable {x : Double}

theorem reread_eq {k : Json} (h : ReadAs (.real x) k) : x.reread = (Value.ofJson? k).getD .null := by
  have hparse := (Value.succeedsWhen_parse (v := .float x) h).ok (Nat.zero_le _)
  rw [reread, hparse]
  rfl

/-- A finite number is read as some finite number. -/
theorem exists_reread_eq_float (h : x.isFinite) : ∃ y : Double, y.isFinite ∧ x.reread = .float y := by
  obtain ⟨y, hy, hread⟩ := Json.exists_readAs_real h
  exact ⟨y, hy, reread_eq hread⟩

theorem reread_of_not_finite (h : ¬ x.isFinite) : x.reread = .null :=
  reread_eq (Json.readAs_real_of_not_finite h)

theorem reread_eq_null_iff : x.reread = .null ↔ ¬ x.isFinite := by
  refine ⟨fun hnull hfinite => ?_, reread_of_not_finite⟩
  obtain ⟨y, -, hy⟩ := exists_reread_eq_float hfinite
  cases hnull.symm.trans hy

theorem isCanonical_reread (x : Double) : x.reread.IsCanonical := by
  by_cases h : x.isFinite
  · obtain ⟨y, -, hy⟩ := exists_reread_eq_float h
    rw [hy]
    trivial
  · rw [reread_of_not_finite h]
    trivial

theorem readAs_reread (x : Double) : ReadAs (.real x) x.reread.toJson := by
  by_cases h : x.isFinite
  · obtain ⟨y, -, hread⟩ := Json.exists_readAs_real h
    rw [reread_eq hread]
    exact hread
  · rw [reread_of_not_finite h]
    exact Json.readAs_real_of_not_finite h

end Double

/-! ## Values -/

namespace Value

mutual

/-- The tree of a value is read as that of the value with its floating-point numbers reread. -/
theorem readAs_toJson : ∀ v : Value, ReadAs v.toJson (v.replaceFloats Double.reread).toJson
  | null => Json.readAs_null rfl rfl
  | bool b => Json.readAs_bool b
  | int i => Json.readAs_int i
  | float x => x.readAs_reread
  | string s => Json.readAs_string s
  | list items => Json.readAs_array (readAs_itemsToJson items)
  | map entries => Json.readAs_object (readAs_entriesToJson entries)

theorem readAs_itemsToJson : ∀ items : List Value, List.Forall₂ ReadAs (itemsToJson items)
    (itemsToJson (replaceItemFloats Double.reread items))
  | [] => .nil
  | v :: rest => .cons (readAs_toJson v) (readAs_itemsToJson rest)

theorem readAs_entriesToJson : ∀ entries : List (String × Value),
    List.Forall₂ MemberReadAs (entriesToJson entries)
      (entriesToJson (replaceEntryFloats Double.reread entries))
  | [] => .nil
  | (_, v) :: rest => .cons ⟨rfl, readAs_toJson v⟩ (readAs_entriesToJson rest)

end

mutual

/-- The tree of a value stands for the value. -/
theorem ofJson?_toJson : ∀ {v : Value}, v.IsCanonical → ofJson? v.toJson = some v
  | null, _ | bool _, _ | float _, _ | string _, _ => rfl
  | int i, _ => by rw [toJson, ofJson?, ofInt, int64?_toInt]
  | list items, h => by rw [toJson, ofJson?, itemsOfJson?_itemsToJson h]; rfl
  | map entries, h => by
    rw [toJson, ofJson?, entriesOfJson?_entriesToJson h.2, Option.map_some, h.1.ofList_eq]

theorem itemsOfJson?_itemsToJson :
    ∀ {items : List Value}, AreCanonical items → itemsOfJson? (itemsToJson items) = some items
  | [], _ => rfl
  | v :: rest, h => by
    rw [itemsToJson, itemsOfJson?, ofJson?_toJson h.1, itemsOfJson?_itemsToJson h.2]
    rfl

theorem entriesOfJson?_entriesToJson : ∀ {entries : List (String × Value)},
    HasCanonical entries → entriesOfJson? (entriesToJson entries) = some entries
  | [], _ => rfl
  | (key, v) :: rest, h => by
    rw [entriesToJson, entriesOfJson?, ofJson?_toJson h.1, entriesOfJson?_entriesToJson h.2]
    rfl

end

/-- The text of a value is read as the value with its floating-point numbers reread, unless it is
nested more deeply than the reader goes. -/
theorem succeedsWhen_parse_text {v : Value} (h : v.IsCanonical) :
    SucceedsWhen (v.toJson.nesting ≤ Json.maxDepth) (parse v.text)
      (v.replaceFloats Double.reread) := by
  have hparse := succeedsWhen_parse (readAs_toJson v)
  rwa [ofJson?_toJson (h.replaceFloats Double.isCanonical_reread)] at hparse

/-- The text of a value can be read, unless it is nested more deeply than the reader goes. -/
theorem exists_parse_text {v : Value} (h : v.toJson.nesting ≤ Json.maxDepth) :
    ∃ u, parse v.text = .ok u :=
  ⟨_, (succeedsWhen_parse (readAs_toJson v)).ok h⟩

end Value

end GraphMapper
