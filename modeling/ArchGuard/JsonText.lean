import ArchGuard.GoStrconv
import ArchGuard.JsonRecords

/-! JSON values as text: an encoder that takes the escaping of characters as a parameter, and a reader
of the texts it writes, which have no white space. -/
namespace JsonText
open GoText GoJson

-- The encoder.

/-- A rune of a string; a malformed byte is written as the escape of U+FFFD. -/
def spellRune (esc : Char → List Char) : Rune → List Char
  | .char c => esc c
  | .malformed => ['\\', 'u', 'f', 'f', 'f', 'd']

def spellString (esc : Char → List Char) (s : GoString) : List Char :=
  '"' :: ((runes s).flatMap (spellRune esc) ++ ['"'])

def spellInt (n : ℤ) : List Char :=
  if n < 0 then '-' :: Nat.toDigits 10 n.natAbs else Nat.toDigits 10 n.natAbs

/-- A member of an object, its value already spelled. -/
def spellMember (esc : Char → List Char) (key : String) (value : List Char) : List Char :=
  '"' :: (key.toList.flatMap esc ++ '"' :: ':' :: value)

/-- Parts with commas between them. -/
def commas (parts : List (List Char)) : List Char := [','].intercalate parts

mutual

/-- The members of an object stand in the order in which they are given. -/
def encode (esc : Char → List Char) : Json → List Char
  | .str s => spellString esc s
  | .int n => spellInt n
  | .arr items => '[' :: (commas (encodeItems esc items) ++ [']'])
  | .obj fields => '\x7b' :: (commas (encodeFields esc fields) ++ ['\x7d'])

def encodeItems (esc : Char → List Char) : List Json → List (List Char)
  | [] => []
  | item :: items => encode esc item :: encodeItems esc items

def encodeFields (esc : Char → List Char) : List (String × Json) → List (List Char)
  | [] => []
  | (key, value) :: fields => spellMember esc key (encode esc value) :: encodeFields esc fields

end

-- The reader: each function returns what it read and the rest of the text.

/-- The characters of a string up to its closing quote, after those already read. -/
def readChars (cs : List Char) : List Char → Option (List Char × List Char)
  | [] => none
  | '\\' :: 'u' :: a :: b :: c :: d :: s =>
    (JsonRecords.readHex a b c d).bind fun x => readChars (cs ++ [x]) s
  | '\\' :: c :: s => (JsonRecords.readEscape c).bind fun x => readChars (cs ++ [x]) s
  | c :: s =>
    if c = '"' then some (cs, s)
    else if c.toNat < 0x20 ∨ c = '\\' then none
    else readChars (cs ++ [c]) s

def readNat (s : List Char) : Option (ℕ × List Char) :=
  if s.takeWhile Char.isDigit = [] then none
  else some (Nat.ofDigitChars 10 (s.takeWhile Char.isDigit) 0, s.dropWhile Char.isDigit)

def readNumber : List Char → Option (ℤ × List Char)
  | [] => none
  | c :: s =>
    if c = '-' then (readNat s).map fun r => (-(r.1 : ℤ), r.2)
    else (readNat (c :: s)).map fun r => ((r.1 : ℤ), r.2)

/-- What a text has to begin with. -/
def expect (c : Char) : List Char → Option (List Char)
  | [] => none
  | d :: s => if d = c then some s else none

mutual

def readValue : (fuel : ℕ) → List Char → Option (Value × List Char)
  | 0, _ => none
  | _+1, [] => none
  | fuel+1, c :: s =>
    if c = '"' then (readChars [] s).map fun r => (.str (String.ofList r.1), r.2)
    else if c = '[' then
      match expect ']' s with
      | some rest => some (.arr [], rest)
      | none => (readMore fuel s).map fun r => (.arr r.1, r.2)
    else if c = '\x7b' then
      match expect '\x7d' s with
      | some rest => some (.obj [], rest)
      | none => (readMembers fuel s).map fun r => (.obj r.1, r.2)
    else if c = 'n' then (expect 'u' s).bind fun s => (expect 'l' s).bind fun s =>
      (expect 'l' s).map fun rest => (.null, rest)
    else (readNumber (c :: s)).map fun r => (.num r.1, r.2)

/-- The items of an array that is not empty, up to its bracket. -/
def readMore : (fuel : ℕ) → List Char → Option (List Value × List Char)
  | 0, _ => none
  | fuel+1, s => (readValue fuel s).bind fun r =>
    match expect ',' r.2 with
    | some rest => (readMore fuel rest).map fun more => (r.1 :: more.1, more.2)
    | none => (expect ']' r.2).map fun rest => ([r.1], rest)

/-- The members of an object that is not empty, up to its brace. -/
def readMembers : (fuel : ℕ) → List Char → Option (List (String × Value) × List Char)
  | 0, _ => none
  | fuel+1, s => (expect '"' s).bind fun s => (readChars [] s).bind fun key =>
    (expect ':' key.2).bind fun s => (readValue fuel s).bind fun r =>
    match expect ',' r.2 with
    | some rest =>
      (readMembers fuel rest).map fun more => ((String.ofList key.1, r.1) :: more.1, more.2)
    | none => (expect '\x7d' r.2).map fun rest => ([(String.ofList key.1, r.1)], rest)

end

def parse (s : String) : Option Value :=
  match readValue s.toList.length s.toList with
  | some (v, []) => some v
  | _ => none

-- A value as a tree, and with its members sorted.

mutual

/-- What a JSON value denotes; strings as UTF-8 has them. -/
def value : Json → Value
  | .str s => .str (toValid s)
  | .int n => .num n
  | .arr items => .arr (itemValues items)
  | .obj fields => .obj (fieldValues fields)

def itemValues : List Json → List Value
  | [] => []
  | item :: items => value item :: itemValues items

def fieldValues : List (String × Json) → List (String × Value)
  | [] => []
  | (key, v) :: fields => (key, value v) :: fieldValues fields

end

/-- Members in the order of their keys. -/
def byKey {α : Type} (fields : List (String × α)) : List (String × α) :=
  fields.insertionSort fun a b => a.1 ≤ b.1

mutual

def sorted : Json → Json
  | .str s => .str s
  | .int n => .int n
  | .arr items => .arr (sortedItems items)
  | .obj fields => .obj (byKey (sortedFields fields))

def sortedItems : List Json → List Json
  | [] => []
  | item :: items => sorted item :: sortedItems items

def sortedFields : List (String × Json) → List (String × Json)
  | [] => []
  | (key, v) :: fields => (key, sorted v) :: sortedFields fields

end

section Reading

attribute [local simp] encode value sorted

variable {esc : Char → List Char}

theorem readChars_escaped {c : Char} {t : List Char} (h : JsonRecords.Escaped c t)
    (cs s : List Char) : readChars cs (t ++ s) = readChars (cs ++ [c]) s := by
  cases h with
  | hex w x y z h =>
    simp only [List.cons_append, List.nil_append]
    rw [readChars, h, Option.bind_some]
  | letter x hu h =>
    simp only [List.cons_append, List.nil_append]
    rw [readChars, h, Option.bind_some]
    exact fun a b c d s he => fun _ => hu he
  | plain hquote hslash hc =>
    rw [List.singleton_append, readChars, if_neg hquote, if_neg (by simp [hslash, hc])]
    · intro a b c d s he
      exact fun h => hslash he
    · intro c s he
      exact fun h => hslash he

theorem readChars_quote (cs s : List Char) : readChars cs ('"' :: s) = some (cs, s) := by
  rw [readChars, if_pos rfl]
  · intro a b c d s he
    cases he
  · intro c s he
    cases he

theorem readChars_key (hesc : ∀ c, JsonRecords.Escaped c (esc c)) (t cs s : List Char) :
    readChars cs (t.flatMap esc ++ '"' :: s) = some (cs ++ t, s) := by
  induction t generalizing cs with
  | nil => rw [List.flatMap_nil, List.nil_append, List.append_nil, readChars_quote]
  | cons c t ih =>
    rw [List.flatMap_cons, List.append_assoc, readChars_escaped (hesc c), ih, List.append_assoc,
      List.singleton_append]

theorem escaped_spellRune (hesc : ∀ c, JsonRecords.Escaped c (esc c)) (r : Rune) :
    JsonRecords.Escaped r.replaced (spellRune esc r) := by
  cases r with
  | char c => exact hesc c
  | malformed => exact .hex 'f' 'f' 'f' 'd' (by decide)

theorem readChars_runes (hesc : ∀ c, JsonRecords.Escaped c (esc c)) (rs : List Rune)
    (cs s : List Char) : readChars cs (rs.flatMap (spellRune esc) ++ '"' :: s) =
      some (cs ++ rs.map Rune.replaced, s) := by
  induction rs generalizing cs with
  | nil => rw [List.flatMap_nil, List.nil_append, List.map_nil, List.append_nil, readChars_quote]
  | cons r rs ih =>
    rw [List.flatMap_cons, List.append_assoc, readChars_escaped (escaped_spellRune hesc r), ih,
      List.append_assoc, List.singleton_append, List.map_cons]

def Stops (rest : List Char) : Prop := ∀ c ∈ rest.head?, c.isDigit = false

theorem readNat_toDigits (n : ℕ) {rest : List Char} (hrest : Stops rest) :
    readNat (Nat.toDigits 10 n ++ rest) = some (n, rest) := by
  have hall : ∀ c ∈ Nat.toDigits 10 n, c.isDigit = true := fun c hc =>
    Nat.isDigit_of_mem_toDigits (by decide) (by decide) hc
  have htake : rest.takeWhile Char.isDigit = [] := by
    cases rest with
    | nil => rfl
    | cons c rest =>
      rw [List.takeWhile_cons_of_neg]
      simp [hrest c rfl]
  have hdrop : rest.dropWhile Char.isDigit = rest := by
    cases rest with
    | nil => rfl
    | cons c rest =>
      rw [List.dropWhile_cons_of_neg]
      simp [hrest c rfl]
  rw [readNat, List.takeWhile_append_of_pos hall, List.dropWhile_append_of_pos hall, htake, hdrop,
    List.append_nil, if_neg (by simp), Nat.ofDigitChars_toDigits (by decide) (by decide)]

theorem readNumber_spellInt (n : ℤ) {rest : List Char} (hrest : Stops rest) :
    readNumber (spellInt n ++ rest) = some (n, rest) := by
  rw [spellInt]
  split_ifs with hneg
  · rw [List.cons_append, readNumber, if_pos rfl, readNat_toDigits _ hrest, Option.map_some]
    congr 2
    omega
  · have hread := readNat_toDigits n.natAbs hrest
    cases hd : Nat.toDigits 10 n.natAbs with
    | nil => exact absurd hd (by simp)
    | cons c ds =>
      have hc : c.isDigit = true :=
        Nat.isDigit_of_mem_toDigits (b := 10) (by decide) (by decide) (hd ▸ List.mem_cons_self)
      have hdash : c ≠ '-' := by
        rintro rfl
        cases hc
      rw [hd, List.cons_append] at hread
      rw [List.cons_append, readNumber, if_neg hdash, hread, Option.map_some]
      congr 2
      omega

/-- A text that is read as a value, whatever comes after it but a digit. -/
def Spells (cs : List Char) (v : Value) : Prop :=
  ∀ fuel rest, cs.length ≤ fuel → Stops rest → readValue fuel (cs ++ rest) = some (v, rest)

theorem spells_string (hesc : ∀ c, JsonRecords.Escaped c (esc c)) (s : GoString) :
    Spells (spellString esc s) (.str (toValid s)) := by
  intro fuel rest hfuel _
  obtain ⟨fuel, rfl⟩ : ∃ f, fuel = f+1 := ⟨fuel-1, by
    rw [spellString, List.length_cons] at hfuel
    omega⟩
  rw [spellString, List.cons_append, readValue, if_pos rfl, List.append_assoc, List.singleton_append,
    readChars_runes hesc, Option.map_some, List.nil_append]
  rfl

theorem head_spellInt (n : ℤ) : ∃ c cs, spellInt n = c :: cs ∧ (c = '-' ∨ c.isDigit = true) := by
  rw [spellInt]
  split_ifs
  · exact ⟨'-', _, rfl, Or.inl rfl⟩
  · cases hd : Nat.toDigits 10 n.natAbs with
    | nil => exact absurd hd (by simp)
    | cons c ds =>
      refine ⟨c, ds, rfl, Or.inr ?_⟩
      exact Nat.isDigit_of_mem_toDigits (b := 10) (by decide) (by decide) (hd ▸ List.mem_cons_self)

theorem spells_int (n : ℤ) : Spells (spellInt n) (.num n) := by
  intro fuel rest hfuel hrest
  obtain ⟨c, cs, hn, hc⟩ := head_spellInt n
  obtain ⟨fuel, rfl⟩ : ∃ f, fuel = f+1 := ⟨fuel-1, by
    rw [hn, List.length_cons] at hfuel
    omega⟩
  have hread := readNumber_spellInt n hrest
  rw [hn, List.cons_append] at hread ⊢
  have hne (d : Char) (hd : d.isDigit = false) (hdash : d ≠ '-') : c ≠ d := by
    rintro rfl
    rcases hc with rfl | hc
    · exact hdash rfl
    · rw [hd] at hc
      cases hc
  rw [readValue, if_neg (hne '"' (by decide) (by decide)), if_neg (hne '[' (by decide) (by decide)),
    if_neg (hne '\x7b' (by decide) (by decide)), if_neg (hne 'n' (by decide) (by decide)), hread,
    Option.map_some]

theorem commas_singleton (t : List Char) : commas [t] = t := by
  rw [commas, List.intercalate_singleton]

theorem commas_cons_cons (t u : List Char) (ts : List (List Char)) :
    commas (t :: u :: ts) = t ++ ',' :: commas (u :: ts) := by
  rw [commas, List.intercalate_cons_cons, List.append_assoc, List.singleton_append, commas]

theorem expect_self (c : Char) (s : List Char) : expect c (c :: s) = some s := if_pos rfl

theorem expect_ne {c d : Char} (h : d ≠ c) (s : List Char) : expect c (d :: s) = none := if_neg h

theorem readValue_bracket (fuel : ℕ) (s : List Char) : readValue fuel (']' :: s) = none := by
  cases fuel with
  | zero => rw [readValue]
  | succ fuel =>
    have hnat : readNat (']' :: s) = none := by
      rw [readNat, List.takeWhile_cons_of_neg (by decide), if_pos rfl]
    rw [readValue, if_neg (by decide), if_neg (by decide), if_neg (by decide), if_neg (by decide),
      readNumber, if_neg (by decide), hnat]
    rfl

theorem Spells.expect_bracket {cs : List Char} {v : Value} (h : Spells cs v) (rest : List Char) :
    expect ']' (cs ++ rest) = none := by
  have hread := h cs.length [] le_rfl (by simp [Stops])
  cases cs with
  | nil =>
    rw [List.nil_append, List.length_nil, readValue] at hread
    cases hread
  | cons c cs =>
    apply expect_ne
    rintro rfl
    rw [List.cons_append, readValue_bracket] at hread
    cases hread

theorem stops_cons {c : Char} (h : c.isDigit = false) (s : List Char) : Stops (c :: s) := by
  intro d hd
  rw [List.head?_cons, Option.mem_some_iff] at hd
  rw [← hd, h]

theorem readMore_commas {texts : List (List Char)} {values : List Value}
    (h : List.Forall₂ Spells texts values) (hne : texts ≠ []) {fuel : ℕ}
    (hfuel : (commas texts).length < fuel) (rest : List Char) :
    readMore fuel (commas texts ++ ']' :: rest) = some (values, rest) := by
  induction h generalizing fuel with
  | nil => exact absurd rfl hne
  | @cons t v ts vs hv hvs ih =>
    obtain ⟨fuel, rfl⟩ : ∃ f, fuel = f+1 := ⟨fuel-1, by omega⟩
    cases ts with
    | nil =>
      cases hvs
      rw [commas_singleton] at hfuel ⊢
      rw [readMore, hv fuel _ (by omega) (stops_cons (by decide) _), Option.bind_some,
        expect_ne (by decide)]
      dsimp only
      rw [expect_self, Option.map_some]
    | cons u ts =>
      rw [commas_cons_cons, List.length_append, List.length_cons] at hfuel
      rw [commas_cons_cons, List.append_assoc, List.cons_append, readMore,
        hv fuel _ (by omega) (stops_cons (by decide) _), Option.bind_some, expect_self]
      dsimp only
      rw [ih (List.cons_ne_nil u ts) (by omega), Option.map_some]

theorem spells_array {texts : List (List Char)} {values : List Value}
    (h : List.Forall₂ Spells texts values) : Spells ('[' :: (commas texts ++ [']'])) (.arr values) := by
  intro fuel rest hfuel _
  rw [List.length_cons, List.length_append, List.length_singleton] at hfuel
  obtain ⟨fuel, rfl⟩ : ∃ f, fuel = f+1 := ⟨fuel-1, by omega⟩
  rw [List.cons_append, List.append_assoc, List.singleton_append, readValue, if_neg (by decide),
    if_pos rfl]
  cases h with
  | nil => rfl
  | @cons t v ts vs hv hvs =>
    have hopen : expect ']' (commas (t :: ts) ++ ']' :: rest) = none := by
      cases ts with
      | nil =>
        rw [commas_singleton]
        exact hv.expect_bracket _
      | cons u ts =>
        rw [commas_cons_cons, List.append_assoc]
        exact hv.expect_bracket _
    rw [hopen]
    dsimp only
    rw [readMore_commas (.cons hv hvs) (List.cons_ne_nil t ts) (by omega), Option.map_some]

def SpellsMember (esc : Char → List Char) (text : List Char) (m : String × Value) : Prop :=
  ∃ cs, text = spellMember esc m.1 cs ∧ Spells cs m.2

theorem readMembers_commas (hesc : ∀ c, JsonRecords.Escaped c (esc c)) {texts : List (List Char)}
    {members : List (String × Value)} (h : List.Forall₂ (SpellsMember esc) texts members)
    (hne : texts ≠ []) {fuel : ℕ} (hfuel : (commas texts).length < fuel) (rest : List Char) :
    readMembers fuel (commas texts ++ '\x7d' :: rest) = some (members, rest) := by
  induction h generalizing fuel with
  | nil => exact absurd rfl hne
  | @cons t m ts ms hm hms ih =>
    obtain ⟨key, v⟩ := m
    obtain ⟨cs, rfl, hv⟩ := hm
    obtain ⟨fuel, rfl⟩ : ∃ f, fuel = f+1 := ⟨fuel-1, by omega⟩
    dsimp only at hfuel ⊢
    have hlen : cs.length < (spellMember esc key cs).length := by
      rw [spellMember, List.length_cons, List.length_append, List.length_cons, List.length_cons]
      omega
    -- the member itself, whatever follows it
    have hread (more : List Char) (hcs : cs.length ≤ fuel) (hmore : Stops more) :
        readMembers (fuel+1) (spellMember esc key cs ++ more) =
          match expect ',' more with
          | some rest => (readMembers fuel rest).map fun r => ((key, v) :: r.1, r.2)
          | none => (expect '\x7d' more).map fun rest => ([(key, v)], rest) := by
      rw [spellMember, List.cons_append, readMembers, expect_self, Option.bind_some,
        List.append_assoc, List.cons_append, readChars_key hesc, Option.bind_some, List.cons_append,
        expect_self, Option.bind_some, hv fuel more hcs hmore, Option.bind_some, List.nil_append,
        String.ofList_toList]
    cases ts with
    | nil =>
      cases hms
      rw [commas_singleton] at hfuel ⊢
      rw [hread _ (by omega) (stops_cons (by decide) _), expect_ne (by decide)]
      dsimp only
      rw [expect_self, Option.map_some]
    | cons u ts =>
      rw [commas_cons_cons, List.length_append, List.length_cons] at hfuel
      rw [commas_cons_cons, List.append_assoc, List.cons_append,
        hread _ (by omega) (stops_cons (by decide) _), expect_self]
      dsimp only
      rw [ih (List.cons_ne_nil u ts) (by omega), Option.map_some]

theorem spells_object (hesc : ∀ c, JsonRecords.Escaped c (esc c)) {texts : List (List Char)}
    {members : List (String × Value)} (h : List.Forall₂ (SpellsMember esc) texts members) :
    Spells ('\x7b' :: (commas texts ++ ['\x7d'])) (.obj members) := by
  intro fuel rest hfuel _
  rw [List.length_cons, List.length_append, List.length_singleton] at hfuel
  obtain ⟨fuel, rfl⟩ : ∃ f, fuel = f+1 := ⟨fuel-1, by omega⟩
  rw [List.cons_append, List.append_assoc, List.singleton_append, readValue, if_neg (by decide),
    if_neg (by decide), if_pos rfl]
  cases h with
  | nil => rfl
  | @cons t m ts ms hm hms =>
    have hopen : expect '\x7d' (commas (t :: ts) ++ '\x7d' :: rest) = none := by
      obtain ⟨cs, rfl, -⟩ := hm
      cases ts with
      | nil =>
        rw [commas_singleton]
        exact expect_ne (by decide) _
      | cons u ts =>
        rw [commas_cons_cons, List.append_assoc]
        exact expect_ne (by decide) _
    rw [hopen]
    dsimp only
    rw [readMembers_commas hesc (.cons hm hms) (List.cons_ne_nil t ts) (by omega), Option.map_some]

mutual

theorem spells_encode (hesc : ∀ c, JsonRecords.Escaped c (esc c)) :
    ∀ j, Spells (encode esc j) (value j)
  | .str s => spells_string hesc s
  | .int n => spells_int n
  | .arr items => spells_array (spells_encodeItems hesc items)
  | .obj fields => spells_object hesc (spells_encodeFields hesc fields)

theorem spells_encodeItems (hesc : ∀ c, JsonRecords.Escaped c (esc c)) :
    ∀ items, List.Forall₂ Spells (encodeItems esc items) (itemValues items)
  | [] => .nil
  | item :: items => .cons (spells_encode hesc item) (spells_encodeItems hesc items)

theorem spells_encodeFields (hesc : ∀ c, JsonRecords.Escaped c (esc c)) :
    ∀ fields, List.Forall₂ (SpellsMember esc) (encodeFields esc fields) (fieldValues fields)
  | [] => .nil
  | (_, v) :: fields =>
    .cons ⟨_, rfl, spells_encode hesc v⟩ (spells_encodeFields hesc fields)

end

theorem parse_encode (hesc : ∀ c, JsonRecords.Escaped c (esc c)) (j : Json) :
    parse (String.ofList (encode esc j)) = some (value j) := by
  have hread := spells_encode hesc j (encode esc j).length [] le_rfl (by simp [Stops])
  rw [List.append_nil] at hread
  rw [parse, String.toList_ofList, hread]

end Reading

section Sorting

theorem encodeItems_eq_map (esc : Char → List Char) (items : List Json) :
    encodeItems esc items = items.map (encode esc) := by
  induction items with
  | nil => rfl
  | cons item items ih => rw [encodeItems, ih, List.map_cons]

theorem encodeFields_eq_map (esc : Char → List Char) (fields : List (String × Json)) :
    encodeFields esc fields = fields.map fun f => spellMember esc f.1 (encode esc f.2) := by
  induction fields with
  | nil => rfl
  | cons f fields ih => rw [encodeFields, ih, List.map_cons]

theorem fieldValues_eq_map (fields : List (String × Json)) :
    fieldValues fields = fields.map fun f => (f.1, value f.2) := by
  induction fields with
  | nil => rfl
  | cons f fields ih => rw [fieldValues, ih, List.map_cons]

theorem itemValues_eq_map (items : List Json) : itemValues items = items.map value := by
  induction items with
  | nil => rfl
  | cons item items ih => rw [itemValues, ih, List.map_cons]

theorem sortedFields_eq_map (fields : List (String × Json)) :
    sortedFields fields = fields.map fun f => (f.1, sorted f.2) := by
  induction fields with
  | nil => rfl
  | cons f fields ih => rw [sortedFields, ih, List.map_cons]

theorem sortedItems_eq_map (items : List Json) : sortedItems items = items.map sorted := by
  induction items with
  | nil => rfl
  | cons item items ih => rw [sortedItems, ih, List.map_cons]

theorem renderItems_eq_map (items : List Json) : renderItems items = items.map Json.render := by
  induction items with
  | nil => rfl
  | cons item items ih => rw [renderItems, ih, List.map_cons]

theorem byKey_map {α β : Type} (g : α → β) (fields : List (String × α)) :
    byKey (fields.map fun f => (f.1, g f.2)) = (byKey fields).map fun f => (f.1, g f.2) := by
  rw [byKey, byKey]
  symm
  apply List.map_insertionSort
  exact fun a _ b _ => Iff.rfl

theorem toList_quoteString (s : GoString) : (quoteString s).toList = spellString escape s := by
  have hrune : escapeRune = spellRune escape := by
    ext r
    cases r <;> rfl
  rw [quoteString, String.toList_append, String.toList_append, hrune]
  exact congrArg (fun t => '"' :: (t ++ ['"'])) String.toList_ofList

theorem toList_toString (n : ℤ) : (toString n).toList = spellInt n := by
  rw [spellInt]
  cases n with
  | ofNat n =>
    rw [if_neg (by simp)]
    exact String.toList_ofList
  | negSucc n =>
    rw [if_pos (Int.negSucc_lt_zero n)]
    have htext : toString (Int.negSucc n) = "-" ++ toString (n+1) := rfl
    rw [htext, String.toList_append]
    exact congrArg ('-' :: ·) String.toList_ofList

theorem toList_intercalate (parts : List String) :
    (",".intercalate parts).toList = commas (parts.map String.toList) :=
  String.toList_intercalate

mutual

theorem toList_render : ∀ j : Json, j.render.toList = encode escape (sorted j)
  | .str s => by rw [Json.render, toList_quoteString, sorted, encode]
  | .int n => by rw [Json.render, toList_toString, sorted, encode]
  | .arr items => by
    rw [Json.render, String.toList_append, String.toList_append, toList_intercalate, sorted, encode,
      renderItems_eq_map, sortedItems_eq_map, encodeItems_eq_map, List.map_map, List.map_map,
      List.map_congr_left (toList_renderItems items)]
    rfl
  | .obj fields => by
    have hmembers : ((byKey (renderFields fields)).map fun f => quote f.1 ++ ":" ++ f.2).map
        String.toList = encodeFields escape (byKey (sortedFields fields)) := by
      rw [renderFields_eq_map, byKey_map, sortedFields_eq_map, byKey_map, encodeFields_eq_map,
        List.map_map, List.map_map, List.map_map]
      apply List.map_congr_left
      intro f hf
      have hrender := toList_renderFields fields f
        ((List.perm_insertionSort _ fields).mem_iff.mp hf)
      simp only [Function.comp_apply, quote, String.toList_append, String.toList_ofList, hrender,
        spellMember, List.append_assoc]
      rfl
    rw [Json.render, String.toList_append, String.toList_append, toList_intercalate, sorted, encode,
      ← hmembers]
    rfl

theorem toList_renderItems : ∀ items : List Json, ∀ item ∈ items,
    (String.toList ∘ Json.render) item = (encode escape ∘ sorted) item
  | [], _, h => absurd h List.not_mem_nil
  | item :: items, x, h => by
    rcases List.mem_cons.mp h with he | h
    · rw [he]
      exact toList_render item
    · exact toList_renderItems items x h

theorem toList_renderFields : ∀ fields : List (String × Json), ∀ f ∈ fields,
    f.2.render.toList = encode escape (sorted f.2)
  | [], _, h => absurd h List.not_mem_nil
  | (key, v) :: fields, f, h => by
    rcases List.mem_cons.mp h with rfl | h
    · exact toList_render v
    · exact toList_renderFields fields f h

end

def denoted (j : Json) : Value := value (sorted j)

theorem parse_render (j : Json) : parse j.render = some (denoted j) := by
  have hread := parse_encode JsonRecords.escaped_escape (sorted j)
  rw [← toList_render, String.ofList_toList] at hread
  exact hread

theorem denoted_of_render_eq {i j : Json} (h : i.render = j.render) : denoted i = denoted j := by
  have hi := parse_render i
  rw [h, parse_render] at hi
  exact (Option.some.inj hi).symm

theorem denoted_str (s : GoString) : denoted (.str s) = .str (toValid s) := by
  rw [denoted, sorted, value]

theorem denoted_int (n : ℤ) : denoted (.int n) = .num n := by
  rw [denoted, sorted, value]

theorem denoted_arr (items : List Json) : denoted (.arr items) = .arr (items.map denoted) := by
  rw [denoted, sorted, value, sortedItems_eq_map, itemValues_eq_map, List.map_map]
  rfl

theorem denoted_obj (fields : List (String × Json)) :
    denoted (.obj fields) = .obj (byKey (fields.map fun f => (f.1, denoted f.2))) := by
  rw [denoted, sorted, value, sortedFields_eq_map, fieldValues_eq_map, byKey_map, byKey_map,
    List.map_map]
  rfl

theorem lookup_of_perm {α : Type} {l m : List (String × α)} (h : l.Perm m)
    (hnodup : (l.map Prod.fst).Nodup) (key : String) : l.lookup key = m.lookup key := by
  induction h with
  | nil => rfl
  | cons f _ ih =>
    obtain ⟨k, a⟩ := f
    rw [List.lookup_cons, List.lookup_cons, ih (List.nodup_cons.mp hnodup).2]
  | swap f g l =>
    obtain ⟨k, a⟩ := f
    obtain ⟨k', a'⟩ := g
    have hne : k' ≠ k := by
      rw [List.map_cons, List.nodup_cons] at hnodup
      exact fun he => hnodup.1 (he ▸ List.mem_cons_self)
    simp only [List.lookup_cons]
    by_cases hk : key = k
    · have hk' : (key == k') = false := beq_false_of_ne fun he => hne (he.symm.trans hk)
      rw [hk']
    · rw [beq_false_of_ne hk]
  | trans h₁ _ ih₁ ih₂ =>
    rw [ih₁ hnodup, ih₂ ((h₁.map Prod.fst).nodup_iff.mp hnodup)]

theorem lookup_map {α β : Type} (g : α → β) (fields : List (String × α)) (key : String) :
    (fields.map fun f => (f.1, g f.2)).lookup key = (fields.lookup key).map g := by
  induction fields with
  | nil => rfl
  | cons f fields ih =>
    obtain ⟨k, a⟩ := f
    rw [List.map_cons, List.lookup_cons, List.lookup_cons, ih]
    cases key == k <;> rfl

theorem field_denoted {fields : List (String × Json)} (hnodup : (fields.map Prod.fst).Nodup)
    (key : String) :
    (denoted (.obj fields)).field key = ((fields.lookup key).map denoted).getD .null := by
  have hkeys : ((fields.map fun f => (f.1, denoted f.2)).map Prod.fst).Nodup := by
    rw [List.map_map]
    exact hnodup
  have hperm := lookup_of_perm (List.perm_insertionSort (fun a b => a.1 ≤ b.1) _).symm hkeys key
  rw [denoted_obj, Value.field, ← lookup_map, hperm]
  rfl

end Sorting

section Members

variable {l m : List (String × Json)}

theorem member_eq (h : denoted (.obj l) = denoted (.obj m)) (hl : (l.map Prod.fst).Nodup)
    (hm : (m.map Prod.fst).Nodup) (key : String) :
    ((l.lookup key).map denoted).getD .null = ((m.lookup key).map denoted).getD .null := by
  rw [← field_denoted hl, ← field_denoted hm, h]

theorem str_eq {s t : GoString} (h : denoted (.str s) = denoted (.str t)) (hs : malformed s = 0)
    (ht : malformed t = 0) : s = t := by
  rw [denoted_str, denoted_str] at h
  rw [← utf8_toValid hs, ← utf8_toValid ht, Value.str.inj h]

theorem text_eq {s t : String} (h : denoted (.str s) = denoted (.str t)) : s = t :=
  utf8_injective (str_eq h (malformed_utf8 s) (malformed_utf8 t))

theorem int_eq {n k : ℤ} (h : denoted (.int n) = denoted (.int k)) : n = k := by
  rw [denoted_int, denoted_int] at h
  exact Value.num.inj h

end Members

end JsonText
