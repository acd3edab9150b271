import ArchGuard.GoValue
import Mathlib.Data.List.Nodup
import Mathlib.Tactic.IntervalCases

/-! Lists of flat records of strings as JSON text: what `json.Marshal` writes of them, and what
`json.Unmarshal` reads of such a text. -/
namespace JsonRecords
open GoText GoJson

/-- `escape` with HTML escaping on, as `json.Marshal` has it. -/
def escapeHtml (c : Char) : List Char :=
  if c = '<' ∨ c = '>' ∨ c = '&' then '\\' :: 'u' :: hex4 c.toNat else escape c

inductive Token
  | openList
  | closeList
  | openRecord
  | closeRecord
  | colon
  | comma
  | str (s : String)
  deriving DecidableEq

def Token.spell : Token → List Char
  | .openList => ['[']
  | .closeList => [']']
  | .openRecord => ['\x7b']
  | .closeRecord => ['\x7d']
  | .colon => [':']
  | .comma => [',']
  | .str s => '"' :: s.toList.flatMap escapeHtml ++ ['"']

def hexDigit (c : Char) : Option ℕ :=
  if c.isDigit then some (c.toNat - 48)
  else if 97 ≤ c.toNat ∧ c.toNat ≤ 102 then some (c.toNat - 87)
  else none

/-- The character of four hexadecimal digits. -/
def readHex (a b c d : Char) : Option Char := do
  let a ← hexDigit a
  let b ← hexDigit b
  let c ← hexDigit c
  let d ← hexDigit d
  some (Char.ofNat (a*4096 + b*256 + c*16 + d))

/-- The character that a letter stands for after a backslash. -/
def readEscape (c : Char) : Option Char :=
  if c = '"' ∨ c = '\\' ∨ c = '/' then some c
  else if c = 'n' then some '\n'
  else if c = 'r' then some '\r'
  else if c = 't' then some '\t'
  else if c = 'b' then some (Char.ofNat 8)
  else if c = 'f' then some (Char.ofNat 12)
  else none

def punctuation (c : Char) : Option Token :=
  if c = '[' then some .openList
  else if c = ']' then some .closeList
  else if c = '\x7b' then some .openRecord
  else if c = '\x7d' then some .closeRecord
  else if c = ':' then some .colon
  else if c = ',' then some .comma
  else none

/-- The tokens of a text; inside a string, with the characters read so far. -/
def lexFrom : Option (List Char) → List Char → Option (List Token)
  | none, [] => some []
  | some _, [] => none
  | none, c :: s =>
    if c = '"' then lexFrom (some []) s
    else (punctuation c).bind fun t => (lexFrom none s).map (t :: ·)
  | some cs, '\\' :: 'u' :: a :: b :: c :: d :: s =>
    (readHex a b c d).bind fun x => lexFrom (some (cs ++ [x])) s
  | some cs, '\\' :: c :: s => (readEscape c).bind fun x => lexFrom (some (cs ++ [x])) s
  | some cs, c :: s =>
    if c = '"' then (lexFrom none s).map (.str (String.ofList cs) :: ·)
    else if c.toNat < 0x20 ∨ c = '\\' then none
    else lexFrom (some (cs ++ [c])) s

def lex (s : String) : Option (List Token) := lexFrom none s.toList

section Lexing

theorem hexDigit_hex (d : ℕ) (h : d < 16) :
    hexDigit ("0123456789abcdef".toList.getD d '0') = some d := by
  interval_cases d <;> decide

theorem readHex_hex4 {n : ℕ} (h : n < 65536) :
    ∃ a b c d, hex4 n = [a, b, c, d] ∧ readHex a b c d = some (Char.ofNat n) := by
  refine ⟨_, _, _, _, rfl, ?_⟩
  have hn : n/4096%16*4096 + n/256%16*256 + n/16%16*16 + n%16 = n := by omega
  simp only [readHex, hexDigit_hex _ (Nat.mod_lt _ (by decide : 0 < 16)), Option.bind_eq_bind,
    Option.bind_some, hn]

/-- The spellings of a character inside a string. -/
inductive Escaped (c : Char) : List Char → Prop
  | hex (w x y z : Char) (h : readHex w x y z = some c) : Escaped c ['\\', 'u', w, x, y, z]
  | letter (x : Char) (hu : x ≠ 'u') (h : readEscape x = some c) : Escaped c ['\\', x]
  | plain (hquote : c ≠ '"') (hslash : c ≠ '\\') (hc : ¬c.toNat < 0x20) : Escaped c [c]

theorem escaped_hex4 {c : Char} (h : c.toNat < 65536) : Escaped c ('\\' :: 'u' :: hex4 c.toNat) := by
  obtain ⟨w, x, y, z, hex, hread⟩ := readHex_hex4 h
  rw [hex]
  rw [Char.ofNat_toNat] at hread
  exact .hex w x y z hread

theorem escaped_escape (c : Char) : Escaped c (escape c) := by
  unfold escape
  split_ifs with hquote hslash hn hr ht hb hf hcontrol
  · exact .letter '"' (by decide) (by rw [hquote]; rfl)
  · exact .letter '\\' (by decide) (by rw [hslash]; rfl)
  · exact .letter 'n' (by decide) (by rw [hn]; rfl)
  · exact .letter 'r' (by decide) (by rw [hr]; rfl)
  · exact .letter 't' (by decide) (by rw [ht]; rfl)
  · have hx : readEscape 'b' = some c := by rw [← Char.ofNat_toNat c, hb]; rfl
    exact .letter 'b' (by decide) hx
  · have hx : readEscape 'f' = some c := by rw [← Char.ofNat_toNat c, hf]; rfl
    exact .letter 'f' (by decide) hx
  · apply escaped_hex4
    omega
  · exact .plain hquote hslash fun h => hcontrol (Or.inl h)

theorem escaped_escapeHtml (c : Char) : Escaped c (escapeHtml c) := by
  unfold escapeHtml
  split_ifs with hhtml
  · apply escaped_hex4
    rcases hhtml with rfl | rfl | rfl <;> decide
  · exact escaped_escape c

theorem lexFrom_escaped {c : Char} {t : List Char} (h : Escaped c t) (cs s : List Char) :
    lexFrom (some cs) (t ++ s) = lexFrom (some (cs ++ [c])) s := by
  cases h with
  | hex w x y z h =>
    simp only [List.cons_append, List.nil_append]
    rw [lexFrom, h, Option.bind_some]
  | letter x hu h =>
    simp only [List.cons_append, List.nil_append]
    rw [lexFrom, h, Option.bind_some]
    exact fun a b c d s he => fun _ => hu he
  | plain hquote hslash hc =>
    rw [List.singleton_append, lexFrom, if_neg hquote, if_neg (by simp [hslash, hc])]
    · intro a b c d s he
      exact fun h => hslash he
    · intro c s he
      exact fun h => hslash he

theorem lexFrom_string (t cs s : List Char) :
    lexFrom (some cs) (t.flatMap escapeHtml ++ '"' :: s) =
      (lexFrom none s).map (.str (String.ofList (cs ++ t)) :: ·) := by
  induction t generalizing cs with
  | nil =>
    rw [List.flatMap_nil, List.nil_append, List.append_nil, lexFrom, if_pos rfl]
    · intro a b c d s he
      cases he
    · intro c s he
      cases he
  | cons c t ih =>
    rw [List.flatMap_cons, List.append_assoc,
      lexFrom_escaped (escaped_escapeHtml c), ih, List.append_assoc,
      List.singleton_append]

theorem lexFrom_spell (t : Token) (s : List Char) :
    lexFrom none (t.spell ++ s) = (lexFrom none s).map (t :: ·) := by
  cases t with
  | str x =>
    simp only [Token.spell, List.cons_append, List.append_assoc, List.nil_append]
    rw [lexFrom, if_pos rfl, lexFrom_string, List.nil_append, String.ofList_toList]
  | _ => rfl

theorem lex_spell (ts : List Token) : lex (String.ofList (ts.flatMap Token.spell)) = some ts := by
  rw [lex, String.toList_ofList]
  induction ts with
  | nil => rfl
  | cons t ts ih => rw [List.flatMap_cons, lexFrom_spell, ih, Option.map_some]

end Lexing

abbrev Record := List (String × String)

def memberTokens : Record → List Token
  | [] => []
  | [m] => [.str m.1, .colon, .str m.2]
  | m :: ms => .str m.1 :: .colon :: .str m.2 :: .comma :: memberTokens ms

def recordTokens : List Record → List Token
  | [] => []
  | [r] => .openRecord :: (memberTokens r ++ [.closeRecord])
  | r :: rs => .openRecord :: (memberTokens r ++ .closeRecord :: .comma :: recordTokens rs)

/-- `json.Marshal` of a list of records. -/
def marshal (rs : List Record) : String :=
  String.ofList ((.openList :: (recordTokens rs ++ [.closeList])).flatMap Token.spell)

/-- The records of a list, after the members read so far of the one that is open. -/
def readRecords (ms : Record) : List Token → Option (List Record)
  | .str k :: .colon :: .str v :: .comma :: ts => readRecords (ms ++ [(k, v)]) ts
  | .str k :: .colon :: .str v :: .closeRecord :: .comma :: .openRecord :: ts =>
    (readRecords [] ts).map ((ms ++ [(k, v)]) :: ·)
  | [.str k, .colon, .str v, .closeRecord, .closeList] => some [ms ++ [(k, v)]]
  | _ => none

/-- `json.Unmarshal` of a text that `marshal` writes. -/
def unmarshal (s : String) : Option (List Record) :=
  match lex s with
  | some [.openList, .closeList] => some []
  | some (.openList :: .openRecord :: ts) => readRecords [] ts
  | _ => none

section Reading

theorem readRecords_members (m : String × String) (ms acc : Record) (ts : List Token) :
    readRecords acc (memberTokens (m :: ms) ++ .closeRecord :: .comma :: .openRecord :: ts) =
        (readRecords [] ts).map ((acc ++ m :: ms) :: ·) ∧
      readRecords acc (memberTokens (m :: ms) ++ [.closeRecord, .closeList]) =
        some [acc ++ m :: ms] := by
  induction ms generalizing m acc with
  | nil => exact ⟨rfl, rfl⟩
  | cons m' ms ih =>
    have h := ih m' (acc ++ [m])
    simp only [List.append_assoc, List.singleton_append] at h
    exact h

theorem readRecords_records (r : Record) (rs : List Record) (hne : ∀ x ∈ r :: rs, x ≠ []) :
    ∃ ts, recordTokens (r :: rs) ++ [.closeList] = .openRecord :: ts ∧
      readRecords [] ts = some (r :: rs) := by
  induction rs generalizing r with
  | nil =>
    obtain ⟨m, ms, rfl⟩ := List.exists_cons_of_ne_nil (hne r List.mem_cons_self)
    refine ⟨memberTokens (m :: ms) ++ [.closeRecord, .closeList], ?_, ?_⟩
    · simp only [recordTokens, List.cons_append, List.append_assoc, List.nil_append]
    · exact (readRecords_members m ms [] []).2
  | cons r' rs ih =>
    obtain ⟨m, ms, rfl⟩ := List.exists_cons_of_ne_nil (hne r List.mem_cons_self)
    obtain ⟨ts, hts, hread⟩ := ih r' fun x hx => hne x (List.mem_cons_of_mem _ hx)
    refine ⟨memberTokens (m :: ms) ++ .closeRecord :: .comma :: .openRecord :: ts, ?_, ?_⟩
    · rw [← hts]
      simp only [recordTokens, List.cons_append, List.append_assoc]
    · rw [(readRecords_members m ms [] ts).1, hread, Option.map_some, List.nil_append]

theorem unmarshal_marshal {rs : List Record} (hne : ∀ r ∈ rs, r ≠ []) :
    unmarshal (marshal rs) = some rs := by
  rw [unmarshal, marshal, lex_spell]
  cases rs with
  | nil => rfl
  | cons r rs =>
    obtain ⟨ts, hts, hread⟩ := readRecords_records r rs hne
    rw [hts]
    exact hread

end Reading

/-- A struct with string fields: their names in JSON, and its values in that order. -/
structure Shape (α : Type) where
  names : List String
  values : α → List GoString
  ofValues : List GoString → α
  named : names ≠ []
  nodup : names.Nodup
  length_values : ∀ a, (values a).length = names.length
  ofValues_values : ∀ a, ofValues (values a) = a
  values_ofValues : ∀ vs, vs.length = names.length → values (ofValues vs) = vs

namespace Shape

variable {α : Type} (shape : Shape α)

def record (a : α) : Record := shape.names.zip ((shape.values a).map toValid)

/-- A member that is missing leaves the empty string. -/
def ofRecord (r : Record) : α :=
  shape.ofValues (shape.names.map fun name => utf8 ((r.lookup name).getD ""))

def marshalAll (as : List α) : GoString := utf8 (marshal (as.map shape.record))

def unmarshalAll (s : GoString) : Option (List α) :=
  (unmarshal (toValid s)).map (List.map shape.ofRecord)

variable {shape}

theorem lookup_zip {names : List String} (hnodup : names.Nodup) {vs : List String}
    (hlen : vs.length = names.length) :
    names.map (fun name => ((names.zip vs).lookup name).getD "") = vs := by
  induction names generalizing vs with
  | nil =>
    rw [List.length_eq_zero_iff.mp hlen]
    rfl
  | cons name names ih =>
    cases vs with
    | nil => cases hlen
    | cons v vs =>
      obtain ⟨hname, hnodup⟩ := List.nodup_cons.mp hnodup
      rw [List.map_cons, List.zip_cons_cons, List.lookup_cons_self, Option.getD_some]
      congr 1
      -- the other names do not find the first member
      conv_rhs => rw [← ih hnodup (Nat.succ.inj hlen)]
      apply List.map_congr_left
      intro n hn
      have hne : (n == name) = false := beq_false_of_ne fun he => hname (he ▸ hn)
      rw [List.lookup_cons, hne]

/-- A struct comes back with its strings as UTF-8 has them. -/
theorem ofRecord_record (a : α) :
    shape.ofRecord (shape.record a) = shape.ofValues ((shape.values a).map coerced) := by
  have hlen : ((shape.values a).map toValid).length = shape.names.length := by
    rw [List.length_map, shape.length_values]
  have hmap := congrArg (List.map utf8) (lookup_zip shape.nodup hlen)
  rw [List.map_map, List.map_map] at hmap
  exact congrArg shape.ofValues hmap

theorem record_ne_nil (a : α) : shape.record a ≠ [] := by
  intro h
  have hlen := congrArg List.length h
  rw [record, List.length_zip, List.length_map, shape.length_values, Nat.min_self] at hlen
  exact shape.named (List.length_eq_zero_iff.mp hlen)

theorem unmarshalAll_marshalAll (as : List α) : shape.unmarshalAll (shape.marshalAll as) =
    some (as.map fun a => shape.ofValues ((shape.values a).map coerced)) := by
  have hne : ∀ r ∈ as.map shape.record, r ≠ [] := by
    intro r hr
    obtain ⟨a, -, rfl⟩ := List.mem_map.mp hr
    exact record_ne_nil a
  rw [unmarshalAll, marshalAll, toValid_utf8, unmarshal_marshal hne, Option.map_some, List.map_map]
  congr 1
  exact List.map_congr_left fun a _ => ofRecord_record a

theorem ofValues_coerced_iff (a : α) : shape.ofValues ((shape.values a).map coerced) = a ↔
    ∀ v ∈ shape.values a, malformed v = 0 := by
  constructor
  · intro h v hv
    have hvalues : (shape.values a).map coerced = shape.values a := by
      conv_rhs => rw [← h]
      exact (shape.values_ofValues _ (by rw [List.length_map, shape.length_values])).symm
    rw [← hvalues] at hv
    obtain ⟨u, -, rfl⟩ := List.mem_map.mp hv
    exact malformed_coerced u
  · intro h
    have hvalues : (shape.values a).map coerced = shape.values a := by
      conv_rhs => rw [← List.map_id (shape.values a)]
      exact List.map_congr_left fun v hv => coerced_of_valid (h v hv)
    rw [hvalues, shape.ofValues_values]

theorem unmarshalAll_marshalAll_iff (as : List α) :
    shape.unmarshalAll (shape.marshalAll as) = some as ↔
      ∀ a ∈ as, ∀ v ∈ shape.values a, malformed v = 0 := by
  rw [unmarshalAll_marshalAll, Option.some.injEq]
  conv_lhs => rhs; rw [← List.map_id as]
  rw [List.map_inj_left]
  exact forall₂_congr fun a _ => ofValues_coerced_iff a

end Shape

end JsonRecords
