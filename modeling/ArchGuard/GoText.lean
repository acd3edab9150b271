import Mathlib.Data.List.Basic
import Mathlib.Data.List.Count
import Mathlib.Tactic.Common

/-! Go strings: sequences of bytes, which UTF-8 may or may not explain. -/
namespace GoText

abbrev GoString := List UInt8

instance : LawfulBEq GoString := inferInstance

def utf8 (s : String) : GoString := s.toList.flatMap String.utf8EncodeChar

instance : Coe String GoString := ⟨utf8⟩

/-- What `range` finds in a string: code points, and bytes that start none. -/
inductive Rune
  | char (c : Char)
  | malformed
  deriving DecidableEq, Repr

/-- The code point at the front of a string, if there is one. -/
def decodeRune (s : GoString) : Option Char := (s.take 4).toByteArray.utf8DecodeChar? 0

/-- The runes of a string, after the bytes that remain of the code point read last. -/
def runesFrom : (skip : ℕ) → GoString → List Rune
  | _, [] => []
  | skip+1, _ :: s => runesFrom skip s
  | 0, b :: s =>
    match decodeRune (b :: s) with
    | some c => .char c :: runesFrom (c.utf8Size-1) s
    | none => .malformed :: runesFrom 0 s

def runes (s : GoString) : List Rune := runesFrom 0 s

def replacement : Char := '\uFFFD'

/-- A rune as a code point: U+FFFD stands for a malformed byte. -/
def Rune.replaced : Rune → Char
  | .char c => c
  | .malformed => replacement

/-- `strings.ToValidUTF8`, byte by byte: the text that encoders keep of a string. -/
def toValid (s : GoString) : String := String.ofList ((runes s).map Rune.replaced)

def malformed (s : GoString) : ℕ := (runes s).count .malformed

def validString (s : GoString) : Bool := malformed s = 0

example : runes [0x61, 0xff, 0xc3, 0xa9, 0xc3] = [.char 'a', .malformed, .char 'é', .malformed] := by
  decide +kernel

theorem runesFrom_drop (skip : ℕ) (s : GoString) : runesFrom skip s = runes (s.drop skip) := by
  induction s generalizing skip with
  | nil =>
    rw [List.drop_nil]
    cases skip <;> rfl
  | cons b s ih =>
    cases skip with
    | zero => rfl
    | succ skip => exact ih skip

theorem decodeRune_append (c : Char) (s : GoString) :
    decodeRune (String.utf8EncodeChar c ++ s) = some c := by
  have hlen : (String.utf8EncodeChar c).length ≤ 4 := by
    rw [String.length_utf8EncodeChar]
    exact c.utf8Size_le_four
  rw [decodeRune, List.take_append, List.take_of_length_le hlen, List.toByteArray_append]
  exact ByteArray.utf8DecodeChar?_utf8EncodeChar_append

theorem eq_append_of_decodeRune {c : Char} {s : GoString} (h : decodeRune s = some c) :
    ∃ t, s = String.utf8EncodeChar c ++ t := by
  obtain ⟨l, hl⟩ := ByteArray.exists_of_utf8DecodeChar?_eq_some h
  have htake : s.take 4 = String.utf8EncodeChar c ++ l.data.toList := by
    apply List.toByteArray_inj.mp
    rw [hl, List.toByteArray_append]
    congr 1
    exact ByteArray.ext List.data_toByteArray.symm
  exact ⟨l.data.toList ++ s.drop 4, by rw [← List.append_assoc, ← htake, List.take_append_drop]⟩

theorem utf8EncodeChar_cons (c : Char) :
    ∃ b bs, String.utf8EncodeChar c = b :: bs ∧ c.utf8Size-1 = bs.length := by
  have hlen : (String.utf8EncodeChar c).length = c.utf8Size := String.length_utf8EncodeChar c
  have hpos : 0 < c.utf8Size := c.utf8Size_pos
  cases henc : String.utf8EncodeChar c with
  | nil =>
    rw [henc, List.length_nil] at hlen
    omega
  | cons b bs =>
    rw [henc, List.length_cons] at hlen
    exact ⟨b, bs, rfl, by omega⟩

theorem runes_append_char (c : Char) (s : GoString) :
    runes (String.utf8EncodeChar c ++ s) = .char c :: runes s := by
  have hdec := decodeRune_append c s
  obtain ⟨b, bs, henc, hskip⟩ := utf8EncodeChar_cons c
  rw [henc, List.cons_append] at hdec ⊢
  rw [runes, runesFrom, hdec]
  simp only [runesFrom_drop, hskip, List.drop_left]

theorem runes_of_decodeRune_none {b : UInt8} {s : GoString} (h : decodeRune (b :: s) = none) :
    runes (b :: s) = .malformed :: runes s := by
  rw [runes, runesFrom, h]
  rfl

theorem rune_induction {p : GoString → Prop} (nil : p [])
    (char : ∀ c s, p s → p (String.utf8EncodeChar c ++ s))
    (malformed : ∀ b s, decodeRune (b :: s) = none → p s → p (b :: s)) (s : GoString) : p s := by
  -- the code point may take several bytes, so the induction is on a bound of the length
  suffices h : ∀ n s, s.length ≤ n → p s from h s.length s (Nat.le_refl _)
  intro n
  induction n with
  | zero =>
    intro s hs
    rw [List.length_eq_zero_iff.mp (Nat.le_zero.mp hs)]
    exact nil
  | succ n ih =>
    intro s hs
    match s with
    | [] => exact nil
    | b :: s =>
      cases hdec : decodeRune (b :: s) with
      | none =>
        apply malformed b s hdec
        apply ih
        rw [List.length_cons] at hs
        omega
      | some c =>
        obtain ⟨t, ht⟩ := eq_append_of_decodeRune hdec
        rw [ht]
        apply char
        apply ih
        have hlen : s.length+1 = c.utf8Size+t.length := by
          rw [← List.length_cons (a := b), ht, List.length_append, String.length_utf8EncodeChar]
        have hpos : 0 < c.utf8Size := c.utf8Size_pos
        rw [List.length_cons] at hs
        omega

theorem runes_utf8 (s : String) : runes (utf8 s) = s.toList.map .char := by
  rw [utf8]
  induction s.toList with
  | nil => rfl
  | cons c cs ih => rw [List.flatMap_cons, runes_append_char, ih, List.map_cons]

theorem utf8_append (s t : String) : utf8 s ++ utf8 t = utf8 (s ++ t) := by
  rw [utf8, utf8, utf8, String.toList_append, List.flatMap_append]

theorem utf8_injective : Function.Injective utf8 := by
  intro s t h
  have hr : s.toList.map Rune.char = t.toList.map Rune.char := by
    rw [← runes_utf8, ← runes_utf8, h]
  have hlist : s.toList = t.toList :=
    List.map_injective_iff.mpr (fun _ _ hc => Rune.char.inj hc) hr
  exact String.toList_inj.mp hlist

theorem toValid_utf8 (s : String) : toValid (utf8 s) = s := by
  rw [toValid, runes_utf8, List.map_map]
  have hid : Rune.replaced ∘ Rune.char = id := rfl
  rw [hid, List.map_id, String.ofList_toList]

theorem malformed_utf8 (s : String) : malformed (utf8 s) = 0 := by
  rw [malformed, runes_utf8, List.count_eq_zero]
  intro h
  obtain ⟨c, -, hc⟩ := List.mem_map.mp h
  exact Rune.noConfusion hc

theorem utf8_toValid {s : GoString} (h : malformed s = 0) : utf8 (toValid s) = s := by
  induction s using rune_induction with
  | nil => rfl
  | char c s ih =>
    rw [malformed, runes_append_char, List.count_cons_of_ne (by simp)] at h
    have ih := ih h
    rw [utf8, toValid, String.toList_ofList] at ih ⊢
    rw [runes_append_char, List.map_cons, List.flatMap_cons, ih, Rune.replaced]
  | malformed b s hdec ih =>
    rw [malformed, runes_of_decodeRune_none hdec, List.count_cons_self] at h
    exact absurd h (Nat.succ_ne_zero _)

theorem count_toValid (s : GoString) :
    (toValid s).toList.count replacement =
      (runes s).count (.char replacement) + malformed s := by
  rw [toValid, String.toList_ofList, malformed]
  induction runes s with
  | nil => rfl
  | cons r rs ih =>
    rw [List.map_cons, List.count_cons, List.count_cons, List.count_cons, ih]
    cases r with
    | malformed => simp [Rune.replaced]; omega
    | char c =>
      by_cases hc : c = replacement
      · simp [Rune.replaced, hc]; omega
      · simp [Rune.replaced, hc]

end GoText
