import ArchGuard.GoText
import Mathlib.Tactic

/-! The value types the domain takes from Go: byte slices, UUIDs and instants. -/
namespace ArchGuard

abbrev Bytes := List UInt8

def Bytes.ofString (s : String) : Bytes := GoText.utf8 s

abbrev Uuid := BitVec 128

instance : LawfulBEq Uuid := inferInstance

def Uuid.nil : Uuid := 0#128

def hexDigit (n : ℕ) : Char := "0123456789abcdef".toList.getD n '0'

/-- The canonical text of a UUID: 32 hexadecimal digits in groups of 8-4-4-4-12. -/
def Uuid.text (u : Uuid) : String :=
  let digits := (List.range 32).map fun i => hexDigit (u.toNat / 16^(31-i) % 16)
  let group (a n : ℕ) := String.ofList ((digits.drop a).take n)
  group 0 8 ++ "-" ++ group 8 4 ++ "-" ++ group 12 4 ++ "-" ++ group 16 4 ++ "-" ++ group 20 12

/-- Blanks but the space, controls, format characters and private use. -/
def unprintable : List (ℕ × ℕ) := [(0x0, 0x1F), (0x7F, 0xA0), (0xAD, 0xAD), (0x600, 0x605),
  (0x61C, 0x61C), (0x6DD, 0x6DD), (0x70F, 0x70F), (0x890, 0x891), (0x8E2, 0x8E2), (0x1680, 0x1680),
  (0x180E, 0x180E), (0x2000, 0x200F), (0x2028, 0x202F), (0x205F, 0x2064), (0x2066, 0x206F),
  (0x3000, 0x3000), (0xE000, 0xF8FF), (0xFEFF, 0xFEFF), (0xFFF9, 0xFFFB), (0x110BD, 0x110BD),
  (0x110CD, 0x110CD), (0x13430, 0x1343F), (0x1BCA0, 0x1BCA3), (0x1D173, 0x1D17A),
  (0xE0001, 0xE0001), (0xE0020, 0xE007F), (0xF0000, 0xFFFFD), (0x100000, 0x10FFFD)]

/-- `strconv.IsPrint`, of an assigned code point. -/
def isPrint (c : Char) : Bool := unprintable.all fun r => c.toNat < r.1 || r.2 < c.toNat

def hexText (width n : ℕ) : String :=
  String.ofList ((List.range width).map fun i => hexDigit (n / 16^(width-1-i) % 16))

/-- `appendEscapedRune` of `strconv`, between double quotes. -/
def escapedRune (c : Char) : String :=
  if c = '"' ∨ c = '\\' then "\\" ++ c.toString
  else if isPrint c then c.toString
  else match c.toNat with
    | 7 => "\\a"
    | 8 => "\\b"
    | 9 => "\\t"
    | 10 => "\\n"
    | 11 => "\\v"
    | 12 => "\\f"
    | 13 => "\\r"
    | n =>
      if n < 0x20 ∨ n = 0x7F then "\\x" ++ hexText 2 n
      else if n < 0x10000 then "\\u" ++ hexText 4 n
      else "\\U" ++ hexText 8 n

/-- The `%q` verb. -/
def quoted (s : String) : String := "\"" ++ String.join (s.toList.map escapedRune) ++ "\""

/-- `appendQuotedWith`, after the bytes that remain of the code point read last. -/
def escapedFrom : (skip : ℕ) → GoText.GoString → GoText.GoString
  | _, [] => []
  | skip+1, _ :: s => escapedFrom skip s
  | 0, b :: s =>
    match GoText.decodeRune (b :: s) with
    | some c => GoText.utf8 (escapedRune c) ++ escapedFrom (c.utf8Size-1) s
    | none => GoText.utf8 ("\\x" ++ hexText 2 b.toNat) ++ escapedFrom 0 s

/-- The `%q` verb, on a string of bytes. -/
def quoteBytes (s : GoText.GoString) : GoText.GoString :=
  GoText.utf8 "\"" ++ escapedFrom 0 s ++ GoText.utf8 "\""

example : quoteBytes [0x61, 0x22, 0x0A, 0xC2, 0xAD, 0xFF] =
    GoText.utf8 "\"a\\\"\\n\\u00ad\\xff\"" := by decide +kernel

/-- An instant, in nanoseconds since the Unix epoch. -/
abbrev Time := ℤ

/-- A length of time in nanoseconds. -/
abbrev Duration := ℤ

/-- `time.Time{}`, the first of January of year 1. -/
def Time.zero : Time := -62135596800*10^9

/-- `UnixMicro`: the instant in microseconds. -/
def Time.unixMicro (t : Time) : ℤ := t/1000

/-- An instant as a `timestamptz` column keeps it: truncated to microseconds. -/
def Time.stored (t : Time) : Time := t.unixMicro*1000

theorem Time.stored_le (t : Time) : t.stored ≤ t :=
  Int.ediv_mul_le t (by norm_num)

theorem Time.stored_unixMicro (t : Time) : t.stored.unixMicro = t.unixMicro :=
  Int.mul_ediv_cancel _ (by norm_num)

section Words

variable {α : Type} {c : α} {xs xs' ys ys' : List α}

/-- Two words that are cut at the first of their separators. -/
theorem cut_first_inj (h : c ∉ xs) (h' : c ∉ xs') (heq : xs ++ c :: ys = xs' ++ c :: ys') :
    xs = xs' ∧ ys = ys' := by
  induction xs generalizing xs' with
  | nil =>
    cases xs' with
    | nil => exact ⟨rfl, (List.cons.inj heq).2⟩
    | cons x xs' =>
      obtain ⟨rfl, -⟩ := List.cons.inj heq
      exact absurd List.mem_cons_self h'
  | cons x xs ih =>
    cases xs' with
    | nil =>
      obtain ⟨rfl, -⟩ := List.cons.inj heq
      exact absurd List.mem_cons_self h
    | cons x' xs' =>
      obtain ⟨rfl, hrest⟩ := List.cons.inj heq
      obtain ⟨rfl, hys⟩ := ih (List.not_mem_of_not_mem_cons h) (List.not_mem_of_not_mem_cons h') hrest
      exact ⟨rfl, hys⟩

theorem cut_last_inj (h : c ∉ ys) (h' : c ∉ ys') (heq : xs ++ c :: ys = xs' ++ c :: ys') :
    xs = xs' ∧ ys = ys' := by
  have hreverse : ys.reverse ++ c :: xs.reverse = ys'.reverse ++ c :: xs'.reverse := by
    simpa using congrArg List.reverse heq
  obtain ⟨hys, hxs⟩ := cut_first_inj (by simpa using h) (by simpa using h') hreverse
  exact ⟨List.reverse_injective hxs, List.reverse_injective hys⟩

end Words

/-- A check that must not fail before the rest. -/
theorem ite_error_eq_ok {ε α : Type} {p : Prop} [Decidable p] {e : ε} {x : Except ε α} {a : α} :
    (if p then .error e else x) = .ok a ↔ ¬p ∧ x = .ok a := by
  split_ifs with h <;> simp [h]

theorem bind_eq_ok {ε α β : Type} {x : Except ε α} {f : α → Except ε β} {b : β} :
    (x >>= f) = .ok b ↔ ∃ a, x = .ok a ∧ f a = .ok b := by
  cases x with
  | error e => simp [bind, Except.bind]
  | ok a => simp [bind, Except.bind]

@[simp] theorem mapError_eq_ok {ε ε' α : Type} {f : ε → ε'} {x : Except ε α} {a : α} :
    x.mapError f = .ok a ↔ x = .ok a := by
  cases x <;> simp [Except.mapError]

end ArchGuard
