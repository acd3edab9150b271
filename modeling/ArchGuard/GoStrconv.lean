import ArchGuard.GoText
import Mathlib.Algebra.Group.Int.Defs

/-! Integers as decimal text (`strconv.Itoa`, `strconv.Atoi`), and lists of strings joined by a byte
(`strings.Join`, `strings.Split`). -/
namespace GoStrconv
open GoText

/-- The values of a 64-bit `int`. -/
def InRange (n : ℤ) : Prop := -2^63 ≤ n ∧ n < 2^63

instance (n : ℤ) : Decidable (InRange n) := inferInstanceAs (Decidable (_ ∧ _))

abbrev GoInt := {n : ℤ // InRange n}

def digits (n : ℕ) : GoString := (Nat.toDigits 10 n).map fun c => UInt8.ofNat c.toNat

def itoa (n : ℤ) : GoString := if n < 0 then 45 :: digits n.natAbs else digits n.natAbs

def isDigit (b : UInt8) : Bool := 48 ≤ b.toNat && b.toNat ≤ 57

/-- A number without a sign. -/
def readDigits (s : GoString) : Option ℕ :=
  if s ≠ [] ∧ s.all isDigit then some (s.foldl (fun n b => 10*n + (b.toNat - 48)) 0) else none

/-- The same number in range, with its sign. -/
def signed (sign : ℤ) (n : Option ℕ) : Option GoInt :=
  n.bind fun n => if h : InRange (sign*n) then some ⟨sign*n, h⟩ else none

def atoi (s : GoString) : Option GoInt :=
  match s with
  | [] => none
  | b :: rest =>
    if b = 45 then signed (-1) (readDigits rest)
    else if b = 43 then signed 1 (readDigits rest)
    else signed 1 (readDigits s)

section Digits

theorem toNat_ofNat_digit {c : Char} (h : c.isDigit = true) : (UInt8.ofNat c.toNat).toNat = c.toNat ∧
    48 ≤ c.toNat ∧ c.toNat ≤ 57 := by
  have hd : 48 ≤ c.toNat ∧ c.toNat ≤ 57 := by
    simpa [Char.isDigit, UInt32.le_iff_toNat_le] using h
  rw [UInt8.toNat_ofNat']
  omega

theorem isDigit_of_mem_digits {n : ℕ} {b : UInt8} (h : b ∈ digits n) : isDigit b = true := by
  obtain ⟨c, hc, rfl⟩ := List.mem_map.mp h
  obtain ⟨hb, h0, h9⟩ := toNat_ofNat_digit (Nat.isDigit_of_mem_toDigits (by decide) (by decide) hc)
  rw [isDigit, hb]
  simp [h0, h9]

theorem foldl_digits (cs : List Char) (hcs : ∀ c ∈ cs, c.isDigit = true) (init : ℕ) :
    (cs.map fun c => UInt8.ofNat c.toNat).foldl (fun n b => 10*n + (b.toNat - 48)) init =
      Nat.ofDigitChars 10 cs init := by
  induction cs generalizing init with
  | nil => simp [Nat.ofDigitChars]
  | cons c cs ih =>
    have hc := (toNat_ofNat_digit (hcs c List.mem_cons_self)).1
    rw [List.map_cons, List.foldl_cons, Nat.ofDigitChars_cons,
      ih fun d hd => hcs d (List.mem_cons_of_mem c hd), hc]
    rfl

theorem readDigits_digits (n : ℕ) : readDigits (digits n) = some n := by
  have hne : digits n ≠ [] := by
    simp [digits]
  have hall : (digits n).all isDigit = true :=
    List.all_eq_true.mpr fun b hb => isDigit_of_mem_digits hb
  rw [readDigits, if_pos ⟨hne, hall⟩, digits, foldl_digits]
  · rw [Nat.ofDigitChars_toDigits]
    · decide
    · decide
  · exact fun c hc => Nat.isDigit_of_mem_toDigits (by decide) (by decide) hc

theorem signed_some {sign : ℤ} {n : ℕ} {m : GoInt} (h : sign*n = m.1) :
    signed sign (some n) = some m := by
  obtain ⟨m, hm⟩ := m
  subst h
  rw [signed, Option.bind_some, dif_pos hm]

theorem atoi_digits (n : ℕ) : atoi (digits n) = signed 1 (some n) := by
  have hread := readDigits_digits n
  cases hd : digits n with
  | nil =>
    rw [hd] at hread
    cases hread
  | cons b rest =>
    have hb : isDigit b = true := by
      apply isDigit_of_mem_digits (n := n)
      rw [hd]
      exact List.mem_cons_self
    have h45 : b ≠ 45 := by
      rintro rfl
      cases hb
    have h43 : b ≠ 43 := by
      rintro rfl
      cases hb
    rw [hd] at hread
    rw [atoi, if_neg h45, if_neg h43, hread]

theorem atoi_itoa (n : GoInt) : atoi (itoa n.1) = some n := by
  rw [itoa]
  split_ifs with hneg
  · rw [atoi, if_pos rfl, readDigits_digits]
    apply signed_some
    omega
  · rw [atoi_digits]
    apply signed_some
    omega

end Digits

section Lists

theorem not_mem_of_mem_splitOn {α : Type} [DecidableEq α] {a : α} {l : List α} :
    ∀ part ∈ l.splitOn a, a ∉ part := by
  induction l with
  | nil =>
    intro part hpart
    obtain rfl : part = [] := by simpa using hpart
    exact List.not_mem_nil
  | cons x l ih =>
    intro part hpart
    rw [List.splitOn_cons_eq_if_modifyHead] at hpart
    by_cases hx : x = a
    · rw [if_pos (by simpa using hx)] at hpart
      rcases List.mem_cons.mp hpart with rfl | hpart
      · exact List.not_mem_nil
      · exact ih part hpart
    · rw [if_neg (by simpa using hx)] at hpart
      -- the separator is neither the new head nor in the part that was there
      cases hsplit : l.splitOn a with
      | nil => exact absurd hsplit (List.splitOn_ne_nil a l)
      | cons p ps =>
        rw [hsplit, List.modifyHead_cons] at hpart
        rw [hsplit] at ih
        rcases List.mem_cons.mp hpart with rfl | hpart
        · intro hmem
          rcases List.mem_cons.mp hmem with rfl | hmem
          · exact hx rfl
          · exact ih p List.mem_cons_self hmem
        · exact ih part (List.mem_cons_of_mem p hpart)

/-- `strings.Join` with a separator of one byte. -/
def join (sep : UInt8) (parts : List GoString) : GoString := [sep].intercalate parts

theorem splitOn_join {sep : UInt8} {parts : List GoString} (hne : parts ≠ [])
    (hparts : ∀ p ∈ parts, sep ∉ p) : (join sep parts).splitOn sep = parts :=
  List.splitOn_intercalate sep hparts hne

theorem splitOn_join_eq {sep : UInt8} {parts : List GoString} (hne : parts ≠ []) :
    (join sep parts).splitOn sep = parts.flatMap (·.splitOn sep) := by
  induction parts with
  | nil => exact absurd rfl hne
  | cons p rest ih =>
    cases rest with
    | nil => simp [join]
    | cons q rest =>
      have hjoin : join sep (p :: q :: rest) = p ++ sep :: join sep (q :: rest) := by
        simp [join, List.intercalate]
      rw [hjoin, List.splitOn_append_cons_self, ih (List.cons_ne_nil _ _), ← List.flatMap_cons]

theorem join_eq_join_iff {sep : UInt8} {parts parts' : List GoString} (hne : parts ≠ []) (hne' : parts' ≠ []) :
    join sep parts = join sep parts' ↔
      parts.flatMap (·.splitOn sep) = parts'.flatMap (·.splitOn sep) := by
  rw [← splitOn_join_eq hne, ← splitOn_join_eq hne']
  constructor
  · intro h
    rw [h]
  · intro h
    have hback := congrArg [sep].intercalate h
    rw [List.intercalate_splitOn, List.intercalate_splitOn] at hback
    exact hback

/-- Parts survive exactly if there are any and none contains the separator. -/
theorem splitOn_join_iff {sep : UInt8} {parts : List GoString} :
    (join sep parts).splitOn sep = parts ↔ parts ≠ [] ∧ ∀ p ∈ parts, sep ∉ p := by
  constructor
  · intro h
    rw [← h]
    exact ⟨List.splitOn_ne_nil sep _, not_mem_of_mem_splitOn⟩
  · rintro ⟨hne, hparts⟩
    exact splitOn_join hne hparts

end Lists

end GoStrconv
