import ArchGuard.Primitives

/-! The canonical text of a UUID determines it. -/
namespace ArchGuard

def hexValue (c : Char) : Option ℕ :=
  if '0' ≤ c ∧ c ≤ '9' then some (c.toNat - '0'.toNat)
  else if 'a' ≤ c ∧ c ≤ 'f' then some (c.toNat - 'a'.toNat+10)
  else none

/-- The number that hexadecimal digits denote, after the ones read so far. -/
def hexNumber (n : ℕ) (digits : List Char) : ℕ :=
  digits.foldl (fun n c => 16*n+(hexValue c).getD 0) n

/-- Reads the canonical text of a UUID, as `uuid.Parse` and a `uuid` column do. -/
def Uuid.ofText (s : String) : Option Uuid :=
  let digits := s.toList.filter (· ≠ '-')
  let u : Uuid := BitVec.ofNat 128 (hexNumber 0 digits)
  if Uuid.text u = s then some u else none

theorem hexValue_hexDigit (n : ℕ) (h : n < 16) : hexValue (hexDigit n) = some n := by
  interval_cases n <;> decide

theorem hexDigit_ne_dash (n : ℕ) (h : n < 16) : hexDigit n ≠ '-' := by
  interval_cases n <;> decide

theorem hexNumber_take (n k : ℕ) (hk : k ≤ 32) :
    hexNumber 0 ((List.range k).map fun i => hexDigit (n / 16^(31-i) % 16)) = n % 16^32 / 16^(32-k) := by
  induction k with
  | zero =>
    simp [hexNumber]
  | succ k ih =>
    have hdigit : n / 16^(31-k) % 16 < 16 := Nat.mod_lt _ (by norm_num)
    have ih' := ih (by omega)
    rw [List.range_succ, List.map_append, hexNumber, List.foldl_append]
    change 16 * hexNumber 0 _ + _ = _
    rw [ih', hexValue_hexDigit _ hdigit, Option.getD_some]
    have hpow : 16^(32-k) = 16^(32-(k+1))*16 := by
      rw [← pow_succ]
      congr 1
      omega
    have h31 : 31-k = 32-(k+1) := by omega
    rw [hpow, h31, ← Nat.div_div_eq_div_mul]
    have hmod : n / 16^(32-(k+1)) % 16 = n % 16^32 / 16^(32-(k+1)) % 16 := by
      have h32 : (16:ℕ)^32 = 16^(32-(k+1)) * 16^(k+1) := by
        rw [← pow_add]
        congr 1
        omega
      rw [h32, Nat.mod_mul_right_div_self, Nat.mod_mod_of_dvd _ (dvd_pow_self 16 (by omega))]
    rw [hmod]
    omega

theorem toList_text (u : Uuid) : u.text.toList.filter (· ≠ '-') =
    (List.range 32).map fun i => hexDigit (u.toNat / 16^(31-i) % 16) := by
  set digits := (List.range 32).map fun i => hexDigit (u.toNat / 16^(31-i) % 16) with hdigits
  have hdash (c : Char) (hc : c ∈ digits) : c ≠ '-' := by
    obtain ⟨i, -, rfl⟩ := List.mem_map.mp hc
    exact hexDigit_ne_dash _ (Nat.mod_lt _ (by norm_num))
  have hkeep (a n : ℕ) : ((digits.drop a).take n).filter (· ≠ '-') = (digits.drop a).take n := by
    rw [List.filter_eq_self]
    intro c hc
    simpa using hdash c (List.mem_of_mem_drop (List.mem_of_mem_take hc))
  have hlen : digits.length = 32 := by simp [hdigits]
  have hsplit (a n : ℕ) : (digits.drop a).take n ++ digits.drop (a+n) = digits.drop a := by
    rw [← List.drop_drop]
    exact List.take_append_drop n _
  have hlast : (digits.drop 20).take 12 = digits.drop 20 := List.take_of_length_le (by simp [hlen])
  have hsep : "-".toList.filter (· ≠ '-') = [] := by decide
  unfold Uuid.text
  simp only [String.toList_append, String.toList_ofList, List.filter_append, hsep, List.append_nil,
    ← hdigits, hkeep]
  rw [hlast, List.append_assoc, List.append_assoc, List.append_assoc, hsplit 16 4, hsplit 12 4, hsplit 8 4,
    hsplit 0 8, List.drop_zero]

/-- `uuid.Parse(u.String())` is `u`. -/
theorem Uuid.ofText_text (u : Uuid) : Uuid.ofText u.text = some u := by
  have hnum : hexNumber 0 (u.text.toList.filter (· ≠ '-')) = u.toNat := by
    rw [toList_text, hexNumber_take _ 32 le_rfl, Nat.sub_self, pow_zero, Nat.div_one]
    exact Nat.mod_eq_of_lt (u.isLt.trans_eq (by norm_num))
  unfold Uuid.ofText
  simp only [hnum, BitVec.ofNat_toNat, BitVec.setWidth_eq, ↓reduceIte]

theorem Uuid.text_injective : Function.Injective Uuid.text := by
  intro u v h
  have := Uuid.ofText_text u
  rw [h, Uuid.ofText_text v] at this
  exact (Option.some.inj this).symm

end ArchGuard
