import Mathlib.Data.Nat.Log
import Mathlib.Tactic

/-! Whole numbers in a binary floating-point format: the nearest float, and the shortest decimal
text that is read back as that float. -/
namespace FloatInts

/-- The distance of the floats around `n`, when a significand has `p` bits. -/
def spacing (p n : ℕ) : ℕ := 2^(Nat.log2 n+1-p)

/-- The float nearest to `n`; of two that are equally near, the one with the even significand. -/
def nearest (p n : ℕ) : ℕ :=
  let u := spacing p n
  if 2*(n%u) < u ∨ (2*(n%u) = u ∧ n/u%2 = 0) then n/u*u else (n/u+1)*u

def IsFloat (p f : ℕ) : Prop := nearest p f = f

/-- From `10^e` downwards, the first power of ten of which a multiple next to `f` reads back. -/
def shortestFrom (p f : ℕ) : ℕ → ℕ
  | 0 => f
  | e+1 =>
    let down := f/10^(e+1)*10^(e+1)
    let up := down+10^(e+1)
    let upIsCloser := up-f < f-down ∨ (up-f = f-down ∧ f/10^(e+1)%2 = 1)
    if nearest p down = f ∧ nearest p up = f then if upIsCloser then up else down
    else if nearest p down = f then down
    else if nearest p up = f then up
    else shortestFrom p f e

/-- The number that the shortest text for `f` denotes. -/
def shortest (p f : ℕ) : ℕ := shortestFrom p f (Nat.log 10 f)

/-- The fewest digits may be fewer than the number has. -/
example : shortest 53 (2^60) = 1152921504606847000 := by decide +kernel

variable {p n f b : ℕ}

theorem spacing_pos : 0 < spacing p n := Nat.two_pow_pos _

theorem nearest_cases : nearest p n = n/spacing p n*spacing p n ∨
    nearest p n = (n/spacing p n+1)*spacing p n := by
  unfold nearest
  dsimp only
  split_ifs
  · exact Or.inl rfl
  · exact Or.inr rfl

theorem nearest_of_dvd (h : spacing p n ∣ n) : nearest p n = n := by
  have hmod : n % spacing p n = 0 := Nat.mod_eq_zero_of_dvd h
  have hpos : 0 < spacing p n := spacing_pos
  simp only [nearest, hmod, Nat.mul_zero, hpos, true_or, if_true]
  exact Nat.div_mul_cancel h

theorem nearest_of_lt (hp : n < 2^p) : nearest p n = n := by
  apply nearest_of_dvd
  have hlog : n = 0 ∨ Nat.log2 n < p := by
    rcases Nat.eq_zero_or_pos n with h | h
    · exact Or.inl h
    · exact Or.inr ((Nat.log2_lt (by omega)).mpr hp)
  rcases hlog with rfl | hlog
  · exact dvd_zero _
  · rw [spacing, show Nat.log2 n + 1 - p = 0 by omega]
    exact one_dvd n

theorem le_nearest : n/spacing p n*spacing p n ≤ nearest p n := by
  rcases nearest_cases (p := p) (n := n) with h | h
  · exact h.ge
  · rw [h]
    exact Nat.mul_le_mul_right _ (Nat.le_succ _)

theorem nearest_le : nearest p n ≤ n + spacing p n := by
  have hdiv : n/spacing p n*spacing p n ≤ n := Nat.div_mul_le_self n _
  rcases nearest_cases (p := p) (n := n) with h | h
  · omega
  · rw [h, Nat.succ_mul]
    omega

/-- A number with `e` bits beyond the significand: its quotient is a full significand. -/
theorem quotient_bounds {e : ℕ} (hp : 0 < p) (hlog : Nat.log2 n = p+e-1) (hn : n ≠ 0) :
    spacing p n = 2^e ∧ 2^(p-1) ≤ n/2^e ∧ n/2^e < 2^p := by
  have hlow : 2^(p+e-1) ≤ n := hlog ▸ Nat.log2_self_le hn
  have hhigh : n < 2^(p+e) := by
    have h := Nat.lt_log2_self (n := n)
    rwa [hlog, show p+e-1+1 = p+e by omega] at h
  refine ⟨by rw [spacing, hlog, show p+e-1+1-p = e by omega], ?_, ?_⟩
  · rw [Nat.le_div_iff_mul_le (Nat.two_pow_pos e), ← pow_add]
    rwa [show p-1+e = p+e-1 by omega]
  · rw [Nat.div_lt_iff_lt_mul (Nat.two_pow_pos e), ← pow_add]
    exact hhigh

theorem exists_extra_bits (hp : 0 < p) (h : 2^p ≤ n) : ∃ e, Nat.log2 n = p+e-1 := by
  have hlog : p ≤ Nat.log2 n := (Nat.le_log2 (by have := Nat.two_pow_pos p; omega)).mpr h
  exact ⟨Nat.log2 n+1-p, by omega⟩

theorem isFloat_nearest (hp : 0 < p) : IsFloat p (nearest p n) := by
  rcases lt_or_ge n (2^p) with hlt | hge
  · rw [IsFloat, nearest_of_lt hlt, nearest_of_lt hlt]
  · obtain ⟨e, hlog⟩ := exists_extra_bits hp hge
    have hn : n ≠ 0 := by
      have := Nat.two_pow_pos p
      omega
    obtain ⟨hspacing, hlow, hhigh⟩ := quotient_bounds hp hlog hn
    -- the float is a multiple of the spacing, by a significand or by the first beyond
    obtain ⟨m, hm, hmlow, hmhigh⟩ : ∃ m, nearest p n = m*2^e ∧ 2^(p-1) ≤ m ∧ m ≤ 2^p := by
      rcases nearest_cases (p := p) (n := n) with h | h
      · exact ⟨n/2^e, hspacing ▸ h, hlow, hhigh.le⟩
      · exact ⟨n/2^e+1, hspacing ▸ h, by omega, hhigh⟩
    have hpos : 0 < m*2^e := Nat.mul_pos (by have := Nat.two_pow_pos (p-1); omega) (Nat.two_pow_pos e)
    apply nearest_of_dvd
    rw [hm]
    rcases hmhigh.lt_or_eq with hlt | rfl
    · have hlog' : Nat.log2 (m*2^e) = p+e-1 := by
        rw [Nat.log2_eq_iff (by omega), show p+e-1 = p-1+e by omega,
          show p-1+e+1 = p+e by omega, pow_add, pow_add]
        exact ⟨Nat.mul_le_mul_right _ hmlow, Nat.mul_lt_mul_of_pos_right hlt (Nat.two_pow_pos e)⟩
      rw [(quotient_bounds hp hlog' (by omega)).1]
      exact Nat.dvd_mul_left _ _
    · rw [← pow_add, spacing, Nat.log2_two_pow]
      exact Nat.pow_dvd_pow 2 (by omega)

/-- The text is read back as the float it was written for. -/
theorem nearest_shortest (h : IsFloat p f) : nearest p (shortest p f) = f := by
  have hfrom (e : ℕ) : nearest p (shortestFrom p f e) = f := by
    induction e with
    | zero => exact h
    | succ e ih =>
      rw [shortestFrom]
      split_ifs with hboth hcloser hdown hup
      · exact hboth.2
      · exact hboth.1
      · exact hdown
      · exact hup
      · exact ih
  exact hfrom _

theorem pow_le_nearest (hp : 0 < p) (hb : p ≤ b) (h : 2^b ≤ n) : 2^b ≤ nearest p n := by
  obtain ⟨e, hlog⟩ := exists_extra_bits hp ((Nat.pow_le_pow_right (by omega) hb).trans h)
  have hn : n ≠ 0 := by
    have := Nat.two_pow_pos b
    omega
  obtain ⟨hspacing, hlow, -⟩ := quotient_bounds hp hlog hn
  have hbe : b ≤ p+e-1 := hlog ▸ (Nat.le_log2 hn).mpr h
  calc 2^b ≤ 2^(p+e-1) := Nat.pow_le_pow_right (by omega) hbe
    _ = 2^(p-1)*2^e := by rw [← pow_add, show p-1+e = p+e-1 by omega]
    _ ≤ n/2^e*2^e := Nat.mul_le_mul_right _ hlow
    _ ≤ nearest p n := hspacing ▸ le_nearest

theorem nearest_le_pow (hp : 0 < p) (hb : p ≤ b) (h : n < 2^b) : nearest p n ≤ 2^b := by
  have hdvd : spacing p n ∣ 2^b := by
    apply Nat.pow_dvd_pow
    rcases Nat.eq_zero_or_pos n with rfl | hpos
    · rw [Nat.log2_zero]
      omega
    · have hlog : Nat.log2 n < b := (Nat.log2_lt (by omega)).mpr h
      omega
  obtain ⟨q, hq⟩ := hdvd
  have hdiv : n/spacing p n < q := by
    rw [Nat.div_lt_iff_lt_mul spacing_pos, Nat.mul_comm, ← hq]
    exact h
  calc nearest p n ≤ (n/spacing p n+1)*spacing p n := by
        rcases nearest_cases (p := p) (n := n) with h | h
        · exact h.le.trans (Nat.mul_le_mul_right _ (Nat.le_succ _))
        · exact h.le
    _ ≤ q*spacing p n := Nat.mul_le_mul_right _ hdiv
    _ = 2^b := by rw [hq, Nat.mul_comm]

/-- Exactly the last half of a spacing before a power of two is rounded up to it. -/
theorem nearest_lt_pow_iff {e : ℕ} (hp : 0 < p) :
    nearest p n < 2^(p+e+1) ↔ n < 2^(p+e+1)-2^e := by
  have hpe : 2^(p+e+1) = 2*2^(p+e) := by rw [pow_succ, Nat.mul_comm]
  have hee : 2^e < 2^(p+e) := Nat.pow_lt_pow_right (by omega) (by omega)
  rcases lt_or_ge n (2^(p+e)) with hsmall | hlarge
  · have hle : nearest p n < 2^(p+e+1) := by
      rcases Nat.eq_zero_or_pos n with rfl | hpos
      · rw [nearest_of_lt (Nat.two_pow_pos p)]
        exact Nat.two_pow_pos _
      · have hspacing : spacing p n ≤ n :=
          (Nat.pow_le_pow_right (by omega) (by omega)).trans (Nat.log2_self_le (by omega))
        have hround := nearest_le (p := p) (n := n)
        omega
    exact iff_of_true hle (by omega)
  · rcases lt_or_ge n (2^(p+e+1)) with hmid | hbig
    · have hn : n ≠ 0 := by
        have := Nat.two_pow_pos (p+e)
        omega
      have hlog : Nat.log2 n = p+(e+1)-1 := (Nat.log2_eq_iff hn).mpr ⟨hlarge, hmid⟩
      obtain ⟨hspacing, -, hhigh⟩ := quotient_bounds hp hlog hn
      have hpow : 2^(p+e+1) = 2^p*2^(e+1) := by rw [← pow_add, Nat.add_assoc]
      have htwo : 2^(e+1) = 2*2^e := by rw [pow_succ, Nat.mul_comm]
      have heven : 2^p%2 = 0 := Nat.mod_eq_zero_of_dvd (dvd_pow_self 2 (by omega))
      have hdiv : n/2^(e+1)*2^(e+1) + n%2^(e+1) = n := Nat.div_add_mod' n _
      have hmod : n%2^(e+1) < 2^(e+1) := Nat.mod_lt _ (Nat.two_pow_pos _)
      unfold nearest
      dsimp only
      rw [hspacing, hpow]
      rcases (Nat.lt_succ_iff_lt_or_eq.mp (show n/2^(e+1)+1 < 2^p+1 by omega)) with hlt | hlast
      · -- the next float is still below the power
        have hfit : (n/2^(e+1)+2)*2^(e+1) ≤ 2^p*2^(e+1) := Nat.mul_le_mul_right _ hlt
        have hexpand : (n/2^(e+1)+2)*2^(e+1) = n/2^(e+1)*2^(e+1) + 2*2^(e+1) := by ring
        have hnext : (n/2^(e+1)+1)*2^(e+1) = n/2^(e+1)*2^(e+1) + 2^(e+1) := by ring
        have hroom : n < 2^p*2^(e+1) - 2^e := by omega
        refine iff_of_true ?_ hroom
        split_ifs <;> omega
      · -- the last significand is odd, so the middle goes up
        have hnext : (n/2^(e+1)+1)*2^(e+1) = 2^p*2^(e+1) := by rw [hlast]
        have hexpand : (n/2^(e+1)+1)*2^(e+1) = n/2^(e+1)*2^(e+1) + 2^(e+1) := by ring
        have hodd : n/2^(e+1)%2 = 1 := by omega
        split_ifs with hdown <;> omega
    · have hle : 2^(p+e+1) ≤ nearest p n := pow_le_nearest hp (by omega) hbig
      exact iff_of_false hle.not_gt ((Nat.sub_le _ _).trans hbig).not_gt

theorem shortest_lt_pow_iff (hp : 0 < p) (hb : p ≤ b) (hf : IsFloat p f)
    (hpow : 2^b ≤ shortest p (2^b)) : shortest p f < 2^b ↔ f < 2^b := by
  have hread : nearest p (shortest p f) = f := nearest_shortest hf
  constructor
  · intro h
    have hle : f ≤ 2^b := hread ▸ nearest_le_pow hp hb h
    refine hle.lt_of_ne ?_
    rintro rfl
    omega
  · intro h
    by_contra hge
    have hle : 2^b ≤ f := hread ▸ pow_le_nearest hp hb (not_lt.mp hge)
    omega

theorem nearest_zero : nearest p 0 = 0 := nearest_of_lt (Nat.two_pow_pos p)

theorem nearest_pos (hp : 0 < p) (hn : 0 < n) : 0 < nearest p n := by
  rcases lt_or_ge n (2^p) with hlt | hge
  · rw [nearest_of_lt hlt]
    exact hn
  · exact (Nat.two_pow_pos p).trans_le (pow_le_nearest hp le_rfl hge)

def toFloat (p : ℕ) (n : ℤ) : ℤ := if n < 0 then -(nearest p n.natAbs) else nearest p n.natAbs

/-- The integer that a float's text denotes. -/
def floatText (p : ℕ) (n : ℤ) : ℤ := if n < 0 then -(shortest p n.natAbs) else shortest p n.natAbs

theorem toFloat_natCast (n : ℕ) : toFloat p n = nearest p n := if_neg (by omega)

theorem floatText_natCast (n : ℕ) : floatText p n = shortest p n := if_neg (by omega)

theorem toFloat_neg (hn : 0 < n) : toFloat p (-(n : ℤ)) = -(nearest p n) := by
  rw [toFloat, if_pos (by omega), Int.natAbs_neg, Int.natAbs_natCast]

theorem floatText_neg (hn : 0 < n) : floatText p (-(n : ℤ)) = -(shortest p n) := by
  rw [floatText, if_pos (by omega), Int.natAbs_neg, Int.natAbs_natCast]

theorem toFloat_floatText_toFloat (hp : 0 < p) (n : ℤ) :
    toFloat p (floatText p (toFloat p n)) = toFloat p n := by
  have hread (k : ℕ) : nearest p (shortest p (nearest p k)) = nearest p k :=
    nearest_shortest (isFloat_nearest hp)
  rcases Int.eq_nat_or_neg n with ⟨k, rfl | rfl⟩
  · rw [toFloat_natCast, floatText_natCast, toFloat_natCast, hread]
  · rcases Nat.eq_zero_or_pos k with rfl | hk
    · rw [Int.natCast_zero, neg_zero, ← Int.natCast_zero, toFloat_natCast, floatText_natCast,
        toFloat_natCast, hread]
    · have hfloat : 0 < nearest p k := nearest_pos hp hk
      have htext : 0 < shortest p (nearest p k) := by
        apply Nat.pos_of_ne_zero
        intro hzero
        have h := hread k
        rw [hzero, nearest_zero] at h
        omega
      rw [toFloat_neg hk, floatText_neg hfloat, toFloat_neg htext, hread]

end FloatInts
