import ArchGuard.GoTime

/-! Instants under the layout `20060102150405Z`: how Go writes and reads them. -/
namespace GoTime

/-- A number in a field of fixed width, and what follows it. -/
def readField (width : ℕ) (cs : List Char) : Option (ℕ × List Char) :=
  if (cs.take width).length = width ∧ (cs.take width).all Char.isDigit then
    some (number (cs.take width), cs.drop width)
  else none

/-- The same, for a number below a bound. -/
def readBelow (bound : ℕ) (cs : List Char) : Option (ℕ × List Char) :=
  (readField 2 cs).bind fun r => if r.1 < bound then some r else none

/-- A fraction of a second, which may follow the seconds whether or not the layout has one; of its
digits nine count. -/
def readFraction : List Char → ℕ × List Char
  | [] => (0, [])
  | c :: cs =>
    let ds := cs.takeWhile Char.isDigit
    if (c = '.' ∨ c = ',') ∧ ds ≠ [] then
      (number ((ds ++ List.replicate 9 '0').take 9), cs.drop ds.length)
    else (0, c :: cs)

def isLeap (year : ℕ) : Bool := year%4 = 0 ∧ (year%100 ≠ 0 ∨ year%400 = 0)

def daysIn (month year : ℕ) : ℕ :=
  if month = 2 then if isLeap year then 29 else 28
  else if month ∈ [4, 6, 9, 11] then 30
  else 31

/-- `time.Parse` under the layout. -/
def parseStamp (s : List Char) : Option ℤ := do
  let (year, s) ← readField 4 s
  let (month, s) ← readBelow 13 s
  let (day, s) ← readField 2 s
  let (hour, s) ← readBelow 24 s
  let (minute, s) ← readBelow 60 s
  let (second, s) ← readBelow 60 s
  let (nanos, s) := readFraction s
  guard (s = ['Z'] ∧ 0 < month ∧ 0 < day ∧ day ≤ daysIn month year)
  return (((⟨year, month, day⟩ : Date).days*86400 + hour*3600 + minute*60 + second)*10^9 + nanos : ℤ)

/-- A year in four digits at least. -/
def yearText (year : ℤ) : List Char :=
  let sign := if year < 0 then ['-'] else []
  if year.natAbs < 10^4 then sign ++ digits 4 year.natAbs else sign ++ Nat.toDigits 10 year.natAbs

/-- `Format` of an instant in UTC under the layout. -/
def stampText (t : ℤ) : List Char :=
  let date := Date.ofDays (t/(86400*10^9))
  let seconds := (t/10^9 % 86400).toNat
  yearText date.year ++ digits 2 date.month.toNat ++ digits 2 date.day.toNat ++
    digits 2 (seconds/3600) ++ digits 2 (seconds/60%60) ++ digits 2 (seconds%60) ++ ['Z']

example : stampText 1753264800500000000 = "20250723100000Z".toList ∧
    parseStamp "20250723100000.5Z".toList = some 1753264800500000000 ∧
    parseStamp "20250229100000Z".toList = none := by decide +kernel

theorem instant_stampText {t : ℤ} (hyear : 0 ≤ (Date.ofDays (t/(86400*10^9))).year ∧
    (Date.ofDays (t/(86400*10^9))).year < 10000) (hsecond : t%10^9 = 0) :
    instant ((stampText t).filter Char.isDigit) = t := by
  obtain ⟨hm0, hm1, hd0, hd1⟩ := Date.ofDays_bounds (t/(86400*10^9))
  have hdays := Date.days_ofDays (t/(86400*10^9))
  rw [stampText]
  generalize Date.ofDays (t/(86400*10^9)) = date at *
  have hself (w n : ℕ) : (digits w n).filter Char.isDigit = digits w n :=
    List.filter_eq_self.mpr (isDigit_digits w n)
  have hz : ['Z'].filter Char.isDigit = [] := by decide
  have htext : yearText date.year = digits 4 date.year.toNat := by
    have hsign : ¬ date.year < 0 := by omega
    have hsmall : date.year.natAbs < 10^4 := by omega
    have habs : date.year.natAbs = date.year.toNat := by omega
    unfold yearText
    simp only [hsign, if_false, List.nil_append]
    rw [if_pos hsmall, habs]
  have hnone : (digits 9 0).rdropWhile (· = '0') = [] := by decide
  have hread := instant_append date.year.toNat date.month.toNat date.day.toNat
    ((t/10^9 % 86400).toNat/3600) ((t/10^9 % 86400).toNat/60%60) ((t/10^9 % 86400).toNat%60) 0
  rw [hnone, List.append_nil] at hread
  simp only [List.filter_append, hself, hz, htext, List.append_nil]
  have hsec : (t/10^9 % 86400).toNat < 86400 := by omega
  rw [hread, number_digits 4 _ (by omega), number_digits 2 date.month.toNat (by omega),
    number_digits 2 date.day.toNat (by omega), number_digits 2 (_/3600) (by omega),
    number_digits 2 (_%60) (by omega), number_digits 2 (_%60) (by omega),
    number_digits 9 0 (by decide)]
  have hdate : (⟨(date.year.toNat : ℤ), (date.month.toNat : ℤ), (date.day.toNat : ℤ)⟩ : Date) = date := by
    rw [Int.toNat_of_nonneg hyear.1, Int.toNat_of_nonneg hm0, Int.toNat_of_nonneg hd0]
  rw [hdate, hdays]
  omega

section Years

theorem Date.year_ofDays_bounds {days : ℤ} (h0 : -719528 ≤ days) (h1 : days ≤ 2932896) :
    0 ≤ (Date.ofDays days).year ∧ (Date.ofDays days).year < 10000 := by
  have hera : -1 ≤ (days+719468)/146097 ∧ (days+719468)/146097 ≤ 24 := by omega
  have hd0 : 0 ≤ (days+719468)%146097 := by omega
  have hd1 : (days+719468)%146097 < 146097 := by omega
  have hyear := yearOfEra_bounds _ hd0 hd1
  -- only the first and the last era are cut short
  have hfirst : (days+719468)/146097 = -1 → yearOfEra ((days+719468)%146097) = 399 ∧
      306 ≤ (days+719468)%146097 - daysBefore (yearOfEra ((days+719468)%146097)) := by
    intro he
    have hday : 146037 ≤ (days+719468)%146097 := by omega
    have hy : yearOfEra ((days+719468)%146097) = 399 := by
      unfold yearOfEra
      omega
    rw [hy, show daysBefore 399 = 145731 by decide]
    omega
  have hlast : (days+719468)/146097 = 24 → yearOfEra ((days+719468)%146097) = 399 →
      (days+719468)%146097 - daysBefore (yearOfEra ((days+719468)%146097)) ≤ 305 := by
    intro he hy
    rw [hy, show daysBefore 399 = 145731 by decide]
    omega
  unfold Date.ofDays Date.ofMonth
  dsimp only
  generalize yearOfEra ((days+719468)%146097) = y at *
  generalize (days+719468)%146097 - daysBefore y = d at *
  unfold monthOfDay
  split_ifs <;> omega

theorem Date.days_bounds {year month day : ℕ} (hyear : year < 10000)
    (hmonth : 0 < month ∧ month ≤ 12) (hday : 0 < day ∧ day ≤ 31) :
    -719528 ≤ (⟨year, month, day⟩ : Date).days ∧ (⟨year, month, day⟩ : Date).days ≤ 2932896 := by
  unfold Date.days daysBefore
  dsimp only
  split_ifs <;> omega

theorem digitValue_lt {c : Char} (h : c.isDigit = true) : digitValue c < 10 := by
  have hbounds := Char.isDigit_iff_toNat.mp h
  have hzero : '0'.toNat = 48 := rfl
  have hnine : '9'.toNat = 57 := rfl
  unfold digitValue
  omega

theorem number_lt {cs : List Char} (h : cs.all Char.isDigit = true) : number cs < 10^cs.length := by
  induction cs using List.reverseRecOn with
  | nil => decide
  | append_singleton cs c ih =>
    rw [List.all_append, Bool.and_eq_true] at h
    have ih := ih h.1
    have hc := digitValue_lt (List.all_eq_true.mp h.2 c (List.mem_singleton_self c))
    rw [number] at ih
    rw [number, List.foldl_append, List.foldl_cons, List.foldl_nil, List.length_append,
      List.length_singleton, pow_succ]
    omega

theorem readField_lt {width : ℕ} {cs : List Char} {r : ℕ × List Char}
    (h : readField width cs = some r) : r.1 < 10^width := by
  rw [readField] at h
  split_ifs at h with hfield
  cases h
  have hlt := number_lt hfield.2
  rwa [hfield.1] at hlt

theorem readBelow_lt {bound : ℕ} {cs : List Char} {r : ℕ × List Char}
    (h : readBelow bound cs = some r) : r.1 < bound := by
  obtain ⟨r', -, h⟩ := Option.bind_eq_some_iff.mp h
  split_ifs at h with hlt
  cases h
  exact hlt

theorem readFraction_lt (cs : List Char) : (readFraction cs).1 < 10^9 := by
  cases cs with
  | nil => decide
  | cons c cs =>
    rw [readFraction]
    split_ifs with hfraction
    · have hdigits : ((cs.takeWhile Char.isDigit ++ List.replicate 9 '0').take 9).all Char.isDigit = true := by
        rw [List.all_eq_true]
        intro d hd
        rcases List.mem_append.mp (List.mem_of_mem_take hd) with hd | hd
        · exact List.mem_takeWhile_imp hd
        · rw [List.eq_of_mem_replicate hd]
          decide
      have hlt := number_lt hdigits
      have hlength : ((cs.takeWhile Char.isDigit ++ List.replicate 9 '0').take 9).length = 9 := by
        simp
      rwa [hlength] at hlt
    · exact Nat.pow_pos (by decide)

theorem daysIn_le (month year : ℕ) : daysIn month year ≤ 31 := by
  unfold daysIn
  split_ifs <;> decide

/-- A text in the layout denotes an instant of a year with four digits. -/
theorem year_parseStamp {s : List Char} {t : ℤ} (h : parseStamp s = some t) :
    0 ≤ (Date.ofDays (t/(86400*10^9))).year ∧ (Date.ofDays (t/(86400*10^9))).year < 10000 := by
  simp only [parseStamp, Option.bind_eq_bind, Option.bind_eq_some_iff] at h
  obtain ⟨year, hyear, month, hmonth, day, -, hour, hhour, minute, hminute, second, hsecond, _,
    hguard, ht⟩ := h
  obtain ⟨-, hmonth0, hday0, hday1⟩ := (Option.guard_eq_some' _).mp hguard
  have hdays := Date.days_bounds (readField_lt hyear)
    ⟨hmonth0, Nat.lt_succ_iff.mp (readBelow_lt hmonth)⟩ ⟨hday0, hday1.trans (daysIn_le _ _)⟩
  have hhour := readBelow_lt hhour
  have hminute := readBelow_lt hminute
  have hsecond := readBelow_lt hsecond
  have hnanos := readFraction_lt second.2
  have ht := Option.some.inj ht
  generalize (⟨year.1, month.1, day.1⟩ : Date).days = days at *
  have hday : t/(86400*10^9) = days := by omega
  rw [hday]
  exact Date.year_ofDays_bounds hdays.1 hdays.2

end Years

end GoTime
