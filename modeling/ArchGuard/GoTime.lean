import Mathlib.Data.List.DropRight
import Mathlib.Tactic

/-! Instants in nanoseconds since the Unix epoch, and their RFC 3339 text as Go's encoder of times
writes it: in UTC, with as many digits of the fraction as it needs. -/
namespace GoTime

/-- A date of the proleptic Gregorian calendar. -/
structure Date where
  year : ℤ
  month : ℤ
  day : ℤ
  deriving DecidableEq, Repr

-- Years are counted from the first of March, in eras of 400 years, so that the leap day is last.

def yearOfEra (dayOfEra : ℤ) : ℤ :=
  (dayOfEra - dayOfEra/1460 + dayOfEra/36524 - dayOfEra/146096)/365

def daysBefore (yearOfEra : ℤ) : ℤ := 365*yearOfEra + yearOfEra/4 - yearOfEra/100

def monthOfDay (dayOfYear : ℤ) : ℤ := (5*dayOfYear+2)/153

/-- A day of the month `m`, counted from March, of a year of an era. -/
def Date.ofMonth (era y m day : ℤ) : Date :=
  { year := y + era*400 + (if m < 10 then 0 else 1)
    month := if m < 10 then m+3 else m-9
    day := day }

/-- The date of a day, counted from the Unix epoch. -/
def Date.ofDays (days : ℤ) : Date :=
  let era := (days+719468)/146097
  let dayOfEra := (days+719468)%146097
  let dayOfYear := dayOfEra - daysBefore (yearOfEra dayOfEra)
  let m := monthOfDay dayOfYear
  .ofMonth era (yearOfEra dayOfEra) m (dayOfYear - (153*m+2)/5 + 1)

/-- The day of a date, counted from the Unix epoch. -/
def Date.days (d : Date) : ℤ :=
  let y := if d.month ≤ 2 then d.year-1 else d.year
  let m := if d.month ≤ 2 then d.month+9 else d.month-3
  y/400*146097 + daysBefore (y%400) + ((153*m+2)/5 + d.day - 1) - 719468

example : Date.ofDays 0 = ⟨1970, 1, 1⟩ ∧ Date.ofDays 19782 = ⟨2024, 2, 29⟩ := by decide +kernel

theorem yearOfEra_bounds (n : ℤ) (h0 : 0 ≤ n) (h1 : n < 146097) :
    0 ≤ yearOfEra n ∧ yearOfEra n < 400 := by
  unfold yearOfEra
  omega

theorem centuryOfEra (n : ℤ) (h0 : 0 ≤ n) (h1 : n < 146097) :
    yearOfEra n/100 = n/36524 - n/146096 := by
  unfold yearOfEra
  have hd : n/36524 = 0 ∨ n/36524 = 1 ∨ n/36524 = 2 ∨ n/36524 = 3 ∨ n/36524 = 4 := by omega
  have he : n/146096 = 0 ∨ n/146096 = 1 := by omega
  rcases hd with hd | hd | hd | hd | hd <;> rcases he with he | he <;> omega

theorem cycleOfEra (n : ℤ) (h0 : 0 ≤ n) (h1 : n < 146097) :
    n/1460 - 1 ≤ yearOfEra n/4 ∧ yearOfEra n/4 ≤ n/1460 := by
  unfold yearOfEra
  omega

theorem dayOfYear_bounds (n : ℤ) (h0 : 0 ≤ n) (h1 : n < 146097) :
    0 ≤ n - daysBefore (yearOfEra n) ∧ n - daysBefore (yearOfEra n) ≤ 365 := by
  have hc := centuryOfEra n h0 h1
  have hf := cycleOfEra n h0 h1
  have hy : yearOfEra n = (n - n/1460 + n/36524 - n/146096)/365 := rfl
  unfold daysBefore
  omega

theorem Date.days_ofMonth (era y m day : ℤ) (hy : 0 ≤ y ∧ y < 400) (hm : 0 ≤ m ∧ m < 12) :
    (Date.ofMonth era y m day).days =
      era*146097 + daysBefore y + ((153*m+2)/5 + day - 1) - 719468 := by
  unfold Date.ofMonth Date.days
  -- the months from January on belong to the next year
  by_cases h10 : m < 10
  · have h3 : ¬ m+3 ≤ 2 := by omega
    have he : (y + era*400 + 0)/400 = era := by omega
    have hr : (y + era*400 + 0)%400 = y := by omega
    have hback : m+3-3 = m := by omega
    simp only [h10, ↓reduceIte, h3, he, hr, hback]
  · have h3 : m-9 ≤ 2 := by omega
    have he : (y + era*400 + 1 - 1)/400 = era := by omega
    have hr : (y + era*400 + 1 - 1)%400 = y := by omega
    have hback : m-9+9 = m := by omega
    simp only [h10, ↓reduceIte, h3, he, hr, hback]

theorem monthOfDay_bounds (d : ℤ) (h : 0 ≤ d ∧ d ≤ 365) :
    0 ≤ monthOfDay d ∧ monthOfDay d < 12 ∧ (153*monthOfDay d+2)/5 ≤ d ∧
      d < (153*monthOfDay d+2)/5 + 31 := by
  unfold monthOfDay
  omega

theorem Date.days_ofDays (days : ℤ) : (Date.ofDays days).days = days := by
  have h0 : 0 ≤ (days+719468)%146097 := by omega
  have h1 : (days+719468)%146097 < 146097 := by omega
  have hm := monthOfDay_bounds _ (dayOfYear_bounds _ h0 h1)
  rw [Date.ofDays, Date.days_ofMonth _ _ _ _ (yearOfEra_bounds _ h0 h1) ⟨hm.1, hm.2.1⟩]
  omega

theorem Date.ofDays_bounds (days : ℤ) :
    0 ≤ (Date.ofDays days).month ∧ (Date.ofDays days).month < 100 ∧
      0 ≤ (Date.ofDays days).day ∧ (Date.ofDays days).day < 100 := by
  have h0 : 0 ≤ (days+719468)%146097 := by omega
  have h1 : (days+719468)%146097 < 146097 := by omega
  have hm := monthOfDay_bounds _ (dayOfYear_bounds _ h0 h1)
  unfold Date.ofDays Date.ofMonth
  dsimp only
  split_ifs <;> omega

section Digits

def digitChar (n : ℕ) : Char := "0123456789".toList.getD n '0'

def digitValue (c : Char) : ℕ := c.toNat - '0'.toNat

/-- A number in decimal, in so many digits. -/
def digits : (width : ℕ) → (n : ℕ) → List Char
  | 0, _ => []
  | width+1, n => digits width (n/10) ++ [digitChar (n%10)]

def number (cs : List Char) : ℕ := cs.foldl (fun n c => 10*n + digitValue c) 0

theorem digitChar_facts (n : ℕ) (h : n < 10) :
    digitValue (digitChar n) = n ∧ (digitChar n).isDigit = true := by
  interval_cases n <;> decide

theorem length_digits (width n : ℕ) : (digits width n).length = width := by
  induction width generalizing n with
  | zero => rfl
  | succ width ih => rw [digits, List.length_append, ih, List.length_singleton]

theorem isDigit_digits (width n : ℕ) : ∀ c ∈ digits width n, c.isDigit = true := by
  induction width generalizing n with
  | zero => exact fun c hc => absurd hc List.not_mem_nil
  | succ width ih =>
    intro c hc
    rw [digits, List.mem_append, List.mem_singleton] at hc
    rcases hc with hc | hc
    · exact ih (n/10) c hc
    · rw [hc]
      exact (digitChar_facts (n%10) (Nat.mod_lt n (by norm_num))).2

theorem number_digits (width n : ℕ) (h : n < 10^width) : number (digits width n) = n := by
  induction width generalizing n with
  | zero =>
    rw [pow_zero, Nat.lt_one_iff] at h
    rw [h]
    rfl
  | succ width ih =>
    have hlt : n/10 < 10^width := by
      apply Nat.div_lt_of_lt_mul
      rwa [← pow_succ']
    have ih := ih (n/10) hlt
    rw [number] at ih
    rw [digits, number, List.foldl_append, ih, List.foldl_cons, List.foldl_nil,
      (digitChar_facts (n%10) (Nat.mod_lt n (by norm_num))).1]
    omega

end Digits

/-- The fraction of a second: a point and its digits up to the last that is not zero. -/
def fraction (nanos : ℕ) : List Char :=
  match (digits 9 nanos).rdropWhile (· = '0') with
  | [] => []
  | c :: cs => '.' :: c :: cs

/-- `MarshalJSON` of a time in UTC: its RFC 3339 text, or an error for a year that four digits
do not hold. -/
def rfc3339Nano (t : ℤ) : Option String :=
  let date := Date.ofDays (t/(86400*10^9))
  let seconds := (t/10^9 % 86400).toNat
  if date.year < 0 ∨ 10000 ≤ date.year then none
  else some (String.ofList (
    digits 4 date.year.toNat ++ '-' :: digits 2 date.month.toNat ++ '-' :: digits 2 date.day.toNat ++
    'T' :: digits 2 (seconds/3600) ++ ':' :: digits 2 (seconds/60%60) ++ ':' :: digits 2 (seconds%60) ++
    fraction (t%10^9).toNat ++ ['Z']))

/-- The instant that the digits of a text denote. -/
def instant (ds : List Char) : ℤ :=
  let field (from_ width : ℕ) : ℕ := number ((ds.drop from_).take width)
  let date : Date := ⟨field 0 4, field 4 2, field 6 2⟩
  let nanos : ℕ := number (((ds.drop 14) ++ List.replicate 9 '0').take 9)
  ((date.days*86400 + field 8 2*3600 + field 10 2*60 + field 12 2)*10^9 + nanos : ℤ)

/-- `UnmarshalJSON` of a time, on the texts that `MarshalJSON` writes. -/
def parseRfc3339 (s : String) : Option ℤ :=
  let t := instant (s.toList.filter Char.isDigit)
  if rfc3339Nano t = some s then some t else none

example : rfc3339Nano 1709210096000120000 = some "2024-02-29T12:34:56.00012Z" := by decide +kernel

theorem take_rdropWhile_append (c : Char) (cs : List Char) (n : ℕ) (hn : cs.length ≤ n) :
    ((cs.rdropWhile (· = c)) ++ List.replicate n c).take cs.length = cs := by
  have hsplit : cs.rdropWhile (· = c) ++ cs.rtakeWhile (· = c) = cs :=
    List.rdropWhile_append_rtakeWhile
  have hrep : cs.rtakeWhile (· = c) = List.replicate (cs.rtakeWhile (· = c)).length c := by
    apply List.eq_replicate_of_mem
    intro d hd
    simpa using List.mem_rtakeWhile_imp hd
  have hlen : (cs.rdropWhile (· = c)).length + (cs.rtakeWhile (· = c)).length = cs.length := by
    rw [← List.length_append, hsplit]
  have hk : cs.length - (cs.rdropWhile (· = c)).length = (cs.rtakeWhile (· = c)).length := by omega
  have hle : (cs.rdropWhile (· = c)).length ≤ cs.length := by omega
  have hmin : (cs.rtakeWhile (· = c)).length ≤ n := by omega
  rw [List.take_append, List.take_of_length_le hle, hk, List.take_replicate, Nat.min_eq_left hmin, ← hrep]
  exact hsplit

theorem filter_fraction (nanos : ℕ) :
    (fraction nanos).filter Char.isDigit = (digits 9 nanos).rdropWhile (· = '0') := by
  have hall : ∀ c ∈ (digits 9 nanos).rdropWhile (· = '0'), c.isDigit = true := by
    intro c hc
    exact isDigit_digits 9 nanos c (List.rdropWhile_prefix _ _ |>.subset hc)
  unfold fraction
  cases h : (digits 9 nanos).rdropWhile (· = '0') with
  | nil => rfl
  | cons c cs =>
    rw [h] at hall
    have hpoint : ('.' : Char).isDigit = false := by decide
    dsimp only
    rw [List.filter_cons_of_neg (by rw [hpoint]; decide), List.filter_eq_self.mpr hall]

theorem instant_append (y mo d h mi sec nanos : ℕ) :
    instant (digits 4 y ++ digits 2 mo ++ digits 2 d ++ digits 2 h ++ digits 2 mi ++ digits 2 sec ++
        (digits 9 nanos).rdropWhile (· = '0')) =
      (((⟨number (digits 4 y), number (digits 2 mo), number (digits 2 d)⟩ : Date).days*86400 +
        number (digits 2 h)*3600 + number (digits 2 mi)*60 + number (digits 2 sec))*10^9 +
        number (digits 9 nanos) : ℤ) := by
  have hpad := take_rdropWhile_append '0' (digits 9 nanos) 9 (length_digits 9 nanos).le
  rw [length_digits] at hpad
  simp only [instant, List.append_assoc, List.drop_append, List.take_append, length_digits,
    List.drop_of_length_le, List.take_of_length_le, List.drop_zero, List.take_zero, List.nil_append,
    Nat.reduceSub, Nat.reduceLeDiff, List.append_nil, hpad, le_refl]

theorem instant_rfc3339Nano {t : ℤ} {s : String} (h : rfc3339Nano t = some s) :
    instant (s.toList.filter Char.isDigit) = t := by
  unfold rfc3339Nano at h
  dsimp only at h
  split_ifs at h with hyear
  obtain ⟨hm0, hm1, hd0, hd1⟩ := Date.ofDays_bounds (t/(86400*10^9))
  have hdays := Date.days_ofDays (t/(86400*10^9))
  generalize Date.ofDays (t/(86400*10^9)) = date at *
  have hs := congrArg String.toList (Option.some.inj h)
  rw [String.toList_ofList] at hs
  have hself (w n : ℕ) : (digits w n).filter Char.isDigit = digits w n :=
    List.filter_eq_self.mpr (isDigit_digits w n)
  have hdash : ('-' : Char).isDigit = false := by decide
  have hcolon : (':' : Char).isDigit = false := by decide
  have ht : ('T' : Char).isDigit = false := by decide
  have hz : ('Z' : Char).isDigit = false := by decide
  rw [← hs]
  simp only [List.filter_append, List.filter_cons, List.filter_nil, hself, hdash, hcolon, ht, hz,
    filter_fraction, Bool.false_eq_true, ↓reduceIte, List.append_nil]
  -- every part is in the range of its digits
  have hsec : (t/10^9 % 86400).toNat < 86400 := by omega
  have hnanos : (t%10^9).toNat < 10^9 := by omega
  rw [instant_append, number_digits 4 _ (by omega), number_digits 2 date.month.toNat (by omega),
    number_digits 2 date.day.toNat (by omega), number_digits 2 (_/3600) (by omega),
    number_digits 2 (_%60) (by omega), number_digits 2 (_%60) (by omega), number_digits 9 _ hnanos]
  have hdate : (⟨(date.year.toNat : ℤ), (date.month.toNat : ℤ), (date.day.toNat : ℤ)⟩ : Date) = date := by
    rw [Int.toNat_of_nonneg (by omega), Int.toNat_of_nonneg hm0, Int.toNat_of_nonneg hd0]
  rw [hdate, hdays]
  omega

theorem parseRfc3339_rfc3339Nano {t : ℤ} {s : String} (h : rfc3339Nano t = some s) :
    parseRfc3339 s = some t := by
  unfold parseRfc3339
  rw [instant_rfc3339Nano h, if_pos h]

end GoTime
