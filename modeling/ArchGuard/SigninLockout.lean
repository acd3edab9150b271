import ArchGuard.PasswordSignin
import ArchGuard.Primitives

/-! The lockout after wrong passwords, when the statements of sign-ins interleave, and the lockout of an
identity that grows with its failures. -/
namespace ArchGuard.Object
open GoText SharedCalls TransitionRun

/-- What matters to a lockout of a sign-in: its check, and its comparison. -/
inductive Attempted
  | checked (now : Instant)
  | wrong (now : Instant)
  | right

/-- The wrong passwords that were compared since a freeze ran out, and the second of the one that
reached the limit. -/
structure Tally where
  wrongs : ℕ
  since : ℤ

section Tallies

variable (a : SigninConfig) (forgives : Bool)

/-- The account is to be frozen: the limit is reached, and minutes are left. -/
def Tally.Frozen (tally : Tally) (now : Instant) : Prop :=
  a.limit ≤ tally.wrongs ∧ 0 < a.minutesLeft now tally.since

/-- The tally after a sign-in; a right password clears the wrong ones before it, or does not. -/
def Tally.after (tally : Tally) : Attempted → Tally
  | .checked now =>
    if a.limit ≤ tally.wrongs ∧ a.minutesLeft now tally.since ≤ 0 then { tally with wrongs := 0 }
    else tally
  | .wrong now =>
    ⟨tally.wrongs + 1, if a.limit = tally.wrongs + 1 then now.second else tally.since⟩
  | .right => if forgives then { tally with wrongs := 0 } else tally

def tallyOf (as : List Attempted) : Tally := as.foldl (Tally.after a forgives) ⟨0, 0⟩

theorem tallyOf_append (as bs : List Attempted) :
    tallyOf a forgives (as ++ bs) = bs.foldl (Tally.after a forgives) (tallyOf a forgives as) :=
  List.foldl_append ..

end Tallies

variable (a : SigninConfig) (correct : GoString → Bool) (forgives : Bool)

/-- The check or the comparison that a statement makes. -/
def attempted (s : SigninSite) : SigninEvent → Option Attempted
  | .step i now =>
    match s.call i with
    | some (.getUser password) => if password = [] then none else some (.checked now)
    | some (.isPasswordCorrect password _) =>
      if correct password then some .right else some (.wrong now)
    | _ => none
  | .start _ _ => none

def tallyAlong (row : UserRow) (es : List SigninEvent) : Tally :=
  tallyOf a forgives (trace (exec (signinProgram a correct)) (attempted correct) (Site.idle row) es)

/-- No password is compared once the limit is reached, and a check within the freeze is refused. -/
structure Guarded (tally : Tally) (s s' : SigninSite) (e : SigninEvent) : Prop where
  compared : ∀ i now password user, e = .step i now →
    s.call i = some (.isPasswordCorrect password user) → (tally.wrongs : ℤ) < a.limit
  checked : ∀ i now password, e = .step i now → s.call i = some (.getUser password) →
    password ≠ [] → tally.Frozen a now →
      ∃ minutes, s'.call i = some (.refused (.accountFrozen minutes))

/-- At most as many wrong passwords as the limit allows are compared, and then every attempt within
the freeze is refused, in every state of a run. -/
def LockedOut (row : UserRow) (es : List SigninEvent) : Prop :=
  (∀ pre post s, es = pre ++ post →
    run (exec (signinProgram a correct)) (Site.idle row) pre = some s →
      ((tallyAlong a correct forgives row pre).wrongs : ℤ) ≤ a.limit) ∧
  ∀ pre e post s s', es = pre ++ e :: post →
    run (exec (signinProgram a correct)) (Site.idle row) pre = some s →
    exec (signinProgram a correct) s e = some s' →
      Guarded a (tallyAlong a correct forgives row pre) s s' e

/-- A call that is about to write the row. -/
def SigninPc.writes : SigninPc → Bool
  | .resetExpired _ _ => true
  | .recordSigninErrorInfo _ => true
  | .resetUserSigninErrorTimes _ => true
  | _ => false

/-- A call that reads the row, or decides on its copy. -/
def SigninPc.decides : SigninPc → Bool
  | .getUser _ => true
  | .isPasswordCorrect _ _ => true
  | _ => false

/-- An attempt reads and compares while no other is about to write the row, and it compares on a
copy that is still what the row holds. -/
structure TakesTurns (s : SigninSite) (e : SigninEvent) : Prop where
  alone : ∀ i now l, e = .step i now → s.call i = some l → l.decides = true →
    ∀ j m, j ≠ i → s.call j = some m → m.writes = false
  current : ∀ i now password user, e = .step i now →
    s.call i = some (.isPasswordCorrect password user) → s.shared = user

def SigninPc.leaves (row : UserRow) : SigninPc → UserRow
  | .resetExpired _ user => { row with signinWrongTimes := user.signinWrongTimes }
  | .recordSigninErrorInfo user => user
  | .resetUserSigninErrorTimes user => user
  | _ => row

/-- The row counts the tally, and names its second when the limit is reached. -/
structure Counts (row : UserRow) (tally : Tally) : Prop where
  count : row.signinWrongTimes = tally.wrongs
  within : (tally.wrongs : ℤ) ≤ a.limit
  since : a.limit = tally.wrongs → GoTime.parseRfc3339 row.lastSigninWrongTime = some tally.since

/-- A right password is compared only where no failure is recorded. -/
def RightUnblemished (s : SigninSite) (e : SigninEvent) : Prop :=
  ∀ i now password user, e = .step i now → s.call i = some (.isPasswordCorrect password user) →
    correct password = true → user.signinWrongTimes = 0

/-- A copy that is or will be compared is below the limit. -/
def SigninPc.below : SigninPc → Prop
  | .isPasswordCorrect _ user => user.signinWrongTimes < a.limit
  | .resetExpired _ user => user.signinWrongTimes < a.limit
  | _ => True

/-- The state of a run in turn: at most one call is about to write, and when it has, the row counts
the tally. -/
structure InTurn (tally : Tally) (s : SigninSite) : Prop where
  single : ∀ i j l m, s.call i = some l → s.call j = some m → l.writes = true → m.writes = true → i = j
  settled : (∀ i l, s.call i = some l → l.writes = false) → Counts a s.shared tally
  pending : ∀ i l, s.call i = some l → l.writes = true → Counts a (l.leaves s.shared) tally
  below : ∀ i l, s.call i = some l → l.below a

section Steps

variable {a : SigninConfig} {correct : GoString → Bool} {forgives : Bool} {tally tally' : Tally} {s s' : SigninSite}
  {e : SigninEvent} {row : UserRow} {now : Instant}

theorem leaves_of_not_writes {l : SigninPc} (h : l.writes = false) : l.leaves row = row := by
  cases l with
  | resetExpired password user => cases h
  | recordSigninErrorInfo user => cases h
  | resetUserSigninErrorTimes user => cases h
  | _ => rfl

theorem InTurn.goto (h : InTurn a tally s) {i : ℕ} {l : SigninPc} {t : UserRow}
    (hothers : ∀ j m, j ≠ i → s.call j = some m → m.writes = false)
    (hcounts : Counts a (l.leaves t) tally') (hbelow : l.below a) : InTurn a tally' (s.goto i l t) := by
  -- only the call that moved may write
  have hwriter (j : ℕ) (m : SigninPc) (hm : (s.goto i l t).call j = some m)
      (hw : m.writes = true) : j = i ∧ m = l := by
    rcases call_goto hm with ⟨hj, rfl⟩ | ⟨hj, hm⟩
    · exact ⟨hj, rfl⟩
    · rw [hothers j m hj hm] at hw
      cases hw
  refine ⟨?_, ?_, ?_, ?_⟩
  · intro j k m n hm hn hwm hwn
    exact (hwriter j m hm hwm).1.trans (hwriter k n hn hwn).1.symm
  · intro hnone
    have hl : l.writes = false := hnone i l (by rw [goto_call, Function.update_self])
    rw [leaves_of_not_writes hl] at hcounts
    exact hcounts
  · intro j m hm hw
    obtain ⟨-, rfl⟩ := hwriter j m hm hw
    exact hcounts
  · intro j m hm
    rcases call_goto hm with ⟨-, rfl⟩ | ⟨-, hm⟩
    · exact hbelow
    · exact h.below j m hm

theorem counts_zero (hlimit : 0 < a.limit) {since : ℤ} (h : row.signinWrongTimes = 0) :
    Counts a row ⟨0, since⟩ := by
  refine ⟨h, by simpa using hlimit.le, fun he => ?_⟩
  simp only [Nat.cast_zero] at he
  omega

variable (forgives) in
theorem Counts.checked (hlimit : 0 < a.limit) (h : Counts a row tally) {password : GoString} :
    Counts a ((checkSigninErrorTimes a now password row).leaves row) (tally.after a forgives (.checked now)) ∧
    (checkSigninErrorTimes a now password row).below a ∧
    (tally.Frozen a now →
      ∃ minutes, checkSigninErrorTimes a now password row = .refused (.accountFrozen minutes)) := by
  have hcount := h.count
  have hwithin := h.within
  rw [checkSigninErrorTimes, Tally.after]
  by_cases hreached : a.limit ≤ row.signinWrongTimes
  · have hequal : a.limit = tally.wrongs := by omega
    rw [if_pos hreached, h.since hequal, Option.getD_some]
    by_cases hleft : 0 < a.minutesLeft now tally.since
    · rw [if_pos hleft, if_neg (by omega)]
      exact ⟨h, trivial, fun _ => ⟨_, rfl⟩⟩
    · rw [if_neg hleft, if_pos (by omega)]
      refine ⟨counts_zero hlimit rfl, hlimit, fun hfrozen => absurd hfrozen.2 hleft⟩
  · rw [if_neg hreached, if_neg (by omega)]
    exact ⟨h, not_le.mp hreached, fun hfrozen => absurd hfrozen.1 (by omega)⟩

variable (now) in
theorem Counts.compared (hlimit : 0 < a.limit) (h : Counts a row tally)
    (hbelow : row.signinWrongTimes < a.limit) {right : Bool}
    (hright : forgives = false → right = true → row.signinWrongTimes = 0) :
    Counts a ((afterComparison a now right row).leaves row)
        (tally.after a forgives (if right then .right else .wrong now)) ∧
      (afterComparison a now right row).below a := by
  have hcount := h.count
  cases right with
  | true =>
    rw [if_pos rfl, afterComparison, if_pos rfl]
    cases forgives with
    | true =>
      split_ifs with hzero
      · exact ⟨counts_zero hlimit hzero, trivial⟩
      · exact ⟨counts_zero hlimit rfl, trivial⟩
    | false =>
      rw [if_pos (hright rfl rfl)]
      exact ⟨h, trivial⟩
  | false =>
    rw [if_neg (by simp), afterComparison, if_neg (by simp)]
    refine ⟨?_, trivial⟩
    change Counts a (countWrong a now row) _
    rw [countWrong, if_pos hbelow]
    refine ⟨?_, ?_, fun he => ?_⟩
    · simp only [Tally.after, hcount]
      omega
    · simp only [Tally.after]
      omega
    · -- the attempt that reaches the limit leaves its second
      simp only [Tally.after] at he ⊢
      rw [if_pos (by omega), if_pos (by omega)]
      exact now.parse_text

theorem InTurn.start (h : InTurn a tally s) {i : ℕ} {password : GoString} (hnone : s.call i = none) :
    InTurn a tally (s.goto i (.getUser password) s.shared) := by
  -- the row and what is about to be written stay
  have hold {j : ℕ} {m : SigninPc} (hm : (s.goto i (.getUser password) s.shared).call j = some m)
      (hw : m.writes = true) : s.call j = some m := by
    rcases call_goto hm with ⟨-, rfl⟩ | ⟨-, hm⟩
    · cases hw
    · exact hm
  refine ⟨?_, ?_, ?_, ?_⟩
  · intro j k m n hm hn hwm hwn
    exact h.single j k m n (hold hm hwm) (hold hn hwn) hwm hwn
  · intro hquiet
    refine h.settled fun j m hm => hquiet j m ?_
    rw [goto_call, Function.update_of_ne]
    · exact hm
    · rintro rfl
      rw [hnone] at hm
      cases hm
  · intro j m hm hw
    exact h.pending j m (hold hm hw) hw
  · intro j m hm
    rcases call_goto hm with ⟨-, rfl⟩ | ⟨-, hm⟩
    · trivial
    · exact h.below j m hm

theorem guarded_of_not_decides
    (h : ∀ i now l, e = .step i now → s.call i = some l → l.decides = false) :
    Guarded a tally s s' e := by
  refine ⟨fun i now password user he hl => ?_, fun i now password he hl => ?_⟩
  · cases h i now _ he hl
  · cases h i now _ he hl

theorem InTurn.deciding (h : InTurn a tally s) {i : ℕ} {l : SigninPc} (hl : s.call i = some l)
    (hnw : l.writes = false)
    (hothers : ∀ j m, j ≠ i → s.call j = some m → m.writes = false) : Counts a s.shared tally := by
  refine h.settled fun j m hm => ?_
  by_cases hj : j = i
  · subst hj
    obtain rfl := Option.some.inj (hl.symm.trans hm)
    exact hnw
  · exact hothers j m hj hm

theorem InTurn.getUser (hlimit : 0 < a.limit) (h : InTurn a tally s) {i : ℕ} {password : GoString}
    (hl : s.call i = some (.getUser password))
    (hothers : ∀ j m, j ≠ i → s.call j = some m → m.writes = false) :
    InTurn a ((attempted correct s (.step i now)).toList.foldl (Tally.after a forgives) tally)
        (s.goto i (afterUserRow a now password s.shared) s.shared) ∧
      Guarded a tally s (s.goto i (afterUserRow a now password s.shared) s.shared) (.step i now) := by
  have hcounts := h.deciding hl rfl hothers
  simp only [attempted, hl, afterUserRow]
  have hnone {j : ℕ} {now' : Instant} {password' : GoString} {user : UserRow}
      (hj : (.step i now : SigninEvent) = .step j now')
      (hcall : s.call j = some (.isPasswordCorrect password' user)) : False := by
    cases hj
    rw [hl] at hcall
    cases hcall
  split_ifs with hempty
  · refine ⟨h.goto hothers hcounts trivial, fun j _ _ _ hj hcall => (hnone hj hcall).elim, ?_⟩
    intro j now' password' hj hcall hne
    cases hj
    rw [hl] at hcall
    cases hcall
    exact absurd hempty hne
  · obtain ⟨hafter, hbelow, hrefused⟩ := Counts.checked forgives hlimit hcounts
    refine ⟨h.goto hothers hafter hbelow, fun j _ _ _ hj hcall => (hnone hj hcall).elim, ?_⟩
    intro j now' password' hj hcall hne hfrozen
    cases hj
    rw [hl] at hcall
    cases hcall
    obtain ⟨minutes, hm⟩ := hrefused hfrozen
    rw [goto_call, Function.update_self]
    exact ⟨minutes, congrArg some hm⟩

theorem InTurn.isPasswordCorrect (hlimit : 0 < a.limit) (h : InTurn a tally s) {i : ℕ}
    {password : GoString} {user : UserRow} (hl : s.call i = some (.isPasswordCorrect password user))
    (hothers : ∀ j m, j ≠ i → s.call j = some m → m.writes = false) (hrow : s.shared = user)
    (hright : forgives = false → correct password = true → user.signinWrongTimes = 0) :
    InTurn a ((attempted correct s (.step i now)).toList.foldl (Tally.after a forgives) tally)
        (s.goto i (afterComparison a now (correct password) user) s.shared) ∧
      Guarded a tally s (s.goto i (afterComparison a now (correct password) user) s.shared)
        (.step i now) := by
  have hcounts := h.deciding hl rfl hothers
  have hbelow : user.signinWrongTimes < a.limit := h.below i _ hl
  rw [hrow] at hcounts
  obtain ⟨hafter, hb⟩ := Counts.compared now hlimit hcounts hbelow hright
  refine ⟨?_, ?_, ?_⟩
  · have hattempted : attempted correct s (.step i now) =
        some (if correct password then .right else .wrong now) := by
      simp only [attempted, hl]
      split_ifs
      · rfl
      · rfl
    rw [hattempted, hrow]
    exact h.goto hothers hafter hb
  · intro j now' password' user' hj hcall
    rw [← hcounts.count]
    exact hbelow
  · intro j now' password' hj hcall
    cases hj
    rw [hl] at hcall
    cases hcall

theorem InTurn.step (hlimit : 0 < a.limit) (h : InTurn a tally s) (hok : TakesTurns s e)
    (hright : forgives = false → RightUnblemished correct s e)
    (he : exec (signinProgram a correct) s e = some s') :
    InTurn a ((attempted correct s e).toList.foldl (Tally.after a forgives) tally) s' ∧
      Guarded a tally s s' e := by
  cases e with
  | start i password =>
    obtain ⟨hnone, rfl⟩ := exec_start.mp he
    refine ⟨h.start hnone, guarded_of_not_decides ?_⟩
    intro j now l hj
    cases hj
  | step i now =>
    obtain ⟨l, l', t, hl, hnext, rfl⟩ := exec_step.mp he
    -- a call that writes is the only one to, and compares nothing
    have hwrite (hw : l.writes = true) (hd : l.decides = false) (ht : l.leaves s.shared = t)
        (hlast : l'.leaves t = t) (hb : l'.below a) (hnone : attempted correct s (.step i now) = none) :
        InTurn a ((attempted correct s (.step i now)).toList.foldl (Tally.after a forgives) tally) (s.goto i l' t) ∧
          Guarded a tally s (s.goto i l' t) (.step i now) := by
      rw [hnone]
      refine ⟨h.goto (fun j m hj hm => ?_) ?_ hb, guarded_of_not_decides fun j now' m hj hm => ?_⟩
      · by_contra hwm
        exact hj (h.single j i m l hm hl (by simpa using hwm) hw)
      · rw [hlast, ← ht]
        exact h.pending i l hl hw
      · cases hj
        obtain rfl := Option.some.inj (hl.symm.trans hm)
        exact hd
    cases l with
    | getUser password =>
      obtain ⟨rfl, rfl⟩ := Prod.mk.inj (Option.some.inj hnext)
      exact h.getUser hlimit hl (hok.alone i now _ rfl hl rfl)
    | isPasswordCorrect password user =>
      obtain ⟨rfl, rfl⟩ := Prod.mk.inj (Option.some.inj hnext)
      exact h.isPasswordCorrect hlimit hl (hok.alone i now _ rfl hl rfl)
        (hok.current i now password user rfl hl) fun hf => hright hf i now password user rfl hl
    | resetExpired password user =>
      have hb := h.below i _ hl
      obtain ⟨rfl, rfl⟩ := Prod.mk.inj (Option.some.inj hnext)
      exact hwrite rfl rfl rfl rfl hb (by simp only [attempted, hl])
    | recordSigninErrorInfo user =>
      obtain ⟨rfl, rfl⟩ := Prod.mk.inj (Option.some.inj hnext)
      exact hwrite rfl rfl rfl rfl trivial (by simp only [attempted, hl])
    | resetUserSigninErrorTimes user =>
      obtain ⟨rfl, rfl⟩ := Prod.mk.inj (Option.some.inj hnext)
      exact hwrite rfl rfl rfl rfl trivial (by simp only [attempted, hl])
    | signedIn => cases hnext
    | refused err => cases hnext

theorem InTurn.within (h : InTurn a tally s) : (tally.wrongs : ℤ) ≤ a.limit := by
  by_cases hnone : ∀ i l, s.call i = some l → l.writes = false
  · exact (h.settled hnone).within
  · simp only [not_forall, Bool.not_eq_false] at hnone
    obtain ⟨i, l, hl, hw⟩ := hnone
    exact (h.pending i l hl hw).within

theorem inTurn_idle (hlimit : 0 < a.limit) (hrow : row.signinWrongTimes = 0) :
    InTurn a (tallyOf a forgives []) (Site.idle row) where
  single _ _ _ _ hl := nomatch hl
  settled _ := counts_zero hlimit hrow
  pending _ _ hl := nomatch hl
  below _ _ hl := nomatch hl

theorem inTurn_run (hlimit : 0 < a.limit) (hrow : row.signinWrongTimes = 0) {es : List SigninEvent}
    (hok : Along (exec (signinProgram a correct)) TakesTurns (Site.idle row) es)
    (hright : forgives = false →
      Along (exec (signinProgram a correct)) (RightUnblemished correct) (Site.idle row) es)
    (hrun : run (exec (signinProgram a correct)) (Site.idle row) es = some s) :
    InTurn a (tallyAlong a correct forgives row es) s := by
  have hboth : Along (exec (signinProgram a correct))
      (fun s e => TakesTurns s e ∧ (forgives = false → RightUnblemished correct s e))
      (Site.idle row) es := by
    cases forgives with
    | true => exact along_and hok (along_of_forall (fun _ _ hf => nomatch hf) _ _)
    | false =>
      refine along_and hok (along_imp (I := fun _ => True) (fun _ _ _ _ _ _ => trivial) ?_ trivial
        (hright rfl))
      exact fun _ _ _ hr _ => hr
  have hstep (as : List Attempted) (s : SigninSite) (e : SigninEvent) (s' : SigninSite)
      (hs : InTurn a (tallyOf a forgives as) s)
      (hok : TakesTurns s e ∧ (forgives = false → RightUnblemished correct s e))
      (he : exec (signinProgram a correct) s e = some s') :
      InTurn a (tallyOf a forgives (as ++ (attempted correct s e).toList)) s' := by
    rw [tallyOf_append]
    exact (hs.step hlimit hok.1 hok.2 he).1
  exact run_trace_invariant hstep (inTurn_idle hlimit hrow) hboth hrun

theorem lockedOut_of_inTurn (hlimit : 0 < a.limit) (hrow : row.signinWrongTimes = 0)
    {es : List SigninEvent} (hok : Along (exec (signinProgram a correct)) TakesTurns (Site.idle row) es)
    (hright : forgives = false →
      Along (exec (signinProgram a correct)) (RightUnblemished correct) (Site.idle row) es) :
    LockedOut a correct forgives row es := by
  constructor
  · rintro pre post s rfl hrun
    exact (inTurn_run hlimit hrow (along_append.mp hok).1
      (fun hf => (along_append.mp (hright hf)).1) hrun).within
  · rintro pre e post s s' rfl hrun he
    obtain ⟨hpre, hpost⟩ := along_append.mp hok
    have hs := inTurn_run hlimit hrow hpre (fun hf => (along_append.mp (hright hf)).1) hrun
    have hnow : forgives = false → RightUnblemished correct s e :=
      fun hf => ((along_append.mp (hright hf)).2 s hrun).1
    exact (hs.step hlimit (hpost s hrun).1 hnow he).2

end Steps

/-- Starting from no recorded failure, an account with a positive limit locks out where sign-ins read
and compare in turn: a right password forgives the wrong ones before it, and without one at a time
when failures are recorded all wrong passwords count. -/
theorem lockedOut_of_takesTurns (a : SigninConfig) (correct : GoString → Bool) (row : UserRow)
    (es : List SigninEvent) (hlimit : 0 < a.limit) (hrow : row.signinWrongTimes = 0)
    (hok : Along (exec (signinProgram a correct)) TakesTurns (Site.idle row) es) :
    LockedOut a correct true row es ∧
      (Along (exec (signinProgram a correct)) (RightUnblemished correct) (Site.idle row) es →
        LockedOut a correct false row es) := by
  constructor
  · apply lockedOut_of_inTurn hlimit hrow hok
    intro hf
    cases hf
  · intro hright
    exact lockedOut_of_inTurn hlimit hrow hok fun _ => hright

/-- `TakesTurns` by evaluation, for the first `n` calls. -/
def turnsTest (n : ℕ) (s : SigninSite) : SigninEvent → Bool
  | .start i _ => i < n
  | .step i _ => i < n && (s.call i).all fun l =>
      (!l.decides || (List.range n).all fun j => (s.call j).all fun m => j = i || !m.writes) &&
        match l with
        | .isPasswordCorrect _ user => s.shared = user
        | _ => true

theorem takesTurns_of_test {n : ℕ} {s : SigninSite} {e : SigninEvent} (hs : Among n s)
    (h : turnsTest n s e = true) : TakesTurns s e := by
  constructor
  · rintro i now l rfl hl hd j m hj hm
    simp only [turnsTest, hl, Option.all_some, hd, Bool.not_true, Bool.false_or,
      Bool.and_eq_true] at h
    have hquiet : (decide (j = i) || !m.writes) = true := hs.forall h.2.1 hm
    simpa [hj] using hquiet
  · rintro i now password user rfl hl
    simp only [turnsTest, hl, Option.all_some, Bool.and_eq_true] at h
    exact of_decide_eq_true h.2.2

/-- `RightUnblemished` by evaluation. -/
def unblemishedTest (correct : GoString → Bool) (s : SigninSite) : SigninEvent → Bool
  | .step i _ =>
    match s.call i with
    | some (.isPasswordCorrect password user) => !correct password || user.signinWrongTimes = 0
    | _ => true
  | .start _ _ => true

theorem unblemished_of_test {correct : GoString → Bool} {s : SigninSite} {e : SigninEvent}
    (h : unblemishedTest correct s e = true) : RightUnblemished correct s e := by
  rintro i now password user rfl hl hright
  simpa [unblemishedTest, hl, hright] using h

theorem takesTurns_of_check {a : SigninConfig} {correct : GoString → Bool} {n : ℕ} {row : UserRow}
    {es : List SigninEvent}
    (h : checkAlong (exec (signinProgram a correct)) (turnsTest n) (Site.idle row) es = true) :
    Along (exec (signinProgram a correct)) TakesTurns (Site.idle row) es := by
  refine along_of_among (fun s e ht => ?_) (fun _ _ hs ht => takesTurns_of_test hs ht) h
  cases e with
  | start i q => exact of_decide_eq_true ht
  | step i w => exact of_decide_eq_true (Bool.and_eq_true_iff.mp ht).1

namespace Sample

/-- Two wrong passwords are allowed, and then a quarter of an hour has to pass. -/
def twoChances : SigninConfig := ⟨2, 0⟩

def right (password : GoString) : Bool := password = utf8 "right"

def noon : Instant := ⟨1709208000500000000, "2024-02-29T12:00:00Z", by decide⟩

def quarterPast : Instant := ⟨1709208900000000000, "2024-02-29T12:15:00Z", by decide⟩

def unblemished : UserRow := ⟨0, ""⟩

/-- Two wrong passwords, an attempt within the freeze, and one after it. -/
def oneByOne : List SigninEvent :=
  [.start 0 (utf8 "wrong"), .step 0 noon, .step 0 noon, .step 0 noon,
    .start 1 (utf8 "wrong"), .step 1 noon, .step 1 noon, .step 1 noon,
    .start 2 (utf8 "right"), .step 2 noon,
    .start 3 (utf8 "right"), .step 3 quarterPast, .step 3 quarterPast, .step 3 quarterPast]

/-- Three wrong passwords whose attempts all read the row before one is recorded. -/
def allAtOnce : List SigninEvent :=
  [.start 0 (utf8 "wrong"), .start 1 (utf8 "wrong"), .start 2 (utf8 "wrong"), .step 0 noon, .step 1 noon,
    .step 2 noon, .step 0 noon, .step 1 noon, .step 2 noon]

end Sample

theorem lockedOut_of_takesTurns_oneByOne :
    LockedOut Sample.twoChances Sample.right true Sample.unblemished Sample.oneByOne ∧
      LockedOut Sample.twoChances Sample.right false Sample.unblemished Sample.oneByOne := by
  obtain ⟨hforgiving, hstrict⟩ := lockedOut_of_takesTurns Sample.twoChances Sample.right
    Sample.unblemished Sample.oneByOne (by decide) rfl (takesTurns_of_check (n := 4) (by decide +kernel))
  refine ⟨hforgiving, hstrict ?_⟩
  exact along_of_check (fun _ _ => unblemished_of_test) (by decide +kernel)

/-- Three wrong passwords are compared where two are allowed. -/
theorem three_wrong_compared :
    ¬LockedOut Sample.twoChances Sample.right false Sample.unblemished Sample.allAtOnce := by
  rintro ⟨hwithin, -⟩
  rcases hrun : run (exec (signinProgram Sample.twoChances Sample.right)) (Site.idle Sample.unblemished)
      Sample.allAtOnce with _ | s
  · exact absurd (congrArg Option.isSome hrun) (by decide +kernel)
  · exact absurd (hwithin _ [] s (List.append_nil _).symm hrun) (by decide +kernel)

end ArchGuard.Object

namespace ArchGuard

/-- The consecutive failures of a subject, and until when it is locked out. -/
structure Throttle where
  failures : ℤ
  lockedUntil : Time
  deriving DecidableEq, Repr

namespace Throttle

def threshold : ℤ := 5

-- Durations in nanoseconds.

def base : ℤ := 30*10^9

def maximum : ℤ := 3600*10^9

def clean : Throttle := ⟨0, Time.zero⟩

/-- A machine integer of 64 bits. -/
def wrapped (n : ℤ) : ℤ := Int.bmod n (2^64)

/-- The loop of `lockoutFor`, with the turns that are left. -/
def doubling : (turns : ℕ) → ℤ → ℤ
  | 0, d => d
  | turns+1, d => if maximum ≤ wrapped (d*2) then maximum else doubling turns (wrapped (d*2))

def lockoutFor (failures : ℤ) : ℤ :=
  if failures < threshold then 0 else doubling (failures-threshold).toNat base

/-- What the loop multiplies out, before it is cut to 64 bits. -/
def products : (turns : ℕ) → ℤ → List ℤ
  | 0, _ => []
  | turns+1, d => d*2 :: if maximum ≤ wrapped (d*2) then [] else products turns (wrapped (d*2))

def recordFailure (t : Throttle) (now : Time) : Throttle :=
  let failures := wrapped (t.failures+1)
  ⟨failures, if 0 < lockoutFor failures then now + lockoutFor failures else Time.zero⟩

/-- A subject without failures, after the failures at these instants. -/
def after (instants : List Time) : Throttle := instants.foldl recordFailure clean

theorem wrapped_of_bounds {n : ℤ} (h0 : -2^63 ≤ n) (h1 : n < 2^63) : wrapped n = n := by
  apply Int.bmod_eq_of_le
  · omega
  · omega

theorem doubling_eq (turns : ℕ) {d : ℤ} (h0 : 0 < d) (h1 : d < maximum) :
    doubling turns d = min (d*2^turns) maximum ∧ ∀ p ∈ products turns d, 0 < p ∧ p < 2^63 := by
  induction turns generalizing d with
  | zero =>
    refine ⟨?_, List.forall_mem_nil _⟩
    rw [doubling, pow_zero, mul_one, min_eq_left h1.le]
  | succ n ih =>
    have hbound : d*2 < 2^63 := by
      rw [maximum] at h1
      omega
    have hwrapped : wrapped (d*2) = d*2 := wrapped_of_bounds (by omega) hbound
    have hpow : d*2^(n+1) = d*2*2^n := by ring
    rw [doubling, products, hwrapped, hpow]
    split
    · next hmax =>
      have hone : (1 : ℤ) ≤ 2^n := one_le_pow₀ (by norm_num)
      have hle : maximum ≤ d*2*2^n := hmax.trans (le_mul_of_one_le_right (by omega) hone)
      rw [min_eq_right hle]
      exact ⟨rfl, List.forall_mem_singleton.mpr ⟨by omega, hbound⟩⟩
    · next hmax =>
      obtain ⟨heq, hproducts⟩ := ih (by omega) (not_le.mp hmax)
      exact ⟨heq, List.forall_mem_cons.mpr ⟨⟨by omega, hbound⟩, hproducts⟩⟩

theorem lockoutFor_below {n : ℤ} (h : n < threshold) : lockoutFor n = 0 := if_pos h

theorem lockoutFor_from {n : ℤ} (h : threshold ≤ n) :
    lockoutFor n = min (base*2^(n-threshold).toNat) maximum := by
  rw [lockoutFor, if_neg (not_lt.mpr h)]
  exact (doubling_eq _ (by decide) (by decide)).1

theorem lockoutFor_nonneg (n : ℤ) : 0 ≤ lockoutFor n := by
  rcases lt_or_ge n threshold with h | h
  · rw [lockoutFor_below h]
  · rw [lockoutFor_from h]
    exact le_min (by unfold base; positivity) (by decide)

theorem base_le_lockoutFor {n : ℤ} (h : threshold ≤ n) : base ≤ lockoutFor n := by
  rw [lockoutFor_from h]
  refine le_min ?_ (by decide)
  have hone : (1 : ℤ) ≤ 2^(n-threshold).toNat := one_le_pow₀ (by norm_num)
  exact le_mul_of_one_le_right (by decide) hone

theorem lockoutFor_mono {n m : ℤ} (h : n ≤ m) : lockoutFor n ≤ lockoutFor m := by
  rcases lt_or_ge n threshold with hn | hn
  · rw [lockoutFor_below hn]
    exact lockoutFor_nonneg m
  · rw [lockoutFor_from hn, lockoutFor_from (hn.trans h)]
    refine min_le_min_right maximum ?_
    have hexp : (n-threshold).toNat ≤ (m-threshold).toNat := Int.toNat_le_toNat (by omega)
    have hpow : (2 : ℤ)^(n-threshold).toNat ≤ 2^(m-threshold).toNat :=
      pow_le_pow_right₀ (by norm_num) hexp
    exact Int.mul_le_mul_of_nonneg_left hpow (by decide)

theorem wrapped_add (n : ℤ) : wrapped (wrapped n + 1) = wrapped (n + 1) := Int.bmod_add_bmod ..

theorem after_snoc (instants : List Time) (now : Time) :
    after (instants ++ [now]) = (after instants).recordFailure now := List.foldl_append ..

theorem after_failures (instants : List Time) : (after instants).failures = wrapped instants.length := by
  induction instants using List.reverseRecOn with
  | nil => rfl
  | append_singleton instants now ih =>
    rw [after_snoc, recordFailure, ih, wrapped_add, List.length_append, List.length_singleton]
    push_cast
    rfl

theorem after_lockedUntil (instants : List Time) (now : Time) :
    (after (instants ++ [now])).lockedUntil =
      if 0 < lockoutFor (wrapped (instants.length + 1)) then
        now + lockoutFor (wrapped (instants.length + 1))
      else Time.zero := by
  rw [after_snoc, recordFailure, after_failures, wrapped_add]

theorem lockedUntil_below {instants : List Time} (h : instants.length < 5) :
    (after instants).lockedUntil = Time.zero := by
  rcases List.eq_nil_or_concat' instants with rfl | ⟨earlier, now, rfl⟩
  · rfl
  · rw [List.length_append, List.length_singleton] at h
    have hn : (earlier.length : ℤ) + 1 < threshold := by
      rw [threshold]
      omega
    rw [after_lockedUntil, wrapped_of_bounds (by omega) (by rw [threshold] at hn; omega),
      lockoutFor_below hn, if_neg (lt_irrefl 0)]

theorem lockedUntil_from {earlier : List Time} (now : Time) (h5 : 4 ≤ earlier.length)
    (h63 : earlier.length + 1 < 2^63) :
    (after (earlier ++ [now])).lockedUntil = now + lockoutFor (earlier.length + 1) := by
  have hn : threshold ≤ (earlier.length : ℤ) + 1 := by
    rw [threshold]
    omega
  have hpos : 0 < lockoutFor (earlier.length + 1) := lt_of_lt_of_le (by decide) (base_le_lockoutFor hn)
  rw [after_lockedUntil, wrapped_of_bounds (by omega) (by omega), if_pos hpos]

/-- No failure of the sequence sets the end of the lockout back. -/
def NeverDecreases (instants : List Time) : Prop :=
  ∀ earlier now later, instants = earlier ++ now :: later →
    (after earlier).lockedUntil ≤ (after (earlier ++ [now])).lockedUntil

/-- The first lockout does not end before the instant that stands for none. -/
def LocksAfterZero (instants : List Time) : Prop :=
  ∀ now, instants[4]? = some now → Time.zero ≤ now + base

theorem locksAfterZero_step {earlier : List Time} {now : Time} (h4 : earlier.length = 4) :
    (after earlier).lockedUntil ≤ (after (earlier ++ [now])).lockedUntil ↔
      Time.zero ≤ now + base := by
  have hfirst : lockoutFor (earlier.length + 1) = base := by
    rw [h4]
    decide
  rw [lockedUntil_below (by omega), lockedUntil_from now (by omega) (by omega), hfirst]

theorem step_le {earlier : List Time} {last now : Time} (hle : last ≤ now)
    (h5 : 4 ≤ earlier.length) (h63 : earlier.length + 2 < 2^63) :
    (after (earlier ++ [last])).lockedUntil ≤ (after (earlier ++ [last] ++ [now])).lockedUntil := by
  have hlength : (earlier ++ [last]).length = earlier.length + 1 := by simp
  rw [lockedUntil_from last h5 (by omega), lockedUntil_from now (by omega) (by omega)]
  refine add_le_add hle (lockoutFor_mono ?_)
  rw [hlength]
  push_cast
  omega

theorem lockedUntil_overflow {earlier : List Time} (now : Time) (h : earlier.length + 1 = 2^63) :
    (after (earlier ++ [now])).lockedUntil = Time.zero := by
  have hcount : (earlier.length : ℤ) + 1 = 2^63 := by omega
  have hcut : wrapped (2^63) = -2^63 := by decide
  rw [after_lockedUntil, hcount, hcut, lockoutFor_below (by decide), if_neg (lt_irrefl 0)]

theorem lockoutFor_lt {n : ℤ} (h : threshold < n) : base < lockoutFor n := by
  have htwo : lockoutFor (threshold+1) = 2*base := by decide
  calc
    base < 2*base := by decide
    _ = lockoutFor (threshold+1) := htwo.symm
    _ ≤ lockoutFor n := lockoutFor_mono h

theorem length_lt_of_neverDecreases {instants : List Time} (hclock : instants.Pairwise (· ≤ ·))
    (hzero : LocksAfterZero instants) (h : NeverDecreases instants) : instants.length < 2^63 := by
  by_contra hlong
  obtain ⟨k, hk⟩ : ∃ k, k + 2 = 2^63 := ⟨2^63 - 2, by norm_num⟩
  have hlast : k < instants.length := by omega
  have hnow : k + 1 < instants.length := by omega
  have h4 : 4 < instants.length := by omega
  have hsplit : instants = instants.take k ++ [instants[k]] ++
      instants[k+1] :: instants.drop (k+2) := by
    rw [List.take_concat_get' _ _ hlast, List.cons_getElem_drop_succ, List.take_append_drop]
  have hlength : (instants.take k).length = k := List.length_take_of_le hlast.le
  have hover : (after (instants.take k ++ [instants[k]] ++ [instants[k+1]])).lockedUntil = Time.zero :=
    lockedUntil_overflow _ (by rw [List.length_append, hlength]; exact hk)
  have hbefore : (after (instants.take k ++ [instants[k]])).lockedUntil =
      instants[k] + lockoutFor (k + 1) := by
    rw [lockedUntil_from _ (by omega) (by omega), hlength]
  have hstep := h _ _ _ hsplit
  rw [hover, hbefore] at hstep
  have hfifth : Time.zero ≤ instants[4] + base := hzero _ (List.getElem?_eq_getElem h4)
  have hmono : instants[4] ≤ instants[k] :=
    List.pairwise_iff_getElem.mp hclock 4 k h4 hlast (by omega)
  have hlonger : base < lockoutFor (k + 1) := lockoutFor_lt (by rw [threshold]; omega)
  exact absurd (add_lt_add_of_le_of_lt hmono hlonger) (not_lt.mpr (hstep.trans hfifth))

/-- Over failures in the order of the clock, the end of the lockout is never set back exactly if the
count fits in 64 bits and the first lockout does not end before the zero instant. -/
theorem neverDecreases_iff {instants : List Time} (hclock : instants.Pairwise (· ≤ ·)) :
    NeverDecreases instants ↔ instants.length < 2^63 ∧ LocksAfterZero instants := by
  constructor
  · intro h
    have hzero : LocksAfterZero instants := by
      intro now hnow
      obtain ⟨h4, rfl⟩ := List.getElem?_eq_some_iff.mp hnow
      have hsplit : instants = instants.take 4 ++ instants[4] :: instants.drop 5 := by
        rw [List.cons_getElem_drop_succ, List.take_append_drop]
      exact (locksAfterZero_step (List.length_take_of_le h4.le)).mp (h _ _ _ hsplit)
    exact ⟨length_lt_of_neverDecreases hclock hzero h, hzero⟩
  · rintro ⟨h63, hzero⟩ earlier now later rfl
    rw [List.length_append, List.length_cons] at h63
    rcases lt_trichotomy earlier.length 4 with hlt | h4 | hgt
    · rw [lockedUntil_below (by omega), lockedUntil_below]
      rw [List.length_append, List.length_singleton]
      omega
    · refine (locksAfterZero_step h4).mpr (hzero now ?_)
      rw [← h4, List.getElem?_append_right (Nat.le_refl _), Nat.sub_self]
      rfl
    · rcases List.eq_nil_or_concat' earlier with rfl | ⟨before, last, rfl⟩
      · exact absurd hgt (by decide)
      · rw [List.length_append, List.length_singleton] at h63 hgt
        have hle : last ≤ now := (List.pairwise_append.mp hclock).2.2 last (by simp) now (by simp)
        exact step_le hle (by omega) (by omega)

/-- The lockout of a number of failures, what is multiplied out for it, and its growth; and over
failures in the order of the clock, as many as 64 bits count, its end is never set back, unless the
first lockout ends before the zero instant. -/
theorem lockout_arithmetic :
    (∀ n, lockoutFor n =
        if n < threshold then 0 else min (base*2^(n-threshold).toNat) maximum) ∧
      (∀ n, ∀ p ∈ products (n-threshold).toNat base, 0 < p ∧ p < 2^63) ∧
      (∀ n m, n ≤ m → lockoutFor n ≤ lockoutFor m) ∧
      ∀ instants : List Time, instants.Pairwise (· ≤ ·) →
        instants.length < 2^63 → LocksAfterZero instants → NeverDecreases instants := by
  refine ⟨fun n => ?_, fun n => (doubling_eq _ (by decide) (by decide)).2, fun n m => lockoutFor_mono,
    fun instants hclock h63 hzero => (neverDecreases_iff hclock).mpr ⟨h63, hzero⟩⟩
  split
  · exact lockoutFor_below ‹_›
  · exact lockoutFor_from (not_lt.mp ‹_›)

/-- Seven failures a minute apart, from the epoch on. -/
theorem lockout_of_seven :
    lockoutFor 7 = 120*10^9 ∧ NeverDecreases ((List.range 7).map fun i => (i : ℤ)*(60*10^9)) := by
  refine ⟨by decide, lockout_arithmetic.2.2.2 _ (by decide) (by decide) ?_⟩
  intro now hnow
  have hnow : (240*10^9 : ℤ) = now := Option.some.inj hnow
  rw [← hnow]
  decide

/-- Failures before the zero instant, and one failure more than 64 bits count, set the end of the
lockout back. -/
theorem lockout_set_back :
    ¬NeverDecreases (List.replicate 5 (Time.zero - 60*10^9)) ∧
      ¬NeverDecreases (List.replicate (2^63) 0) := by
  have hclock (n : ℕ) (t : Time) : (List.replicate n t).Pairwise (· ≤ ·) :=
    List.pairwise_replicate.mpr (.inr (le_refl t))
  constructor
  · rw [neverDecreases_iff (hclock _ _)]
    intro h
    exact absurd (h.2 _ rfl) (by decide)
  · rw [neverDecreases_iff (hclock _ _), List.length_replicate]
    exact fun h => lt_irrefl _ h.1

end Throttle

end ArchGuard
