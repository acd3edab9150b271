import ArchGuard.KeyedRows
import Mathlib.Tactic

/-! # Verification codes

The codes sent to one receiver, checked and disabled over a table of records. A newer send does not
retire the codes before it, and a disable marks a single record, so an older code may come back. -/
namespace ArchGuard.Verification
open KeyedRows

structure VerificationRecord where
  owner : String
  name : String
  createdTime : String
  remoteAddr : String
  type : String
  user : String
  provider : String
  receiver : String
  code : String
  time : ℤ
  isUsed : Bool
  deriving DecidableEq

def VerificationRecord.key (r : VerificationRecord) : String × String := (r.owner, r.name)

/-- The table of verification records, with its primary key. -/
structure VerificationTable where
  rows : List VerificationRecord
  keys : (rows.map VerificationRecord.key).Nodup

/-- What `AddToVerificationRecord` is given beside the receiver, and the identifier and the instant
it draws. -/
structure Sending where
  user : Option String
  provider : String
  organization : String
  remoteAddr : String
  recordType : String
  code : String
  name : String
  createdTime : String
  now : ℤ

def Sending.record (s : Sending) (dest : String) : VerificationRecord where
  owner := s.organization
  name := s.name
  createdTime := s.createdTime
  remoteAddr := s.remoteAddr
  type := s.recordType
  user := s.user.getD ""
  provider := s.provider
  receiver := dest
  code := s.code
  time := s.now
  isUsed := false

local instance lawfulReceiver : LawfulBEq (String × String) := inferInstance

/-- The insertion fails when the primary key is taken. -/
def addToVerificationRecord (t : VerificationTable) (dest : String) (s : Sending) :
    Option VerificationTable :=
  if h : (s.record dest).key ∈ t.rows.map VerificationRecord.key then none
  else some ⟨t.rows ++ [s.record dest], by
    rw [List.map_append]
    exact List.Nodup.append t.keys (List.nodup_singleton _) (List.disjoint_singleton.mpr h)⟩

/-- The row that `Desc("time")` and the limit of `Get` return: one of the latest, and which one the
database decides. -/
structure Newest where
  pick : List VerificationRecord → Option VerificationRecord
  pick_none : ∀ {rows}, pick rows = none → rows = []
  pick_mem : ∀ {rows r}, pick rows = some r → r ∈ rows
  pick_max : ∀ {rows r}, pick rows = some r → ∀ q ∈ rows, q.time ≤ r.time

/-- `Get` puts no condition on a field of the bean that is empty. -/
def VerificationTable.sentTo (t : VerificationTable) (dest : String) : List VerificationRecord :=
  t.rows.filter fun r => dest == "" || r.receiver == dest

def VerificationTable.unusedTo (t : VerificationTable) (dest : String) : List VerificationRecord :=
  (t.sentTo dest).filter fun r => !r.isUsed

def filterRecordIn24Hours (now : ℤ) : Option VerificationRecord → Option VerificationRecord
  | none => none
  | some record => if now - record.time > 60 * 60 * 24 then none else some record

def getVerificationRecord (db : Newest) (t : VerificationTable) (dest : String) (now : ℤ) :
    Option VerificationRecord :=
  match filterRecordIn24Hours now (db.pick (t.unusedTo dest)) with
  | some record => some record
  | none => filterRecordIn24Hours now (db.pick (t.sentTo dest))

def getUnusedVerificationRecord (db : Newest) (t : VerificationTable) (dest : String) (now : ℤ) :
    Option VerificationRecord :=
  filterRecordIn24Hours now (db.pick (t.unusedTo dest))

inductive VerifyCode
  | verificationSuccess | wrongCodeError | noRecordError | timeoutError
  deriving DecidableEq

/-- The message of a result: empty, a text of the catalogue, or one that shows the minutes. -/
inductive VerifyMsg
  | empty
  | translate (text : String)
  | sprintf (text : String) (timeoutInMinutes : ℤ)
  deriving DecidableEq

structure VerifyResult where
  code : VerifyCode
  msg : VerifyMsg
  deriving DecidableEq

/-- `timeoutInMinutes * 60`, a product of two `int64`. -/
def timeoutSeconds (timeoutInMinutes : ℤ) : ℤ := (timeoutInMinutes * 60).bmod (2 ^ 64)

/-- `CheckVerificationCode`, or its error when `verificationCodeTimeout` is not a number. -/
def checkVerificationCode (db : Newest) (t : VerificationTable) (timeout : Option ℤ)
    (dest code : String) (now : ℤ) : Option VerifyResult :=
  match getVerificationRecord db t dest now with
  | none => some ⟨.noRecordError,
      .translate "verification:The verification code has not been sent yet!"⟩
  | some record =>
    if record.isUsed then some ⟨.noRecordError,
      .translate "verification:The verification code has already been used!"⟩
    else match timeout with
      | none => none
      | some timeoutInMinutes =>
        if now - record.time > timeoutSeconds timeoutInMinutes then some ⟨.timeoutError,
          .sprintf "verification:You should verify your code in %d min!" timeoutInMinutes⟩
        else if record.code ≠ code then some ⟨.wrongCodeError,
          .translate "verification:Wrong verification code!"⟩
        else some ⟨.verificationSuccess, .empty⟩

/-- The row of the record's key, written anew with all its columns. -/
def VerificationTable.update (t : VerificationTable) (r : VerificationRecord) :
    VerificationTable where
  rows := replaceAt VerificationRecord.key r.key r t.rows
  keys := by
    rw [map_replaceAt fun _ _ h => h]
    exact t.keys

def disableVerificationCode (db : Newest) (t : VerificationTable) (dest : String) (now : ℤ) :
    VerificationTable :=
  match getUnusedVerificationRecord db t dest now with
  | none => t
  | some record => t.update { record with isUsed := true }

section Queries
variable {t : VerificationTable} {dest : String} {db : Newest} {now : ℤ} {q r : VerificationRecord}

theorem mem_sentTo : q ∈ t.sentTo dest ↔ q ∈ t.rows ∧ (dest = "" ∨ q.receiver = dest) := by
  simp [VerificationTable.sentTo]

theorem mem_unusedTo : q ∈ t.unusedTo dest ↔ q ∈ t.sentTo dest ∧ q.isUsed = false := by
  simp [VerificationTable.unusedTo]

theorem filterRecordIn24Hours_some {o : Option VerificationRecord} :
    filterRecordIn24Hours now o = some r ↔ o = some r ∧ now - r.time ≤ 60 * 60 * 24 := by
  cases o with
  | none => simp [filterRecordIn24Hours]
  | some q =>
    rw [filterRecordIn24Hours]
    split_ifs with h
    · refine iff_of_false (by simp) ?_
      rintro ⟨hq, hr⟩
      cases hq
      omega
    · constructor
      · intro hq
        cases hq
        exact ⟨rfl, by omega⟩
      · exact And.left

theorem addToVerificationRecord_some {s : Sending} {t' : VerificationTable}
    (h : addToVerificationRecord t dest s = some t') : t'.rows = t.rows ++ [s.record dest] := by
  rw [addToVerificationRecord] at h
  split_ifs at h
  cases h
  rfl

theorem mem_sentTo_add {s : Sending} {t' : VerificationTable}
    (h : addToVerificationRecord t dest s = some t') :
    q ∈ t'.sentTo dest ↔ q ∈ t.sentTo dest ∨ q = s.record dest := by
  rw [mem_sentTo, mem_sentTo, addToVerificationRecord_some h, List.mem_append, List.mem_singleton,
    or_and_right]
  apply or_congr_right
  exact and_iff_left_of_imp fun hq => Or.inr (hq ▸ rfl)

theorem mem_unusedTo_add {s : Sending} {t' : VerificationTable}
    (h : addToVerificationRecord t dest s = some t') :
    q ∈ t'.unusedTo dest ↔ q ∈ t.unusedTo dest ∨ q = s.record dest := by
  rw [mem_unusedTo, mem_unusedTo, mem_sentTo_add h, or_and_right]
  apply or_congr_right
  exact and_iff_left_of_imp fun hq => hq ▸ rfl

theorem mem_unusedTo_disable : q ∈ (disableVerificationCode db t dest now).unusedTo dest ↔
    q ∈ t.unusedTo dest ∧ getUnusedVerificationRecord db t dest now ≠ some q := by
  rw [disableVerificationCode]
  cases hget : getUnusedVerificationRecord db t dest now with
  | none => exact (and_iff_left (by simp)).symm
  | some p =>
    have hp := mem_unusedTo.mp (db.pick_mem (filterRecordIn24Hours_some.mp hget).1)
    have hrow := (mem_sentTo.mp hp.1).1
    have hne : q ∈ t.rows → (q.key ≠ p.key ↔ some p ≠ some q) := fun hq => not_congr
      ⟨fun h => congrArg some (List.inj_on_of_nodup_map t.keys hq hrow h).symm,
        fun h => congrArg VerificationRecord.key (Option.some.inj h).symm⟩
    change q ∈ (t.update { p with isUsed := true }).unusedTo dest ↔ _
    rw [mem_unusedTo, mem_sentTo, VerificationTable.update, mem_replaceAt, mem_unusedTo, mem_sentTo]
    constructor
    · rintro ⟨⟨⟨hq, hk⟩ | ⟨rfl, _⟩, hdest⟩, hu⟩
      · exact ⟨⟨⟨hq, hdest⟩, hu⟩, (hne hq).mp hk⟩
      · cases hu
    · rintro ⟨⟨⟨hq, hdest⟩, hu⟩, hpq⟩
      exact ⟨⟨Or.inl ⟨hq, (hne hq).mpr hpq⟩, hdest⟩, hu⟩

theorem time_disable (hq : q ∈ (disableVerificationCode db t dest now).sentTo dest) :
    ∃ p ∈ t.sentTo dest, p.time = q.time := by
  rw [disableVerificationCode] at hq
  cases hget : getUnusedVerificationRecord db t dest now with
  | none =>
    rw [hget] at hq
    exact ⟨q, hq, rfl⟩
  | some p =>
    rw [hget] at hq
    obtain ⟨hq, hdest⟩ := mem_sentTo.mp hq
    rcases mem_replaceAt.mp hq with ⟨hq, _⟩ | ⟨rfl, _⟩
    · exact ⟨q, mem_sentTo.mpr ⟨hq, hdest⟩, rfl⟩
    · exact ⟨p, (mem_unusedTo.mp (db.pick_mem (filterRecordIn24Hours_some.mp hget).1)).1, rfl⟩

end Queries

def firstLatest : List VerificationRecord → Option VerificationRecord
  | [] => none
  | r :: rows => match firstLatest rows with
    | none => some r
    | some q => if r.time < q.time then some q else some r

theorem firstLatest_cons (r : VerificationRecord) (rows : List VerificationRecord) :
    ∃ p, firstLatest (r :: rows) = some p ∧ p ∈ r :: rows ∧ ∀ q ∈ r :: rows, q.time ≤ p.time := by
  induction rows generalizing r with
  | nil => exact ⟨r, rfl, List.mem_cons_self, by simp⟩
  | cons s rows ih =>
    obtain ⟨p, hp, hmem, hmax⟩ := ih s
    rw [firstLatest, hp]
    dsimp only
    split_ifs with hlt
    · exact ⟨p, rfl, List.mem_cons_of_mem r hmem, List.forall_mem_cons.mpr ⟨by omega, hmax⟩⟩
    · refine ⟨r, rfl, List.mem_cons_self, List.forall_mem_cons.mpr ⟨by omega, fun q hq => ?_⟩⟩
      have hle := hmax q hq
      omega

theorem firstLatest_some {rows : List VerificationRecord} {r : VerificationRecord}
    (h : firstLatest rows = some r) : r ∈ rows ∧ ∀ q ∈ rows, q.time ≤ r.time := by
  cases rows with
  | nil => cases h
  | cons s rows =>
    obtain ⟨p, hp, hlatest⟩ := firstLatest_cons s rows
    cases hp.symm.trans h
    exact hlatest

def Newest.first : Newest where
  pick := firstLatest
  pick_none {rows} h := by
    cases rows with
    | nil => rfl
    | cons r rows =>
      obtain ⟨p, hp, _⟩ := firstLatest_cons r rows
      cases hp.symm.trans h
  pick_mem h := (firstLatest_some h).1
  pick_max h := (firstLatest_some h).2

/-- A database that returns this row wherever it may. -/
def Newest.prefer (q : VerificationRecord) : Newest where
  pick rows := if q ∈ rows ∧ ∀ p ∈ rows, p.time ≤ q.time then some q else first.pick rows
  pick_none h := by
    split_ifs at h
    exact first.pick_none h
  pick_mem h := by
    split_ifs at h with hq
    · exact Option.some.inj h ▸ hq.1
    · exact first.pick_mem h
  pick_max h := by
    split_ifs at h with hq
    · exact Option.some.inj h ▸ hq.2
    · exact first.pick_max h

/-- A record young enough, at the instant, for its code to be accepted. -/
def Timely (timeout : Option ℤ) (now : ℤ) (r : VerificationRecord) : Prop :=
  now - r.time ≤ 60 * 60 * 24 ∧ ∃ minutes, timeout = some minutes ∧ now - r.time ≤ timeoutSeconds minutes

theorem Timely.of_le {timeout : Option ℤ} {now now' : ℤ} {q r : VerificationRecord}
    (h : Timely timeout now q) (hage : now' - r.time ≤ now - q.time) : Timely timeout now' r := by
  obtain ⟨hday, minutes, hconf, htime⟩ := h
  exact ⟨hage.trans hday, minutes, hconf, hage.trans htime⟩

def Accepts (db : Newest) (t : VerificationTable) (timeout : Option ℤ) (dest code : String)
    (now : ℤ) : Prop :=
  (checkVerificationCode db t timeout dest code now).map VerifyResult.code =
    some .verificationSuccess

/-- An unused record that the database may return. -/
def Leads (t : VerificationTable) (dest : String) (q : VerificationRecord) : Prop :=
  q ∈ t.unusedTo dest ∧ ∀ p ∈ t.unusedTo dest, p.time ≤ q.time

section Checks
variable {t : VerificationTable} {dest code : String} {db : Newest} {timeout : Option ℤ} {now : ℤ}
  {q r : VerificationRecord}

theorem leads_of_pick (h : db.pick (t.unusedTo dest) = some q) : Leads t dest q :=
  ⟨db.pick_mem h, db.pick_max h⟩

theorem getVerificationRecord_unused :
    getVerificationRecord db t dest now = some r ∧ r.isUsed = false ↔
      getUnusedVerificationRecord db t dest now = some r := by
  rw [getVerificationRecord, getUnusedVerificationRecord]
  cases hunused : filterRecordIn24Hours now (db.pick (t.unusedTo dest)) with
  | some q =>
    refine and_iff_left_of_imp fun h => ?_
    have hq := db.pick_mem (filterRecordIn24Hours_some.mp hunused).1
    exact Option.some.inj h ▸ (mem_unusedTo.mp hq).2
  | none =>
    refine iff_of_false ?_ (by simp)
    rintro ⟨hr, hu⟩
    obtain ⟨hr, hday⟩ := filterRecordIn24Hours_some.mp hr
    have hmem : r ∈ t.unusedTo dest := mem_unusedTo.mpr ⟨db.pick_mem hr, hu⟩
    cases hp : db.pick (t.unusedTo dest) with
    | none => exact List.not_mem_nil (db.pick_none hp ▸ hmem)
    | some p =>
      have hle := db.pick_max hp r hmem
      have hpday : now - p.time ≤ 60 * 60 * 24 := by omega
      rw [filterRecordIn24Hours_some.mpr ⟨hp, hpday⟩] at hunused
      cases hunused

theorem accepts_iff : Accepts db t timeout dest code now ↔
    ∃ q, db.pick (t.unusedTo dest) = some q ∧ Timely timeout now q ∧ q.code = code := by
  have hget : Accepts db t timeout dest code now ↔ ∃ q,
      (getVerificationRecord db t dest now = some q ∧ q.isUsed = false) ∧
      (∃ minutes, timeout = some minutes ∧ now - q.time ≤ timeoutSeconds minutes) ∧ q.code = code := by
    rw [Accepts, checkVerificationCode]
    cases hq : getVerificationRecord db t dest now with
    | none => simp
    | some q =>
      cases hu : q.isUsed with
      | true => simp [hu]
      | false =>
        cases timeout with
        | none => simp [hu]
        | some minutes =>
          have hone : (∃ p, (some q = some p ∧ p.isUsed = false) ∧
              (∃ m, some minutes = some m ∧ now - p.time ≤ timeoutSeconds m) ∧ p.code = code) ↔
              now - q.time ≤ timeoutSeconds minutes ∧ q.code = code := by
            constructor
            · rintro ⟨p, ⟨hp, _⟩, ⟨m, hm, htime⟩, hcode⟩
              cases hp
              cases hm
              exact ⟨htime, hcode⟩
            · rintro ⟨htime, hcode⟩
              exact ⟨q, ⟨rfl, hu⟩, ⟨minutes, rfl, htime⟩, hcode⟩
          rw [hone]
          dsimp only
          rw [hu, if_neg Bool.false_ne_true]
          split_ifs with htime hcode
          · exact iff_of_false (by simp) fun h => by omega
          · exact iff_of_false (by simp) fun h => hcode h.2
          · exact iff_of_true rfl ⟨by omega, not_not.mp hcode⟩
  rw [hget]
  apply exists_congr
  intro q
  rw [getVerificationRecord_unused, getUnusedVerificationRecord, filterRecordIn24Hours_some,
    Timely, and_assoc, and_assoc]

theorem exists_accepts_iff : (∃ db, Accepts db t timeout dest code now) ↔
    ∃ q, Leads t dest q ∧ Timely timeout now q ∧ q.code = code := by
  constructor
  · rintro ⟨db, h⟩
    obtain ⟨q, hq, htimely, hcode⟩ := accepts_iff.mp h
    exact ⟨q, leads_of_pick hq, htimely, hcode⟩
  · rintro ⟨q, hq, htimely, hcode⟩
    exact ⟨.prefer q, accepts_iff.mpr ⟨q, if_pos hq, htimely, hcode⟩⟩

end Checks

inductive Call
  | send (s : Sending)
  | check (db : Newest) (code : String) (now : ℤ)
  | disable (db : Newest) (now : ℤ)

def Call.instant : Call → ℤ
  | .send s => s.now
  | .check _ _ now => now
  | .disable _ now => now

/-- The table, and what the calls have been so far: the latest record sent and whether a disable
came since. -/
structure History where
  table : VerificationTable
  latest : Option VerificationRecord
  disabled : Bool

def History.start (t : VerificationTable) : History := ⟨t, none, false⟩

def History.step (dest : String) (h : History) : Call → History
  | .send s => match addToVerificationRecord h.table dest s with
    | none => h
    | some t => ⟨t, some (s.record dest), false⟩
  | .check .. => h
  | .disable db now => ⟨disableVerificationCode db h.table dest now, h.latest, true⟩

def run (dest : String) (t : VerificationTable) (calls : List Call) : History :=
  calls.foldl (History.step dest) (.start t)

/-- Whatever the check accepts at the instant is the latest code sent, in time and not disabled. -/
def LatestOnly (timeout : Option ℤ) (dest : String) (h : History) (now : ℤ) : Prop :=
  ∀ db code, Accepts db h.table timeout dest code now → ∃ r, h.latest = some r ∧ r.code = code ∧
    (∃ minutes, timeout = some minutes ∧ now - r.time ≤ timeoutSeconds minutes) ∧ h.disabled = false

/-- No send meets another unused code of the same second, and a disable leaves no other unused code
that is still young enough. -/
def Fits (timeout : Option ℤ) (dest : String) (t : VerificationTable) : Call → Prop
  | .send s => addToVerificationRecord t dest s ≠ none →
      ∀ q ∈ t.unusedTo dest, q.time = s.now → Timely timeout s.now q → q.code = s.code
  | .check .. => True
  | .disable db now => ∀ q ∈ t.unusedTo dest, Timely timeout now q →
      db.pick (t.unusedTo dest) = some q

/-- In every state of the run, at every later instant, only the latest code counts. -/
def OnlyLatestCounts (timeout : Option ℤ) (dest : String) (t : VerificationTable)
    (calls : List Call) : Prop :=
  ∀ pre, pre <+: calls → ∀ now, (∀ c ∈ pre, c.instant ≤ now) →
    LatestOnly timeout dest (run dest t pre) now

section Runs
variable {timeout : Option ℤ} {dest : String} {t : VerificationTable} {h : History} {c : Call}
  {now : ℤ} {q : VerificationRecord}

theorem latestOnly_iff : LatestOnly timeout dest h now ↔
    ∀ q, Leads h.table dest q → Timely timeout now q → ∃ r, h.latest = some r ∧ r.code = q.code ∧
      (∃ minutes, timeout = some minutes ∧ now - r.time ≤ timeoutSeconds minutes) ∧ h.disabled = false := by
  constructor
  · intro hl q hq htimely
    obtain ⟨db, hdb⟩ := exists_accepts_iff.mpr ⟨q, hq, htimely, rfl⟩
    exact hl db q.code hdb
  · intro hl db code hdb
    obtain ⟨q, hq, htimely, rfl⟩ := exists_accepts_iff.mp ⟨db, hdb⟩
    exact hl q hq htimely

theorem exists_leads (hq : q ∈ t.unusedTo dest) : ∃ p, Leads t dest p ∧ q.time ≤ p.time := by
  cases hp : Newest.first.pick (t.unusedTo dest) with
  | none => exact absurd hq (Newest.first.pick_none hp ▸ List.not_mem_nil)
  | some p => exact ⟨p, leads_of_pick hp, Newest.first.pick_max hp q hq⟩

theorem run_snoc (pre : List Call) :
    run dest t (pre ++ [c]) = (run dest t pre).step dest c := by
  rw [run, List.foldl_append, ← run, List.foldl_cons, List.foldl_nil]

theorem step_stored {s : Sending} {t' : VerificationTable}
    (hadd : addToVerificationRecord h.table dest s = some t') :
    h.step dest (.send s) = ⟨t', some (s.record dest), false⟩ := by
  rw [History.step, hadd]

theorem time_step (hbound : ∀ p ∈ h.table.sentTo dest, p.time ≤ c.instant)
    (hq : q ∈ (h.step dest c).table.sentTo dest) : q.time ≤ c.instant := by
  cases c with
  | send s =>
    cases hadd : addToVerificationRecord h.table dest s with
    | none =>
      rw [History.step, hadd] at hq
      exact hbound q hq
    | some t' =>
      rw [step_stored hadd] at hq
      rcases (mem_sentTo_add hadd).mp hq with hq | rfl
      · exact hbound q hq
      · exact le_rfl
  | check => exact hbound q hq
  | disable db now =>
    obtain ⟨p, hp, htime⟩ := time_disable hq
    exact htime ▸ hbound p hp

theorem time_run (hnew : t.sentTo dest = []) {calls : List Call} (hnow : ∀ c ∈ calls, c.instant ≤ now)
    (hord : calls.Pairwise fun a b => a.instant ≤ b.instant)
    (hq : q ∈ (run dest t calls).table.sentTo dest) : q.time ≤ now := by
  induction calls using List.reverseRecOn generalizing now q with
  | nil => exact absurd hq (hnew ▸ List.not_mem_nil)
  | append_singleton pre c ih =>
    rw [run_snoc] at hq
    obtain ⟨hpre, _, hlast⟩ := List.pairwise_append.mp hord
    have hbefore : ∀ a ∈ pre, a.instant ≤ c.instant := fun a ha =>
      hlast a ha c List.mem_cons_self
    have hc : c.instant ≤ now := hnow c (List.mem_append_right pre List.mem_cons_self)
    exact (time_step (fun p hp => ih hbefore hpre hp) hq).trans hc

/-- One call, if only the latest code counts right after it. -/
theorem fits_of_latestOnly (hbound : ∀ p ∈ h.table.sentTo dest, p.time ≤ c.instant)
    (hl : LatestOnly timeout dest (h.step dest c) c.instant) : Fits timeout dest h.table c := by
  rw [latestOnly_iff] at hl
  cases c with
  | send s =>
    intro hstored q hq htime htimely
    obtain ⟨t', hadd⟩ := Option.ne_none_iff_exists'.mp hstored
    rw [step_stored hadd] at hl
    have hlead : Leads t' dest q := by
      refine ⟨(mem_unusedTo_add hadd).mpr (Or.inl hq), fun p hp => ?_⟩
      rw [htime]
      rcases (mem_unusedTo_add hadd).mp hp with hp | rfl
      · exact hbound p (mem_unusedTo.mp hp).1
      · exact le_rfl
    obtain ⟨r, hr, hcode, _⟩ := hl q hlead htimely
    cases hr
    exact hcode.symm
  | check => trivial
  | disable db now =>
    intro q hq htimely
    by_contra hne
    -- another record was marked, and this one, or a later one, still leads
    have hkept : q ∈ (disableVerificationCode db h.table dest now).unusedTo dest :=
      mem_unusedTo_disable.mpr ⟨hq, fun hget => hne (filterRecordIn24Hours_some.mp hget).1⟩
    obtain ⟨p, hp, hle⟩ := exists_leads hkept
    obtain ⟨r, _, _, _, hr⟩ := hl p hp (htimely.of_le (Int.sub_le_sub_left hle _))
    cases hr

theorem latestOnly_step (hbound : ∀ p ∈ h.table.sentTo dest, p.time ≤ c.instant)
    (hl : LatestOnly timeout dest h now) (hnow : c.instant ≤ now)
    (hfits : Fits timeout dest h.table c) : LatestOnly timeout dest (h.step dest c) now := by
  rw [latestOnly_iff]
  intro q hq htimely
  cases c with
  | send s =>
    cases hadd : addToVerificationRecord h.table dest s with
    | none =>
      rw [History.step, hadd] at hq ⊢
      exact latestOnly_iff.mp hl q hq htimely
    | some t' =>
      rw [step_stored hadd] at hq ⊢
      have hnewest : s.now ≤ q.time := hq.2 _ ((mem_unusedTo_add hadd).mpr (Or.inr rfl))
      rcases (mem_unusedTo_add hadd).mp hq.1 with hold | rfl
      · have hsecond : q.time = s.now := le_antisymm (hbound q (mem_unusedTo.mp hold).1) hnewest
        have hthen : Timely timeout s.now q := htimely.of_le (Int.sub_le_sub_right hnow _)
        have hstored : addToVerificationRecord h.table dest s ≠ none := by simp [hadd]
        have hsent : Timely timeout now (s.record dest) :=
          htimely.of_le (Int.sub_le_sub_left hsecond.le _)
        exact ⟨_, rfl, (hfits hstored q hold hsecond hthen).symm, hsent.2, rfl⟩
      · exact ⟨_, rfl, rfl, htimely.2, rfl⟩
  | check => exact latestOnly_iff.mp hl q hq htimely
  | disable db instant =>
    obtain ⟨hold, hkept⟩ := mem_unusedTo_disable.mp hq.1
    have hthen : Timely timeout instant q := htimely.of_le (Int.sub_le_sub_right hnow _)
    exact absurd (filterRecordIn24Hours_some.mpr ⟨hfits q hold hthen, hthen.1⟩) hkept

/-- Only the latest code counts, in every state of a run, exactly when every call of it fits: no
send meets another live code of its second, and no disable leaves another live code behind. -/
theorem onlyLatestCounts_iff (timeout : Option ℤ) (hnew : t.sentTo dest = []) {calls : List Call}
    (hord : calls.Pairwise fun a b => a.instant ≤ b.instant) :
    OnlyLatestCounts timeout dest t calls ↔
      ∀ pre c post, calls = pre ++ c :: post → Fits timeout dest (run dest t pre).table c := by
  -- the calls before each one of the run, and the records that are there by then
  have hbefore {pre : List Call} {c : Call} (hpre : pre ++ [c] <+: calls) :
      (∀ a ∈ pre, a.instant ≤ c.instant) ∧ ∀ p ∈ (run dest t pre).table.sentTo dest, p.time ≤ c.instant := by
    obtain ⟨hpast, _, hlast⟩ := List.pairwise_append.mp (hord.sublist hpre.sublist)
    have hle : ∀ a ∈ pre, a.instant ≤ c.instant := fun a ha => hlast a ha c List.mem_cons_self
    exact ⟨hle, fun p hp => time_run hnew hle hpast hp⟩
  constructor
  · intro honly pre c post heq
    have hpre : pre ++ [c] <+: calls := ⟨post, by rw [heq, List.append_assoc]; rfl⟩
    obtain ⟨hle, hbound⟩ := hbefore hpre
    have hl := honly (pre ++ [c]) hpre c.instant
      (List.forall_mem_append.mpr ⟨hle, List.forall_mem_singleton.mpr le_rfl⟩)
    rw [run_snoc] at hl
    exact fits_of_latestOnly hbound hl
  · intro hfits pre hpre
    induction pre using List.reverseRecOn with
    | nil =>
      intro now _
      have hnone : t.unusedTo dest = [] := by rw [VerificationTable.unusedTo, hnew]; rfl
      exact latestOnly_iff.mpr fun q hq => absurd hq.1 (hnone ▸ List.not_mem_nil)
    | append_singleton pre c ih =>
      intro now hnow
      obtain ⟨post, heq⟩ := hpre
      have hsplit : calls = pre ++ c :: post := by rw [← heq, List.append_assoc]; rfl
      rw [List.forall_mem_append] at hnow
      rw [run_snoc]
      exact latestOnly_step (hbefore ⟨post, heq⟩).2 (ih ⟨c :: post, hsplit.symm⟩ now hnow.1)
        (hnow.2 c List.mem_cons_self) (hfits pre c post hsplit)

end Runs

def mailed (name code : String) (now : ℤ) : Sending where
  user := some "built-in/alice"
  provider := "provider_email"
  organization := "built-in"
  remoteAddr := "10.0.0.1"
  recordType := "Email"
  code := code
  name := name
  createdTime := ""
  now := now

/-- A second code after the first has expired, and its disable. -/
theorem onlyLatestCounts_second : OnlyLatestCounts (some 10) "alice@example.com"
    ⟨[], List.nodup_nil⟩
    [.send (mailed "r1" "111111" 1000), .send (mailed "r2" "222222" 2000),
      .disable .first 2070] := by
  refine (onlyLatestCounts_iff (some 10) rfl (by decide)).mpr ?_
  rintro (_ | ⟨a, _ | ⟨b, _ | ⟨d, pre⟩⟩⟩) c post heq
  · obtain ⟨rfl, rfl⟩ := List.cons.inj heq
    exact fun _ q hq => absurd hq List.not_mem_nil
  · obtain ⟨rfl, htail⟩ := List.cons.inj heq
    obtain ⟨rfl, rfl⟩ := List.cons.inj htail
    intro _ q hq hsecond _
    rw [List.mem_singleton.mp hq] at hsecond
    exact absurd hsecond (by decide)
  · obtain ⟨rfl, htail⟩ := List.cons.inj heq
    obtain ⟨rfl, hlast⟩ := List.cons.inj htail
    obtain ⟨rfl, rfl⟩ := List.cons.inj hlast
    intro q hq htimely
    rcases List.mem_pair.mp hq with rfl | rfl
    · obtain ⟨-, minutes, hconf, htime⟩ := htimely
      cases hconf
      exact absurd htime (by decide)
    · rfl
  · simp at heq

/-- The latest code is disabled, and the code before it is accepted again. -/
theorem disable_revives : ¬OnlyLatestCounts (some 10) "alice@example.com" ⟨[], List.nodup_nil⟩
    [.send (mailed "r1" "111111" 1000), .send (mailed "r2" "222222" 1060),
      .disable .first 1070] := by
  intro h
  obtain ⟨r, _, _, _, hr⟩ := h _ List.prefix_rfl 1080 (by decide) .first "111111"
    (by rw [Accepts]; decide +kernel)
  cases hr

end ArchGuard.Verification
