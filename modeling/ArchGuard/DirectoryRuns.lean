import ArchGuard.DirectoryProgram

/-! What every interleaving of the transactions on identities and memberships keeps: a revoked
membership is revoked for good, and the index has the membership of each pair. -/
namespace ArchGuard.Directory
open ReadCommitted Tenancy Sessions TransitionRun

/-- Rows stay, memberships under their pair, and pairs with their membership. -/
def fixedRows : VersionOrder Row :=
  .above (fun
      | .membership _, m, m' => m'.1.identityId = m.1.identityId ∧
          m'.1.organizationId = m.1.organizationId
      | .pair _ _, id, id' => id' = id
      | _, _, _ => True)
    (fun k v => by
      cases k with
      | membership id => exact ⟨rfl, rfl⟩
      | pair identityId org => exact rfl
      | identity id => trivial
      | session id => trivial)
    (fun k u v w h h' => by
      cases k with
      | membership id => exact ⟨h'.1.trans h.1, h'.2.trans h.2⟩
      | pair identityId org => exact Eq.trans h' h
      | identity id => trivial
      | session id => trivial)

def revokedRows : VersionOrder Row :=
  .absorbing fun
    | .membership _, m => m.1.status = .revoked
    | _, _ => False

def deprovisionedRows : VersionOrder Row :=
  .absorbing fun
    | .identity _, i => i.1.status = .deprovisioned
    | _, _ => False

/-- What a transaction relies on, by its next statement. -/
def Accounted (c : DirectoryCfg) (i : ℕ) : Pc → Prop
  | .saveStatus op idn => op = .deprovision → idn.status = .deprovisioned
  -- the row of the index is its own
  | .insertMembership m => c.lock (.pair m.identityId m.organizationId) = some (i, some m.id)
  | _ => True

inductive DirectoryWrites (c : DirectoryCfg) (i : ℕ) : Pc → (k : Key) → Option (Row k) → Prop
  | status {op : Cascade} {idn : Identity} {v : Row (.identity idn.id)}
      (hop : op = .deprovision → idn.status = .deprovisioned)
      (hv : c.viewRow i (.identity idn.id) = some v) :
      DirectoryWrites c i (.saveStatus op idn) (.identity idn.id)
        (some ⟨{ v.1 with status := idn.status }, (setStatus_id idn.status v.1).trans v.2⟩)
  | moved {l : Pc} {u : StatusUpdate} {test : Bool} {id : Uuid} {v : Row (.membership id)}
      (htest : test = true → u.matching v.1.status = true)
      (hv : c.viewRow i (.membership id) = some v) :
      DirectoryWrites c i l (.membership id)
        (some ⟨if test then u.set v.1 else v.1, (moved_id u test v.1).trans v.2⟩)
  | session {l : Pc} {id : Uuid} {v w : Row (.session id)}
      (hv : c.viewRow i (.session id) = some v) : DirectoryWrites c i l (.session id) (some w)
  | pair {m : Membership} (hnone : c.viewRow i (.pair m.identityId m.organizationId) = none) :
      DirectoryWrites c i (.insertPair m) (.pair m.identityId m.organizationId) (some m.id)
  | create {m : Membership}
      (hpair : c.lock (.pair m.identityId m.organizationId) = some (i, some m.id))
      (hnone : c.viewRow i (.membership m.id) = none) :
      DirectoryWrites c i (.insertMembership m) (.membership m.id) (some ⟨m, rfl⟩)

section Statements

variable {c c' : DirectoryCfg} {e : Event Req} {i : ℕ}

theorem directoryWrites {l : Pc} (hacc : Accounted c i l) {k : Key} {r : Option (Row k)}
    (hw : Writes c i (directoryProgram.next l) k r) : DirectoryWrites c i l k r := by
  cases l with
  | saveStatus op idn =>
    simp only [directoryProgram] at hw
    cases hw with
    | update hv => exact .status hacc hv
  | moveMemberships op identityId ids =>
    cases ids with
    | nil => cases hw
    | cons id ids =>
      simp only [directoryProgram] at hw
      cases hw with
      | update hv =>
        refine .moved (u := op.memberships) (fun htest => ?_) hv
        exact (Bool.and_eq_true_iff.mp htest).2
  | revokeSessions q ids =>
    cases ids with
    | nil => cases hw
    | cons id ids =>
      simp only [directoryProgram] at hw
      cases hw with
      | update hv => exact .session hv
  | insertPair m =>
    simp only [directoryProgram] at hw
    cases hw with
    | insert hnone => exact .pair hnone
  | insertMembership m =>
    simp only [directoryProgram] at hw
    cases hw with
    | insert hnone => exact .create hacc hnone
  | saveMembership u m refused after =>
    simp only [directoryProgram] at hw
    cases hw with
    | @update _ _ _ v hv =>
      dsimp only
      split_ifs with hmatch
      · have htest : true = true → u.matching v.1.status = true :=
          fun _ => (Bool.and_eq_true_iff.mp hmatch).2
        exact .moved (u := u) htest hv
      · have htest : false = true → u.matching v.1.status = true := fun h => by cases h
        exact .moved (u := u) htest hv
  | _ => cases hw

theorem StatusUpdate.keeps {u : StatusUpdate} {test : Bool} {m : Membership}
    (htest : test = true → u.matching m.status = true) (hm : m.status = .revoked) :
    (if test then u.set m else m).status = .revoked := by
  cases test with
  | false => exact hm
  | true =>
    have hmatch := htest rfl
    rw [hm] at hmatch
    exact u.terminal hmatch

theorem moved_pair (u : StatusUpdate) (test : Bool) (m : Membership) :
    (if test then u.set m else m).identityId = m.identityId ∧
      (if test then u.set m else m).organizationId = m.organizationId := by
  cases test <;> exact ⟨rfl, rfl⟩

theorem accounted_of_beginCreate {org : Uuid} {m : Except DirectoryError Membership}
    {tolerant : Bool} : Accounted c i (beginCreate org m tolerant) := by
  cases m with
  | error err => trivial
  | ok m =>
    rw [beginCreate]
    split_ifs <;> trivial

theorem accounted_of_beginSave {org : Uuid} {u : StatusUpdate}
    {m : Except DirectoryError Membership} {refused : DirectoryError} {after : AfterSave} :
    Accounted c i (beginSave org u m refused after) := by
  cases m with
  | error err => trivial
  | ok m =>
    rw [beginSave]
    split_ifs <;> trivial

theorem accounted_entry (r : Req) : Accounted c i (directoryProgram.entry r) := by
  have htenant (org : Uuid) {l : Pc} (hl : Accounted c i l) : Accounted c i (inTenant org l) := by
    rw [inTenant]
    split_ifs
    · trivial
    · exact hl
  cases r with
  | cascade op identityId => trivial
  | invite org emailHash invitedBy membershipId => exact htenant org trivial
  | accept org membershipId identityId => exact htenant org trivial
  | ensureMembership org identityId membershipId => exact htenant org accounted_of_beginCreate
  | ensureActiveMembership org identityId membershipId => exact htenant org trivial
  | remove op org membershipId => exact htenant org trivial

theorem accounted_of_ensureActive {org identityId membershipId : Uuid} (m : Option Membership) :
    Accounted c i (ensureActive org identityId membershipId m) := by
  cases m with
  | none => exact accounted_of_beginCreate
  | some m =>
    rw [ensureActive]
    split
    · trivial
    · exact accounted_of_beginSave
    · exact accounted_of_beginSave
    · trivial

theorem accounted_of_applyRemoval {org : Uuid} (m : Membership) (op : Removal) :
    Accounted c i (applyRemoval org m op) := by
  cases op with
  | revoke =>
    rw [applyRemoval]
    exact accounted_of_beginSave
  | suspend =>
    rw [applyRemoval]
    split_ifs
    · trivial
    · exact accounted_of_beginSave

theorem Accounted.next {l l' : Pc} (hact : c.act i (directoryProgram.next l) = some c')
    (hl' : c'.proc i = some l') : Accounted c' i l' := by
  have hr : Reaches c i (directoryProgram.next l) l' := proc_of_act hact hl'
  cases l with
  | getIdentity op identityId =>
    cases hr with
    | read =>
      dsimp only
      split
      · trivial
      · rename_i idn hidn
        cases op with
        | suspend =>
          dsimp only [Cascade.transition]
          split
          · trivial
          · exact fun hop => by cases hop
        -- the status that the row is to be given is the one that keeps it final
        | deprovision => exact fun _ => rfl
  | saveStatus op idn =>
    simp only [directoryProgram] at hr
    cases hr <;> trivial
  | snapshotMemberships op identityId =>
    cases hr with
    | read => trivial
  | moveMemberships op identityId ids =>
    cases ids with
    | nil =>
      cases hr with
      | read => trivial
    | cons id ids =>
      simp only [directoryProgram] at hr
      cases hr <;> trivial
  | snapshotSessions q =>
    cases hr with
    | read => trivial
  | revokeSessions q ids =>
    cases ids with
    | nil => cases hr
    | cons id ids =>
      simp only [directoryProgram] at hr
      cases hr <;> trivial
  | findByEmail org emailHash invitedBy membershipId =>
    cases hr with
    | read =>
      dsimp only
      split
      · trivial
      · split_ifs
        · trivial
        · exact accounted_of_beginCreate
  | findPair m tolerant =>
    cases hr with
    | read =>
      dsimp only
      split
      · trivial
      · split_ifs <;> trivial
  | insertPair m =>
    -- the row of the index that the insert leaves is its own
    rcases act_insert hact with ⟨hnone, -, rfl⟩ | ⟨-, rfl⟩
    · obtain rfl := eq_of_goto_proc hl'
      exact Function.update_self ..
    · obtain rfl := eq_of_goto_proc hl'
      trivial
  | insertMembership m =>
    simp only [directoryProgram] at hr
    cases hr <;> trivial
  | getInvited org membershipId identityId =>
    cases hr with
    | read =>
      dsimp only
      split
      · trivial
      · split_ifs <;> trivial
  | getInvitee org m =>
    cases hr with
    | read =>
      dsimp only
      split
      · trivial
      · split_ifs
        · trivial
        · exact accounted_of_beginSave
  | findByIdentity org identityId membershipId =>
    cases hr with
    | read => exact accounted_of_ensureActive _
  | getMembership op org membershipId =>
    cases hr with
    | read =>
      dsimp only
      split
      · trivial
      · exact accounted_of_applyRemoval _ op
  | saveMembership u m refused after =>
    simp only [directoryProgram] at hr
    cases hr with
    | absent hnone => trivial
    | present hv =>
      dsimp only
      split_ifs
      · cases after <;> trivial
      · trivial
  | commit => cases hr
  | fail err => cases hr

theorem Accounted.frame {l : Pc} (h : Accounted c i l) (hf : Frame c c' i) : Accounted c' i l := by
  cases l with
  | saveStatus op idn => exact h
  | insertMembership m => exact (hf.lock _ _).mpr h
  | _ => trivial

/-- Every open transaction is accounted for. -/
def AllAccounted (c : DirectoryCfg) : Prop := ∀ i l, c.proc i = some l → Accounted c i l

theorem AllAccounted.step (hc : AllAccounted c) (h : exec directoryProgram c e = some c') :
    AllAccounted c' := by
  intro i l hl
  rcases proc_of_exec h hl with ⟨hl, hi⟩ | ⟨r, rfl, -, rfl⟩ | ⟨l₀, rfl, hl₀, -⟩
  · exact (hc i l hl).frame (frame_of_exec h hi).1
  · exact accounted_entry r
  · exact Accounted.next (act_of_exec h hl₀) hl

theorem allAccounted_idle (db : Db) : AllAccounted (Cfg.idle db) := fun _ _ hl => by cases hl

end Statements

section Orders

variable {c : DirectoryCfg} {e : Event Req}

theorem writes_fixed (hc : AllAccounted c) : WritesForward fixedRows directoryProgram c e := by
  intro i l k r _ hl hw
  cases directoryWrites (hc i l hl) hw with
  | status hop hv =>
    rw [hv]
    exact VersionOrder.above_some trivial
  | @moved l u test id v htest hv =>
    rw [hv]
    exact VersionOrder.above_some (moved_pair u test v.1)
  | session hv =>
    rw [hv]
    exact VersionOrder.above_some trivial
  | pair hnone =>
    rw [hnone]
    exact VersionOrder.above_none
  | create hpair hnone =>
    rw [hnone]
    exact VersionOrder.above_none

theorem writes_revoked (hc : AllAccounted c) : WritesForward revokedRows directoryProgram c e := by
  intro i l k r _ hl hw
  cases directoryWrites (hc i l hl) hw with
  | status hop hv => exact fun u _ hu => hu.elim
  | moved htest hv =>
    rw [hv]
    exact VersionOrder.absorbing_some (StatusUpdate.keeps htest)
  | session hv => exact fun u _ hu => hu.elim
  | pair hnone => exact fun u _ hu => hu.elim
  | create hpair hnone =>
    rw [hnone]
    exact VersionOrder.absorbing_none

/-- The status of a suspension is not saved over that of a deprovisioned identity. -/
def SavesOverLive (c : DirectoryCfg) (e : Event Req) : Prop :=
  ∀ i idn, e = .step i → c.proc i = some (.saveStatus .suspend idn) →
    ∀ v, c.viewRow i (.identity idn.id) = some v → v.1.status ≠ .deprovisioned

theorem writes_deprovisioned (hc : AllAccounted c) (hok : SavesOverLive c e) :
    WritesForward deprovisionedRows directoryProgram c e := by
  intro i l k r he hl hw
  cases directoryWrites (hc i l hl) hw with
  | @status op idn v hop hv =>
    rw [hv]
    apply VersionOrder.absorbing_some
    cases op with
    | suspend => exact fun hdeprovisioned => absurd hdeprovisioned (hok i idn he hl v hv)
    | deprovision => exact fun _ => hop rfl
  | moved htest hv => exact fun u _ hu => hu.elim
  | session hv => exact fun u _ hu => hu.elim
  | pair hnone => exact fun u _ hu => hu.elim
  | create hpair hnone => exact fun u _ hu => hu.elim

end Orders

def Indexed (db : Db) : Prop :=
  ∀ id (m : Row (.membership id)), db.row (.membership id) = some m →
    db.row (.pair m.1.identityId m.1.organizationId) = some id

/-- The state of a run from indexed memberships. -/
structure Sound (c : DirectoryCfg) : Prop where
  accounted : AllAccounted c
  forward : LocksForward fixedRows c
  committed : Indexed c.db
  held : ∀ id i (m : Row (.membership id)), c.lock (.membership id) = some (i, some m) →
    c.viewRow i (.pair m.1.identityId m.1.organizationId) = some id

section Index

variable {c c' : DirectoryCfg} {e : Event Req} {i : ℕ}

/-- A transaction sees the index of the memberships that it sees. -/
theorem Sound.indexed_view (hc : Sound c) (i : ℕ) : Indexed (c.view i) := by
  intro id m hm
  rcases c.viewRow_cases i (.membership id) with ⟨r, hr, heq⟩ | ⟨-, heq⟩
  · have hrow : r = some m := heq.symm.trans hm
    exact hc.held id i m (hrow ▸ hr)
  · have hdb := hc.committed id m (heq.symm.trans hm)
    obtain ⟨w, hw, hsame⟩ := hc.forward.view (i := i) (.pair _ _) id hdb
    exact hw.trans (congrArg some hsame)

theorem Sound.step (hc : Sound c) (h : exec directoryProgram c e = some c') : Sound c' := by
  have hw : WritesForward fixedRows directoryProgram c e := writes_fixed hc.accounted
  refine ⟨hc.accounted.step h, hc.forward.step hw h, ?_, ?_⟩
  · rcases row_of_exec h with heq | ⟨i, l, n, -, -, -, rfl⟩
    · intro id m hm
      rw [heq] at hm ⊢
      exact hc.committed id m hm
    · exact hc.indexed_view i
  · intro id i m hlock
    -- what the holder saw of the index before the step, it still sees
    have hkept : c.viewRow i (.pair m.1.identityId m.1.organizationId) = some id →
        c'.viewRow i (.pair m.1.identityId m.1.organizationId) = some id := by
      intro hseen
      obtain ⟨w, hw, hsame⟩ := hc.forward.view_held hw h hlock (.pair _ _) id hseen
      exact hw.trans (congrArg some hsame)
    apply hkept
    rcases lock_of_exec h hlock with hold | ⟨l, rfl, hl, hwrite⟩
    · exact hc.held id i m hold
    · generalize hrow : some m = r at hwrite
      cases directoryWrites (hc.accounted i l hl) hwrite with
      | @moved l u test id v htest hv =>
        obtain rfl := Option.some.inj hrow
        obtain ⟨hidentity, horg⟩ := moved_pair u test v.1
        dsimp only
        rw [hidentity, horg]
        exact hc.indexed_view i id v hv
      | @create m₀ hpair hnone =>
        obtain rfl := Option.some.inj hrow
        exact Cfg.viewRow_own hpair

end Index

section Runs

variable (db : Db) (es : List (Event Req))

/-- A membership that was committed as revoked is revoked in every later committed state. -/
def RevocationTerminal : Prop :=
  ∀ pre mid post c c' id m, es = pre ++ mid ++ post →
    run (exec directoryProgram) (Cfg.idle db) pre = some c →
    run (exec directoryProgram) c mid = some c' →
    membershipAt c.db id = some m → m.status = .revoked →
      ∃ m', membershipAt c'.db id = some m' ∧ m'.status = .revoked

/-- In every committed state there is one membership at most of an identity in an organization. -/
def OnePerPair : Prop :=
  ∀ pre post c id id' m m', es = pre ++ post →
    run (exec directoryProgram) (Cfg.idle db) pre = some c →
    membershipAt c.db id = some m → membershipAt c.db id' = some m' →
    m.identityId = m'.identityId → m.organizationId = m'.organizationId → id = id'

structure MembershipsHold : Prop where
  terminal : RevocationTerminal db es
  unique : OnePerPair db es

/-- An identity that was committed as deprovisioned is deprovisioned in every later committed
state. -/
def DeprovisioningTerminal : Prop :=
  ∀ pre mid post c c' id idn, es = pre ++ mid ++ post →
    run (exec directoryProgram) (Cfg.idle db) pre = some c →
    run (exec directoryProgram) c mid = some c' →
    getIdentity c.db id = some idn → idn.status = .deprovisioned →
      ∃ idn', getIdentity c'.db id = some idn' ∧ idn'.status = .deprovisioned

variable {db es}

theorem Indexed.unique (h : Indexed db) {id id' : Uuid} {m m' : Membership}
    (hm : membershipAt db id = some m) (hm' : membershipAt db id' = some m')
    (hidentity : m.identityId = m'.identityId) (horg : m.organizationId = m'.organizationId) :
    id = id' := by
  obtain ⟨v, hv, rfl⟩ := Option.map_eq_some_iff.mp hm
  obtain ⟨v', hv', rfl⟩ := Option.map_eq_some_iff.mp hm'
  have hpair := h id v hv
  rw [hidentity, horg, h id' v' hv'] at hpair
  exact (Option.some.inj hpair).symm

/-- From indexed memberships, every interleaving keeps revocations and the uniqueness of pairs. -/
theorem memberships_hold (hdb : Indexed db) : MembershipsHold db es := by
  refine ⟨?_, ?_⟩
  · rintro pre mid post c c' id m rfl hpre hmid hm hrevoked
    have hevery : Along (exec directoryProgram) (fun _ _ => True) (Cfg.idle db) (pre ++ mid) :=
      along_of_forall (fun _ _ => trivial) _ _
    have hrows : RowsForward revokedRows c c' :=
      rows_forward_of_invariant (fun _ _ _ hI h => AllAccounted.step hI h)
        (fun _ _ hI _ => writes_revoked hI) (allAccounted_idle db) hevery hpre hmid
    obtain ⟨v, hv, rfl⟩ := Option.map_eq_some_iff.mp hm
    obtain ⟨w, hw, hstatus⟩ := hrows (.membership id) v hv hrevoked
    exact ⟨w.1, Option.map_eq_some_iff.mpr ⟨w, hw, rfl⟩, hstatus⟩
  · intro pre post c id id' m m' _ hpre hm hm' hidentity horg
    have hidle : Sound (Cfg.idle db) := by
      refine ⟨allAccounted_idle db, locksForward_idle db, hdb, fun id i m hlock => ?_⟩
      cases hlock
    have hc : Sound c := run_always (fun _ _ _ hI h => hI.step h) hidle hpre
    exact hc.committed.unique hm hm' hidentity horg

/-- Deprovisioning is terminal in every run in which no suspension is saved over it. -/
theorem deprovisioning_of_savesOverLive
    (hok : Along (exec directoryProgram) SavesOverLive (Cfg.idle db) es) :
    DeprovisioningTerminal db es := by
  rintro pre mid post c c' id idn rfl hpre hmid hidn hdeprovisioned
  have hrows : RowsForward deprovisionedRows c c' :=
    rows_forward_of_invariant (fun _ _ _ hI h => AllAccounted.step hI h)
      (fun _ _ hI he => writes_deprovisioned hI he) (allAccounted_idle db)
      (along_append.mp hok).1 hpre hmid
  obtain ⟨v, hv, rfl⟩ := Option.map_eq_some_iff.mp hidn
  obtain ⟨w, hw, hstatus⟩ := hrows (.identity id) v hv hdeprovisioned
  exact ⟨w.1, Option.map_eq_some_iff.mpr ⟨w, hw, rfl⟩, hstatus⟩

end Runs

namespace Sample

def staff : Db := Store.empty.set (.identity 1) (some ⟨⟨1, "sub", .human, .active, []⟩, rfl⟩)

theorem indexed_staff : Indexed staff := by
  intro id m hm
  rw [staff, Store.set_row_of_ne _ _ _ _ (by simp)] at hm
  cases hm

def steps (i n : ℕ) : List (Event Req) := List.replicate n (.step i)

/-- A membership is created and revoked, and not made active again by a login. -/
def hired : List (Event Req) :=
  .start 0 (.ensureMembership 30 1 20) :: steps 0 4 ++
    .start 0 (.remove .revoke 30 20) :: steps 0 4 ++
    .start 0 (.ensureActiveMembership 30 1 21) :: steps 0 2

/-- A suspension, a deprovisioning, and a suspension that is refused. -/
def retired : List (Event Req) :=
  .start 0 (.cascade .suspend 1) :: steps 0 6 ++
    .start 0 (.cascade .deprovision 1) :: steps 0 6 ++
    .start 0 (.cascade .suspend 1) :: steps 0 2

/-- A suspension reads the identity, and saves its status over a deprovisioning. -/
def overlapping : List (Event Req) :=
  [.start 0 (.cascade .suspend 1), .start 1 (.cascade .deprovision 1), .step 0] ++ steps 1 6 ++
    steps 0 5

def liveTest (c : DirectoryCfg) : Event Req → Bool
  | .step i =>
    match c.proc i with
    | some (.saveStatus .suspend idn) => (c.viewRow i (.identity idn.id)).all fun v =>
        v.1.status ≠ .deprovisioned
    | _ => true
  | _ => true

theorem savesOverLive_of_test (c : DirectoryCfg) (e : Event Req) (h : liveTest c e = true) :
    SavesOverLive c e := by
  rintro i idn rfl hl v hv
  simpa only [liveTest, hl, hv, Option.all_some, decide_eq_true_eq] using h

end Sample

/-- A member is hired and let go, and no login brings the membership back. -/
theorem memberships_hold_hired : MembershipsHold Sample.staff Sample.hired ∧
    (run (exec directoryProgram) (Cfg.idle Sample.staff) Sample.hired).any
      (fun c => (membershipAt c.db 20).any fun m => m.status = .revoked) = true :=
  ⟨memberships_hold Sample.indexed_staff, by decide +kernel⟩

/-- A suspension after the deprovisioning is refused. -/
theorem deprovisioning_in_turn : DeprovisioningTerminal Sample.staff Sample.retired ∧
    (run (exec directoryProgram) (Cfg.idle Sample.staff) Sample.retired).any
      (fun c => (getIdentity c.db 1).any fun i => i.status = .deprovisioned) = true := by
  refine ⟨?_, by decide +kernel⟩
  apply deprovisioning_of_savesOverLive
  exact along_of_check Sample.savesOverLive_of_test (by decide +kernel)

/-- The suspension brings a deprovisioned identity back. -/
theorem deprovisioning_undone : ¬DeprovisioningTerminal Sample.staff Sample.overlapping := by
  intro h
  have hbefore : (run (exec directoryProgram) (Cfg.idle Sample.staff)
      (Sample.overlapping.take 9)).any
        (fun c => (getIdentity c.db 1).any fun i => i.status = .deprovisioned) = true := by
    decide +kernel
  have hafter : (run (exec directoryProgram) (Cfg.idle Sample.staff) Sample.overlapping).any
        (fun c => (getIdentity c.db 1).any fun i => i.status = .suspended) = true := by
    decide +kernel
  obtain ⟨c, hc, hany⟩ := (Option.any_eq_true ..).mp hbefore
  obtain ⟨c', hc', hany'⟩ := (Option.any_eq_true ..).mp hafter
  obtain ⟨i, hi, hstatus⟩ := (Option.any_eq_true ..).mp hany
  obtain ⟨i', hi', hstatus'⟩ := (Option.any_eq_true ..).mp hany'
  rw [← List.take_append_drop 9 Sample.overlapping, run_append_eq hc] at hc'
  have hsplit : Sample.overlapping =
      Sample.overlapping.take 9 ++ Sample.overlapping.drop 9 ++ [] := by simp
  obtain ⟨i'', hi'', hstatus''⟩ :=
    h _ _ _ c c' 1 i hsplit hc hc' hi (of_decide_eq_true hstatus)
  obtain rfl := Option.some.inj (hi'.symm.trans hi'')
  rw [of_decide_eq_true hstatus'] at hstatus''
  cases hstatus''

end ArchGuard.Directory
