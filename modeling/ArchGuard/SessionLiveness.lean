import ArchGuard.SessionCascade

/-! No active session on a removed membership. -/
namespace ArchGuard.Tenancy
open ReadCommitted TransitionRun

section Steps

variable {c c' : TenancyCfg} {e : Event Req} {i : ℕ} {l l' : Pc}

theorem mem_sessionsMatching {db : Db} {q : SessionQuery} {id : Uuid} {r : SessionRow}
    (hr : sessionAt db id = some r) (hm : q.matches r = true) : id ∈ sessionsMatching db q := by
  obtain ⟨v, hv, rfl⟩ := Option.map_eq_some_iff.mp hr
  exact (Store.mem_scan db).mpr ⟨.session id, v, hv, if_pos hm⟩

theorem covered_snapshot (hc : BindInv c) {id org : Uuid} (hp : Placed c.db id org) :
    Covered c i id (sessionsMatching (c.view i) (.byMembership id org)) := by
  intro sid r hr hact
  obtain ⟨w, hw, rfl⟩ := Option.map_eq_some_iff.mp hr
  rcases c.viewRow_cases i (.session sid) with ⟨v, hv, he⟩ | ⟨-, he⟩
  -- the snapshot has its own version of the session, or the committed one
  · by_cases hown : ∃ r', v = some r' ∧ ActiveOn r'.1 id
    · obtain ⟨r', rfl, hact'⟩ := hown
      refine Or.inl (mem_sessionsMatching (Option.map_eq_some_iff.mpr ⟨r', he, rfl⟩) ?_)
      exact matches_of_activeOn (hc.pinned sid i r' hv) hact' hp
    · exact Or.inr ⟨v, hv, fun r' hr' ha => hown ⟨r', hr', ha⟩⟩
  · refine Or.inl (mem_sessionsMatching (Option.map_eq_some_iff.mpr ⟨w, he.trans hw, rfl⟩) ?_)
    exact matches_of_activeOn (hc.bound.pinned sid w.1 hr) hact hp

theorem covered_revoke (hc : BindInv c) {id org sid : Uuid} {ids : List Uuid} {after : AfterSessions}
    (hp : Placed c.db id org) (hcov : Covered c i id (sid :: ids))
    (ha : c.act i (tenancyProgram.next (.revokeSessions (.byMembership id org) (sid :: ids) after)) =
      some c') : Covered c' i id ids := by
  rcases act_update ha with ⟨hnone, rfl⟩ | ⟨v, hv, -, rfl⟩
  -- no row is there to update: the session had been deleted by this transaction itself
  · intro s r hr hact
    rcases hcov s r hr hact with hmem | hlock
    · rcases List.mem_cons.mp hmem with rfl | hmem
      · obtain ⟨w, hw, rfl⟩ := Option.map_eq_some_iff.mp hr
        rcases c.viewRow_cases i (.session s) with ⟨v, hv, he⟩ | ⟨-, he⟩
        · obtain rfl := he.symm.trans hnone
          exact Or.inr ⟨none, hv, fun r' hr' => by cases hr'⟩
        · exact absurd (hw.symm.trans (he.symm.trans hnone)) (Option.some_ne_none w)
      · exact Or.inl hmem
    · exact Or.inr hlock
  -- the row is written: what it held active on the membership is ended in its new version
  · intro s r hr hact
    by_cases hs : s = sid
    · subst hs
      refine Or.inr ⟨_, Function.update_self .., fun r' hr' => ?_⟩
      obtain rfl := Option.some.inj hr'
      dsimp only
      split_ifs with hm
      · exact fun hact' => by cases hact'.1
      · exact fun hact' => hm (matches_of_activeOn (pinned_of_view hc hv) hact' hp)
    · rcases hcov s r hr hact with hmem | ⟨w, hw, hn⟩
      · exact Or.inl ((List.mem_cons.mp hmem).resolve_left hs)
      · exact Or.inr ⟨w, by simpa [Function.update_of_ne, hs] using hw, hn⟩

theorem covered_of_act (hc : BindInv c) (hl : c.proc i = some l)
    (ha : c.act i (tenancyProgram.next l) = some c') {id org : Uuid} {ids : List Uuid}
    {after : AfterSessions}
    (hl' : c'.proc i = some (.revokeSessions (.byMembership id org) ids after)) :
    Covered c' i id ids := by
  rcases sessionsTaken_of_reaches (proc_of_act ha hl') rfl with
    ⟨org', after', rfl, heq⟩ | ⟨org', sid, ids', after', rfl, heq⟩
  · cases heq
    obtain rfl := act_read ha
    exact covered_snapshot hc (hc.settled i _ hl).2
  · cases heq
    exact covered_revoke hc (hc.settled i _ hl).2 (hc.covered i _ _ _ _ hl) ha

theorem settled_entry (db : Db) (r : Req) : Settled db (tenancyProgram.entry r) := by
  cases r with
  | request id org subject target n justification incidentRef notBefore expiresAt =>
    simp only [tenancyProgram]
    split <;> trivial
  | _ => trivial

theorem sessionsTaken_entry (r : Req) : sessionsTaken (tenancyProgram.entry r) = none := by
  cases r with
  | request id org subject target n justification incidentRef notBefore expiresAt =>
    simp only [tenancyProgram]
    split <;> rfl
  | _ => rfl

theorem commit_of_removes {id : Uuid} {n : Option Pc} (hrem : removes l = some id)
    (hn : tenancyProgram.next l = .commit n) :
    ∃ org, l = .revokeSessions (.byMembership id org) [] .commit := by
  cases l with
  | saveDecision g approvals after => cases approvals <;> cases hn
  | revokeSessions q ids after =>
    cases ids with
    | cons sid ids => cases hn
    | nil =>
      cases after with
      | expireNext org now rest => cases hn
      | commit =>
        cases q with
        | byGrant g org => cases hrem
        | byMembership id' org =>
          obtain rfl := Option.some.inj hrem
          exact ⟨org, rfl⟩
  -- the other statements that commit have removed no membership
  | commit => cases hrem
  | endListing s => cases hrem
  | _ => cases hn

end Steps

namespace BindInv

variable {c c' : TenancyCfg} {e : Event Req}

theorem kept_step (hc : BindInv c) (h : exec tenancyProgram c e = some c') {id : Uuid} {j : ℕ}
    {v : Option (Row (.membership id))} (hl : c'.lock (.membership id) = some (j, v)) :
    ∃ m m' : Row (.membership id), c'.db.row (.membership id) = some m ∧ v = some m' ∧
      m'.1.organizationId = m.1.organizationId := by
  rw [row_of_locked h hl]
  rcases lock_of_exec h hl with hold | ⟨l, -, -, hw⟩
  · exact hc.kept id j v hold
  · obtain ⟨op, m, row, -, -, hview, m', rfl, horg⟩ := writes_membership hw
    obtain ⟨m₀, hm₀, horg₀⟩ := viewRow_membership hc hview
    obtain ⟨w, hw, rfl⟩ := Option.map_eq_some_iff.mp hm₀
    exact ⟨w, m', hw, rfl, horg.trans horg₀.symm⟩

theorem removing_step (hc : BindInv c) (h : exec tenancyProgram c e = some c') {id : Uuid} {j : ℕ}
    {l : Pc} {v : Option (Row (.membership id))} (hp : c'.proc j = some l)
    (hl : c'.lock (.membership id) = some (j, v)) : l = .fail ∨ removes l = some id := by
  rcases proc_of_exec h hp with ⟨hp, hj⟩ | ⟨r, rfl, hnone, -⟩ | ⟨l', rfl, hp, hr⟩
  -- another transaction moved; or `j` was started, and holds nothing; or `j` moved itself
  · exact hc.removing j l id v hp (((frame_of_exec h hj).1.lock _ v).mp hl)
  · rcases lock_of_exec h hl with hold | ⟨_, he, -⟩
    · exact absurd hnone (hc.live _ j v hold)
    · cases he
  · rcases lock_of_exec h hl with hold | ⟨l'', -, hp', hw⟩
    · rcases hc.removing j l' id v hp hold with rfl | hrem
      · cases hr
      · exact removes_of_reaches (hc.settled j l' hp) hr hrem
    · obtain rfl := Option.some.inj (hp.symm.trans hp')
      obtain ⟨op, m, row, rfl, rfl, -⟩ := writes_membership hw
      cases hr with
      | absent hk => exact Or.inl rfl
      | present hv =>
        dsimp only
        split
        · exact removes_saveRemoval ..
        · exact Or.inl rfl

theorem pinned_step (hc : BindInv c) (h : exec tenancyProgram c e = some c') {id : Uuid} {j : ℕ}
    {r : Row (.session id)} (hl : c'.lock (.session id) = some (j, some r)) :
    Pinned c'.db r.1.session := by
  apply Pinned.step hc h
  rcases lock_of_exec h hl with hold | ⟨l, -, hp, hw⟩
  · exact hc.pinned id j r hold
  · exact pinned_of_writes hc hp hw r rfl

theorem settled_step (hc : BindInv c) (h : exec tenancyProgram c e = some c') {j : ℕ} {l : Pc}
    (hp : c'.proc j = some l) : Settled c'.db l := by
  rcases proc_of_exec h hp with ⟨hp, -⟩ | ⟨r, -, -, rfl⟩ | ⟨l', rfl, hp, hr⟩
  · exact (hc.settled j l hp).step hc h
  · exact settled_entry _ r
  · exact (settled_of_reaches hc hp hr).step hc h

theorem covered_step (hc : BindInv c) (hok : BindsLive c e) (h : exec tenancyProgram c e = some c')
    {j : ℕ} {id org : Uuid} {ids : List Uuid} {after : AfterSessions}
    (hp : c'.proc j = some (.revokeSessions (.byMembership id org) ids after)) :
    Covered c' j id ids := by
  rcases proc_of_exec h hp with ⟨hp, hj⟩ | ⟨r, -, -, he⟩ | ⟨l, rfl, hl, -⟩
  · exact (hc.covered j id org ids after hp).frame hok h hj hp
  · have hnone := sessionsTaken_entry r
    rw [← he] at hnone
    cases hnone
  · rw [exec, hl, Option.bind_some] at h
    exact covered_of_act hc hl h hp

theorem live_commit (hc : BindInv c) {i : ℕ} {l : Pc} {n : Option Pc}
    (hok : BindsLive c (.step i)) (hl : c.proc i = some l)
    (hn : tenancyProgram.next l = .commit n) {sid mid : Uuid} {r : SessionRow}
    (hr : sessionAt (c.commit i n).db sid = some r) (hact : ActiveOn r mid) :
    Live (c.commit i n).db mid := by
  obtain ⟨w, hw, rfl⟩ := Option.map_eq_some_iff.mp hr
  change c.viewRow i (.session sid) = some w at hw
  -- either the session was active there already, or this commit binds it
  have hlive : Live c.db mid ∧ ∀ org, l ≠ .revokeSessions (.byMembership mid org) [] .commit := by
    by_cases hwas : ∃ r', sessionAt c.db sid = some r' ∧ ActiveOn r' mid
    · obtain ⟨r', hr', hact'⟩ := hwas
      refine ⟨hc.bound.live sid r' mid hr' hact', ?_⟩
      rintro org rfl
      rcases hc.covered i mid org [] _ hl sid r' hr' hact' with hmem | ⟨v, hv, hnot⟩
      · cases hmem
      · exact hnot w ((Cfg.viewRow_own hv).symm.trans hw) hact
    · have hlock : c.lock (.session sid) = some (i, some w) := by
        rcases c.viewRow_cases i (.session sid) with ⟨v, hv, he⟩ | ⟨-, he⟩
        · rw [hv, ← he, hw]
        · exact absurd ⟨w.1, Option.map_eq_some_iff.mpr ⟨w, he.symm.trans hw, rfl⟩, hact⟩ hwas
      obtain ⟨hm, htaken⟩ := hok i l n rfl hl hn mid
        ⟨sid, w, hlock, hact, fun r' hr' ha => hwas ⟨r', hr', ha⟩⟩
      refine ⟨hm, ?_⟩
      rintro org rfl
      exact htaken i _ hl rfl
  obtain ⟨⟨m, hm, hmact⟩, hne⟩ := hlive
  refine ⟨m, ?_, hmact⟩
  -- the committing transaction did not write the membership, as it would be removing it
  have hfree : ∀ v, c.lock (.membership mid) ≠ some (i, v) := by
    intro v hv
    rcases hc.removing i l mid v hl hv with rfl | hrem
    · cases hn
    · obtain ⟨org, heq⟩ := commit_of_removes hrem hn
      exact hne org heq
  rw [membershipAt, Cfg.commit_row_of_not_own hfree]
  exact hm

theorem bound_step (hc : BindInv c) (hok : BindsLive c e) (h : exec tenancyProgram c e = some c') :
    Bound c'.db := by
  have hkeep {s : AuthSession} (hs : Pinned c.db s) : Pinned c'.db s := hs.step hc h
  rcases row_of_exec h with heq | ⟨i, l, n, rfl, hl, hn, rfl⟩
  · refine ⟨fun id r hr => ?_, fun id r mid hr hact => ?_⟩
    · rw [sessionAt, heq] at hr
      exact hkeep (hc.bound.pinned id r hr)
    · rw [sessionAt, heq] at hr
      obtain ⟨m, hm, hmact⟩ := hc.bound.live id r mid hr hact
      exact ⟨m, by rw [membershipAt, heq]; exact hm, hmact⟩
  · refine ⟨fun id r hr => ?_, fun id r mid hr hact => live_commit hc hok hl hn hr hact⟩
    obtain ⟨w, hw, rfl⟩ := Option.map_eq_some_iff.mp hr
    exact hkeep (pinned_of_view hc hw)

theorem step (hc : BindInv c) (hok : BindsLive c e) (h : exec tenancyProgram c e = some c') :
    BindInv c' where
  live := hc.live.step h
  bound := hc.bound_step hok h
  kept _ _ _ hl := hc.kept_step h hl
  removing _ _ _ _ hp hl := hc.removing_step h hp hl
  pinned _ _ _ hl := hc.pinned_step h hl
  settled _ _ hp := hc.settled_step h hp
  covered _ _ _ _ _ hp := hc.covered_step hok h hp

theorem idle {db : Db} (h : Bound db) : BindInv (Cfg.idle db) where
  live := ownersLive_idle db
  bound := h
  kept _ _ _ hl := by cases hl
  removing _ _ _ _ hp := by cases hp
  pinned _ _ _ hl := by cases hl
  settled _ _ hp := by cases hp
  covered _ _ _ _ _ hp := by cases hp

end BindInv

def SessionsLive (db : Db) : Prop :=
  ∀ id r, sessionAt db id = some r → r.session.status = .active →
    ∃ mid m, r.session.membershipId = some mid ∧ membershipAt db mid = some m ∧ m.status = .active

theorem Bound.sessionsLive {db : Db} (h : Bound db) : SessionsLive db := by
  intro id r hr hact
  obtain ⟨mid, org, hmid, -⟩ := h.pinned id r hr hact
  obtain ⟨m, hm, hmact⟩ := h.live id r mid hr ⟨hact, hmid⟩
  exact ⟨mid, m, hmid, hm, hmact⟩

/-- Every committed state of the run has its active sessions on active memberships. -/
def SessionsStayLive (db : Db) (es : List (Event Req)) : Prop :=
  ∀ pre post c, es = pre ++ post →
    run (exec tenancyProgram) (Cfg.idle db) pre = some c → SessionsLive c.db

/-- In every run whose commits bind sessions only to memberships that are still active, and
whose sessions no open removal has looked up, sessions stay on active memberships. -/
theorem sessionsStayLive_of_bindsLive {db : Db} {es : List (Event Req)} (hdb : Bound db)
    (hok : Along (exec tenancyProgram) BindsLive (Cfg.idle db) es) : SessionsStayLive db es := by
  rintro pre post c rfl hpre
  have hc : BindInv c := run_invariant (fun _ _ _ hI hs he => hI.step hs he) (.idle hdb)
    (along_append.mp hok).1 hpre
  exact hc.bound.sessionsLive

namespace Sample

def oneMember : Db :=
  (Store.empty.set (.identity 2) (some ⟨⟨2, "idp|ana", .human, .active, [7]⟩, rfl⟩)).set
    (.membership 3) (some ⟨⟨3, 2, 1, .active, none⟩, rfl⟩)

theorem bound_oneMember : Bound oneMember := by
  have hnone (id : Uuid) : sessionAt oneMember id = none := by
    rw [sessionAt, oneMember, Store.set_row_of_ne _ _ _ _ (by simp),
      Store.set_row_of_ne _ _ _ _ (by simp)]
    rfl
  refine ⟨fun id r hr => ?_, fun id r mid hr => ?_⟩ <;> rw [hnone] at hr <;> cases hr

def login : Event Req := .start 0 (.establishSession ⟨2, .aal1, [.password], 1000, 7⟩)

def removal (i : ℕ) : Event Req := .start i (.remove .revoke 1 3)

def loginThenRemoval : List (Event Req) :=
  login :: List.replicate 4 (.step 0) ++ removal 1 :: List.replicate 6 (.step 1)

/-- The removal runs between the listing of the memberships and the insert of the session. -/
def removalWithinLogin : List (Event Req) :=
  login :: List.replicate 2 (.step 0) ++ removal 1 :: List.replicate 5 (.step 1) ++
    List.replicate 2 (.step 0)

/-- Two transactions, of which none holds an active session on a membership that is not
active or is past its look-up. -/
def bindsTest (c : TenancyCfg) (e : Event Req) : Bool :=
  e.actor < 2 && c.db.keys.all fun
    | .session id => (c.lock (.session id)).all fun l => l.1 ≠ e.actor || l.2.all fun r =>
        r.1.session.status ≠ .active || r.1.session.membershipId.all fun mid =>
          (membershipAt c.db mid).any (fun m => m.status = .active) &&
            [0, 1].all fun j => (c.proc j).all fun l' => sessionsTaken l' ≠ some mid
    | _ => true

def TwoOpen (c : TenancyCfg) : Prop := ∀ j, 2 ≤ j → c.proc j = none

theorem twoOpen_step (c : TenancyCfg) (e : Event Req) (c' : TenancyCfg) (hc : TwoOpen c)
    (ht : bindsTest c e = true) (h : exec tenancyProgram c e = some c') : TwoOpen c' := by
  intro j hj
  have hactor : e.actor < 2 := of_decide_eq_true (Bool.and_eq_true_iff.mp ht).1
  rw [(frame_of_exec h (show j ≠ e.actor by omega)).2]
  exact hc j hj

theorem bindsLive_of_test (c : TenancyCfg) (e : Event Req) (hc : TwoOpen c)
    (ht : bindsTest c e = true) : BindsLive c e := by
  rintro i l n rfl hl hn mid ⟨id, r, hlock, ⟨hact, hmid⟩, -⟩
  have hkey := List.all_eq_true.mp (Bool.and_eq_true_iff.mp ht).2 _
    (c.locked_mem (.session id) i r hlock)
  simp only [hlock, Option.all_some, Event.actor, hact, hmid, ne_eq, decide_not, decide_true,
    Bool.not_true, Bool.false_or, Bool.and_eq_true, Option.any_eq_true, decide_eq_true_eq] at hkey
  obtain ⟨⟨m, hm, hmact⟩, hopen⟩ := hkey
  refine ⟨⟨m, hm, hmact⟩, fun j l' hj htaken => ?_⟩
  by_cases hj2 : 2 ≤ j
  · rw [hc j hj2] at hj
    cases hj
  · have hmem : j ∈ [0, 1] := by
      simp only [List.mem_cons, List.not_mem_nil, or_false]
      omega
    have hall := List.all_eq_true.mp hopen j hmem
    simp [hj, htaken] at hall

end Sample

theorem sessionsStayLive_login_then_removal :
    SessionsStayLive Sample.oneMember Sample.loginThenRemoval ∧
      (run (exec tenancyProgram) (Cfg.idle Sample.oneMember) Sample.loginThenRemoval).any
        (fun c => (sessionAt c.db 7).any fun r => r.session.status = .revoked) = true :=
  ⟨sessionsStayLive_of_bindsLive Sample.bound_oneMember
    (along_of_check_invariant Sample.twoOpen_step Sample.bindsLive_of_test (fun _ _ => rfl)
      (by decide +kernel)), by decide +kernel⟩

/-- A login that listed its membership before it was revoked leaves an active session on it. -/
theorem session_outlives_membership :
    ¬SessionsStayLive Sample.oneMember Sample.removalWithinLogin := by
  intro h
  have hrun : (run (exec tenancyProgram) (Cfg.idle Sample.oneMember) Sample.removalWithinLogin).any
      (fun c => (sessionAt c.db 7).any (fun r => r.session.status = .active &&
        r.session.membershipId = some 3) &&
          (membershipAt c.db 3).any fun m => m.status = .revoked) = true := by
    decide +kernel
  obtain ⟨c, hc, hboth⟩ := (Option.any_eq_true _ _).mp hrun
  obtain ⟨hsession, hmember⟩ := Bool.and_eq_true_iff.mp hboth
  obtain ⟨r, hr, hst⟩ := (Option.any_eq_true _ _).mp hsession
  obtain ⟨hact, hmid⟩ := Bool.and_eq_true_iff.mp hst
  obtain ⟨m, hm, hrev⟩ := (Option.any_eq_true _ _).mp hmember
  obtain ⟨mid, m', hmid', hm', hact'⟩ :=
    h _ [] c (List.append_nil _).symm hc 7 r hr (of_decide_eq_true hact)
  obtain rfl := Option.some.inj ((of_decide_eq_true hmid).symm.trans hmid')
  obtain rfl := Option.some.inj (hm.symm.trans hm')
  rw [of_decide_eq_true hrev] at hact'
  cases hact'

end ArchGuard.Tenancy
