import ArchGuard.SessionBinding

/-! The steps of the session and removal transactions. -/
namespace ArchGuard.Tenancy
open ReadCommitted TransitionRun

theorem removes_cascadeNext (m : Membership) (gs : List PrivilegedGrant) :
    cascadeNext m gs = .fail ∨ removes (cascadeNext m gs) = some m.id := by
  cases gs with
  | nil => exact Or.inr rfl
  | cons g gs =>
    simp only [cascadeNext]
    cases g.revoke with
    | error err => exact Or.inl rfl
    | ok g =>
      simp only [beginSave]
      split
      · exact Or.inl rfl
      · exact Or.inr rfl

theorem removes_saveRemoval (m row : Membership) (op : Removal) :
    (saveRemoval m row op).2 = .fail ∨ removes (saveRemoval m row op).2 = some m.id := by
  cases op with
  | revoke => exact Or.inr rfl
  | suspend =>
    simp only [saveRemoval]
    split
    · exact Or.inr rfl
    · exact Or.inl rfl

section Settled

variable {db : Db}

theorem settled_beginSave {org : Uuid} {g : PrivilegedGrant} {after : AfterSave}
    (h : ∀ m rest, after = .cascadeNext m rest → Placed db m.id m.organizationId) :
    Settled db (beginSave org g after) := by
  unfold beginSave
  split
  · trivial
  cases after with
  | cascadeNext m rest => exact h m rest rfl
  | _ => trivial

theorem settled_expireNext {org : Uuid} {now : Time} (gs : List PrivilegedGrant) :
    Settled db (expireNext org now gs) := by
  cases gs with
  | nil => trivial
  | cons g gs =>
    simp only [expireNext]
    cases g.expire now with
    | error err => trivial
    | ok g => exact settled_beginSave fun m rest h => by cases h

theorem settled_cascadeNext {m : Membership} (h : Placed db m.id m.organizationId)
    (gs : List PrivilegedGrant) : Settled db (cascadeNext m gs) := by
  cases gs with
  | nil => exact ⟨rfl, h⟩
  | cons g gs =>
    simp only [cascadeNext]
    cases g.revoke with
    | error err => trivial
    | ok g =>
      apply settled_beginSave
      intro m' rest heq
      cases heq
      exact h

theorem settled_applyDecision {org : Uuid} {g : PrivilegedGrant} (d : Decision) :
    Settled db (applyDecision org g d) := by
  cases d with
  | passStepUp aal phishingResistant =>
    simp only [applyDecision]
    cases g.passStepUp aal phishingResistant with
    | error err => trivial
    | ok g => exact settled_beginSave fun m rest h => by cases h
  | approve approver =>
    simp only [applyDecision]
    cases g.approve approver with
    | error err => trivial
    | ok g => exact settled_beginSave fun m rest h => by cases h
  | revoke =>
    simp only [applyDecision]
    cases g.revoke with
    | error err => trivial
    | ok g => exact settled_beginSave fun m rest h => by cases h

theorem settled_saveRemoval {m row : Membership} {op : Removal}
    (h : Placed db m.id m.organizationId) : Settled db (saveRemoval m row op).2 := by
  cases op with
  | revoke => exact h
  | suspend =>
    simp only [saveRemoval]
    split
    · exact ⟨rfl, h⟩
    · trivial

theorem settled_applyRemoval {m : Membership} {op : Removal}
    (h : Placed db m.id m.organizationId) : Settled db (applyRemoval m op) := by
  cases op with
  | revoke => exact h
  | suspend =>
    simp only [applyRemoval]
    split
    · trivial
    cases hs : m.suspend with
    | error err => trivial
    | ok m' =>
      obtain ⟨-, rfl⟩ := Membership.transition_ok hs
      exact h

end Settled

variable {c c' : TenancyCfg} {e : Event Req} {i : ℕ} {l l' : Pc}

theorem pinned_resolveSession (hc : BindInv c) {q : EstablishReq} {s : AuthSession}
    (h : resolveSession q (listByIdentity (c.view i) q.identityId) = .ok s) : Pinned c.db s := by
  unfold resolveSession at h
  split at h
  · cases h
  rename_i s₀ hs₀
  obtain rfl := AuthSession.setAuthContext_ok h
  obtain ⟨-, -, -, ⟨hpend, -⟩ | ⟨m, hm, -, -, -, hid, horg⟩⟩ := newAuthSession_ok hs₀
  -- several memberships: the session waits for a selection and is not active
  · intro hact
    change s₀.status = _ at hact
    rw [hpend] at hact
    cases hact
  · exact fun _ => ⟨m.id, m.organizationId, hid, horg,
      placed_of_view hc (mem_listByIdentity.mp hm).1⟩

theorem destined_of_updateMatches (hc : BindInv c) {s : AuthSession} {test : SessionRow → Bool}
    (h : updateMatches (c.view i) s test = true) : Destined c.db s := by
  obtain ⟨id, m, hid, hm, -, horg, -⟩ := destinationActive_iff.mp (Bool.and_eq_true_iff.mp h).2
  exact ⟨id, m.organizationId, hid, horg, placed_of_view hc hm⟩

theorem settled_of_reaches (hc : BindInv c) (hl : c.proc i = some l)
    (hr : Reaches c i (tenancyProgram.next l) l') : Settled c.db l' := by
  have hset := hc.settled i l hl
  cases l with
  | listMemberships q =>
    cases hr
    dsimp only
    split
    · trivial
    · rename_i s hs
      exact pinned_resolveSession hc hs
  | endListing s =>
    cases hr
    exact hset
  | createSession s => cases hr <;> trivial
  | getForSelection identityId sessionId m =>
    cases hr
    dsimp only
    split
    · trivial
    split <;> trivial
  -- the UPDATE goes ahead only if its snapshot has the destination as a membership row
  | saveSelection s =>
    cases hr
    dsimp only
    split
    · rename_i hm
      exact destined_of_updateMatches hc hm
    · trivial
  | updateSelection s =>
    cases hr with
    | absent hk => trivial
    | present hv =>
      dsimp only
      split <;> trivial
  | getForSwitch identityId sessionId dest required =>
    cases hr
    dsimp only
    split
    · trivial
    split <;> trivial
  | saveSwitch s m g =>
    cases hr
    dsimp only
    split
    · rename_i hm
      exact destined_of_updateMatches hc hm
    · trivial
  | updateSwitch s m g =>
    cases hr with
    | absent hk => trivial
    | present hv =>
      dsimp only
      split <;> trivial
  -- the membership that is read lies in the organization the caller named
  | getMembership op org id =>
    cases hr
    dsimp only
    split
    · trivial
    rename_i m hm
    obtain ⟨hm, horg⟩ := Option.filter_eq_some_iff.mp hm
    have hp := placed_of_view hc hm
    rw [← (row_of_membershipAt hm).1] at hp
    exact settled_applyRemoval hp
  | saveRemoval op m =>
    cases hr with
    | absent hk => trivial
    | present hv =>
      dsimp only
      split
      · exact settled_saveRemoval hset
      · trivial
  | listActiveByMembership m =>
    cases hr
    exact settled_cascadeNext hset _
  | getGrant org id d =>
    cases hr
    dsimp only
    split <;> trivial
  | loadApprovals org g d =>
    cases hr
    exact settled_applyDecision d
  | listActiveExpired org now =>
    cases hr
    exact settled_expireNext _
  -- approvals first, then the status; only the cascade goes on to another grant
  | saveDecision g approvals after =>
    cases approvals with
    | cons a approvals => cases hr <;> (cases after <;> trivial)
    | nil =>
      cases hr with
      | absent hk => trivial
      | present hv =>
        dsimp only
        split
        · cases after with
          | done => trivial
          | endSessions after => trivial
          | cascadeNext m rest => exact settled_cascadeNext hset rest
        · trivial
  | snapshotSessions q after =>
    cases hr
    cases q with
    | byMembership id org => exact hset
    | byGrant g org => trivial
  | revokeSessions q ids after =>
    cases ids with
    | cons id ids => cases hr <;> (cases q <;> trivial)
    | nil =>
      cases after with
      | commit => cases hr
      | expireNext org now rest =>
        cases hr
        exact settled_expireNext rest
  | createGrant g => cases hr <;> trivial
  | commit => cases hr
  | fail => cases hr

theorem writes_membership {id : Uuid} {v : Option (Row (.membership id))}
    (h : Writes c i (tenancyProgram.next l) (.membership id) v) :
    ∃ op m row, l = .saveRemoval op m ∧ m.id = id ∧ c.viewRow i (.membership id) = some row ∧
      ∃ m', v = some m' ∧ m'.1.organizationId = row.1.organizationId := by
  cases l with
  | saveRemoval op m =>
    simp only [tenancyProgram] at h
    cases h with
    | update hv =>
      refine ⟨op, m, _, rfl, rfl, hv, ?_⟩
      dsimp only
      split
      · refine ⟨_, rfl, ?_⟩
        dsimp only
        rw [saveRemoval_row]
      · exact ⟨_, rfl, rfl⟩
  -- no other statement writes to a membership
  | saveDecision g approvals after => cases approvals <;> cases h
  | revokeSessions q ids after =>
    cases ids with
    | cons sid ids => cases h
    | nil => cases after <;> cases h
  | _ => cases h

/-- A transaction that removed a membership goes on with its cascade. -/
theorem removes_of_reaches {db : Db} {id : Uuid} (hset : Settled db l)
    (hr : Reaches c i (tenancyProgram.next l) l') (hrem : removes l = some id) :
    l' = .fail ∨ removes l' = some id := by
  cases l with
  | listActiveByMembership m =>
    cases hr
    obtain rfl := Option.some.inj hrem
    exact removes_cascadeNext m _
  | saveDecision g approvals after =>
    cases after with
    | cascadeNext m rest =>
      cases approvals with
      | cons a approvals => cases hr <;> exact Or.inr hrem
      | nil =>
        cases hr with
        | absent hk => exact Or.inl rfl
        | present hv =>
          obtain rfl := Option.some.inj hrem
          dsimp only
          split
          · exact removes_cascadeNext m rest
          · exact Or.inl rfl
    | _ => cases hrem
  | snapshotSessions q after =>
    cases q with
    | byMembership id org =>
      cases hr
      exact Or.inr hrem
    | byGrant g org => cases hrem
  | revokeSessions q ids after =>
    cases q with
    | byMembership id org =>
      cases ids with
      | cons sid ids => cases hr <;> exact Or.inr hrem
      | nil =>
        -- the end of the sessions of a membership is followed by the commit
        obtain ⟨rfl, -⟩ := hset
        cases hr
    | byGrant g org => cases hrem
  | _ => cases hrem

theorem pinned_of_writes (hc : BindInv c) (hl : c.proc i = some l) {id : Uuid}
    {v : Option (Row (.session id))} (h : Writes c i (tenancyProgram.next l) (.session id) v) :
    ∀ r, v = some r → Pinned c.db r.1.session := by
  have hset := hc.settled i l hl
  cases l with
  | createSession s =>
    simp only [tenancyProgram] at h
    cases h with
    | insert hk =>
      rintro r ⟨⟩
      exact hset
  | updateSelection s =>
    simp only [tenancyProgram] at h
    cases h with
    | update hv =>
      dsimp only
      split
      · rintro r ⟨⟩
        exact fun _ => hset
      · rintro r ⟨⟩
        exact pinned_of_view hc hv
  | updateSwitch s m g =>
    simp only [tenancyProgram] at h
    cases h with
    | update hv =>
      dsimp only
      split
      · rintro r ⟨⟩
        exact fun _ => hset
      · rintro r ⟨⟩
        exact pinned_of_view hc hv
  | saveDecision g approvals after => cases approvals <;> cases h
  | revokeSessions q ids after =>
    cases ids with
    | nil => cases after <;> cases h
    | cons sid ids =>
      simp only [tenancyProgram] at h
      cases h with
      | update hv =>
        rintro r ⟨⟩
        dsimp only
        split
        -- a session that was ended is not active
        · intro ha
          cases ha
        · exact pinned_of_view hc hv
  | _ => cases h

section Taken

theorem sessionsTaken_beginSave (org : Uuid) (g : PrivilegedGrant) (after : AfterSave) :
    sessionsTaken (beginSave org g after) = none := by
  unfold beginSave
  split <;> rfl

theorem sessionsTaken_expireNext (org : Uuid) (now : Time) (gs : List PrivilegedGrant) :
    sessionsTaken (expireNext org now gs) = none := by
  cases gs with
  | nil => rfl
  | cons g gs =>
    simp only [expireNext]
    split
    · rfl
    · exact sessionsTaken_beginSave ..

theorem sessionsTaken_cascadeNext (m : Membership) (gs : List PrivilegedGrant) :
    sessionsTaken (cascadeNext m gs) = none := by
  cases gs with
  | nil => rfl
  | cons g gs =>
    simp only [cascadeNext]
    split
    · rfl
    · exact sessionsTaken_beginSave ..

theorem sessionsTaken_afterSave (g : PrivilegedGrant) (after : AfterSave) :
    sessionsTaken (afterSave g after) = none := by
  cases after with
  | cascadeNext m rest => exact sessionsTaken_cascadeNext m rest
  | _ => rfl

theorem sessionsTaken_applyDecision (org : Uuid) (g : PrivilegedGrant) (d : Decision) :
    sessionsTaken (applyDecision org g d) = none := by
  cases d <;> simp only [applyDecision] <;> split <;> first | rfl | exact sessionsTaken_beginSave ..

theorem sessionsTaken_applyRemoval (m : Membership) (op : Removal) :
    sessionsTaken (applyRemoval m op) = none := by
  cases op with
  | revoke => rfl
  | suspend =>
    simp only [applyRemoval]
    split
    · rfl
    split <;> rfl

theorem sessionsTaken_saveRemoval (m row : Membership) (op : Removal) :
    sessionsTaken (saveRemoval m row op).2 = none := by
  cases op with
  | revoke => rfl
  | suspend =>
    simp only [saveRemoval]
    split <;> rfl

/-- A cascade comes to end sessions by looking them up, or by having ended one. -/
theorem sessionsTaken_of_reaches {id : Uuid} (hr : Reaches c i (tenancyProgram.next l) l')
    (ht : sessionsTaken l' = some id) :
    (∃ org after, l = .snapshotSessions (.byMembership id org) after ∧
      l' = .revokeSessions (.byMembership id org)
        (sessionsMatching (c.view i) (.byMembership id org)) after) ∨
      ∃ org sid ids after, l = .revokeSessions (.byMembership id org) (sid :: ids) after ∧
        l' = .revokeSessions (.byMembership id org) ids after := by
  have hnone {x : Pc} (hx : sessionsTaken x = none) (ht : sessionsTaken x = some id) : False := by
    rw [hx] at ht
    cases ht
  cases l with
  | snapshotSessions q after =>
    cases hr
    cases q with
    | byMembership id' org =>
      obtain rfl := Option.some.inj ht
      exact Or.inl ⟨org, after, rfl, rfl⟩
    | byGrant g org => cases ht
  | revokeSessions q ids after =>
    cases ids with
    | cons sid ids =>
      cases q with
      | byGrant g org => cases hr <;> cases ht
      | byMembership id' org =>
        have hl' : l' = .revokeSessions (.byMembership id' org) ids after := by
          cases hr <;> rfl
        subst hl'
        obtain rfl := Option.some.inj ht
        exact Or.inr ⟨org, sid, ids, after, rfl, rfl⟩
    | nil =>
      cases after with
      | commit => cases hr
      | expireNext org now rest =>
        cases hr
        exact (hnone (sessionsTaken_expireNext ..) ht).elim
  -- every other statement leads to one that has taken no sessions
  | listActiveByMembership m =>
    cases hr
    exact (hnone (sessionsTaken_cascadeNext ..) ht).elim
  | listActiveExpired org now =>
    cases hr
    exact (hnone (sessionsTaken_expireNext ..) ht).elim
  | loadApprovals org g d =>
    cases hr
    exact (hnone (sessionsTaken_applyDecision ..) ht).elim
  | saveDecision g approvals after =>
    cases approvals with
    | cons a approvals => cases hr <;> cases ht
    | nil =>
      cases hr with
      | absent hk => cases ht
      | present hv =>
        dsimp only at ht
        split at ht
        · exact (hnone (sessionsTaken_afterSave ..) ht).elim
        · cases ht
  | saveRemoval op m =>
    cases hr with
    | absent hk => cases ht
    | present hv =>
      dsimp only at ht
      split at ht
      · exact (hnone (sessionsTaken_saveRemoval ..) ht).elim
      · cases ht
  | getMembership op org id' =>
    cases hr
    dsimp only at ht
    split at ht
    · cases ht
    · exact (hnone (sessionsTaken_applyRemoval ..) ht).elim
  | listMemberships q =>
    cases hr
    dsimp only at ht
    split at ht <;> cases ht
  | endListing s =>
    cases hr
    cases ht
  | createSession s => cases hr <;> cases ht
  | getForSelection identityId sessionId m =>
    cases hr
    dsimp only at ht
    split at ht
    · cases ht
    split at ht <;> cases ht
  | saveSelection s =>
    cases hr
    dsimp only at ht
    split at ht <;> cases ht
  | updateSelection s =>
    cases hr with
    | absent hk => cases ht
    | present hv =>
      dsimp only at ht
      split at ht <;> cases ht
  | getForSwitch identityId sessionId dest required =>
    cases hr
    dsimp only at ht
    split at ht
    · cases ht
    split at ht <;> cases ht
  | saveSwitch s m g =>
    cases hr
    dsimp only at ht
    split at ht <;> cases ht
  | updateSwitch s m g =>
    cases hr with
    | absent hk => cases ht
    | present hv =>
      dsimp only at ht
      split at ht <;> cases ht
  | getGrant org grantId d =>
    cases hr
    dsimp only at ht
    split at ht <;> cases ht
  | createGrant g => cases hr <;> cases ht
  | commit => cases hr
  | fail => cases hr

end Taken

end ArchGuard.Tenancy
