import ArchGuard.LifecycleSpec

/-! What the calls on grants, and the removals of memberships, leave in the tables. -/
namespace ArchGuard.Tenancy
open ReadCommitted

variable {db : Db} {org : Uuid}

def Tables.setGrants (t : Tables) (test : PrivilegedGrant → Bool) (status : GrantStatus) : Tables :=
  { t with grant := fun k => (t.grant k).map (edit test (PrivilegedGrant.setStatus status)) }

def Tables.setMemberships (t : Tables) (test : Membership → Bool) (status : MembershipStatus) :
    Tables :=
  { t with membership := fun k => (t.membership k).map (edit test (Membership.setStatus status)) }

theorem Tables.setGrants_setGrants (t : Tables) {f g : PrivilegedGrant → Bool}
    {status : GrantStatus} :
    (t.setGrants f status).setGrants g status = t.setGrants (fun a => f a || g a) status := by
  simp only [setGrants, Option.map_map]
  congr 1
  funext k
  apply Option.map_congr
  intro a _
  simp only [Function.comp, edit]
  by_cases hf : f a = true
  · simp [hf, PrivilegedGrant.setStatus]
  · simp [hf]

section Decisions

variable {g : PrivilegedGrant}

theorem saveDecision_stored {r : PrivilegedGrant} (hr : grantAt db g.id = some r)
    (hg : g.organizationId = org) (horg : r.organizationId = org) :
    ∃ db', saveDecision db org g = .ok db' ∧
      tables db' = (tables db).setGrants (fun r => r.id = g.id && r.organizationId = org) g.status := by
  refine ⟨_, by simp only [saveDecision, hg, ne_eq, not_true_eq_false, if_false, hr, horg,
    Option.any_some, decide_true, if_true]; rfl, ?_⟩
  rw [tables_updateGrants, tables_insertApprovals]
  rfl

theorem saveDecision_ok {db' : Db} (h : saveDecision db org g = .ok db') :
    g.organizationId = org ∧
      tables db' = (tables db).setGrants (fun r => r.id = g.id && r.organizationId = org) g.status := by
  unfold saveDecision at h
  split at h
  · cases h
  rename_i hg
  split at h
  · obtain rfl := Except.ok.inj h
    refine ⟨not_not.mp hg, ?_⟩
    rw [tables_updateGrants, tables_insertApprovals]
    rfl
  · cases h

variable {grantId : Uuid} {transition : PrivilegedGrant → Except GrantError PrivilegedGrant}

theorem decideGrant_some {g' : PrivilegedGrant} (hg : getGrant db org grantId = some g)
    (ht : transition g = .ok g') (hid : g'.id = g.id) (horg : g'.organizationId = g.organizationId) :
    ∃ db', decideGrant db org grantId transition = .ok (g', db') ∧
      tables db' = (tables db).setGrants (fun r => r.id = grantId && r.organizationId = org)
        g'.status := by
  obtain ⟨r, hr, hrorg, rfl⟩ := getGrant_some hg
  have hrow : g'.id = grantId := hid.trans (show r.id = grantId from grantAt_id hr)
  rw [← hrow] at hr
  obtain ⟨db', hdb', htab⟩ := saveDecision_stored hr (horg.trans hrorg) hrorg
  refine ⟨db', ?_, by rw [htab, hrow]⟩
  simp only [decideGrant, hg, ht, hdb', bind, Except.bind, pure, Except.pure]

theorem decideGrant_ok {g' : PrivilegedGrant} {db' : Db}
    (h : decideGrant db org grantId transition = .ok (g', db')) :
    ∃ g, getGrant db org grantId = some g ∧ transition g = .ok g' := by
  unfold decideGrant at h
  split at h
  · cases h
  rename_i g hg
  obtain ⟨g₁, ht, h⟩ := bind_eq_ok.mp h
  obtain ⟨db₁, -, h⟩ := bind_eq_ok.mp h
  cases h
  exact ⟨g, hg, ht⟩

/-- A transition of a grant moves its status and its approvals only. -/
def KeepsRow (transition : PrivilegedGrant → Except GrantError PrivilegedGrant) : Prop :=
  ∀ g g', transition g = .ok g' → g'.id = g.id ∧ g'.organizationId = g.organizationId

theorem keepsRow_passStepUp (aal : Aal) (phishingResistant : Bool) :
    KeepsRow fun g => g.passStepUp aal phishingResistant := by
  intro g g' h
  obtain ⟨-, rfl⟩ := PrivilegedGrant.passStepUp_ok h
  exact ⟨rfl, rfl⟩

theorem keepsRow_approve (approver : Uuid) : KeepsRow fun g => g.approve approver := by
  intro g g' h
  obtain ⟨-, rfl⟩ := PrivilegedGrant.approve_ok h
  exact ⟨rfl, rfl⟩

theorem decideGrant_cases (hkeep : KeepsRow transition) :
    ((∀ g g', getGrant db org grantId = some g → transition g ≠ .ok g') ∧
      (inTx db (decideGrant db org grantId transition)).2 = db) ∨
      ∃ g g', getGrant db org grantId = some g ∧ transition g = .ok g' ∧
        tables (inTx db (decideGrant db org grantId transition)).2 =
          (tables db).setGrants (fun r => r.id = grantId && r.organizationId = org) g'.status := by
  by_cases hok : ∃ g g', getGrant db org grantId = some g ∧ transition g = .ok g'
  · obtain ⟨g, g', hg, ht⟩ := hok
    obtain ⟨db', hdec, htab⟩ := decideGrant_some hg ht (hkeep g g' ht).1 (hkeep g g' ht).2
    exact Or.inr ⟨g, g', hg, ht, by rw [inTx_ok hdec, htab]⟩
  · refine Or.inl ⟨fun g g' hg ht => hok ⟨g, g', hg, ht⟩, ?_⟩
    rcases inTx_cases db (decideGrant db org grantId transition) with ⟨-, hdb⟩ | ⟨g', db', hdec, -⟩
    · exact hdb
    · obtain ⟨g, hg, ht⟩ := decideGrant_ok hdec
      exact absurd ⟨g, g', hg, ht⟩ hok

end Decisions

section Loops

variable {db' : Db}

theorem Tables.setGrants_none (t : Tables) {test : PrivilegedGrant → Bool} {status : GrantStatus}
    (h : ∀ g, test g = false) : t.setGrants test status = t := by
  ext k : 2
  case grant =>
    change (t.grant k).map _ = _
    rw [show edit test (PrivilegedGrant.setStatus status) = id from
      funext fun g => by simp [edit, h g], Option.map_id, id]
  all_goals rfl

def listed (org : Uuid) (gs : List PrivilegedGrant) (r : PrivilegedGrant) : Bool :=
  gs.any (fun g => r.id = g.id) && r.organizationId = org

theorem listed_cons (g : PrivilegedGrant) (gs : List PrivilegedGrant) :
    (fun r => (decide (r.id = g.id) && decide (r.organizationId = org)) || listed org gs r) =
      listed org (g :: gs) := by
  funext r
  simp [listed, Bool.and_or_distrib_right]

theorem revokeEach_ok {gs : List PrivilegedGrant} (h : revokeEach org gs db = .ok db') :
    tables db' = (tables db).setGrants (listed org gs) .revoked := by
  induction gs generalizing db with
  | nil =>
    obtain rfl := Except.ok.inj h
    exact (Tables.setGrants_none _ fun g => by simp [listed]).symm
  | cons g gs ih =>
    obtain ⟨g', hg', h₁⟩ := bind_eq_ok.mp h
    obtain ⟨db₁, hdb₁, h₂⟩ := bind_eq_ok.mp h₁
    have hsave := (saveDecision_ok hdb₁).2
    rw [PrivilegedGrant.revoke_ok hg'] at hsave
    rw [ih h₂, hsave, Tables.setGrants_setGrants, listed_cons]
    rfl

theorem revokeEach_total {gs : List PrivilegedGrant}
    (h : ∀ g ∈ gs, g.status = .active ∧ g.organizationId = org ∧
      ∃ r, grantAt db g.id = some r ∧ r.organizationId = org) :
    ∃ db', revokeEach org gs db = .ok db' := by
  induction gs generalizing db with
  | nil => exact ⟨db, rfl⟩
  | cons g gs ih =>
    obtain ⟨hact, hg, r, hr, hrorg⟩ := h g List.mem_cons_self
    have hrev : g.revoke = .ok { g with status := .revoked } := by
      simp [PrivilegedGrant.revoke, hact]
    obtain ⟨db₁, hdb₁, htab⟩ :=
      saveDecision_stored (g := { g with status := .revoked }) hr hg hrorg
    have hgrant (k : Uuid) : grantAt db₁ k = (grantAt db k).map
        (edit (fun r => r.id = g.id && r.organizationId = org) (PrivilegedGrant.setStatus .revoked)) :=
      congrFun (congrArg Tables.grant htab) k
    obtain ⟨db', hdb'⟩ := ih fun a ha => by
      obtain ⟨haact, ha, r', hr', hr'org⟩ := h a (List.mem_cons_of_mem _ ha)
      refine ⟨haact, ha, _, by rw [hgrant, hr']; rfl, ?_⟩
      exact (edit_key _ (PrivilegedGrant.setStatus .revoked) PrivilegedGrant.organizationId
        (fun _ => rfl) r').trans hr'org
    exact ⟨db', by simp only [revokeEach, hrev, bind, Except.bind, hdb₁, hdb']⟩

theorem expireEach_ok {now : Time} {gs : List PrivilegedGrant}
    (h : expireEach org now gs db = .ok db') :
    ∃ sessions, tables db' =
      { (tables db).setGrants (listed org gs) .expired with session := sessions } := by
  induction gs generalizing db with
  | nil =>
    obtain rfl := Except.ok.inj h
    refine ⟨sessionAt db, ?_⟩
    rw [Tables.setGrants_none _ fun g => by simp [listed]]
    rfl
  | cons g gs ih =>
    obtain ⟨g', hg', h₁⟩ := bind_eq_ok.mp h
    obtain ⟨db₁, hdb₁, h₂⟩ := bind_eq_ok.mp h₁
    have hsave := (saveDecision_ok (mapError_eq_ok.mp hdb₁)).2
    rw [PrivilegedGrant.expire_ok (mapError_eq_ok.mp hg')] at hsave
    obtain ⟨sessions, htab⟩ := ih h₂
    refine ⟨sessions, ?_⟩
    rw [htab, tables_revokeSessions, hsave, ← listed_cons,
      ← Tables.setGrants_setGrants]
    rfl

theorem expireEach_total {now : Time} {gs : List PrivilegedGrant}
    (h : ∀ g ∈ gs, g.status = .active ∧ g.expired now = true ∧ g.organizationId = org ∧
      ∃ r, grantAt db g.id = some r ∧ r.organizationId = org) :
    ∃ db', expireEach org now gs db = .ok db' := by
  induction gs generalizing db with
  | nil => exact ⟨db, rfl⟩
  | cons g gs ih =>
    obtain ⟨hact, hexp, hg, r, hr, hrorg⟩ := h g List.mem_cons_self
    have hmove : g.expire now = .ok { g with status := .expired } := by
      simp [PrivilegedGrant.expire, hact, hexp]
    obtain ⟨db₁, hdb₁, htab⟩ :=
      saveDecision_stored (g := { g with status := .expired }) hr hg hrorg
    have hgrant (k : Uuid) : grantAt (revokeSessions db₁ (SessionQuery.byGrant g.id org).matches) k =
        (grantAt db k).map (edit (fun r => r.id = g.id && r.organizationId = org)
          (PrivilegedGrant.setStatus .expired)) := by
      have hsessions : (tables (revokeSessions db₁ (SessionQuery.byGrant g.id org).matches)).grant k =
          (tables db₁).grant k := by rw [tables_revokeSessions]
      exact hsessions.trans (congrFun (congrArg Tables.grant htab) k)
    obtain ⟨db', hdb'⟩ := ih fun a ha => by
      obtain ⟨haact, haexp, ha, r', hr', hr'org⟩ := h a (List.mem_cons_of_mem _ ha)
      refine ⟨haact, haexp, ha, _, by rw [hgrant, hr']; rfl, ?_⟩
      exact (edit_key _ (PrivilegedGrant.setStatus .expired) PrivilegedGrant.organizationId
        (fun _ => rfl) r').trans hr'org
    exact ⟨db', by simp only [expireEach, hmove, hdb₁, hdb', Except.mapError, bind, Except.bind]⟩

end Loops

section Calls

theorem Tables.setGrants_congr {t : Tables} {f g : PrivilegedGrant → Bool} {status : GrantStatus}
    (h : ∀ k r, t.grant k = some r → f r = g r) : t.setGrants f status = t.setGrants g status := by
  simp only [setGrants]
  congr 1
  funext k
  exact Option.map_congr fun r hr => by simp only [edit, h k r hr]

/-- The active grants that the revocation of a membership revokes with it. -/
def heldIn (org membershipId : Uuid) (g : PrivilegedGrant) : Bool :=
  g.organizationId = org && (g.subjectMembershipId = membershipId && g.status = .active)

theorem listed_listActiveByMembership {membershipId k : Uuid} {g : PrivilegedGrant}
    (hg : grantAt db k = some g) :
    listed org (listActiveByMembership db org membershipId) g = heldIn org membershipId g := by
  have hrow : grantAt db g.id = some g := by rw [grantAt_id hg, hg]
  rw [Bool.eq_iff_iff, listed, heldIn, Bool.and_eq_true, Bool.and_eq_true, decide_eq_true_eq,
    List.any_eq_true]
  constructor
  · rintro ⟨⟨r, hr, hid⟩, horg⟩
    obtain ⟨hr, -, htest⟩ := mem_listGrants.mp hr
    rw [← of_decide_eq_true hid, hrow, Option.some.injEq] at hr
    subst hr
    exact ⟨horg, htest⟩
  · rintro ⟨horg, htest⟩
    exact ⟨⟨g, mem_listGrants.mpr ⟨hrow, horg, htest⟩, decide_eq_true rfl⟩, horg⟩

/-- The revocation of a membership of the organization goes through: it revokes the
membership and those of its active grants that are recorded under the organization. -/
theorem revokeMembership_ok {membershipId : Uuid} {m : Membership}
    (hm : getMembership db org membershipId = some m) :
    ∃ p db₂, revokeMembership db org membershipId = (.ok p, revokeSessions db₂
        (SessionQuery.byMembership membershipId org).matches) ∧
      tables db₂ = ((tables db).setMemberships
        (fun r => r.id = membershipId && r.organizationId = org) .revoked).setGrants
          (heldIn org membershipId) .revoked := by
  obtain ⟨hrow, horg⟩ := getMembership_some hm
  have hid : m.id = membershipId := membershipAt_id hrow
  let db₁ := updateMemberships db (fun r => r.id = membershipId && r.organizationId = org) .revoked
  have hsave : saveRevocation db org m.revoke = .ok db₁ := by
    simp [saveRevocation, Membership.revoke, horg, hid, hrow, db₁]
  have htab₁ : tables db₁ = (tables db).setMemberships
      (fun r => r.id = membershipId && r.organizationId = org) .revoked := tables_updateMemberships
  obtain ⟨db₂, hdb₂⟩ : ∃ db₂,
      revokeEach org (listActiveByMembership db₁ org membershipId) db₁ = .ok db₂ := by
    apply revokeEach_total
    intro g hg
    obtain ⟨hg, hgorg, htest⟩ := mem_listGrants.mp hg
    exact ⟨of_decide_eq_true (Bool.and_eq_true_iff.mp htest).2, hgorg, g, hg, hgorg⟩
  refine ⟨(m.revoke, countSessions db₂ (SessionQuery.byMembership membershipId org).matches), db₂,
    ?_, ?_⟩
  · simp only [revokeMembership, hm, hsave, hid, hdb₂, bind, Except.bind, pure, Except.pure,
      Except.mapError, inTx]
  · rw [revokeEach_ok hdb₂, Tables.setGrants_congr fun k g hg => listed_listActiveByMembership hg,
      htab₁]

theorem tables_revokeMembership {membershipId : Uuid} {m : Membership}
    (hm : getMembership db org membershipId = some m) :
    ∃ sessions, tables (revokeMembership db org membershipId).2 =
      { ((tables db).setMemberships (fun r => r.id = membershipId && r.organizationId = org)
          .revoked).setGrants (heldIn org membershipId) .revoked with session := sessions } := by
  obtain ⟨p, db₂, hok, htab⟩ := revokeMembership_ok hm
  rw [hok, tables_revokeSessions, htab]
  exact ⟨_, rfl⟩

theorem revokeMembership_unknown {membershipId : Uuid}
    (hm : getMembership db org membershipId = none) :
    (revokeMembership db org membershipId).2 = db := by
  simp only [revokeMembership, hm, inTx]

theorem suspendForDeactivation_ok {membershipId : Uuid} {m : Membership}
    (hm : getMembership db org membershipId = some m) (hact : m.status = .active) :
    ∃ p, suspendForDeactivation db org membershipId = (.ok p, revokeSessions
      (updateMemberships db (fun r => r.id = membershipId && r.organizationId = org &&
        r.status = .active) .suspended) (SessionQuery.byMembership membershipId org).matches) := by
  obtain ⟨hrow, horg⟩ := getMembership_some hm
  have hid : m.id = membershipId := membershipAt_id hrow
  have hsus : m.suspend = .ok { m with status := .suspended } := by
    simp [Membership.suspend, Membership.transition, hact]
  have hsave : saveSuspension db org { m with status := .suspended } = .ok (updateMemberships db
      (fun r => r.id = m.id && r.organizationId = org && r.status = .active) .suspended) :=
    saveTransition_stored (by rw [hid]; exact hrow) horg horg hact
  rw [← hid]
  simp only [suspendForDeactivation, hid ▸ hm, hact, ne_eq, not_true_eq_false, if_false, hsus, hsave,
    bind, Except.bind, pure, Except.pure, inTx]
  exact ⟨_, rfl⟩

theorem tables_suspendForDeactivation {membershipId : Uuid} {m : Membership}
    (hm : getMembership db org membershipId = some m) (hact : m.status = .active) :
    ∃ sessions, tables (suspendForDeactivation db org membershipId).2 =
      { (tables db).setMemberships (fun r => r.id = membershipId && r.organizationId = org &&
          r.status = .active) .suspended with session := sessions } := by
  obtain ⟨p, hok⟩ := suspendForDeactivation_ok hm hact
  rw [hok, tables_revokeSessions, tables_updateMemberships]
  exact ⟨_, rfl⟩

theorem suspendForDeactivation_idle {membershipId : Uuid}
    (h : ∀ m, getMembership db org membershipId = some m → m.status ≠ .active) :
    (suspendForDeactivation db org membershipId).2 = db := by
  unfold suspendForDeactivation
  cases hm : getMembership db org membershipId with
  | none => rfl
  | some m => simp only [ne_eq, h m hm, not_false_eq_true, if_true, inTx]

theorem requestBreakglass_eq {c : Collaborators} (id org subject : Uuid) (target : GrantTarget)
    (n : ℕ) (justification incidentRef : String) (notBefore expiresAt : Time) :
    (∃ err, requestBreakglass c db id org subject target n justification incidentRef notBefore
        expiresAt = (.error err, db)) ∨
      ∃ g, g.status = .requested ∧ g.organizationId = org ∧ grantAt db g.id = none ∧
        g.stored.notBefore < g.stored.expiresAt ∧ requestBreakglass c db id org subject target n
          justification incidentRef notBefore expiresAt = (.ok g, insertGrant db g) := by
  unfold requestBreakglass
  set body := (if !c.available org then (.error .noNotificationChannel : Except ServiceError _)
    else do
      let g ← (newBreakglassRequest id org subject target n justification incidentRef notBefore
        expiresAt).mapError .grant
      if !c.notify g then .error .alertFailed
      else do
        let db' ← (createGrant db org g).mapError .grant
        return (g, db')) with hbody
  cases hres : body with
  | error err => exact Or.inl ⟨err, rfl⟩
  | ok p =>
    apply Or.inr
    rw [hbody] at hres
    split at hres
    · cases hres
    obtain ⟨g, hg, h₁⟩ := bind_eq_ok.mp hres
    split at h₁
    · cases h₁
    obtain ⟨db₁, hdb₁, h₂⟩ := bind_eq_ok.mp h₁
    obtain rfl := Except.ok.inj h₂
    have hcreate := mapError_eq_ok.mp hdb₁
    unfold createGrant at hcreate
    split at hcreate
    · cases hcreate
    rename_i horg
    split at hcreate
    · cases hcreate
    rename_i hkeys
    rw [not_or, not_not, Option.not_isSome_iff_eq_none] at hkeys
    obtain rfl := Except.ok.inj hcreate
    exact ⟨g, newBreakglassRequest_status (mapError_eq_ok.mp hg), not_not.mp horg, hkeys.1,
      hkeys.2, rfl⟩

theorem requestBreakglass_cases {c : Collaborators} (id org subject : Uuid) (target : GrantTarget)
    (n : ℕ) (justification incidentRef : String) (notBefore expiresAt : Time) :
    (requestBreakglass c db id org subject target n justification incidentRef notBefore
        expiresAt).2 = db ∨
      ∃ g, g.status = .requested ∧ (requestBreakglass c db id org subject target n justification
        incidentRef notBefore expiresAt).2 = insertGrant db g := by
  rcases requestBreakglass_eq id org subject target n justification incidentRef notBefore
    expiresAt with ⟨err, he⟩ | ⟨g, hg, -, -, -, he⟩
  · exact Or.inl (by rw [he])
  · exact Or.inr ⟨g, hg, by rw [he]⟩

theorem revokeGrant_cases (org grantId : Uuid) :
    (revokeGrant db org grantId).2 = db ∨ ∃ test sessions, tables (revokeGrant db org grantId).2 =
      { (tables db).setGrants test .revoked with session := sessions } := by
  unfold revokeGrant
  apply (inTx_cases db _).imp (fun h => h.2)
  rintro ⟨g', db', hok, hdb⟩
  rw [hdb]
  obtain ⟨⟨g₁, db₁⟩, hdec, h₁⟩ := bind_eq_ok.mp hok
  cases h₁
  obtain ⟨g, hg, ht⟩ := decideGrant_ok hdec
  obtain rfl := PrivilegedGrant.revoke_ok ht
  obtain ⟨db₂, hdec', htab⟩ := decideGrant_some hg ht rfl rfl
  obtain ⟨-, rfl⟩ := Prod.mk.inj (Except.ok.inj (hdec.symm.trans hdec'))
  rw [tables_revokeSessions, htab]
  exact ⟨_, _, rfl⟩

theorem expireDue_eq (db : Db) (org : Uuid) (now : Time) :
    ∃ db', expireDue db org now = (.ok (listActiveExpired db org now).length, db') ∧
      ∃ sessions, tables db' = { (tables db).setGrants (listed org (listActiveExpired db org now))
        .expired with session := sessions } := by
  have htotal : ∃ db', expireEach org now (listActiveExpired db org now) db = .ok db' := by
    apply expireEach_total
    intro g hg
    obtain ⟨hg, horg, htest⟩ := mem_listGrants.mp hg
    simp only [Bool.and_eq_true, decide_eq_true_eq] at htest
    refine ⟨htest.1, ?_, horg, g, hg, horg⟩
    simpa [PrivilegedGrant.expired] using htest.2
  obtain ⟨db', hdb'⟩ := htotal
  refine ⟨db', ?_, expireEach_ok hdb'⟩
  simp only [expireDue, hdb', bind, Except.bind, pure, Except.pure, inTx]

theorem tables_expireDue (db : Db) (org : Uuid) (now : Time) :
    ∃ sessions, tables (expireDue db org now).2 = { (tables db).setGrants
      (listed org (listActiveExpired db org now)) .expired with session := sessions } := by
  obtain ⟨db', he, htab⟩ := expireDue_eq db org now
  rw [he]
  exact htab

end Calls

section Frame

variable {c : Collaborators}

/-- The calls that write sessions or grants only. -/
def Op.leavesDirectory : Op → Bool
  | .establishSession .. => true
  | .requestBreakglass .. => true
  | .passStepUp .. => true
  | .approve .. => true
  | .revokeGrant .. => true
  | .expireDue .. => true
  | _ => false

theorem perform_leavesDirectory {op : Op} (h : op.leavesDirectory = true) :
    (tables (perform c db op)).identity = (tables db).identity ∧
      (tables (perform c db op)).membership = (tables db).membership := by
  have hsame {db' : Db} (he : db' = db) : (tables db').identity = (tables db).identity ∧
      (tables db').membership = (tables db).membership := by
    rw [he]
    exact ⟨rfl, rfl⟩
  cases op with
  | establishSession q =>
    rcases establishSession_cases q with hdb | ⟨s, -, hdb⟩
    · exact hsame hdb
    · rw [perform, hdb, tables_insertSession]
      exact ⟨rfl, rfl⟩
  | requestBreakglass id org subject target n justification incidentRef notBefore expiresAt =>
    rcases requestBreakglass_cases id org subject target n justification incidentRef notBefore
      expiresAt with hdb | ⟨g, -, hdb⟩
    · exact hsame hdb
    · rw [perform, hdb, tables_insertGrant]
      exact ⟨rfl, rfl⟩
  | passStepUp org grantId aal phishingResistant =>
    rcases decideGrant_cases (keepsRow_passStepUp aal phishingResistant) with
      ⟨-, hdb⟩ | ⟨g, g', -, -, htab⟩
    · exact hsame hdb
    · rw [perform, passStepUp, htab]
      exact ⟨rfl, rfl⟩
  | approve org grantId approver =>
    rcases decideGrant_cases (keepsRow_approve approver) with ⟨-, hdb⟩ | ⟨g, g', -, -, htab⟩
    · exact hsame hdb
    · rw [perform, approve, htab]
      exact ⟨rfl, rfl⟩
  | revokeGrant org grantId =>
    rcases revokeGrant_cases org grantId with hdb | ⟨test, sessions, htab⟩
    · exact hsame hdb
    · rw [perform, htab]
      exact ⟨rfl, rfl⟩
  | expireDue org now =>
    obtain ⟨sessions, htab⟩ := tables_expireDue db org now
    rw [perform, htab]
    exact ⟨rfl, rfl⟩
  | _ => cases h

end Frame

end ArchGuard.Tenancy
