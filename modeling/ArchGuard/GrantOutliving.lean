import ArchGuard.GrantHolder
import ArchGuard.IdentityHoldings

/-! No privilege outlives its holder: which calls keep it so. -/
namespace ArchGuard.Tenancy
open ReadCommitted TransitionRun

section Steps

variable {db : Db} {c : Collaborators}

attribute [local simp] KeepsHolders perform

theorem heldByActive_cascade (h : HeldByActive (tables db)) {identityId : Uuid} {i i' : Identity}
    {transition : Identity → Except DirectoryError Identity} {moved : Membership → Bool}
    {status : MembershipStatus} (hi : getIdentity db identityId = some i)
    (ht : transition i = .ok i') (hid : i'.id = i.id)
    (hmoved : ∀ m, m.status = .active → moved m = true) (hstatus : status ≠ .active) :
    HeldByActive (tables (inTx db (cascade db identityId transition moved status)).2) ↔
      ∀ k m, membershipAt db k = some m → m.identityId = identityId → m.status = .active →
        Unheld (tables db) k := by
  rw [tables_cascade hi ht hid]
  change HeldByActive ((tables db).setMemberships
    (fun m => m.identityId = identityId && moved m) status) ↔ _
  rw [h.setMemberships_iff hstatus]
  refine ⟨fun hall k m hm hown hact => ?_, fun hall k m hm htest hact => ?_⟩
  · exact hall k m hm (by simp [hown, hmoved m hact]) hact
  · simp only [Bool.and_eq_true, decide_eq_true_eq] at htest
    exact hall k m hm htest.1 hact

theorem heldByActive_suspendIdentity (h : HeldByActive (tables db)) (identityId : Uuid) :
    HeldByActive (tables (suspendIdentity db identityId).2) ↔
      KeepsHolders db (.suspendIdentity identityId) := by
  simp only [suspendIdentity, KeepsHolders]
  by_cases hok : ∃ i, getIdentity db identityId = some i ∧ i.status ≠ .deprovisioned
  · obtain ⟨i, hi, hne⟩ := hok
    have ht : i.suspend = .ok { i with status := .suspended } := by simp [Identity.suspend, hne]
    refine (heldByActive_cascade h hi ht rfl (fun m hm => decide_eq_true hm) ?_).trans
      ⟨fun hall _ _ _ => hall, fun hall => hall i hi hne⟩
    exact nofun
  · rw [cascade_refused fun i i' hi ht => hok ⟨i, hi, fun hd => by simp [Identity.suspend, hd] at ht⟩]
    exact iff_of_true h fun i hi hne => absurd ⟨i, hi, hne⟩ hok

theorem heldByActive_deprovisionIdentity (h : HeldByActive (tables db)) (identityId : Uuid) :
    HeldByActive (tables (deprovisionIdentity db identityId).2) ↔
      KeepsHolders db (.deprovisionIdentity identityId) := by
  simp only [deprovisionIdentity, KeepsHolders]
  cases hi : getIdentity db identityId with
  | none =>
    rw [cascade_refused fun i i' hi' => by rw [hi] at hi'; cases hi']
    exact iff_of_true h fun i hi => by cases hi
  | some i =>
    have hmoved (m : Membership) (hm : m.status = .active) : decide (m.status ≠ .revoked) = true := by
      simp [hm]
    have hrevoked : MembershipStatus.revoked ≠ .active := nofun
    exact Iff.trans (heldByActive_cascade h hi rfl rfl hmoved hrevoked)
      ⟨fun hall _ _ => hall, fun hall => hall i rfl⟩

theorem heldByActive_suspendForDeactivation (h : HeldByActive (tables db))
    (org membershipId : Uuid) :
    HeldByActive (tables (suspendForDeactivation db org membershipId).2) ↔
      KeepsHolders db (.suspendForDeactivation org membershipId) := by
  simp only [KeepsHolders]
  by_cases hok : ∃ m, getMembership db org membershipId = some m ∧ m.status = .active
  swap
  · rw [suspendForDeactivation_idle fun m hm hact => hok ⟨m, hm, hact⟩]
    exact iff_of_true h fun m hm hact => absurd ⟨m, hm, hact⟩ hok
  obtain ⟨m, hm, hact⟩ := hok
  obtain ⟨hrow, horg⟩ := getMembership_some hm
  obtain ⟨sessions, htab⟩ := tables_suspendForDeactivation hm hact
  have hsuspended : MembershipStatus.suspended ≠ .active := nofun
  rw [htab]
  refine (h.setMemberships_iff hsuspended).trans
    ⟨fun hall _ _ _ => ?_, fun hall k r hr htest _ => ?_⟩
  · exact hall membershipId m hrow (by simp [membershipAt_id hrow, horg, hact]) hact
  · simp only [Bool.and_eq_true, decide_eq_true_eq] at htest
    rw [← membershipAt_id hr, htest.1.1]
    exact hall m hm hact

theorem heldByActive_revokeMembership (h : HeldByActive (tables db)) (org membershipId : Uuid) :
    HeldByActive (tables (revokeMembership db org membershipId).2) ↔
      KeepsHolders db (.revokeMembership org membershipId) := by
  simp only [KeepsHolders]
  cases hm : getMembership db org membershipId with
  | none =>
    rw [revokeMembership_unknown hm]
    exact iff_of_true h fun m hm => by cases hm
  | some m =>
    obtain ⟨hrow, horg⟩ := getMembership_some hm
    obtain ⟨sessions, htab⟩ := tables_revokeMembership hm
    rw [htab]
    constructor
    · rintro hafter m' - k g hg hact hsub
      by_contra hne
      have hkeep : edit (heldIn org membershipId) (PrivilegedGrant.setStatus .revoked) g = g := by
        simp [edit, heldIn, hne]
      obtain ⟨r, hr, hract⟩ := hafter k g (by
        change (grantAt db k).map _ = _
        rw [hg, Option.map_some, hkeep]) hact
      change (membershipAt db g.subjectMembershipId).map _ = some r at hr
      rw [hsub, hrow, Option.map_some, Option.some.injEq] at hr
      subst hr
      simp [edit, membershipAt_id hrow, horg, Membership.setStatus] at hract
    · intro hall k g hg hact
      obtain ⟨g₀, hg₀, rfl⟩ := Option.map_eq_some_iff.mp hg
      by_cases hheld : heldIn org membershipId g₀ = true
      · simp only [edit, hheld, if_true] at hact
        cases hact
      simp only [edit, hheld] at hact ⊢
      obtain ⟨r, hr, hract⟩ := h k g₀ hg₀ hact
      have hother : r.id ≠ membershipId := by
        intro heq
        have hsub : g₀.subjectMembershipId = membershipId := (membershipAt_id hr).symm.trans heq
        apply hheld
        simp [heldIn, hsub, show g₀.status = .active from hact,
          hall m rfl k g₀ hg₀ hact hsub]
      refine ⟨r, ?_, hract⟩
      change (membershipAt db g₀.subjectMembershipId).map _ = some r
      rw [show membershipAt db g₀.subjectMembershipId = some r from hr, Option.map_some]
      simp [edit, hother]

theorem heldByActive_decideGrant (h : HeldByActive (tables db)) {org grantId : Uuid}
    {transition : PrivilegedGrant → Except GrantError PrivilegedGrant} (hkeep : KeepsRow transition) :
    HeldByActive (tables (inTx db (decideGrant db org grantId transition)).2) ↔
      ∀ g, getGrant db org grantId = some g →
        (∃ g', transition g = .ok g' ∧ g'.status = .active) →
          (tables db).Live g.subjectMembershipId := by
  rcases decideGrant_cases hkeep with ⟨hno, hdb⟩ | ⟨g, g', hg, ht, htab⟩
  · rw [hdb]
    exact iff_of_true h fun g hg ⟨g', ht, _⟩ => absurd ht (hno g g' hg)
  obtain ⟨r, hr, hrorg, rfl⟩ := getGrant_some hg
  rw [htab, h.setGrant_iff hr fun k' g'' hg'' => ?_]
  · constructor
    · rintro hlive g₁ hg₁ ⟨g₂, ht₂, hact⟩
      obtain rfl := Option.some.inj (hg.symm.trans hg₁)
      obtain rfl := Except.ok.inj (ht.symm.trans ht₂)
      exact hlive hact
    · intro hall hact
      have hlive := hall _ hg ⟨g', ht, hact⟩
      exact hlive
  · rw [Bool.and_eq_true, decide_eq_true_eq, decide_eq_true_eq, grantAt_id hg'']
    constructor
    · exact fun hboth => hboth.1
    · rintro rfl
      obtain rfl := Option.some.inj (hr.symm.trans hg'')
      exact ⟨rfl, hrorg⟩

theorem heldByActive_perform (h : HeldByActive (tables db)) (op : Op) :
    HeldByActive (tables (perform c db op)) ↔ KeepsHolders db op := by
  cases op with
  | suspendIdentity identityId => exact heldByActive_suspendIdentity h identityId
  | deprovisionIdentity identityId => exact heldByActive_deprovisionIdentity h identityId
  | revokeMembership org membershipId => exact heldByActive_revokeMembership h org membershipId
  | suspendForDeactivation org membershipId =>
    exact heldByActive_suspendForDeactivation h org membershipId
  | passStepUp org grantId aal phishingResistant =>
    apply (heldByActive_decideGrant h (keepsRow_passStepUp aal phishingResistant)).trans
    simp only [passStepUp_active_iff, KeepsHolders]
  | approve org grantId approver =>
    apply (heldByActive_decideGrant h (keepsRow_approve approver)).trans
    simp only [approve_active_iff, KeepsHolders]
  | establishSession q =>
    refine iff_of_true ?_ trivial
    rcases establishSession_cases q with hdb | ⟨s, -, hdb⟩
    · rw [perform, hdb]
      exact h
    · rw [perform, hdb, tables_insertSession]
      exact h
  | requestBreakglass id org subject target n justification incidentRef notBefore expiresAt =>
    refine iff_of_true ?_ trivial
    rcases requestBreakglass_cases id org subject target n justification incidentRef notBefore
      expiresAt with hdb | ⟨g, hreq, hdb⟩
    · rw [perform, hdb]
      exact h
    · rw [perform, hdb, tables_insertGrant]
      intro k r hr hact
      change Function.update (grantAt db) g.id (some g.stored) k = some r at hr
      by_cases hk : k = g.id
      · subst hk
        rw [Function.update_self, Option.some.injEq] at hr
        subst hr
        exact absurd (hreq.symm.trans hact) (by decide)
      · rw [Function.update_of_ne hk] at hr
        exact h k r hr hact
  | revokeGrant org grantId =>
    refine iff_of_true ?_ trivial
    rcases revokeGrant_cases org grantId with hdb | ⟨test, sessions, htab⟩
    · rw [perform, hdb]
      exact h
    · rw [perform, htab]
      exact h.setGrants fun hact => absurd hact (by decide)
  | expireDue org now =>
    refine iff_of_true ?_ trivial
    obtain ⟨sessions, htab⟩ := tables_expireDue db org now
    rw [perform, htab]
    exact h.setGrants fun hact => absurd hact (by decide)
  | _ => exact iff_of_true ((admission_perform rfl).heldByActive h) trivial

theorem keepsRevoked_cascade {identityId : Uuid}
    {transition : Identity → Except DirectoryError Identity} {moved : Membership → Bool}
    {status : MembershipStatus} (hkeep : ∀ i i', transition i = .ok i' → i'.id = i.id)
    (hmoved : ∀ m, m.status = .revoked → moved m = true → status = .revoked) :
    KeepsRevoked (tables db)
      (tables (inTx db (cascade db identityId transition moved status)).2) := by
  by_cases hok : ∃ i i', getIdentity db identityId = some i ∧ transition i = .ok i'
  · obtain ⟨i, i', hi, ht⟩ := hok
    rw [tables_cascade hi ht (hkeep i i' ht)]
    apply keepsRevoked_setMemberships rfl
    intro m hrev htest
    exact hmoved m hrev (Bool.and_eq_true_iff.mp htest).2
  · rw [cascade_refused fun i i' hi ht => hok ⟨i, i', hi, ht⟩]
    exact keepsRevoked_of_eq rfl

theorem keepsRevoked_perform (op : Op) : KeepsRevoked (tables db) (tables (perform c db op)) := by
  cases op with
  | suspendIdentity identityId =>
    apply keepsRevoked_cascade (fun i i' hi => Identity.suspend_id hi)
    intro m hrev hmoved
    simp [hrev] at hmoved
  | deprovisionIdentity identityId =>
    exact keepsRevoked_cascade (fun i i' hi => Except.ok.inj hi ▸ rfl) fun _ _ _ => rfl
  | revokeMembership org membershipId =>
    simp only [perform]
    cases hm : getMembership db org membershipId with
    | none =>
      rw [revokeMembership_unknown hm]
      exact keepsRevoked_of_eq rfl
    | some m =>
      obtain ⟨sessions, htab⟩ := tables_revokeMembership hm
      rw [htab]
      exact keepsRevoked_setMemberships rfl fun _ _ _ => rfl
  | suspendForDeactivation org membershipId =>
    simp only [perform]
    by_cases hok : ∃ m, getMembership db org membershipId = some m ∧ m.status = .active
    · obtain ⟨m, hm, hact⟩ := hok
      obtain ⟨sessions, htab⟩ := tables_suspendForDeactivation hm hact
      rw [htab]
      apply keepsRevoked_setMemberships rfl
      intro r hrev htest
      simp [hrev] at htest
    · rw [suspendForDeactivation_idle fun m hm hact => hok ⟨m, hm, hact⟩]
      exact keepsRevoked_of_eq rfl
  | inviteByEmail org email invitedBy membershipId => exact (admission_perform rfl).keepsRevoked
  | accept org membershipId identityId => exact (admission_perform rfl).keepsRevoked
  | provisionUser org email draw => exact (admission_perform rfl).keepsRevoked
  | provisionFederated org email draw => exact (admission_perform rfl).keepsRevoked
  | _ => exact keepsRevoked_of_eq (perform_leavesDirectory rfl).2

end Steps

/-- In every state of the run the active grants are held by active memberships, and no grant
of a revoked membership is active in any later state. -/
def GrantsKeepHolders (c : Collaborators) (db : Db) (ops : List Op) : Prop :=
  ∀ pre post db', ops = pre ++ post → run (call c) db pre = some db' →
    HeldByActive (tables db') ∧
      ∀ later rest db'' k m gk g, post = later ++ rest → run (call c) db' later = some db'' →
        membershipAt db' k = some m → m.status = .revoked → grantAt db'' gk = some g →
          g.subjectMembershipId = k → g.status ≠ .active

/-- The runs in which no privilege outlives its holder are those whose calls activate grants
for active holders only and remove no holder of an active grant. -/
theorem grantsKeepHolders_iff {c : Collaborators} {db : Db} {ops : List Op}
    (hdb : HeldByActive (tables db)) :
    GrantsKeepHolders c db ops ↔ Along (call c) KeepsHolders db ops := by
  have hstays : (∀ pre post db', ops = pre ++ post → run (call c) db pre = some db' →
      HeldByActive (tables db')) ↔ Along (call c) KeepsHolders db ops :=
    stays_iff_along (I := fun db => HeldByActive (tables db)) (fun _ _ => rfl)
      (fun _ op _ hs he => Option.some.inj he ▸ heldByActive_perform hs op) hdb
  rw [← hstays]
  constructor
  · exact fun h pre post db' he hrun => (h pre post db' he hrun).1
  · rintro h pre post db' rfl hrun
    refine ⟨h pre post db' rfl hrun, ?_⟩
    rintro later rest db'' k m gk g rfl hlater hm hrev hg rfl hact
    -- the later state is one of the run's too, and the holder is still revoked there
    have hkeeps : KeepsRevoked (tables db') (tables db'') := by
      refine relation_always (R := fun db db' => KeepsRevoked (tables db) (tables db'))
        (fun _ => keepsRevoked_of_eq rfl) (fun s t u hst htu k m hm hrev => ?_)
        (fun s op s' he => Option.some.inj he ▸ keepsRevoked_perform op) hlater
      obtain ⟨m', hm', hrev'⟩ := hst k m hm hrev
      exact htu k m' hm' hrev'
    obtain ⟨m', hm', hrev'⟩ := hkeeps _ m hm hrev
    have hwhole : run (call c) db (pre ++ later) = some db'' := run_append.mpr ⟨db', hrun, hlater⟩
    obtain ⟨m'', hm'', hact'⟩ :=
      h (pre ++ later) rest db'' (List.append_assoc ..).symm hwhole gk g hg hact
    obtain rfl := Option.some.inj (hm'.symm.trans hm'')
    rw [hrev'] at hact'
    cases hact'

namespace Sample

/-- A member asks for a grant that needs one approval and passes its step-up. -/
def awaitingApproval : List Op :=
  [.provisionUser 1 "ana@cli.com" ⟨2, "s2", 3⟩,
    .requestBreakglass 6 1 3 ⟨"asset", "a", "admin"⟩ 1 "outage" "INC-1" 1000 9000,
    .passStepUp 1 6 .aal3 true]

def approvedThenRevoked : List Op :=
  awaitingApproval ++ [.approve 1 6 9, .revokeMembership 1 3]

def revokedThenApproved : List Op :=
  awaitingApproval ++ [.revokeMembership 1 3, .approve 1 6 9]

def keepsTest (db : Db) : Op → Bool
  | .passStepUp org grantId _ _ => (getGrant db org grantId).all fun g => g.requiredApprovals ≠ 0
  | .approve org grantId _ => (getGrant db org grantId).all fun g =>
      (membershipAt db g.subjectMembershipId).any fun m => m.status = .active
  | .revokeMembership org _ => (db.scan fun
      | .grant _, g => some g.1.organizationId
      | _, _ => none).all fun o => o = org
  | .suspendForDeactivation .. => false
  | .suspendIdentity .. => false
  | .deprovisionIdentity .. => false
  | _ => true

theorem keepsHolders_of_test (db : Db) (op : Op) (h : keepsTest db op = true) :
    KeepsHolders db op := by
  cases op with
  | passStepUp org grantId aal phishingResistant =>
    rintro g hg ⟨-, hzero, -⟩
    simp [keepsTest, hg, hzero] at h
  | approve org grantId approver =>
    intro g hg _
    simp only [keepsTest, hg, Option.all_some] at h
    obtain ⟨m, hm, hact⟩ := (Option.any_eq_true _ _).mp h
    exact ⟨m, hm, of_decide_eq_true hact⟩
  | revokeMembership org membershipId =>
    intro _ _ k g hg _ _
    obtain ⟨v, hv, rfl⟩ := Option.map_eq_some_iff.mp hg
    refine of_decide_eq_true (List.all_eq_true.mp h v.1.organizationId ?_)
    exact (Store.mem_scan db).mpr ⟨.grant k, v, hv, rfl⟩
  | suspendForDeactivation org membershipId => cases h
  | suspendIdentity identityId => cases h
  | deprovisionIdentity identityId => cases h
  | _ => trivial

theorem heldByActive_empty : HeldByActive (tables Store.empty) := nofun

end Sample

theorem grantsKeepHolders_revoked :
    GrantsKeepHolders Sample.collaborators Store.empty Sample.approvedThenRevoked ∧
      (run (call Sample.collaborators) Store.empty Sample.approvedThenRevoked).any
        (fun db => (membershipAt db 3).any (fun m => m.status = .revoked) &&
          (grantAt db 6).any fun g => g.status = .revoked) = true :=
  ⟨(grantsKeepHolders_iff Sample.heldByActive_empty).mpr
    (along_of_check Sample.keepsHolders_of_test (by decide +kernel)), by decide +kernel⟩

/-- A grant that awaits approval when its holder is revoked is approved afterwards. -/
theorem grant_outlives_holder :
    ¬GrantsKeepHolders Sample.collaborators Store.empty Sample.revokedThenApproved := by
  intro h
  have hrun : (run (call Sample.collaborators) Store.empty Sample.revokedThenApproved).any
      (fun db => (grantAt db 6).any (fun g => g.subjectMembershipId = 3 && g.status = .active) &&
        (membershipAt db 3).any fun m => m.status = .revoked) = true := by
    decide +kernel
  obtain ⟨db, hdb, hboth⟩ := (Option.any_eq_true _ _).mp hrun
  obtain ⟨hgrant, hmember⟩ := Bool.and_eq_true_iff.mp hboth
  obtain ⟨g, hg, hst⟩ := (Option.any_eq_true _ _).mp hgrant
  obtain ⟨hsub, hact⟩ := Bool.and_eq_true_iff.mp hst
  obtain ⟨m, hm, hrev⟩ := (Option.any_eq_true _ _).mp hmember
  obtain ⟨m', hm', hact'⟩ :=
    (h _ [] db (List.append_nil _).symm hdb).1 6 g hg (of_decide_eq_true hact)
  rw [of_decide_eq_true hsub] at hm'
  obtain rfl := Option.some.inj (hm.symm.trans hm')
  rw [of_decide_eq_true hrev] at hact'
  cases hact'

end ArchGuard.Tenancy
