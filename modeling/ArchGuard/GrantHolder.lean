import ArchGuard.LifecycleGrants

/-! Active grants and the memberships that hold them. -/
namespace ArchGuard.Tenancy
open ReadCommitted TransitionRun

def Tables.Live (t : Tables) (membershipId : Uuid) : Prop :=
  ∃ m, t.membership membershipId = some m ∧ m.status = .active

def HeldByActive (t : Tables) : Prop :=
  ∀ k g, t.grant k = some g → g.status = .active → t.Live g.subjectMembershipId

def Unheld (t : Tables) (membershipId : Uuid) : Prop :=
  ∀ k g, t.grant k = some g → g.status = .active → g.subjectMembershipId ≠ membershipId

def activatedByStepUp (g : PrivilegedGrant) (provenAAL : Aal) (phishingResistant : Bool) : Prop :=
  g.status = .requested ∧ g.requiredApprovals = 0 ∧ phishingResistant = true ∧
    provenAAL.atLeast .aal2 = true

def activatedByApproval (g : PrivilegedGrant) (approver : Uuid) : Prop :=
  g.status = .awaitingApproval ∧ approver ≠ Uuid.nil ∧ approver ≠ g.subjectMembershipId ∧
    approver ∉ g.approvals ∧ g.requiredApprovals ≤ g.approvals.length+1

/-- A step-up or an approval activates a grant only for an active holder, and no membership
is removed from under an active grant. -/
def KeepsHolders (db : Db) : Op → Prop
  | .passStepUp org grantId aal phishingResistant => ∀ g, getGrant db org grantId = some g →
      activatedByStepUp g aal phishingResistant → (tables db).Live g.subjectMembershipId
  | .approve org grantId approver => ∀ g, getGrant db org grantId = some g →
      activatedByApproval g approver → (tables db).Live g.subjectMembershipId
  | .suspendForDeactivation org membershipId => ∀ m, getMembership db org membershipId = some m →
      m.status = .active → Unheld (tables db) membershipId
  | .suspendIdentity identityId => ∀ i, getIdentity db identityId = some i →
      i.status ≠ .deprovisioned → ∀ k m, membershipAt db k = some m → m.identityId = identityId →
        m.status = .active → Unheld (tables db) k
  | .deprovisionIdentity identityId => ∀ i, getIdentity db identityId = some i →
      ∀ k m, membershipAt db k = some m → m.identityId = identityId → m.status = .active →
        Unheld (tables db) k
  | .revokeMembership org membershipId => ∀ m, getMembership db org membershipId = some m →
      ∀ k g, grantAt db k = some g → g.status = .active → g.subjectMembershipId = membershipId →
        g.organizationId = org
  | _ => True

section Domain

variable {g g' : PrivilegedGrant}

theorem passStepUp_active_iff {aal : Aal} {phishingResistant : Bool} :
    (∃ g', g.passStepUp aal phishingResistant = .ok g' ∧ g'.status = .active) ↔
      activatedByStepUp g aal phishingResistant := by
  unfold PrivilegedGrant.passStepUp activatedByStepUp
  constructor
  · rintro ⟨g', h, hact⟩
    split at h
    · cases h
    rename_i hs
    split at h
    · cases h
    rename_i hstep
    obtain rfl := Except.ok.inj h
    have hzero : g.requiredApprovals = 0 := by
      by_contra hne
      simp [hne] at hact
    simp only [Bool.or_eq_true, Bool.not_eq_true', not_or, Bool.not_eq_false] at hstep
    exact ⟨not_not.mp hs, hzero, hstep.1, hstep.2⟩
  · rintro ⟨hs, hzero, hphish, haal⟩
    exact ⟨_, by simp only [hs, ne_eq, not_true_eq_false, if_false, hphish, haal, Bool.not_true,
      Bool.or_self, Bool.false_eq_true]; rfl, by simp [hzero]⟩

theorem approve_active_iff {approver : Uuid} :
    (∃ g', g.approve approver = .ok g' ∧ g'.status = .active) ↔ activatedByApproval g approver := by
  unfold PrivilegedGrant.approve activatedByApproval
  constructor
  · rintro ⟨g', h, hact⟩
    split at h
    · cases h
    rename_i hs
    split at h
    · cases h
    rename_i hnil
    split at h
    · cases h
    rename_i hself
    split at h
    · cases h
    rename_i hdup
    obtain rfl := Except.ok.inj h
    have hs' : g.status = .awaitingApproval := not_not.mp hs
    refine ⟨hs', hnil, hself, hdup, ?_⟩
    by_contra hlt
    simp [hs', hlt] at hact
  · rintro ⟨hs, hnil, hself, hdup, hle⟩
    exact ⟨_, by simp only [hs, ne_eq, not_true_eq_false, if_false, hnil, hself, hdup]; rfl,
      by simp [hle]⟩

end Domain

namespace HeldByActive

variable {t : Tables}

theorem setGrants (h : HeldByActive t) {test : PrivilegedGrant → Bool} {status : GrantStatus}
    (hs : status ≠ .active) : HeldByActive (t.setGrants test status) := by
  intro k g hg hact
  obtain ⟨g₀, hg₀, rfl⟩ := Option.map_eq_some_iff.mp hg
  by_cases htest : test g₀ = true
  · simp only [edit, htest, if_true] at hact
    exact absurd hact hs
  · simp only [edit, htest] at hact ⊢
    exact h k g₀ hg₀ hact

theorem setMemberships_iff (h : HeldByActive t) {test : Membership → Bool}
    {status : MembershipStatus} (hs : status ≠ .active) :
    HeldByActive (t.setMemberships test status) ↔
      ∀ k m, t.membership k = some m → test m = true → m.status = .active → Unheld t k := by
  constructor
  · intro hafter k m hm htest _ gk g hg hact hsub
    obtain ⟨m', hm', hact'⟩ := hafter gk g hg hact
    change (t.membership g.subjectMembershipId).map _ = some m' at hm'
    rw [hsub, hm, Option.map_some, Option.some.injEq] at hm'
    subst hm'
    simp only [edit, htest, if_true] at hact'
    exact hs hact'
  · intro hok k g hg hact
    obtain ⟨m, hm, hmact⟩ := h k g hg hact
    have htest : ¬test m = true := fun ht => hok _ m hm ht hmact k g hg hact rfl
    refine ⟨m, ?_, hmact⟩
    change (t.membership g.subjectMembershipId).map _ = some m
    simp [hm, edit, htest]

theorem setGrant_iff (h : HeldByActive t) {k : Uuid} {g : PrivilegedGrant}
    {test : PrivilegedGrant → Bool} {status : GrantStatus} (hg : t.grant k = some g)
    (htest : ∀ k' g', t.grant k' = some g' → (test g' = true ↔ k' = k)) :
    HeldByActive (t.setGrants test status) ↔
      (status = .active → t.Live g.subjectMembershipId) := by
  constructor
  · intro hafter hs
    refine hafter k (g.setStatus status) ?_ hs
    change (t.grant k).map _ = _
    simp [hg, edit, (htest k g hg).mpr rfl]
  · intro hok k' r hr hact
    obtain ⟨g', hg', rfl⟩ := Option.map_eq_some_iff.mp hr
    by_cases ht : test g' = true
    · obtain rfl := (htest k' g' hg').mp ht
      obtain rfl := Option.some.inj (hg.symm.trans hg')
      simp only [edit, ht, if_true] at hact ⊢
      exact hok hact
    · simp only [edit, ht] at hact ⊢
      exact h k' g' hg' hact

end HeldByActive

def KeepsRevoked (t t' : Tables) : Prop :=
  ∀ k m, t.membership k = some m → m.status = .revoked →
    ∃ m', t'.membership k = some m' ∧ m'.status = .revoked

theorem keepsRevoked_of_eq {t t' : Tables} (h : t'.membership = t.membership) : KeepsRevoked t t' :=
  fun _ m hm hrev => ⟨m, by rw [h, hm], hrev⟩

theorem keepsRevoked_setMemberships {t t' : Tables} {test : Membership → Bool}
    {status : MembershipStatus} (htab : t'.membership = (t.setMemberships test status).membership)
    (htest : ∀ m, m.status = .revoked → test m = true → status = .revoked) : KeepsRevoked t t' := by
  intro k m hm hrev
  refine ⟨edit test (Membership.setStatus status) m, ?_, ?_⟩
  · rw [htab]
    change (t.membership k).map _ = _
    rw [hm, Option.map_some]
  · unfold edit
    split
    · rename_i ht
      exact htest m hrev ht
    · exact hrev

/-- What letting an identity in can do: a new membership, or one that becomes active. -/
structure Admission (t t' : Tables) : Prop where
  grant : t'.grant = t.grant
  membership : t'.membership = t.membership ∨
    (∃ m, t.membership m.id = none ∧
      t'.membership = Function.update t.membership m.id (some m)) ∨
    ∃ test, t'.membership = (t.setMemberships test .active).membership ∧
      ∀ m, test m = true → m.status ≠ .revoked

namespace Admission

variable {t t' : Tables}

theorem refl (t : Tables) : Admission t t := ⟨rfl, Or.inl rfl⟩

theorem keeps (h : Admission t t') {k : Uuid} {m : Membership} (hm : t.membership k = some m)
    (hs : m.status = .active ∨ m.status = .revoked) :
    ∃ m', t'.membership k = some m' ∧ m'.status = m.status := by
  rcases h.membership with he | ⟨r, hnew, he⟩ | ⟨test, he, htest⟩
  · exact ⟨m, by rw [he, hm], rfl⟩
  · have hk : k ≠ r.id := by
      rintro rfl
      rw [hnew] at hm
      cases hm
    exact ⟨m, by rw [he, Function.update_of_ne hk, hm], rfl⟩
  · refine ⟨edit test (Membership.setStatus .active) m, ?_, ?_⟩
    · rw [he]
      change (t.membership k).map _ = _
      rw [hm, Option.map_some]
    · unfold edit
      split
      · rename_i ht
        exact (hs.resolve_right (htest m ht)).symm
      · rfl

theorem heldByActive (h : Admission t t') (ht : HeldByActive t) : HeldByActive t' := by
  intro k g hg hact
  rw [h.grant] at hg
  obtain ⟨m, hm, hmact⟩ := ht k g hg hact
  obtain ⟨m', hm', hst⟩ := h.keeps hm (Or.inl hmact)
  exact ⟨m', hm', hst.trans hmact⟩

theorem keepsRevoked (h : Admission t t') : KeepsRevoked t t' := by
  intro k m hm hrev
  obtain ⟨m', hm', hst⟩ := h.keeps hm (Or.inr hrev)
  exact ⟨m', hm', hst.trans hrev⟩

end Admission

section Admissions

variable {db : Db} {c : Collaborators}

theorem admission_insertMembership {m : Membership} (h : membershipAt db m.id = none) :
    Admission (tables db) (tables (insertMembership db m)) := by
  rw [tables_insertMembership]
  exact ⟨rfl, Or.inr (Or.inl ⟨m, h, rfl⟩)⟩

theorem admission_activate {test : Membership → Bool}
    (h : ∀ m, test m = true → m.status ≠ .revoked) :
    Admission (tables db) (tables (updateMemberships db test .active)) := by
  rw [tables_updateMemberships]
  exact ⟨rfl, Or.inr (Or.inr ⟨test, rfl, h⟩)⟩

theorem admission_insertIdentity {i : Identity} {t : Tables}
    (h : Admission (tables (insertIdentity db i)) t) : Admission (tables db) t := by
  rw [tables_insertIdentity] at h
  exact ⟨h.grant, h.membership⟩

theorem admission_ensureMembership (org identityId id : Uuid) :
    Admission (tables db) (tables (committed db
      ((ensureMembership db org identityId id).mapError ServiceError.ensureMembership))) := by
  by_cases hj : Joins db org identityId id
  · rw [ensureMembership_joins hj]
    exact admission_insertMembership hj.2.2.2
  · rw [ensureMembership_stays hj]
    exact .refl _

theorem admission_ensureActiveMembership (org identityId id : Uuid) :
    Admission (tables db) (tables (committed db
      ((ensureActiveMembership db org identityId id).mapError
        ServiceError.ensureActiveMembership))) := by
  by_cases hj : Joins db org identityId id
  · rw [ensureActiveMembership_joins hj]
    exact admission_insertMembership hj.2.2.2
  by_cases hr : ∃ m, Returns db org identityId m
  · obtain ⟨m, hm⟩ := hr
    rw [ensureActiveMembership_returns hm]
    apply admission_activate
    intro r hr hrev
    simp only [Bool.and_eq_true, decide_eq_true_eq] at hr
    have hs := hm.2.2
    rw [← hr.2, hrev] at hs
    rcases hs with hs | hs <;> cases hs
  · rw [ensureActiveMembership_stays hj fun m hm => hr ⟨m, hm⟩]
    exact .refl _

theorem admission_provision {email : String} {draw : ProvisionDraw}
    {ensure : Db → Uuid → Except ServiceError Db}
    (hensure : ∀ db' id, Admission (tables db') (tables (committed db' (ensure db' id)))) :
    Admission (tables db) (tables (provision c db email draw ensure).2) := by
  cases hr : resolved c db email with
  | some i =>
    rw [provision_known hr]
    exact hensure db i.id
  | none =>
    rcases provision_unknown hr with hdb | ⟨i, -, -, hdb⟩
    · rw [hdb]
      exact .refl _
    · rw [hdb]
      exact admission_insertIdentity (hensure _ i.id)

def Op.admits : Op → Bool
  | .inviteByEmail .. => true
  | .accept .. => true
  | .provisionUser .. => true
  | .provisionFederated .. => true
  | _ => false

theorem admission_perform {op : Op} (h : op.admits = true) :
    Admission (tables db) (tables (perform c db op)) := by
  cases op with
  | inviteByEmail org email invitedBy membershipId =>
    rcases inviteByEmail_cases org email invitedBy membershipId with hdb | ⟨m, -, hnew, hdb⟩
    · rw [perform, hdb]
      exact .refl _
    · rw [perform, hdb]
      exact admission_insertMembership hnew
  | accept org membershipId identityId =>
    rcases accept_cases org membershipId identityId with hdb | ⟨m, i, -, -, -, hdb⟩
    · rw [perform, hdb]
      exact .refl _
    · rw [perform, hdb]
      apply admission_activate
      intro r hr hrev
      simp [hrev] at hr
  | provisionUser org email draw =>
    rw [perform, provisionUser]
    split
    · exact .refl _
    · exact admission_provision fun db' id => admission_ensureMembership org id draw.membershipId
  | provisionFederated org email draw =>
    rw [perform, provisionFederated]
    split
    · exact .refl _
    · exact admission_provision fun db' id =>
        admission_ensureActiveMembership org id draw.membershipId
  | _ => cases h

end Admissions

end ArchGuard.Tenancy
