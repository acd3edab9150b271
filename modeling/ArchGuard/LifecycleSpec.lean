import ArchGuard.LifecycleOps

/-! What each call of a service leaves in the tables. -/
namespace ArchGuard.Tenancy
open ReadCommitted

variable {db : Db}

theorem inTx_ok {ε α : Type} {body : Except ε (α × Db)} {a : α} {db' : Db}
    (h : body = .ok (a, db')) : (inTx db body).2 = db' := by
  rw [h]
  rfl

/-- A transaction commits its rows or leaves the tables alone. -/
theorem inTx_cases {ε α : Type} (db : Db) (body : Except ε (α × Db)) :
    ((∀ p, body ≠ .ok p) ∧ (inTx db body).2 = db) ∨
      ∃ a db', body = .ok (a, db') ∧ (inTx db body).2 = db' := by
  cases body with
  | error err => exact Or.inl ⟨fun p => nofun, rfl⟩
  | ok p => exact Or.inr ⟨p.1, p.2, rfl, rfl⟩

section Queries

theorem getIdentity_id {id : Uuid} {i : Identity} (h : getIdentity db id = some i) : i.id = id := by
  obtain ⟨v, -, rfl⟩ := Option.map_eq_some_iff.mp h
  exact v.2

theorem membershipAt_id {id : Uuid} {m : Membership} (h : membershipAt db id = some m) : m.id = id :=
  (row_of_membershipAt h).1

theorem grantAt_id {id : Uuid} {g : PrivilegedGrant} (h : grantAt db id = some g) : g.id = id := by
  obtain ⟨v, -, rfl⟩ := Option.map_eq_some_iff.mp h
  exact v.2.1

theorem findByEmailHash_some {hash : Bytes} {i : Identity} (h : findByEmailHash db hash = some i) :
    getIdentity db i.id = some i := by
  unfold findByEmailHash at h
  split at h
  · cases h
  obtain ⟨k, v, hv, hi⟩ := (Store.mem_scan db).mp (List.mem_of_head? h)
  cases k with
  | identity id =>
    simp only [Option.ite_none_right_eq_some, Option.some.injEq] at hi
    obtain ⟨-, rfl⟩ := hi
    obtain ⟨i, rfl⟩ := v
    exact Option.map_eq_some_iff.mpr ⟨_, hv, rfl⟩
  | _ => cases hi

theorem findByIdentity_some {org identityId : Uuid} {m : Membership}
    (h : findByIdentity db org identityId = some m) :
    membershipAt db m.id = some m ∧ m.identityId = identityId ∧ m.organizationId = org := by
  obtain ⟨hm, horg⟩ := List.mem_filter.mp (List.mem_of_head? h)
  obtain ⟨hm, hid⟩ := mem_listByIdentity.mp hm
  exact ⟨hm, hid, of_decide_eq_true horg⟩

theorem getMembership_some {org id : Uuid} {m : Membership} (h : getMembership db org id = some m) :
    membershipAt db id = some m ∧ m.organizationId = org := by
  obtain ⟨hm, horg⟩ := Option.filter_eq_some_iff.mp h
  exact ⟨hm, of_decide_eq_true horg⟩

theorem getGrant_some {org id : Uuid} {g : PrivilegedGrant} (h : getGrant db org id = some g) :
    ∃ r, grantAt db id = some r ∧ r.organizationId = org ∧
      g = { r with approvals := loadApprovals db id org } := by
  obtain ⟨r, hr, rfl⟩ := Option.map_eq_some_iff.mp h
  obtain ⟨hr, horg⟩ := Option.filter_eq_some_iff.mp hr
  exact ⟨r, hr, of_decide_eq_true horg, rfl⟩

end Queries

section Cascade

variable {identityId : Uuid} {transition : Identity → Except DirectoryError Identity}
  {moved : Membership → Bool} {status : MembershipStatus}

theorem tables_cascade {i i' : Identity} (hi : getIdentity db identityId = some i)
    (ht : transition i = .ok i') (hid : i'.id = i.id) :
    tables (inTx db (cascade db identityId transition moved status)).2 =
      { identity := fun k => (getIdentity db k).map
          (edit (fun r => r.id = identityId) (Identity.setStatus i'.status))
        membership := fun k => (membershipAt db k).map
          (edit (fun m => m.identityId = identityId && moved m) (Membership.setStatus status))
        session := fun k => (sessionAt db k).map (edit
          (fun r => r.session.identityId = identityId && r.session.status ≠ .revoked)
          SessionRow.revoked)
        grant := grantAt db } := by
  have hrow : i'.id = identityId := hid.trans (getIdentity_id hi)
  have hsave : saveStatus db i' =
      .ok (updateIdentities db (fun r => r.id = identityId) i'.status) := by
    rw [saveStatus, hrow, hi]
    rfl
  have hok : ∃ report, cascade db identityId transition moved status = .ok (report,
      revokeSessions (updateMemberships (updateIdentities db (fun r => r.id = identityId) i'.status)
        (fun m => m.identityId = identityId && moved m) status)
        (fun r => r.session.identityId = identityId && r.session.status ≠ .revoked)) := by
    simp only [cascade, hi, ht, hsave, bind, Except.bind, pure, Except.pure, Except.ok.injEq,
      Prod.mk.injEq, and_true, exists_eq']
  obtain ⟨report, hok⟩ := hok
  rw [inTx_ok hok, tables_revokeSessions, tables_updateMemberships, tables_updateIdentities]
  rfl

theorem cascade_refused
    (h : ∀ i i', getIdentity db identityId = some i → transition i ≠ .ok i') :
    (inTx db (cascade db identityId transition moved status)).2 = db := by
  rcases inTx_cases db (cascade db identityId transition moved status) with
    ⟨-, hdb⟩ | ⟨report, db', hok, -⟩
  · exact hdb
  · unfold cascade at hok
    split at hok
    · cases hok
    · rename_i i hi
      obtain ⟨i', ht, -⟩ := bind_eq_ok.mp hok
      exact absurd ht (h i i' hi)

end Cascade

section Memberships

variable {org : Uuid} {m : Membership}

theorem createMembership_ok {db' : Db} (h : createMembership db org m = .ok db') :
    m.organizationId = org ∧ findByIdentity db org m.identityId = none ∧
      membershipAt db m.id = none ∧ db' = insertMembership db m := by
  unfold createMembership at h
  split at h
  · cases h
  rename_i horg
  split at h
  · cases h
  rename_i hpair
  split at h
  · cases h
  rename_i hid
  exact ⟨not_not.mp horg, hpair, Option.not_isSome_iff_eq_none.mp hid, (Except.ok.inj h).symm⟩

theorem createMembership_new (horg : m.organizationId = org)
    (hpair : findByIdentity db org m.identityId = none) (hid : membershipAt db m.id = none) :
    createMembership db org m = .ok (insertMembership db m) := by
  simp [createMembership, horg, hpair, hid]

theorem saveTransition_stored {source target : MembershipStatus} {refused : DirectoryError}
    {r : Membership} (hr : membershipAt db m.id = some r) (hm : m.organizationId = org)
    (horg : r.organizationId = org) (hs : r.status = source) :
    saveTransition db org m source target refused = .ok (updateMemberships db
      (fun r => r.id = m.id && r.organizationId = org && r.status = source) target) := by
  simp [saveTransition, hm, hr, horg, hs]

variable {c : Collaborators}

theorem inviteByEmail_cases (org : Uuid) (email : String) (invitedBy membershipId : Uuid) :
    (inviteByEmail c db org email invitedBy membershipId).2 = db ∨
      ∃ m, m.status = .invited ∧ membershipAt db m.id = none ∧
        (inviteByEmail c db org email invitedBy membershipId).2 = insertMembership db m := by
  unfold inviteByEmail
  apply (inTx_cases db _).imp (fun h => h.2)
  rintro ⟨m, db', hok, hdb⟩
  rw [hdb]
  obtain ⟨hash, -, hok⟩ := bind_eq_ok.mp hok
  split at hok
  · cases hok
  split at hok
  · cases hok
  obtain ⟨m', hm', hok⟩ := bind_eq_ok.mp hok
  obtain ⟨db₁, hdb₁, hok⟩ := bind_eq_ok.mp hok
  cases hok
  obtain ⟨-, -, hid, rfl⟩ := createMembership_ok hdb₁
  refine ⟨m, ?_, hid, rfl⟩
  unfold newInvitedMembership newMembershipWith at hm'
  split_ifs at hm'
  cases hm'
  rfl

theorem accept_eq (org membershipId identityId : Uuid) :
    (∃ err, accept db org membershipId identityId = (.error err, db)) ∨
      ∃ m i, membershipAt db m.id = some m ∧ m.organizationId = org ∧ m.status = .invited ∧
        getIdentity db m.identityId = some i ∧ i.status = .active ∧
          accept db org membershipId identityId = (.ok { m with status := .active },
            updateMemberships db (fun r => r.id = m.id && r.organizationId = org &&
              r.status = .invited) .active) := by
  unfold accept
  cases hm : getMembership db org membershipId with
  | none => exact Or.inl ⟨_, rfl⟩
  | some m =>
    dsimp only
    split
    · exact Or.inl ⟨_, rfl⟩
    rename_i howner
    split
    · exact Or.inl ⟨_, rfl⟩
    rename_i i hi
    split
    · exact Or.inl ⟨_, rfl⟩
    rename_i hact
    obtain ⟨hrow, horg⟩ := getMembership_some hm
    cases ht : m.activate with
    | error err => exact Or.inl ⟨_, rfl⟩
    | ok m₁ =>
      obtain ⟨hinvited, rfl⟩ := Membership.transition_ok ht
      rw [← membershipAt_id hrow] at hrow
      have hsave : saveActivation db org { m with status := .active } =
          .ok (updateMemberships db (fun r => r.id = m.id && r.organizationId = org &&
            r.status = .invited) .active) := by
        rw [saveActivation, if_neg (not_not.mpr rfl)]
        exact saveTransition_stored hrow horg horg hinvited
      refine Or.inr ⟨m, i, hrow, horg, hinvited, not_not.mp howner ▸ hi, not_not.mp hact, ?_⟩
      simp only [bind, Except.bind, hsave, pure, Except.pure, inTx]

theorem accept_cases (org membershipId identityId : Uuid) :
    (accept db org membershipId identityId).2 = db ∨
      ∃ m i, membershipAt db m.id = some m ∧ getIdentity db m.identityId = some i ∧
        i.status = .active ∧ (accept db org membershipId identityId).2 = updateMemberships db
          (fun r => r.id = m.id && r.organizationId = org && r.status = .invited) .active := by
  rcases accept_eq org membershipId identityId with ⟨err, he⟩ | ⟨m, i, hm, -, -, hi, hact, he⟩
  · exact Or.inl (by rw [he])
  · exact Or.inr ⟨m, i, hm, hi, hact, by rw [he]⟩

end Memberships

section Provisioning

variable {c : Collaborators} {email : String} {draw : ProvisionDraw} {org identityId id : Uuid}

def resolved (c : Collaborators) (db : Db) (email : String) : Option Identity :=
  match c.hashEmail email with
  | .ok hash => findByEmailHash db hash
  | .error _ => none

theorem resolved_some {i : Identity} (h : resolved c db email = some i) :
    getIdentity db i.id = some i := by
  unfold resolved at h
  split at h
  · exact findByEmailHash_some h
  · cases h

theorem resolveOrCreateIdentity_known {i : Identity} (h : resolved c db email = some i) :
    resolveOrCreateIdentity c db email draw = (.ok i, db) := by
  unfold resolved at h
  split at h
  · rename_i hash hh
    simp only [resolveOrCreateIdentity, hh, h]
  · cases h

theorem resolveOrCreateIdentity_unknown (draw : ProvisionDraw) (h : resolved c db email = none) :
    (∃ err, resolveOrCreateIdentity c db email draw = (.error err, db)) ∨
      ∃ i, i.status = .active ∧ getIdentity db i.id = none ∧
        resolveOrCreateIdentity c db email draw = (.ok i, insertIdentity db i) := by
  unfold resolved at h
  unfold resolveOrCreateIdentity
  split at h
  · rename_i hash hh
    simp only [hh, h]
    split
    · exact Or.inl ⟨_, rfl⟩
    · rename_i db' hdb'
      unfold createIdentity at hdb'
      dsimp only at hdb'
      split at hdb'
      · cases hdb'
      rename_i hnew
      obtain rfl := Option.some.inj hdb'
      refine Or.inr ⟨_, rfl, ?_, rfl⟩
      exact Option.not_isSome_iff_eq_none.mp fun hs => hnew (Or.inl hs)
  · rename_i text hh
    simp only [hh]
    exact Or.inl ⟨_, rfl⟩

/-- The rows after a statement of a transaction of its own. -/
def committed {ε : Type} (db : Db) : Except ε Db → Db
  | .ok db' => db'
  | .error _ => db

theorem provision_known {ensure : Db → Uuid → Except ServiceError Db} {i : Identity}
    (h : resolved c db email = some i) :
    (provision c db email draw ensure).2 = committed db (ensure db i.id) := by
  simp only [provision, resolveOrCreateIdentity_known h]
  cases ensure db i.id <;> rfl

theorem provision_unknown {ensure : Db → Uuid → Except ServiceError Db}
    (h : resolved c db email = none) :
    (provision c db email draw ensure).2 = db ∨
      ∃ i, i.status = .active ∧ getIdentity db i.id = none ∧
        (provision c db email draw ensure).2 =
          committed (insertIdentity db i) (ensure (insertIdentity db i) i.id) := by
  unfold provision
  refine (resolveOrCreateIdentity_unknown draw h).imp ?_ ?_
  · rintro ⟨err, he⟩
    rw [he]
  · rintro ⟨i, hact, hnew, he⟩
    refine ⟨i, hact, hnew, ?_⟩
    rw [he]
    dsimp only
    cases ensure (insertIdentity db i) i.id <;> rfl

/-- The rows but for a new identity. -/
def Resolved (db db₁ : Db) : Prop := db₁ = db ∨ ∃ i, db₁ = insertIdentity db i

/-- A provisioning call resolves the identity, and fails or ensures the membership. -/
theorem provision_eq (c : Collaborators) (db : Db) (email : String) (draw : ProvisionDraw)
    (ensure : Db → Uuid → Except ServiceError Db) : ∃ db₁, Resolved db db₁ ∧
      ((∃ err, provision c db email draw ensure = (.error err, db₁)) ∨ ∃ id db₂,
        ensure db₁ id = .ok db₂ ∧ provision c db email draw ensure = (.ok id, db₂)) := by
  have hensure {db₁ : Db} {i : Identity}
      (h : resolveOrCreateIdentity c db email draw = (.ok i, db₁)) :
      (∃ err, provision c db email draw ensure = (.error err, db₁)) ∨ ∃ id db₂,
        ensure db₁ id = .ok db₂ ∧ provision c db email draw ensure = (.ok id, db₂) := by
    unfold provision
    rw [h]
    dsimp only
    cases he : ensure db₁ i.id with
    | error err => exact Or.inl ⟨err, rfl⟩
    | ok db₂ => exact Or.inr ⟨i.id, db₂, he, rfl⟩
  cases hr : resolved c db email with
  | some i => exact ⟨db, Or.inl rfl, hensure (resolveOrCreateIdentity_known hr)⟩
  | none =>
    rcases resolveOrCreateIdentity_unknown draw hr with ⟨err, he⟩ | ⟨i, -, -, he⟩
    · refine ⟨db, Or.inl rfl, Or.inl ⟨err, ?_⟩⟩
      rw [provision, he]
    · exact ⟨_, Or.inr ⟨i, rfl⟩, hensure he⟩

/-- A new membership of the identity in the organization can be inserted. -/
def Joins (db : Db) (org identityId id : Uuid) : Prop :=
  org ≠ Uuid.nil ∧ identityId ≠ Uuid.nil ∧ findByIdentity db org identityId = none ∧
    membershipAt db id = none

/-- The membership of the identity in the organization can be made active. -/
def Returns (db : Db) (org identityId : Uuid) (m : Membership) : Prop :=
  org ≠ Uuid.nil ∧ findByIdentity db org identityId = some m ∧
    (m.status = .suspended ∨ m.status = .invited)

theorem create_joins (h : Joins db org identityId id) :
    createMembership db org ⟨id, identityId, org, .active, none⟩ =
      .ok (insertMembership db ⟨id, identityId, org, .active, none⟩) :=
  createMembership_new rfl h.2.2.1 h.2.2.2

theorem newMembership_ok {m : Membership} (h : newMembership id identityId org = .ok m) :
    org ≠ Uuid.nil ∧ identityId ≠ Uuid.nil ∧ m = ⟨id, identityId, org, .active, none⟩ := by
  unfold newMembership newMembershipWith at h
  split_ifs at h with hnil
  rw [not_or] at hnil
  exact ⟨hnil.2, hnil.1, (Except.ok.inj h).symm⟩

theorem newMembership_new (horg : org ≠ Uuid.nil) (hid : identityId ≠ Uuid.nil) :
    newMembership id identityId org = .ok ⟨id, identityId, org, .active, none⟩ := by
  simp [newMembership, newMembershipWith, horg, hid]

theorem ensureMembership_joins (h : Joins db org identityId id) :
    ensureMembership db org identityId id =
      .ok (insertMembership db ⟨id, identityId, org, .active, none⟩) := by
  simp only [ensureMembership, withTenantTx, h.1, if_false, newMembership_new h.1 h.2.1, bind,
    Except.bind, create_joins h]

theorem ensureMembership_ok {db' : Db} (h : ensureMembership db org identityId id = .ok db') :
    Joins db org identityId id ∨ db' = db := by
  unfold ensureMembership withTenantTx at h
  split at h
  · cases h
  obtain ⟨m, hm, h⟩ := bind_eq_ok.mp h
  obtain ⟨horg, hid, rfl⟩ := newMembership_ok hm
  split at h
  · split at h
    · exact Or.inr (Except.ok.inj h).symm
    · cases h
  · obtain ⟨-, hpair, hnew, -⟩ := createMembership_ok h
    exact Or.inl ⟨horg, hid, hpair, hnew⟩

theorem ensureMembership_stays {ε : Type} {f : DirectoryError → ε}
    (h : ¬Joins db org identityId id) :
    committed db ((ensureMembership db org identityId id).mapError f) = db := by
  cases he : ensureMembership db org identityId id with
  | error err => rfl
  | ok db' => exact (ensureMembership_ok he).resolve_left h

theorem ensureActiveMembership_joins (h : Joins db org identityId id) :
    ensureActiveMembership db org identityId id =
      .ok (insertMembership db ⟨id, identityId, org, .active, none⟩) := by
  simp only [ensureActiveMembership, withTenantTx, h.1, if_false, h.2.2.1,
    newMembership_new h.1 h.2.1, bind, Except.bind, create_joins h]

theorem ensureActiveMembership_returns {m : Membership} (h : Returns db org identityId m) :
    ensureActiveMembership db org identityId id = .ok (updateMemberships db
      (fun r => r.id = m.id && r.organizationId = org && r.status = m.status) .active) := by
  obtain ⟨horg, hm, hs⟩ := h
  obtain ⟨hrow, -, hmorg⟩ := findByIdentity_some hm
  rcases hs with hs | hs
  · simp only [ensureActiveMembership, withTenantTx, horg, if_false, hm, hs, Membership.resume,
      Membership.transition, reduceCtorEq, if_true, bind, Except.bind]
    exact saveTransition_stored hrow hmorg hmorg hs
  · simp only [ensureActiveMembership, withTenantTx, horg, if_false, hm, hs, Membership.activate,
      Membership.transition, reduceCtorEq, if_true, bind, Except.bind, saveActivation, ne_eq,
      not_true_eq_false]
    exact saveTransition_stored hrow hmorg hmorg hs

theorem ensureActiveMembership_ok {db' : Db}
    (h : ensureActiveMembership db org identityId id = .ok db') :
    Joins db org identityId id ∨ (∃ m, Returns db org identityId m) ∨
      ∃ m, findByIdentity db org identityId = some m ∧ m.status = .active ∧ db' = db := by
  unfold ensureActiveMembership withTenantTx at h
  split at h
  · cases h
  rename_i horg
  split at h
  · rename_i hpair
    obtain ⟨m, hm, h⟩ := bind_eq_ok.mp h
    obtain ⟨-, hid, rfl⟩ := newMembership_ok hm
    obtain ⟨-, -, hnew, -⟩ := createMembership_ok h
    exact Or.inl ⟨horg, hid, hpair, hnew⟩
  · rename_i m hm
    split at h
    · rename_i hs
      exact Or.inr (Or.inr ⟨m, hm, hs, (Except.ok.inj h).symm⟩)
    · rename_i hs
      exact Or.inr (Or.inl ⟨m, horg, hm, Or.inl hs⟩)
    · rename_i hs
      exact Or.inr (Or.inl ⟨m, horg, hm, Or.inr hs⟩)
    · cases h

theorem ensureActiveMembership_stays {ε : Type} {f : DirectoryError → ε}
    (hj : ¬Joins db org identityId id) (hr : ∀ m, ¬Returns db org identityId m) :
    committed db ((ensureActiveMembership db org identityId id).mapError f) = db := by
  cases he : ensureActiveMembership db org identityId id with
  | error err => rfl
  | ok db' =>
    rcases ensureActiveMembership_ok he with h | ⟨m, h⟩ | ⟨m, -, -, hdb⟩
    · exact absurd h hj
    · exact absurd h (hr m)
    · exact hdb

end Provisioning

section Sessions

theorem establishSession_cases (q : EstablishReq) :
    (establishSession db q).2 = db ∨ ∃ s, sessionAt db s.id = none ∧
      (establishSession db q).2 = insertSession db s := by
  unfold establishSession
  apply (inTx_cases db _).imp (fun h => h.2)
  rintro ⟨s, db', hok, hdb⟩
  rw [hdb]
  obtain ⟨s', -, h₁⟩ := bind_eq_ok.mp hok
  split at h₁
  · cases h₁
  · rename_i hnone
    cases h₁
    exact ⟨_, Option.not_isSome_iff_eq_none.mp hnone, rfl⟩

theorem establishSession_refused {q : EstablishReq}
    (h : ∀ k m, membershipAt db k = some m → m.identityId = q.identityId → m.status ≠ .active) :
    ∃ err, establishSession db q = (.error err, db) := by
  have hnone : ∀ s, resolveSession q (listByIdentity db q.identityId) ≠ .ok s := by
    intro s hs
    unfold resolveSession at hs
    split at hs
    · cases hs
    rename_i s₀ hs₀
    obtain ⟨-, -, ⟨m, hm, hact⟩, -⟩ := newAuthSession_ok hs₀
    obtain ⟨hrow, hid⟩ := mem_listByIdentity.mp hm
    exact h m.id m hrow hid hact
  cases hs : resolveSession q (listByIdentity db q.identityId) with
  | ok s => exact absurd hs (hnone s)
  | error err =>
    exact ⟨err, by simp only [establishSession, hs, bind, Except.bind, inTx]⟩

end Sessions

end ArchGuard.Tenancy
