import ArchGuard.LifecycleSpec

/-! The calls on one session: the selection of its tenant, the switch to another and its
end, each run on its own. -/
namespace ArchGuard.Tenancy
open ReadCommitted

/-- The record of a switch, as the outbox takes it. -/
structure TenantSwitchEvent where
  sessionId : Uuid
  identityId : Uuid
  fromMembershipId : Uuid
  fromOrganizationId : Uuid
  toMembershipId : Uuid
  toOrganizationId : Uuid
  provenAAL : Aal
  tokenGeneration : ℕ
  deriving DecidableEq, Repr

def TenantSwitchEvent.refs (e : TenantSwitchEvent) : List (String × Uuid) :=
  [("session", e.sessionId), ("identity", e.identityId), ("from_membership", e.fromMembershipId),
   ("from_organization", e.fromOrganizationId), ("to_membership", e.toMembershipId),
   ("to_organization", e.toOrganizationId)]

/-- Of several missing references the source names any one; here it is the first. -/
def TenantSwitchEvent.validate (e : TenantSwitchEvent) : Except String Unit :=
  match e.refs.find? fun r => r.2 = Uuid.nil with
  | some r => .error ("session: evento de troca sem " ++ r.1)
  | none =>
    if e.tokenGeneration < 2 then .error ("session: evento de troca com geração " ++
      toString e.tokenGeneration ++ " (troca sempre incrementa)")
    else .ok ()

section Saves

variable (db : Db)

/-- An UPDATE of one session: it matches the row, and its destination is still active. -/
def saveSession (s : AuthSession) (test : SessionRow → Bool) (set : SessionRow → SessionRow)
    (hset : ∀ r, (set r).session.id = r.session.id) (refused : SessionError) :
    Except SessionError Db :=
  match db.row (.session s.id) with
  | none => .error refused
  | some r =>
    if test r.1 && destinationActive db s then
      .ok (db.set (.session s.id) (some ⟨set r.1, (hset r.1).trans r.2⟩))
    else .error refused

theorem setSelection_id (s : AuthSession) (r : SessionRow) :
    (setSelection s r).session.id = r.session.id := rfl

theorem setSwitch_id (s : AuthSession) (r : SessionRow) :
    (setSwitch s r).session.id = r.session.id := rfl

def saveSelection (s : AuthSession) : Except SessionError Db :=
  saveSession db s (selectionMatches s) (setSelection s) (setSelection_id s) .sessionNotPending

def saveSwitch (s : AuthSession) (fromMembership : Uuid) (fromGeneration : ℕ) :
    Except SessionError Db :=
  saveSession db s (switchMatches s fromMembership fromGeneration) (setSwitch s) (setSwitch_id s)
    .switchConflict

end Saves

section Calls

variable (db : Db)

def selectTenant (identityId sessionId : Uuid) (m : Membership) :
    Except SessionError AuthSession × Db :=
  inTx db <|
    match getSession db identityId sessionId with
    | none => .error .sessionNotFound
    | some s => do
      let s ← s.selectTenant m
      let db' ← saveSelection db s
      return (s, db')

/-- The transaction of `TenantSwitcher.Switch`. An active session has both ids of its
tenant, by a check of its table. -/
def switchBody (identityId sessionId : Uuid) (dest : Membership) (required : Aal) :
    Except SessionError (AuthSession × Db) :=
  match getSession db identityId sessionId with
  | none => .error .sessionNotFound
  | some s => do
    let s' ← s.switchTenant dest required
    match s.membershipId, s.organizationId with
    | some fromMembership, some fromOrganization =>
      let db' ← saveSwitch db s' fromMembership s.tokenGeneration
      let event : TenantSwitchEvent := ⟨s.id, s.identityId, fromMembership, fromOrganization,
        dest.id, dest.organizationId, s.provenAAL, s'.tokenGeneration⟩
      -- the switch is undone unless its event is recorded
      match event.validate with
      | .error detail =>
        .error (.other ("session: auditoria da troca indisponível — troca negada: " ++ detail))
      | .ok () => return (s', db')
    | _, _ => .error (.invalidSession "sessão ativa sem tenant")

/-- `TenantSwitcher.Switch`; `policy` answers what the destination requires. -/
def switchTenant (policy : Uuid → Option Aal) (identityId sessionId : Uuid) (dest : Membership) :
    Except SessionError AuthSession × Db :=
  match policy dest.organizationId with
  | none => (.error (.other ("session: política do tenant de destino indisponível — " ++
      "troca negada")), db)
  | some required => inTx db (switchBody db identityId sessionId dest required)

/-- The session leg of `RevokeSession` in the tenant `org`. -/
def revokeSessionRow (org sessionId : Uuid) : Db :=
  revokeSessions db fun r => r.session.id = sessionId && r.session.organizationId = some org

end Calls

def SessionRow.switched (r : SessionRow) (dest : Membership) : SessionRow :=
  { r with session := { r.session with
      membershipId := some dest.id
      organizationId := some dest.organizationId
      tokenGeneration := r.session.tokenGeneration+1 } }

/-- What a switch to `dest` needs of the session's row and of the destination. -/
structure Switching (db : Db) (policy : Uuid → Option Aal) (identityId sessionId : Uuid)
    (dest : Membership) (r : SessionRow) : Prop where
  row : sessionAt db sessionId = some r
  identity : r.session.identityId = identityId
  active : r.session.status = .active
  own : dest.identityId = identityId
  selectable : dest.status = .active
  proven : ∃ required, policy dest.organizationId = some required ∧
    r.session.provenAAL.atLeast required = true
  moves : r.session.membershipId ≠ some dest.id
  tenant : ∃ membership org, r.session.membershipId = some membership ∧
    r.session.organizationId = some org ∧ membership ≠ Uuid.nil ∧ org ≠ Uuid.nil
  live : ∃ m, membershipAt db dest.id = some m ∧ m.identityId = identityId ∧
    m.organizationId = dest.organizationId ∧ m.status = .active
  refs : sessionId ≠ Uuid.nil ∧ identityId ≠ Uuid.nil ∧ dest.id ≠ Uuid.nil ∧
    dest.organizationId ≠ Uuid.nil
  generation : 1 ≤ r.session.tokenGeneration

section Spec

variable {db : Db} {identityId sessionId : Uuid}

theorem sessionAt_id {r : SessionRow} (h : sessionAt db sessionId = some r) :
    r.session.id = sessionId := by
  obtain ⟨v, -, rfl⟩ := Option.map_eq_some_iff.mp h
  exact v.2

theorem getSession_eq_some {s : AuthSession} :
    getSession db identityId sessionId = some s ↔
      ∃ r, sessionAt db sessionId = some r ∧ r.session.identityId = identityId ∧ r.session = s := by
  simp only [getSession, Option.map_eq_some_iff, Option.filter_eq_some_iff, decide_eq_true_eq,
    and_assoc]

theorem saveSession_eq_ok {s : AuthSession} {test : SessionRow → Bool}
    {set : SessionRow → SessionRow} {hset : ∀ r, (set r).session.id = r.session.id}
    {refused : SessionError} {db' : Db} (h : saveSession db s test set hset refused = .ok db') :
    ∃ r, sessionAt db s.id = some r ∧ test r = true ∧ destinationActive db s = true ∧
      sessionAt db' = Function.update (sessionAt db) s.id (some (set r)) ∧
      getIdentity db' = getIdentity db ∧ membershipAt db' = membershipAt db := by
  unfold saveSession at h
  split at h
  · cases h
  rename_i r hr
  split_ifs at h with ht
  obtain rfl := Except.ok.inj h
  obtain ⟨htest, hdest⟩ := Bool.and_eq_true_iff.mp ht
  refine ⟨r.1, by rw [sessionAt, hr]; rfl, htest, hdest, ?_, ?_, ?_⟩
  · funext id
    by_cases hid : id = s.id
    · subst hid
      simp [sessionAt]
    · simp [sessionAt, Store.set_row_of_ne, Function.update_of_ne, hid]
  · funext id
    simp [getIdentity, Store.set_row_of_ne]
  · funext id
    simp [membershipAt, Store.set_row_of_ne]

theorem saveSession_ok {s : AuthSession} {test : SessionRow → Bool}
    {set : SessionRow → SessionRow} {hset : ∀ r, (set r).session.id = r.session.id}
    {refused : SessionError} {r : SessionRow} (hr : sessionAt db s.id = some r)
    (ht : test r = true) (hd : destinationActive db s = true) :
    ∃ db', saveSession db s test set hset refused = .ok db' := by
  obtain ⟨v, hv, rfl⟩ := Option.map_eq_some_iff.mp hr
  simp only [saveSession, hv, ht, hd, Bool.and_self, ↓reduceIte]
  exact ⟨_, rfl⟩

theorem TenantSwitchEvent.validate_eq_ok (e : TenantSwitchEvent) : e.validate = .ok () ↔
    (e.sessionId ≠ Uuid.nil ∧ e.identityId ≠ Uuid.nil ∧ e.fromMembershipId ≠ Uuid.nil ∧
      e.fromOrganizationId ≠ Uuid.nil ∧ e.toMembershipId ≠ Uuid.nil ∧
      e.toOrganizationId ≠ Uuid.nil) ∧ 2 ≤ e.tokenGeneration := by
  have hfind : (e.refs.find? fun r => r.2 = Uuid.nil) = none ↔
      e.sessionId ≠ Uuid.nil ∧ e.identityId ≠ Uuid.nil ∧ e.fromMembershipId ≠ Uuid.nil ∧
        e.fromOrganizationId ≠ Uuid.nil ∧ e.toMembershipId ≠ Uuid.nil ∧
        e.toOrganizationId ≠ Uuid.nil := by
    simp [TenantSwitchEvent.refs]
  rw [← hfind]
  unfold TenantSwitchEvent.validate
  split
  · rename_i r hr
    simp [hr]
  · rename_i hnone
    rw [ite_error_eq_ok, not_lt]
    simp [hnone]

theorem AuthSession.switchTenant_eq_ok {s s' : AuthSession} {dest : Membership} {required : Aal} :
    s.switchTenant dest required = .ok s' ↔ s.status = .active ∧ dest.identityId = s.identityId ∧
      dest.status = .active ∧ s.membershipId ≠ some dest.id ∧
      s.provenAAL.atLeast required = true ∧
      s' = { s.setTenant dest with tokenGeneration := s.tokenGeneration+1 } := by
  simp only [AuthSession.switchTenant, ite_error_eq_ok, Except.ok.injEq, not_not, ne_eq,
    Bool.not_eq_true', Bool.not_eq_false]
  rw [eq_comm (a := s')]
  cases s.status <;> simp

section Switch

variable {policy : Uuid → Option Aal} {dest : Membership} {r : SessionRow}

/-- A switch that commits: it met its conditions, and moved the row of its session. -/
theorem switchBody_eq_ok {required : Aal} {s' : AuthSession} {db' : Db}
    (hp : policy dest.organizationId = some required)
    (h : switchBody db identityId sessionId dest required = .ok (s', db')) :
    ∃ r, Switching db policy identityId sessionId dest r ∧
      sessionAt db' = Function.update (sessionAt db) sessionId (some (r.switched dest)) ∧
      getIdentity db' = getIdentity db ∧ membershipAt db' = membershipAt db := by
  unfold switchBody at h
  split at h
  · cases h
  rename_i s hs
  obtain ⟨r, hr, hid, rfl⟩ := getSession_eq_some.mp hs
  obtain ⟨s₁, hs₁, h⟩ := bind_eq_ok.mp h
  obtain ⟨hact, hown, hsel, hmoves, haal, rfl⟩ := AuthSession.switchTenant_eq_ok.mp hs₁
  split at h
  · rename_i membership org hm ho
    obtain ⟨db₁, hsave, h⟩ := bind_eq_ok.mp h
    dsimp only at h
    split at h
    · cases h
    rename_i hval
    obtain ⟨-, rfl⟩ := Prod.mk.inj (Except.ok.inj h)
    obtain ⟨⟨h₁, h₂, h₃, h₄, h₅, h₆⟩, hgen⟩ := (TenantSwitchEvent.validate_eq_ok _).mp hval
    obtain ⟨r', hr', -, hdest, hrows, hidn, hmem⟩ := saveSession_eq_ok hsave
    have hsid := sessionAt_id hr
    obtain rfl : r' = r := by
      have hr₁ : sessionAt db r.session.id = some r' := hr'
      rw [hsid, hr] at hr₁
      exact (Option.some.inj hr₁).symm
    obtain ⟨id, m, hid', hm', hmi, hmo, hma⟩ := destinationActive_iff.mp hdest
    obtain rfl : dest.id = id := Option.some.inj hid'
    refine ⟨r', ?_, ?_, hidn, hmem⟩
    · exact {
        row := hr
        identity := hid
        active := hact
        own := hown.trans hid
        selectable := hsel
        proven := ⟨required, hp, haal⟩
        moves := hmoves
        tenant := ⟨membership, org, hm, ho, h₃, h₄⟩
        live := ⟨m, hm', hmi.trans hid, (Option.some.inj hmo).symm, hma⟩
        refs := ⟨hsid ▸ h₁, hid ▸ h₂, h₅, h₆⟩
        generation := by dsimp only at hgen; omega }
    · rw [hrows]
      change Function.update (sessionAt db) r'.session.id _ = _
      rw [hsid]
      rfl
  · cases h

theorem switchBody_of_switching {required : Aal} (hp : policy dest.organizationId = some required)
    (h : Switching db policy identityId sessionId dest r) :
    ∃ p, switchBody db identityId sessionId dest required = .ok p := by
  obtain ⟨required', hp', haal⟩ := h.proven
  obtain rfl : required = required' := Option.some.inj (hp.symm.trans hp')
  obtain ⟨membership, org, hm, ho, hmn, hon⟩ := h.tenant
  obtain ⟨m, hm', hmi, hmo, hma⟩ := h.live
  have hsid := sessionAt_id h.row
  have hget : getSession db identityId sessionId = some r.session :=
    getSession_eq_some.mpr ⟨r, h.row, h.identity, rfl⟩
  have hown : dest.identityId = r.session.identityId := h.own.trans h.identity.symm
  have hswitch := AuthSession.switchTenant_eq_ok.mpr
    ⟨h.active, hown, h.selectable, h.moves, haal, rfl⟩
  obtain ⟨db', hsave⟩ : ∃ db', saveSwitch db _ membership r.session.tokenGeneration = .ok db' := by
    refine saveSession_ok (s := { r.session.setTenant dest with
      tokenGeneration := r.session.tokenGeneration+1 }) (r := r) ?_ ?_ ?_
    · exact hsid.symm ▸ h.row
    · simp [switchMatches, AuthSession.setTenant, h.active, hm]
    · exact destinationActive_iff.mpr ⟨dest.id, m, rfl, hm', hmi.trans h.identity.symm,
        congrArg some hmo.symm, hma⟩
  have hval (generation : ℕ) (hg : 2 ≤ generation) := (TenantSwitchEvent.validate_eq_ok
    ⟨r.session.id, r.session.identityId, membership, org, dest.id, dest.organizationId,
      r.session.provenAAL, generation⟩).mpr ⟨⟨hsid ▸ h.refs.1, h.identity ▸ h.refs.2.1, hmn, hon,
        h.refs.2.2.1, h.refs.2.2.2⟩, hg⟩
  have hgen : 2 ≤ r.session.tokenGeneration+1 := by
    have := h.generation
    omega
  unfold switchBody
  simp only [hget, hswitch, hm, ho, hsave, hval _ hgen, bind, Except.bind, pure, Except.pure]
  exact ⟨_, rfl⟩

theorem switchTenant_rows (db : Db) (policy : Uuid → Option Aal) (identityId sessionId : Uuid)
    (dest : Membership) :
    (∃ r, Switching db policy identityId sessionId dest r ∧
      sessionAt (switchTenant db policy identityId sessionId dest).2 =
        Function.update (sessionAt db) sessionId (some (r.switched dest))) ∨
      ((∀ r, ¬Switching db policy identityId sessionId dest r) ∧
        (switchTenant db policy identityId sessionId dest).2 = db) := by
  unfold switchTenant
  cases hp : policy dest.organizationId with
  | none =>
    refine Or.inr ⟨fun r h => ?_, rfl⟩
    obtain ⟨required, hp', -⟩ := h.proven
    rw [hp] at hp'
    cases hp'
  | some required =>
    dsimp only
    rcases inTx_cases db (switchBody db identityId sessionId dest required) with
      ⟨hno, hdb⟩ | ⟨s', db', hok, hdb⟩
    · refine Or.inr ⟨fun r h => ?_, hdb⟩
      obtain ⟨p, hok⟩ := switchBody_of_switching hp h
      exact hno p hok
    · obtain ⟨r, hr, hrows, -⟩ := switchBody_eq_ok hp hok
      exact Or.inl ⟨r, hr, by rw [hdb, hrows]⟩

end Switch

theorem sessionAt_selectTenant (db : Db) (identityId sessionId : Uuid) (m : Membership)
    (id : Uuid) :
    sessionAt (selectTenant db identityId sessionId m).2 id = sessionAt db id ∨
      ∃ r, sessionAt db id = some r ∧ r.session.status = .pendingSelection := by
  unfold selectTenant
  rcases inTx_cases db _ with ⟨-, hdb⟩ | ⟨s', db', hok, hdb⟩
  · rw [hdb]
    exact Or.inl rfl
  rw [hdb]
  split at hok
  · cases hok
  rename_i s hs
  obtain ⟨r, hr, hid, rfl⟩ := getSession_eq_some.mp hs
  obtain ⟨s₁, hs₁, hok⟩ := bind_eq_ok.mp hok
  obtain ⟨db₁, hsave, hok⟩ := bind_eq_ok.mp hok
  obtain ⟨-, rfl⟩ := Prod.mk.inj (Except.ok.inj hok)
  obtain ⟨r', hr', htest, -, hrows, -, -⟩ := saveSession_eq_ok hsave
  rw [hrows]
  by_cases heq : id = s₁.id
  · subst heq
    refine Or.inr ⟨r', hr', ?_⟩
    exact of_decide_eq_true (Bool.and_eq_true_iff.mp htest).2
  · exact Or.inl (Function.update_of_ne heq _ _)

theorem sessionAt_establishSession (db : Db) (q : EstablishReq) (id : Uuid) :
    sessionAt (establishSession db q).2 id = sessionAt db id ∨ sessionAt db id = none := by
  rcases establishSession_cases q with hdb | ⟨s, hnone, hdb⟩
  · rw [hdb]
    exact Or.inl rfl
  · have hrows : sessionAt (establishSession db q).2 =
        Function.update (sessionAt db) s.id (some ⟨s, none⟩) := by
      rw [hdb]
      exact congrArg Tables.session tables_insertSession
    rw [hrows]
    by_cases heq : id = s.id
    · exact Or.inr (heq ▸ hnone)
    · exact Or.inl (Function.update_of_ne heq _ _)

theorem sessionAt_revokeSessionRow (db : Db) (org sessionId id : Uuid) :
    sessionAt (revokeSessionRow db org sessionId) id = sessionAt db id ∨
      ∃ r, sessionAt db id = some r ∧
        sessionAt (revokeSessionRow db org sessionId) id = some r.revoked := by
  have hrows : sessionAt (revokeSessionRow db org sessionId) id = (sessionAt db id).map
      (edit (fun r => r.session.id = sessionId && r.session.organizationId = some org)
        SessionRow.revoked) :=
    congrFun (congrArg Tables.session tables_revokeSessions) id
  rw [hrows]
  cases hr : sessionAt db id with
  | none => exact Or.inl rfl
  | some r =>
    rw [Option.map_some]
    unfold edit
    split_ifs
    · exact Or.inr ⟨r, rfl, rfl⟩
    · exact Or.inl rfl

end Spec

end ArchGuard.Tenancy
