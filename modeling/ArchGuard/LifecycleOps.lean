import ArchGuard.LifecycleStore
import ArchGuard.TenancyProgram

/-! The services on identities, memberships, sessions and grants, each call run on its
own. A transaction is a function to the rows it commits; an error commits nothing. -/
namespace ArchGuard.Tenancy
open ReadCommitted

/-- What the services call outside the database: the key custodian's e-mail hash and the
notifier of break-glass requests. -/
structure Collaborators where
  hashEmail : String → Except String Bytes
  available : (org : Uuid) → Bool
  notify : PrivilegedGrant → Bool

inductive ServiceError
  | directory (err : DirectoryError)
  | session (err : SessionError)
  | grant (err : GrantError)
  | resolution (detail : String)
  | identityCreation
  | ensureMembership (err : DirectoryError)
  | ensureActiveMembership (err : DirectoryError)
  | expiry (grantId : Uuid) (err : GrantError)
  | noNotificationChannel
  | alertFailed
  deriving DecidableEq, Repr

def ServiceError.text : ServiceError → String
  | .directory err => err.text
  | .session err => err.text
  | .grant err => err.text
  | .resolution detail => "directory_provisioner: resolução por email_hash falhou: " ++ detail
  | .identityCreation => "directory_provisioner: criação de identidade falhou: " ++
      "postgres: criação de identidade falhou"
  | .ensureMembership err => "directory_provisioner: garantia de membership falhou: " ++ err.text
  | .ensureActiveMembership err =>
    "directory_provisioner: garantia de membership ativo falhou: " ++ err.text
  | .expiry grantId err => "postgres: expiração da concessão " ++ grantId.text ++ ": " ++ err.text
  | .noNotificationChannel =>
    "breakglass: nenhum canal de notificação disponível — solicitação negada"
  | .alertFailed => "breakglass: alerta de solicitação falhou"

/-- One transaction: its rows are committed unless it fails. -/
def inTx {ε α : Type} (db : Db) (body : Except ε (α × Db)) : Except ε α × Db :=
  match body with
  | .error err => (.error err, db)
  | .ok (a, db') => (.ok a, db')

section Stores

variable (db : Db)

def saveStatus (i : Identity) : Except DirectoryError Db :=
  if (getIdentity db i.id).isSome then .ok (updateIdentities db (fun r => r.id = i.id) i.status)
  else .error .identityNotFound

/-- `IdentityStore.Create`: the id, the subject and the e-mail hash are unique. -/
def createIdentity (i : Identity) : Option Db :=
  let collides : List Uuid := db.scan fun
    | .identity id, r =>
      if r.1.subject = i.subject ∨ (i.emailHash ≠ [] ∧ r.1.emailHash = i.emailHash) then some id else none
    | _, _ => none
  if (getIdentity db i.id).isSome ∨ collides ≠ [] then none else some (insertIdentity db i)

/-- `TenantMembershipStore.Create`: one membership for each identity and organization. -/
def createMembership (org : Uuid) (m : Membership) : Except DirectoryError Db :=
  if m.organizationId ≠ org then .error (.crossTenantWrite m.organizationId org)
  else match findByIdentity db org m.identityId with
    | some r => .error (if r.status = .revoked then .previouslyRevoked else .alreadyMember)
    | none =>
      if (membershipAt db m.id).isSome then .error .alreadyMember else .ok (insertMembership db m)

/-- An UPDATE of one membership of the organization that is still in status `source`. -/
def saveTransition (org : Uuid) (m : Membership) (source target : MembershipStatus)
    (refused : DirectoryError) : Except DirectoryError Db :=
  if m.organizationId ≠ org then .error (.crossTenantWrite m.organizationId org)
  else if (membershipAt db m.id).any fun r => r.organizationId = org && r.status = source then
    .ok (updateMemberships db (fun r => r.id = m.id && r.organizationId = org && r.status = source) target)
  else .error refused

def saveSuspension (org : Uuid) (m : Membership) : Except DirectoryError Db :=
  saveTransition db org m .active .suspended .membershipNotFound

def saveReactivation (org : Uuid) (m : Membership) : Except DirectoryError Db :=
  saveTransition db org m .suspended .active .membershipNotFound

def saveActivation (org : Uuid) (m : Membership) : Except DirectoryError Db :=
  if m.status ≠ .active then
    .error (.other "postgres: aceite exige membership ativo após a transição de domínio")
  else saveTransition db org m .invited .active .notInvited

/-- Unlike the other transitions, a revocation matches a row in any status. -/
def saveRevocation (org : Uuid) (m : Membership) : Except DirectoryError Db :=
  if m.organizationId ≠ org then .error (.crossTenantWrite m.organizationId org)
  else if (membershipAt db m.id).any fun r => r.organizationId = org then
    .ok (updateMemberships db (fun r => r.id = m.id && r.organizationId = org) .revoked)
  else .error .membershipNotFound

def getGrant (org id : Uuid) : Option PrivilegedGrant :=
  ((grantAt db id).filter fun g => g.organizationId = org).map fun g =>
    { g with approvals := loadApprovals db id org }

/-- `PrivilegedGrantStore.Create`, under the table's check on the window. -/
def createGrant (org : Uuid) (g : PrivilegedGrant) : Except GrantError Db :=
  if g.organizationId ≠ org then .error (.crossTenantGrant g.organizationId org)
  else if (grantAt db g.id).isSome ∨ ¬g.stored.notBefore < g.stored.expiresAt then .error .grantCreate
  else .ok (insertGrant db g)

/-- `SaveDecision`: the approvals are upserted, then the status is set. -/
def saveDecision (org : Uuid) (g : PrivilegedGrant) : Except GrantError Db :=
  if g.organizationId ≠ org then .error (.crossTenantGrant g.organizationId org)
  else if (grantAt db g.id).any fun r => r.organizationId = org then
    .ok (updateGrants (g.approvals.foldl (fun db a => insertApproval db g.id org a) db)
      (fun r => r.id = g.id && r.organizationId = org) g.status)
  else .error .grantNotFound

end Stores

section Directory

variable (c : Collaborators) (db : Db)

structure CascadeReport where
  identity : Identity
  membershipsMoved : ℕ
  sessionsRevoked : ℕ
  deriving DecidableEq, Repr

/-- `IdentityLifecycle.cascade`: the identity's status, its memberships and its sessions. -/
def cascade (identityId : Uuid) (transition : Identity → Except DirectoryError Identity)
    (moved : Membership → Bool) (status : MembershipStatus) :
    Except DirectoryError (CascadeReport × Db) :=
  match getIdentity db identityId with
  | none => .error .identityNotFound
  | some i => do
    let i ← transition i
    let db₁ ← saveStatus db i
    let own (m : Membership) : Bool := m.identityId = identityId && moved m
    let live (r : SessionRow) : Bool :=
      r.session.identityId = identityId && r.session.status ≠ .revoked
    let db₂ := updateMemberships db₁ own status
    return (⟨i, countMemberships db₁ own, countSessions db₂ live⟩, revokeSessions db₂ live)

def suspendIdentity (identityId : Uuid) : Except DirectoryError CascadeReport × Db :=
  inTx db (cascade db identityId Identity.suspend (fun m => m.status = .active) .suspended)

def deprovisionIdentity (identityId : Uuid) : Except DirectoryError CascadeReport × Db :=
  inTx db (cascade db identityId (fun i => .ok i.deprovision) (fun m => m.status ≠ .revoked) .revoked)

def inviteByEmail (org : Uuid) (email : String) (invitedBy membershipId : Uuid) :
    Except DirectoryError Membership × Db :=
  inTx db do
    let hash ← (c.hashEmail email).mapError .other
    match findByEmailHash db hash with
    | none => .error .unknownInviteEmail
    | some i =>
      if i.status ≠ .active then .error (.identityNotInvitable i.status)
      else do
        let m ← newInvitedMembership membershipId i.id org invitedBy
        let db' ← createMembership db org m
        return (m, db')

/-- `Inviter.Accept`: the invited identity, and only while it is active. -/
def accept (org membershipId identityId : Uuid) : Except DirectoryError Membership × Db :=
  inTx db <|
    match getMembership db org membershipId with
    | none => .error .membershipNotFound
    | some m =>
      if m.identityId ≠ identityId then .error (.notInviteOwner m.id)
      else match getIdentity db identityId with
        | none => .error .identityNotFound
        | some i =>
          if i.status ≠ .active then .error (.identityNotInvitable i.status)
          else do
            let m ← m.activate
            let db' ← saveActivation db org m
            return (m, db')

structure ProvisionDraw where
  identityId : Uuid
  subject : String
  membershipId : Uuid

/-- `resolveOrCreateIdentity`: a new identity is committed on its own. -/
def resolveOrCreateIdentity (email : String) (draw : ProvisionDraw) :
    Except ServiceError Identity × Db :=
  match c.hashEmail email with
  | .error text => (.error (.resolution text), db)
  | .ok hash =>
    match findByEmailHash db hash with
    | some i => (.ok i, db)
    | none =>
      let i : Identity := ⟨draw.identityId, draw.subject, .human, .active, hash⟩
      -- a failed insert resolves the e-mail once more, which is still unknown here
      match createIdentity db i with
      | none => (.error .identityCreation, db)
      | some db' => (.ok i, db')

/-- A transaction of the organization: there is none without a tenant. -/
def withTenantTx (org : Uuid) (body : Except DirectoryError Db) : Except DirectoryError Db :=
  if org = Uuid.nil then .error .noTenant else body

/-- An identity that is a member already is left as it is; an INSERT that failed on the
drawn id leaves nothing to commit. -/
def ensureMembership (org identityId membershipId : Uuid) : Except DirectoryError Db :=
  withTenantTx org do
    let m ← newMembership membershipId identityId org
    match createMembership db org m with
    | .error .alreadyMember =>
      if (findByIdentity db org identityId).isSome then .ok db
      else .error (.other "commit unexpectedly resulted in rollback")
    | created => created

/-- Absent: created; suspended or invited: made active; revoked: refused. -/
def ensureActiveMembership (org identityId membershipId : Uuid) : Except DirectoryError Db :=
  withTenantTx org <|
    match findByIdentity db org identityId with
    | none => do
      let m ← newMembership membershipId identityId org
      createMembership db org m
    | some m =>
      match m.status with
      | .active => .ok db
      | .suspended => do
        let m ← m.resume
        saveReactivation db org m
      | .invited => do
        let m ← m.activate
        saveActivation db org m
      | .revoked => .error .previouslyRevoked

/-- Resolve the identity, then ensure its membership in a transaction of its own. -/
def provision (email : String) (draw : ProvisionDraw)
    (ensure : Db → Uuid → Except ServiceError Db) : Except ServiceError Uuid × Db :=
  match resolveOrCreateIdentity c db email draw with
  | (.error err, db') => (.error err, db')
  | (.ok i, db') =>
    match ensure db' i.id with
    | .error err => (.error err, db')
    | .ok db'' => (.ok i.id, db'')

def provisionUser (org : Uuid) (email : String) (draw : ProvisionDraw) :
    Except ServiceError Uuid × Db :=
  if email = "" then (.error (.directory .emailMissing), db)
  else provision c db email draw fun db id =>
    (ensureMembership db org id draw.membershipId).mapError .ensureMembership

def provisionFederated (org : Uuid) (email : String) (draw : ProvisionDraw) :
    Except ServiceError Uuid × Db :=
  if email = "" then (.error (.directory .federatedEmailRequired), db)
  else provision c db email draw fun db id =>
    (ensureActiveMembership db org id draw.membershipId).mapError .ensureActiveMembership

/-- `EstablishSession`, whose two transactions see the same rows when nothing runs between. -/
def establishSession (q : EstablishReq) : Except SessionError AuthSession × Db :=
  inTx db do
    let s ← resolveSession q (listByIdentity db q.identityId)
    if (sessionAt db s.id).isSome then .error (.other "postgres: criação de auth_session falhou")
    else return (s, insertSession db s)

end Directory

section PrivilegedAccess

variable (c : Collaborators) (db : Db)

/-- `BreakglassOrchestrator.Request`, with the drawn id: the alert is sent before the
grant is written. -/
def requestBreakglass (id org subject : Uuid) (target : GrantTarget) (requiredApprovals : ℕ)
    (justification incidentRef : String) (notBefore expiresAt : Time) :
    Except ServiceError PrivilegedGrant × Db :=
  inTx db <|
    if !c.available org then .error .noNotificationChannel
    else do
      let g ← (newBreakglassRequest id org subject target requiredApprovals justification
        incidentRef notBefore expiresAt).mapError .grant
      if !c.notify g then .error .alertFailed
      else do
        let db' ← (createGrant db org g).mapError .grant
        return (g, db')

/-- The decisions on one grant: read it, apply the transition, save it. -/
def decideGrant (org grantId : Uuid)
    (transition : PrivilegedGrant → Except GrantError PrivilegedGrant) :
    Except GrantError (PrivilegedGrant × Db) :=
  match getGrant db org grantId with
  | none => .error .grantNotFound
  | some g => do
    let g ← transition g
    let db' ← saveDecision db org g
    return (g, db')

def passStepUp (org grantId : Uuid) (provenAAL : Aal) (phishingResistant : Bool) :
    Except GrantError PrivilegedGrant × Db :=
  inTx db (decideGrant db org grantId fun g => g.passStepUp provenAAL phishingResistant)

def approve (org grantId approverMembershipId : Uuid) : Except GrantError PrivilegedGrant × Db :=
  inTx db (decideGrant db org grantId fun g => g.approve approverMembershipId)

/-- A revocation also ends the sessions derived from the grant. -/
def revokeGrant (org grantId : Uuid) : Except GrantError PrivilegedGrant × Db :=
  inTx db do
    let (g, db') ← decideGrant db org grantId PrivilegedGrant.revoke
    return (g, revokeSessions db' (SessionQuery.byGrant g.id org).matches)

/-- The loop of `ExpireDue` over the grants it listed. -/
def expireEach (org : Uuid) (now : Time) : List PrivilegedGrant → Db → Except ServiceError Db
  | [], db => .ok db
  | g :: rest, db => do
    let g ← (g.expire now).mapError (.expiry g.id)
    let db' ← (saveDecision db org g).mapError .grant
    expireEach org now rest (revokeSessions db' (SessionQuery.byGrant g.id org).matches)

def expireDue (org : Uuid) (now : Time) : Except ServiceError ℕ × Db :=
  inTx db do
    let due := listActiveExpired db org now
    let db' ← expireEach org now due db
    return (due.length, db')

/-- The loop of `RevokeMembership` over the active grants of the membership. -/
def revokeEach (org : Uuid) : List PrivilegedGrant → Db → Except GrantError Db
  | [], db => .ok db
  | g :: rest, db => do
    let g ← g.revoke
    let db' ← saveDecision db org g
    revokeEach org rest db'

def revokeMembership (org membershipId : Uuid) : Except ServiceError (Membership × ℕ) × Db :=
  inTx db <|
    match getMembership db org membershipId with
    | none => .error (.directory .membershipNotFound)
    | some m => do
      let db₁ ← (saveRevocation db org m.revoke).mapError .directory
      let db₂ ← (revokeEach org (listActiveByMembership db₁ org m.id) db₁).mapError .grant
      let live := (SessionQuery.byMembership m.id org).matches
      return ((m.revoke, countSessions db₂ live), revokeSessions db₂ live)

/-- `SuspendForDeactivation`: only an active membership moves, and only its sessions end. -/
def suspendForDeactivation (org membershipId : Uuid) :
    Except DirectoryError (Membership × ℕ) × Db :=
  inTx db <|
    match getMembership db org membershipId with
    | none => .error .membershipNotFound
    | some m =>
      if m.status ≠ .active then .ok ((m, 0), db)
      else do
        let m' ← m.suspend
        let db' ← saveSuspension db org m'
        let live := (SessionQuery.byMembership m.id org).matches
        return ((m', countSessions db' live), revokeSessions db' live)

end PrivilegedAccess

/-- One call of a service, with its random draws. -/
inductive Op
  | suspendIdentity (identityId : Uuid)
  | deprovisionIdentity (identityId : Uuid)
  | inviteByEmail (org : Uuid) (email : String) (invitedBy membershipId : Uuid)
  | accept (org membershipId identityId : Uuid)
  | provisionUser (org : Uuid) (email : String) (draw : ProvisionDraw)
  | provisionFederated (org : Uuid) (email : String) (draw : ProvisionDraw)
  | establishSession (q : EstablishReq)
  | revokeMembership (org membershipId : Uuid)
  | suspendForDeactivation (org membershipId : Uuid)
  | requestBreakglass (id org subject : Uuid) (target : GrantTarget) (requiredApprovals : ℕ)
      (justification incidentRef : String) (notBefore expiresAt : Time)
  | passStepUp (org grantId : Uuid) (provenAAL : Aal) (phishingResistant : Bool)
  | approve (org grantId approverMembershipId : Uuid)
  | revokeGrant (org grantId : Uuid)
  | expireDue (org : Uuid) (now : Time)

/-- The rows after a call, whether it succeeds or not. -/
def perform (c : Collaborators) (db : Db) : Op → Db
  | .suspendIdentity identityId => (suspendIdentity db identityId).2
  | .deprovisionIdentity identityId => (deprovisionIdentity db identityId).2
  | .inviteByEmail org email invitedBy id => (inviteByEmail c db org email invitedBy id).2
  | .accept org membershipId identityId => (accept db org membershipId identityId).2
  | .provisionUser org email draw => (provisionUser c db org email draw).2
  | .provisionFederated org email draw => (provisionFederated c db org email draw).2
  | .establishSession q => (establishSession db q).2
  | .revokeMembership org membershipId => (revokeMembership db org membershipId).2
  | .suspendForDeactivation org membershipId => (suspendForDeactivation db org membershipId).2
  | .requestBreakglass id org subject target n justification incidentRef notBefore expiresAt =>
    (requestBreakglass c db id org subject target n justification incidentRef notBefore expiresAt).2
  | .passStepUp org grantId aal phishingResistant =>
    (passStepUp db org grantId aal phishingResistant).2
  | .approve org grantId approver => (approve db org grantId approver).2
  | .revokeGrant org grantId => (revokeGrant db org grantId).2
  | .expireDue org now => (expireDue db org now).2

def call (c : Collaborators) (db : Db) (op : Op) : Option Db := some (perform c db op)

end ArchGuard.Tenancy
