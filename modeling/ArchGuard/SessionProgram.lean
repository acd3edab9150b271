import ArchGuard.ReadCommittedVersions
import ArchGuard.SessionMachine

/-! The transactions on live sessions: switches with the event of the outbox, step-ups, and the
revocations, statement by statement. -/
namespace ArchGuard.Sessions
open ReadCommitted Tenancy

inductive Key
  | membership (id : Uuid)
  | session (id : Uuid)
  | event (id : Uuid)
  deriving DecidableEq, Repr

abbrev Row : Key → Type
  | .membership id => {m : Membership // m.id = id}
  | .session id => {r : SessionRow // r.session.id = id}
  | .event _ => TenantSwitchEvent

abbrev Db := Store Row

section Reads

variable (db : Db)

def membershipAt (id : Uuid) : Option Membership := (db.row (.membership id)).map Subtype.val

def getMembership (org id : Uuid) : Option Membership :=
  (membershipAt db id).filter fun m => m.organizationId = org

def sessionAt (id : Uuid) : Option SessionRow := (db.row (.session id)).map Subtype.val

def getSession (identityId id : Uuid) : Option AuthSession :=
  ((sessionAt db id).filter fun r => r.session.identityId = identityId).map SessionRow.session

/-- The EXISTS clause of a switch: its destination is an active membership of the identity. -/
def destinationActive (s : AuthSession) : Bool :=
  s.membershipId.any fun id => (membershipAt db id).any fun m =>
    m.identityId = s.identityId && some m.organizationId = s.organizationId && m.status = .active

end Reads

/-- The revocations of sessions: one of an identity or of a tenant, all of an identity, or those
that a cascade ends. -/
inductive Revocation
  | session (identityId sessionId : Uuid)
  | tenantSession (org sessionId : Uuid)
  | identity (identityId : Uuid)
  | cascade (q : SessionQuery)
  deriving DecidableEq, Repr

def Revocation.matches : Revocation → SessionRow → Bool
  | .session identityId sessionId, r => r.session.id = sessionId && r.session.identityId = identityId
  | .tenantSession org sessionId, r =>
    r.session.id = sessionId && r.session.organizationId = some org
  | .identity identityId, r => r.session.identityId = identityId && r.session.status ≠ .revoked
  | .cascade q, r => q.matches r

/-- `IdentitySessionStore.Revoke` refuses when it matches no row. -/
def Revocation.refused : Revocation → List Uuid → Bool
  | .session _ _, ids => ids.isEmpty
  | _, _ => false

theorem revoked_if_id (test : Bool) (r : SessionRow) :
    (if test then r.revoked else r).session.id = r.session.id := by
  split <;> rfl

def sessionsMatching (db : Db) (q : Revocation) : List Uuid :=
  db.scan fun
    | .session id, r => if q.matches r.1 then some id else none
    | _, _ => none

/-- A switch under way: the session as it was read and as it moves, and the event of the move. -/
structure Move where
  read : AuthSession
  moved : AuthSession
  event : TenantSwitchEvent
  eventId : Uuid
  deriving DecidableEq, Repr

inductive Req
  | switchTenant (identityId sessionId : Uuid) (dest : Membership) (required : String)
      (eventId : Uuid)
  | stepUpTotp (identityId sessionId : Uuid) (now : Time)
  | stepUpWebAuthn (identityId sessionId : Uuid) (aal : String) (now : Time)
  | revoke (q : Revocation)
  | remove (op : Removal) (org membershipId : Uuid)

inductive Pc
  | getForSwitch (identityId sessionId : Uuid) (dest : Membership) (required : String)
      (eventId : Uuid)
  | saveSwitch (m : Move)
  | updateSwitch (m : Move)
  | enqueue (m : Move)
  | getForStepUp (identityId sessionId : Uuid) (now : Time) (aal : String) (methods : List String)
  | saveStepUp (s : AuthSession)
  | snapshotSessions (q : Revocation)
  | revokeSessions (q : Revocation) (ids : List Uuid)
  | getMembership (op : Removal) (org membershipId : Uuid)
  | saveRemoval (op : Removal) (m : Membership)
  | commit (switch : Option Move)
  | fail (err : SessionError)

/-- `SaveSwitch` and `SaveStepUp` write a session of their identity only. -/
def ofIdentity (identityId : Uuid) (s : AuthSession) (next : Pc) : Pc :=
  if s.identityId ≠ identityId then .fail (.crossIdentityWrite s.identityId identityId) else next

/-- The transition of a switch on the session it read, and the event that the outbox will take. -/
def beginSwitch (identityId : Uuid) (s : AuthSession) (dest : Membership) (required : String)
    (eventId : Uuid) : Pc :=
  match (SessionMethod.switchTenant dest required).call s with
  | (.error err, _) => .fail err
  | (.ok event, s') => ofIdentity identityId s' <|
    if s'.status ≠ .active ∨ s'.membershipId = none ∨ s'.organizationId = none then
      .fail (.other "postgres: troca de tenant exige sessão ativa com destino resolvido")
    else .saveSwitch ⟨s, s', event, eventId⟩

def beginStepUp (identityId : Uuid) (s : AuthSession) (now : Time) (aal : String)
    (methods : List String) : Pc :=
  match (SessionMethod.stepUp now aal methods).call s with
  | (.error err, _) => .fail err
  | (.ok (), s') => ofIdentity identityId s' <|
    if s'.authTime = Time.zero ∨ s'.authMethods = [] then
      .fail (.other "postgres: step-up exige garantia, auth_time e métodos definidos")
    else .saveStepUp s'

def stepUpMatches (s : AuthSession) (r : SessionRow) : Bool :=
  r.session.identityId = s.identityId && r.session.status = .active

def setStepUp (s : AuthSession) (r : SessionRow) : SessionRow :=
  { r with session := { r.session with
      provenAAL := s.provenAAL
      authTime := s.authTime
      authMethods := s.authMethods } }

theorem setStepUp_id (s : AuthSession) (r : SessionRow) :
    (setStepUp s r).session.id = r.session.id := rfl

/-- The WHERE clause of a switch: the version that it departed from. -/
def Move.matches (m : Move) (r : SessionRow) : Bool :=
  switchMatches m.moved m.event.fromMembershipId m.read.tokenGeneration r

def applyRemoval (m : Membership) : Removal → Pc
  | .revoke => .saveRemoval .revoke m.revoke
  | .suspend =>
    if m.status ≠ .active then .commit none
    else match m.suspend with
      | .error err => .fail (.other err.text)
      | .ok m => .saveRemoval .suspend m

/-- The WHERE clause of a removal: a suspension only matches an active row. -/
def removalMatches (op : Removal) (row : Membership) : Bool :=
  match op with
  | .revoke => true
  | .suspend => row.status = .active

def setRemoval (op : Removal) (row : Membership) : Membership :=
  match op with
  | .revoke => { row with status := .revoked }
  | .suspend => { row with status := .suspended }

theorem setRemoval_id (op : Removal) (row : Membership) : (setRemoval op row).id = row.id := by
  cases op <;> rfl

def sessionProgram : Program Row Req Pc where
  entry
    | .switchTenant identityId sessionId dest required eventId =>
      .getForSwitch identityId sessionId dest required eventId
    | .stepUpTotp identityId sessionId now =>
      .getForStepUp identityId sessionId now Aal.aal2.text ["totp"]
    | .stepUpWebAuthn identityId sessionId aal now =>
      .getForStepUp identityId sessionId now aal ["webauthn"]
    | .revoke q => .snapshotSessions q
    | .remove op org membershipId => .getMembership op org membershipId
  next
    | .getForSwitch identityId sessionId dest required eventId => .read fun db =>
      match getSession db identityId sessionId with
      | none => .fail .sessionNotFound
      | some s => beginSwitch identityId s dest required eventId
    -- the WHERE clause on the snapshot of the UPDATE, the destination included; the row alone is
    -- tested again in its newest version
    | .saveSwitch m => .read fun db =>
      if (sessionAt db m.moved.id).any m.matches && destinationActive db m.moved then
        .updateSwitch m
      else .fail .switchConflict
    | .updateSwitch m => .update (.session m.moved.id) (.fail .switchConflict) fun r =>
      if m.matches r.1 then (some ⟨setSwitch m.moved r.1, (setSwitch_id m.moved r.1).trans r.2⟩,
          .enqueue m)
      else (some r, .fail .switchConflict)
    -- the INSERT fails on its primary key only
    | .enqueue m =>
      match m.event.validate with
      | .error detail => .read fun _ => .fail (.other
          ("session: auditoria da troca indisponível — troca negada: " ++ detail))
      | .ok () => .insert (.event m.eventId) m.event (.commit (some m)) (.fail (.other
          "session: auditoria da troca indisponível — troca negada"))
    | .getForStepUp identityId sessionId now aal methods => .read fun db =>
      match getSession db identityId sessionId with
      | none => .fail .sessionNotFound
      | some s => beginStepUp identityId s now aal methods
    -- neither the level nor the methods that the step-up departed from are in the WHERE clause
    | .saveStepUp s => .update (.session s.id) (.fail .sessionNotFound) fun r =>
      if stepUpMatches s r.1 then (some ⟨setStepUp s r.1, (setStepUp_id s r.1).trans r.2⟩,
          .commit none)
      else (some r, .fail .sessionNotFound)
    -- an UPDATE of many rows: those of its snapshot, one by one in their newest version
    | .snapshotSessions q => .read fun db =>
      if q.refused (sessionsMatching db q) then .fail .sessionNotFound
      else .revokeSessions q (sessionsMatching db q)
    | .revokeSessions q (id :: ids) => .update (.session id) (.revokeSessions q ids) fun r =>
      (some ⟨if q.matches r.1 then r.1.revoked else r.1, (revoked_if_id _ r.1).trans r.2⟩,
        .revokeSessions q ids)
    | .revokeSessions _ [] => .commit none
    | .getMembership op org membershipId => .read fun db =>
      match getMembership db org membershipId with
      | none => .fail (.other DirectoryError.membershipNotFound.text)
      | some m => applyRemoval m op
    | .saveRemoval op m => .update (.membership m.id)
        (.fail (.other DirectoryError.membershipNotFound.text)) fun r =>
      if r.1.organizationId = m.organizationId && removalMatches op r.1 then
        (some ⟨setRemoval op r.1, (setRemoval_id op r.1).trans r.2⟩,
          .snapshotSessions (.cascade (.byMembership m.id m.organizationId)))
      else (some r, .fail (.other DirectoryError.membershipNotFound.text))
    | .commit _ => .commit none
    | .fail _ => .abort

abbrev SessionCfg := Cfg Row Pc

end ArchGuard.Sessions
