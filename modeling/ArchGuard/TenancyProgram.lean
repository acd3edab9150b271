import ArchGuard.ReadCommittedFrame
import ArchGuard.TenancyStore

/-! The transactions on sessions, memberships and grants, statement by statement. -/
namespace ArchGuard.Tenancy
open ReadCommitted

/-- What `EstablishSession` is called with, and the session id it draws. -/
structure EstablishReq where
  identityId : Uuid
  provenAAL : Aal
  methods : List FactorType
  now : Time
  sessionId : Uuid

inductive Removal
  | revoke | suspend
  deriving DecidableEq, Repr

/-- The decisions that `PrivilegedAccessService` takes on one grant. -/
inductive Decision
  | passStepUp (provenAAL : Aal) (phishingResistant : Bool)
  | approve (approverMembershipId : Uuid)
  | revoke

inductive Req
  | establishSession (q : EstablishReq)
  | selectTenant (identityId sessionId : Uuid) (m : Membership)
  | switchTenant (identityId sessionId : Uuid) (dest : Membership) (required : Aal)
  | remove (op : Removal) (org membershipId : Uuid)
  | request (id org subject : Uuid) (target : GrantTarget) (requiredApprovals : ℕ)
      (justification incidentRef : String) (notBefore expiresAt : Time)
  | decide (org grantId : Uuid) (d : Decision)
  | expireDue (org : Uuid) (now : Time)

/-- What follows the end of a set of sessions. -/
inductive AfterSessions
  | commit
  | expireNext (org : Uuid) (now : Time) (rest : List PrivilegedGrant)

/-- What follows the save of a grant. -/
inductive AfterSave
  | done
  | endSessions (after : AfterSessions)
  | cascadeNext (m : Membership) (rest : List PrivilegedGrant)

inductive Pc
  | listMemberships (q : EstablishReq)
  | endListing (s : AuthSession)
  | createSession (s : AuthSession)
  | getForSelection (identityId sessionId : Uuid) (m : Membership)
  | saveSelection (s : AuthSession)
  | updateSelection (s : AuthSession)
  | getForSwitch (identityId sessionId : Uuid) (dest : Membership) (required : Aal)
  | saveSwitch (s : AuthSession) (fromMembership : Uuid) (fromGeneration : ℕ)
  | updateSwitch (s : AuthSession) (fromMembership : Uuid) (fromGeneration : ℕ)
  | getMembership (op : Removal) (org membershipId : Uuid)
  | saveRemoval (op : Removal) (m : Membership)
  | listActiveByMembership (m : Membership)
  | getGrant (org grantId : Uuid) (d : Decision)
  | loadApprovals (org : Uuid) (g : PrivilegedGrant) (d : Decision)
  | listActiveExpired (org : Uuid) (now : Time)
  | saveDecision (g : PrivilegedGrant) (approvals : List Uuid) (after : AfterSave)
  | snapshotSessions (q : SessionQuery) (after : AfterSessions)
  | revokeSessions (q : SessionQuery) (ids : List Uuid) (after : AfterSessions)
  | createGrant (g : PrivilegedGrant)
  | commit
  | fail

/-- `SaveDecision` refuses a grant of another organization. -/
def beginSave (org : Uuid) (g : PrivilegedGrant) (after : AfterSave) : Pc :=
  if g.organizationId ≠ org then .fail else .saveDecision g g.approvals after

def expireNext (org : Uuid) (now : Time) : List PrivilegedGrant → Pc
  | [] => .commit
  | g :: rest =>
    match g.expire now with
    | .error _ => .fail
    | .ok g => beginSave org g (.endSessions (.expireNext org now rest))

def cascadeNext (m : Membership) : List PrivilegedGrant → Pc
  | [] => .snapshotSessions (.byMembership m.id m.organizationId) .commit
  | g :: rest =>
    match g.revoke with
    | .error _ => .fail
    | .ok g => beginSave m.organizationId g (.cascadeNext m rest)

def afterSave (g : PrivilegedGrant) : AfterSave → Pc
  | .done => .commit
  | .endSessions after => .snapshotSessions (.byGrant g.id g.organizationId) after
  | .cascadeNext m rest => cascadeNext m rest

def applyDecision (org : Uuid) (g : PrivilegedGrant) : Decision → Pc
  | .passStepUp aal phishingResistant =>
    match g.passStepUp aal phishingResistant with
    | .error _ => .fail
    | .ok g => beginSave org g .done
  | .approve approver =>
    match g.approve approver with
    | .error _ => .fail
    | .ok g => beginSave org g .done
  | .revoke =>
    match g.revoke with
    | .error _ => .fail
    | .ok g => beginSave org g (.endSessions .commit)

/-- The session of a login, once its memberships are listed. -/
def resolveSession (q : EstablishReq) (memberships : List Membership) : Except SessionError AuthSession :=
  match newAuthSession q.sessionId q.identityId q.provenAAL memberships with
  | .error err => .error err
  | .ok s => s.setAuthContext q.now q.methods

def sessionsMatching (db : Db) (q : SessionQuery) : List Uuid :=
  db.scan fun
    | .session id, r => if q.matches r.1 then some id else none
    | _, _ => none

def selectionMatches (s : AuthSession) (r : SessionRow) : Bool :=
  r.session.identityId = s.identityId && r.session.status = .pendingSelection

def switchMatches (s : AuthSession) (fromMembership : Uuid) (fromGeneration : ℕ) (r : SessionRow) :
    Bool :=
  r.session.identityId = s.identityId && r.session.status = .active &&
    r.session.membershipId = some fromMembership && r.session.tokenGeneration = fromGeneration

def setSelection (s : AuthSession) (r : SessionRow) : SessionRow :=
  { r with session := { r.session with
      membershipId := s.membershipId
      organizationId := s.organizationId
      status := .active } }

def setSwitch (s : AuthSession) (r : SessionRow) : SessionRow :=
  { r with session := { r.session with
      membershipId := s.membershipId
      organizationId := s.organizationId
      tokenGeneration := s.tokenGeneration } }

/-- The WHERE clause of a session UPDATE on its snapshot: the row, and the destination. -/
def updateMatches (db : Db) (s : AuthSession) (test : SessionRow → Bool) : Bool :=
  (sessionAt db s.id).any test && destinationActive db s

/-- What `RevokeMembership` or `SuspendForDeactivation` does with the membership it read. -/
def applyRemoval (m : Membership) : Removal → Pc
  | .revoke => .saveRemoval .revoke m.revoke
  | .suspend =>
    if m.status ≠ .active then .commit
    else match m.suspend with
      | .error _ => .fail
      | .ok m => .saveRemoval .suspend m

/-- The row and the next statement of a saved removal: a suspension only matches an
active row. -/
def saveRemoval (m row : Membership) : Removal → Membership × Pc
  | .revoke => ({ row with status := .revoked }, .listActiveByMembership m)
  | .suspend =>
    if row.status = .active then ({ row with status := .suspended },
      .snapshotSessions (.byMembership m.id m.organizationId) .commit)
    else (row, .fail)

theorem saveRemoval_row (m row : Membership) (op : Removal) :
    (saveRemoval m row op).1 = { row with status := (saveRemoval m row op).1.status } := by
  cases op with
  | revoke => rfl
  | suspend =>
    simp only [saveRemoval]
    split <;> rfl

theorem saveRemoval_id (m row : Membership) (op : Removal) :
    (saveRemoval m row op).1.id = row.id := by
  rw [saveRemoval_row]

theorem matches_revoke_id (q : SessionQuery) (r : SessionRow) :
    (if q.matches r then r.revoked else r).session.id = r.session.id := by
  split <;> rfl

def tenancyProgram : Program Row Req Pc where
  entry
    | .establishSession q => .listMemberships q
    | .selectTenant identityId sessionId m => .getForSelection identityId sessionId m
    | .switchTenant identityId sessionId dest required =>
      .getForSwitch identityId sessionId dest required
    | .remove op org membershipId => .getMembership op org membershipId
    | .request id org subject target n justification incidentRef notBefore expiresAt =>
      match newBreakglassRequest id org subject target n justification incidentRef notBefore
        expiresAt with
      | .error _ => .fail
      | .ok g => .createGrant g
    | .decide org grantId d => .getGrant org grantId d
    | .expireDue org now => .listActiveExpired org now
  next
    -- the memberships are read in a transaction of their own
    | .listMemberships q => .read fun db =>
      match resolveSession q (listByIdentity db q.identityId) with
      | .error _ => .fail
      | .ok s => .endListing s
    | .endListing s => .commit (some (.createSession s))
    | .createSession s => .insert (.session s.id) ⟨⟨s, none⟩, s.row_id⟩ .commit .fail
    | .getForSelection identityId sessionId m => .read fun db =>
      match getSession db identityId sessionId with
      | none => .fail
      | some s =>
        match s.selectTenant m with
        | .error _ => .fail
        | .ok s => .saveSelection s
    -- the WHERE clause on the snapshot of the UPDATE, its membership included; the row alone is
    -- tested again in its newest version
    | .saveSelection s => .read fun db =>
      if updateMatches db s (selectionMatches s) then .updateSelection s else .fail
    | .updateSelection s => .update (.session s.id) .fail fun r =>
      if selectionMatches s r.1 then (some ⟨setSelection s r.1, r.2⟩, .commit) else (some r, .fail)
    | .getForSwitch identityId sessionId dest required => .read fun db =>
      match getSession db identityId sessionId with
      | none => .fail
      | some s =>
        match s.switchTenant dest required, s.membershipId with
        | .ok s', some fromMembership => .saveSwitch s' fromMembership s.tokenGeneration
        | _, _ => .fail
    | .saveSwitch s fromMembership fromGeneration => .read fun db =>
      if updateMatches db s (switchMatches s fromMembership fromGeneration) then
        .updateSwitch s fromMembership fromGeneration
      else .fail
    | .updateSwitch s fromMembership fromGeneration => .update (.session s.id) .fail fun r =>
      if switchMatches s fromMembership fromGeneration r.1 then
        (some ⟨setSwitch s r.1, r.2⟩, .commit)
      else (some r, .fail)
    | .getMembership op org membershipId => .read fun db =>
      match getMembership db org membershipId with
      | none => .fail
      | some m => applyRemoval m op
    -- every UPDATE is scoped to the organization as well as to the id
    | .saveRemoval op m => .update (.membership m.id) .fail fun r =>
      if r.1.organizationId = m.organizationId then
        (some ⟨(saveRemoval m r.1 op).1, (saveRemoval_id m r.1 op).trans r.2⟩, (saveRemoval m r.1 op).2)
      else (some r, .fail)
    | .listActiveByMembership m => .read fun db =>
      cascadeNext m (listActiveByMembership db m.organizationId m.id)
    | .getGrant org grantId d => .read fun db =>
      match (grantAt db grantId).filter fun g => g.organizationId = org with
      | none => .fail
      | some g => .loadApprovals org g d
    | .loadApprovals org g d => .read fun db =>
      applyDecision org { g with approvals := loadApprovals db g.id org } d
    | .listActiveExpired org now => .read fun db => expireNext org now (listActiveExpired db org now)
    -- ON CONFLICT DO NOTHING: an approval that is there already is skipped
    | .saveDecision g (approver :: approvals) after =>
      .insert (.approval g.id approver) g.organizationId (.saveDecision g approvals after)
        (.saveDecision g approvals after)
    -- the status that the decision departed from is not in the WHERE clause
    | .saveDecision g [] after => .update (.grant g.id) .fail fun r =>
      if r.1.organizationId = g.organizationId then
        (some ⟨{ r.1 with status := g.status }, r.2⟩, afterSave g after)
      else (some r, .fail)
    -- an UPDATE of many rows: those of its snapshot, one by one in their newest version
    | .snapshotSessions q after => .read fun db => .revokeSessions q (sessionsMatching db q) after
    | .revokeSessions q (id :: ids) after => .update (.session id) (.revokeSessions q ids after)
      fun r => (some ⟨if q.matches r.1 then r.1.revoked else r.1,
        (matches_revoke_id q r.1).trans r.2⟩, .revokeSessions q ids after)
    | .revokeSessions _ [] .commit => .commit none
    | .revokeSessions _ [] (.expireNext org now rest) => .read fun _ => expireNext org now rest
    | .createGrant g => .insert (.grant g.id) ⟨g.stored, g.stored_row⟩ .commit .fail
    | .commit => .commit none
    | .fail => .abort

abbrev TenancyCfg := Cfg Row Pc

end ArchGuard.Tenancy
