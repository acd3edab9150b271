import ArchGuard.SessionProgram

/-! The transactions on identities and memberships: creation, the moves of one membership, and the
cascades of an identity, statement by statement. -/
namespace ArchGuard.Directory
open ReadCommitted Tenancy Sessions

/-- The unique index of memberships on identity and organization has a row for each pair. -/
inductive Key
  | identity (id : Uuid)
  | membership (id : Uuid)
  | pair (identityId organizationId : Uuid)
  | session (id : Uuid)
  deriving DecidableEq, Repr

abbrev Row : Key → Type
  | .identity id => {i : Identity // i.id = id}
  | .membership id => {m : Membership // m.id = id}
  | .pair _ _ => Uuid
  | .session id => {r : SessionRow // r.session.id = id}

abbrev Db := Store Row

section Reads

variable (db : Db)

def getIdentity (id : Uuid) : Option Identity := (db.row (.identity id)).map Subtype.val

def findByEmailHash (emailHash : Bytes) : Option Identity :=
  if emailHash = [] then none
  else (db.scan fun
    | .identity _, i => if i.1.emailHash = emailHash then some i.1 else none
    | _, _ => none).head?

def membershipAt (id : Uuid) : Option Membership := (db.row (.membership id)).map Subtype.val

def getMembership (org id : Uuid) : Option Membership :=
  (membershipAt db id).filter fun m => m.organizationId = org

def findByIdentity (org identityId : Uuid) : Option Membership :=
  (db.scan fun
    | .membership _, m =>
      if m.1.identityId = identityId ∧ m.1.organizationId = org then some m.1 else none
    | _, _ => none).head?

/-- The memberships of an identity in the statuses that a bulk UPDATE moves. -/
def membershipsMatching (identityId : Uuid) (test : MembershipStatus → Bool) : List Uuid :=
  db.scan fun
    | .membership id, m => if m.1.identityId = identityId ∧ test m.1.status then some id else none
    | _, _ => none

def sessionsMatching (q : Revocation) : List Uuid :=
  db.scan fun
    | .session id, r => if q.matches r.1 then some id else none
    | _, _ => none

end Reads

/-- An UPDATE of the status of memberships: the statuses that its WHERE clause matches, and the one
that it sets. A revoked membership stays revoked. -/
structure StatusUpdate where
  matching : MembershipStatus → Bool
  target : MembershipStatus
  terminal : matching .revoked = true → target = .revoked

def saveRevocation : StatusUpdate := ⟨fun _ => true, .revoked, fun _ => rfl⟩

def saveReactivation : StatusUpdate := ⟨fun s => s = .suspended, .active, by decide⟩

def saveSuspension : StatusUpdate := ⟨fun s => s = .active, .suspended, by decide⟩

def saveActivation : StatusUpdate := ⟨fun s => s = .invited, .active, by decide⟩

def suspendAllActive : StatusUpdate := ⟨fun s => s = .active, .suspended, by decide⟩

def revokeAllNonRevoked : StatusUpdate := ⟨fun s => s ≠ .revoked, .revoked, fun _ => rfl⟩

def StatusUpdate.set (u : StatusUpdate) (m : Membership) : Membership :=
  { m with status := u.target }

theorem StatusUpdate.set_id (u : StatusUpdate) (m : Membership) : (u.set m).id = m.id := rfl

inductive Cascade
  | suspend | deprovision
  deriving DecidableEq, Repr

def Cascade.transition (i : Identity) : Cascade → Except DirectoryError Identity
  | .suspend => i.suspend
  | .deprovision => .ok i.deprovision

def Cascade.memberships : Cascade → StatusUpdate
  | .suspend => suspendAllActive
  | .deprovision => revokeAllNonRevoked

inductive Req
  | cascade (op : Cascade) (identityId : Uuid)
  | invite (org : Uuid) (emailHash : Bytes) (invitedBy membershipId : Uuid)
  | accept (org membershipId identityId : Uuid)
  | ensureMembership (org identityId membershipId : Uuid)
  | ensureActiveMembership (org identityId membershipId : Uuid)
  | remove (op : Removal) (org membershipId : Uuid)

/-- What follows the save of a membership. -/
inductive AfterSave
  | done
  | endSessions
  deriving DecidableEq, Repr

inductive Pc
  | getIdentity (op : Cascade) (identityId : Uuid)
  | saveStatus (op : Cascade) (i : Identity)
  | snapshotMemberships (op : Cascade) (identityId : Uuid)
  | moveMemberships (op : Cascade) (identityId : Uuid) (ids : List Uuid)
  | snapshotSessions (q : Revocation)
  | revokeSessions (q : Revocation) (ids : List Uuid)
  | findByEmail (org : Uuid) (emailHash : Bytes) (invitedBy membershipId : Uuid)
  | findPair (m : Membership) (tolerant : Bool)
  | insertPair (m : Membership)
  | insertMembership (m : Membership)
  | getInvited (org membershipId identityId : Uuid)
  | getInvitee (org : Uuid) (m : Membership)
  | findByIdentity (org identityId membershipId : Uuid)
  | getMembership (op : Removal) (org membershipId : Uuid)
  | saveMembership (u : StatusUpdate) (m : Membership) (refused : DirectoryError)
      (after : AfterSave)
  | commit
  | fail (err : DirectoryError)

/-- A transaction of the organization: there is none without a tenant. -/
def inTenant (org : Uuid) (next : Pc) : Pc := if org = Uuid.nil then .fail .noTenant else next

/-- `Create` of a membership that was built, in the organization. A caller may be content with a
member that is there already. -/
def beginCreate (org : Uuid) (m : Except DirectoryError Membership) (tolerant : Bool) : Pc :=
  match m with
  | .error err => .fail err
  | .ok m =>
    if m.organizationId ≠ org then .fail (.crossTenantWrite m.organizationId org)
    else .findPair m tolerant

/-- The save of a transition, in the organization. -/
def beginSave (org : Uuid) (u : StatusUpdate) (m : Except DirectoryError Membership)
    (refused : DirectoryError) (after : AfterSave) : Pc :=
  match m with
  | .error err => .fail err
  | .ok m =>
    if m.organizationId ≠ org then .fail (.crossTenantWrite m.organizationId org)
    else .saveMembership u m refused after

def beginActivation (org : Uuid) (m : Membership) : Pc :=
  beginSave org saveActivation m.activate .notInvited .done

/-- An absent membership is created, a suspended or an invited one is made active. -/
def ensureActive (org identityId membershipId : Uuid) : Option Membership → Pc
  | none => beginCreate org (newMembership membershipId identityId org) false
  | some m =>
    match m.status with
    | .active => .commit
    | .suspended => beginSave org saveReactivation m.resume .membershipNotFound .done
    | .invited => beginActivation org m
    | .revoked => .fail .previouslyRevoked

def applyRemoval (org : Uuid) (m : Membership) : Removal → Pc
  | .revoke => beginSave org saveRevocation (.ok m.revoke) .membershipNotFound .endSessions
  | .suspend =>
    if m.status ≠ .active then .commit
    else beginSave org saveSuspension m.suspend .membershipNotFound .endSessions

def afterSave (m : Membership) : AfterSave → Pc
  | .done => .commit
  | .endSessions => .snapshotSessions (.cascade (.byMembership m.id m.organizationId))

theorem setStatus_id (status : IdentityStatus) (i : Identity) :
    ({ i with status := status } : Identity).id = i.id := rfl

theorem moved_id (u : StatusUpdate) (test : Bool) (m : Membership) :
    (if test then u.set m else m).id = m.id := by
  split <;> rfl

theorem membership_key (m : Membership) : m.id = m.id := rfl

def directoryProgram : Program Row Req Pc where
  entry
    | .cascade op identityId => .getIdentity op identityId
    | .invite org emailHash invitedBy membershipId =>
      inTenant org (.findByEmail org emailHash invitedBy membershipId)
    | .accept org membershipId identityId => inTenant org (.getInvited org membershipId identityId)
    | .ensureMembership org identityId membershipId =>
      inTenant org (beginCreate org (newMembership membershipId identityId org) true)
    | .ensureActiveMembership org identityId membershipId =>
      inTenant org (.findByIdentity org identityId membershipId)
    | .remove op org membershipId => inTenant org (.getMembership op org membershipId)
  next
    | .getIdentity op identityId => .read fun db =>
      match getIdentity db identityId with
      | none => .fail .identityNotFound
      | some i =>
        match op.transition i with
        | .error err => .fail err
        | .ok i => .saveStatus op i
    -- the status that the transition departed from is not in the WHERE clause
    | .saveStatus op i => .update (.identity i.id) (.fail .identityNotFound) fun r =>
      (some ⟨{ r.1 with status := i.status }, (setStatus_id i.status r.1).trans r.2⟩,
        .snapshotMemberships op i.id)
    -- an UPDATE of many rows: those of its snapshot, one by one in their newest version
    | .snapshotMemberships op identityId => .read fun db =>
      .moveMemberships op identityId (membershipsMatching db identityId op.memberships.matching)
    | .moveMemberships op identityId (id :: ids) =>
      .update (.membership id) (.moveMemberships op identityId ids) fun r =>
        (some ⟨if r.1.identityId = identityId && op.memberships.matching r.1.status then
            op.memberships.set r.1 else r.1, (moved_id _ _ r.1).trans r.2⟩,
          .moveMemberships op identityId ids)
    | .moveMemberships _ identityId [] => .read fun _ => .snapshotSessions (.identity identityId)
    | .snapshotSessions q => .read fun db => .revokeSessions q (sessionsMatching db q)
    | .revokeSessions q (id :: ids) => .update (.session id) (.revokeSessions q ids) fun r =>
      (some ⟨if q.matches r.1 then r.1.revoked else r.1, (revoked_if_id _ r.1).trans r.2⟩,
        .revokeSessions q ids)
    | .revokeSessions _ [] => .commit none
    | .findByEmail org emailHash invitedBy membershipId => .read fun db =>
      match findByEmailHash db emailHash with
      | none => .fail .unknownInviteEmail
      | some i =>
        if i.status ≠ .active then .fail (.identityNotInvitable i.status)
        else beginCreate org (newInvitedMembership membershipId i.id org invitedBy) false
    | .findPair m tolerant => .read fun db =>
      match findByIdentity db m.organizationId m.identityId with
      | none => .insertPair m
      | some r =>
        if r.status = .revoked then .fail .previouslyRevoked
        else if tolerant then .commit else .fail .alreadyMember
    -- one INSERT, under the unique index and the primary key; a violation undoes the transaction
    | .insertPair m => .insert (.pair m.identityId m.organizationId) m.id (.insertMembership m)
        (.fail .alreadyMember)
    | .insertMembership m => .insert (.membership m.id) ⟨m, membership_key m⟩ .commit (.fail .alreadyMember)
    | .getInvited org membershipId identityId => .read fun db =>
      match getMembership db org membershipId with
      | none => .fail .membershipNotFound
      | some m =>
        if m.identityId ≠ identityId then .fail (.notInviteOwner m.id) else .getInvitee org m
    | .getInvitee org m => .read fun db =>
      match getIdentity db m.identityId with
      | none => .fail .identityNotFound
      | some i =>
        if i.status ≠ .active then .fail (.identityNotInvitable i.status)
        else beginActivation org m
    | .findByIdentity org identityId membershipId => .read fun db =>
      ensureActive org identityId membershipId (findByIdentity db org identityId)
    | .getMembership op org membershipId => .read fun db =>
      match getMembership db org membershipId with
      | none => .fail .membershipNotFound
      | some m => applyRemoval org m op
    -- every UPDATE is scoped to the organization as well as to the id
    | .saveMembership u m refused after => .update (.membership m.id) (.fail refused) fun r =>
      if r.1.organizationId = m.organizationId && u.matching r.1.status then
        (some ⟨u.set r.1, (u.set_id r.1).trans r.2⟩, afterSave m after)
      else (some r, .fail refused)
    | .commit => .commit none
    | .fail _ => .abort

abbrev DirectoryCfg := Cfg Row Pc

end ArchGuard.Directory
