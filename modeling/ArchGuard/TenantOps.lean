import ArchGuard.AuthzProjection
import ArchGuard.LifecycleOps

/-! The services of one tenant with the tuple mutations they enqueue, each call run on its
own: directory, grants, and the catalog of assets and groups. -/
namespace ArchGuard.Authz
open Tenancy

/-- The rows of a tenant, and every mutation enqueued so far. -/
structure TenantState where
  db : Db
  assetGroups : List AssetGroup
  assets : List Asset
  assignments : List AssetAccessAssignment
  groupMemberships : List GroupMembership
  outbox : List TupleUpdate

def TenantState.fresh : TenantState := ⟨ReadCommitted.Store.empty, [], [], [], [], []⟩

/-- One transaction: what it enqueues is committed with its rows, and an update that the
outbox refuses leaves the rows of `refused`. -/
def TenantState.commit {ε α : Type} (s : TenantState) (refused : Db) (r : Except ε α × Db)
    (updates : α → Except CatalogError (List TupleUpdate)) : TenantState :=
  match r with
  | (.error _, db) => { s with db := db }
  | (.ok a, db) =>
    match updates a with
    | .error _ => { s with db := refused }
    | .ok us => { s with db := db, outbox := s.outbox ++ us }

/- Outside the repository: `uuid.Parse`. -/
variable (parse : String → Option Uuid)

section Lifecycle

variable (s : TenantState) (org membershipId : Uuid) (present : Bool)

/-- The tuples that a membership holds as a subject: of its assets, its groups and its
access assignments. -/
def membershipAccessTupleUpdates : Except CatalogError (List TupleUpdate) := do
  let subjectRef := qualify org .membership membershipId.text
  let owned := s.assets.filter fun a =>
    a.organizationId = org && a.ownerMembershipId = some membershipId
  let groups := s.groupMemberships.filter fun g =>
    g.organizationId = org && g.membershipId = membershipId
  let assigned := s.assignments.filter fun a =>
    a.organizationId = org && a.subjectType = .membership && a.subjectId = membershipId
  let roles ← assigned.mapM fun a =>
    projectRoleAssignment (qualify org a.objectType a.objectId.text) a.relation subjectRef present
  return (owned.map fun a => ⟨opFor present, ⟨subjectRef, relOwner, qualify org .asset a.id.text⟩, none⟩) ++
    (groups.map fun g => ⟨opFor present, ⟨subjectRef, relMember, qualify org .group g.groupId.text⟩, none⟩) ++
    roles

def enqueueMembershipLifecycle : Except CatalogError (List TupleUpdate) := do
  let updates ← membershipAccessTupleUpdates s org membershipId present
  enqueue parse updates

/-- What `ensureActiveMembership` enqueues: a membership that returns gets its tuples. -/
def enqueueReturn (identityId : Uuid) : Except CatalogError (List TupleUpdate) :=
  match findByIdentity s.db org identityId with
  | none => .ok []
  | some m =>
    if m.status = .suspended ∨ m.status = .invited then enqueueMembershipLifecycle parse s org m.id true
    else .ok []

end Lifecycle

section Catalog

variable (s : TenantState) (org : Uuid)

/-- `CreateGroup`, under the keys of `asset_group`. -/
def createAssetGroup (g : AssetGroup) : Except CatalogError TenantState :=
  if g.organizationId ≠ org then .error (.crossTenantWrite g.organizationId org)
  else if (s.assetGroups.any fun r => r.id = g.id) ∨
      (g.parentGroupId.any fun p => !s.assetGroups.any fun r => r.id = p) then
    .error (.creation "asset_group")
  else do
    let us ← enqueue parse (g.tuples.map fun t => ⟨.write, t, none⟩)
    return { s with assetGroups := s.assetGroups ++ [g], outbox := s.outbox ++ us }

/-- `AssetStore.Create`: the parent group and the owner exist, in whichever organization. -/
def createAsset (a : Asset) : Except CatalogError TenantState :=
  if a.organizationId ≠ org then .error (.crossTenantWrite a.organizationId org)
  else if (s.assets.any fun r => r.id = a.id) ∨
      (a.parentGroupId.any fun p => !s.assetGroups.any fun r => r.id = p) ∨
      (a.ownerMembershipId.any fun m => (membershipAt s.db m).isNone) then
    .error (.creation "asset")
  else do
    let us ← enqueue parse (projectAsset a true)
    return { s with assets := s.assets ++ [a], outbox := s.outbox ++ us }

/-- `AssetAccessStore.Create`: one assignment for each subject, relation and object. -/
def createAssetAccess (a : AssetAccessAssignment) : Except CatalogError TenantState :=
  if a.organizationId ≠ org then .error (.crossTenantWrite a.organizationId org)
  else if (s.assignments.any fun r => r.id = a.id ∨ (r.subjectType = a.subjectType ∧
      r.subjectId = a.subjectId ∧ r.relation = a.relation ∧ r.objectType = a.objectType ∧
      r.objectId = a.objectId)) then
    .error (.creation "asset_access_assignment")
  else do
    let update ← a.tuple true
    let us ← enqueue parse [update]
    return { s with assignments := s.assignments ++ [a], outbox := s.outbox ++ us }

def createGroupMembership (g : GroupMembership) : Except CatalogError TenantState :=
  if g.organizationId ≠ org then .error (.crossTenantWrite g.organizationId org)
  else if (s.groupMemberships.any fun r => r.id = g.id ∨
      (r.groupId = g.groupId ∧ r.membershipId = g.membershipId)) ∨
      (membershipAt s.db g.membershipId).isNone then
    .error (.creation "group_membership")
  else do
    let us ← enqueue parse [g.tuple true]
    return { s with groupMemberships := s.groupMemberships ++ [g], outbox := s.outbox ++ us }

def deleteGroupMembership (g : GroupMembership) : Except CatalogError TenantState :=
  if g.organizationId ≠ org then .error (.crossTenantWrite g.organizationId org)
  else do
    let us ← enqueue parse [g.tuple false]
    return { s with
      groupMemberships := s.groupMemberships.filter fun r =>
        !(r.organizationId = org && r.groupId = g.groupId && r.membershipId = g.membershipId)
      outbox := s.outbox ++ us }

end Catalog

/-- One call of a service of the tenant, with its random draws. -/
inductive TenantOp
  | suspendIdentity (identityId : Uuid)
  | deprovisionIdentity (identityId : Uuid)
  | inviteByEmail (email : String) (invitedBy membershipId : Uuid)
  | accept (membershipId identityId : Uuid)
  | provisionUser (email : String) (draw : ProvisionDraw)
  | provisionFederated (email : String) (draw : ProvisionDraw)
  | revokeMembership (membershipId : Uuid)
  | suspendForDeactivation (membershipId : Uuid)
  | requestBreakglass (id subject : Uuid) (target : GrantTarget) (requiredApprovals : ℕ)
      (justification incidentRef : String) (notBefore expiresAt : Time)
  | passStepUp (grantId : Uuid) (provenAAL : Aal) (phishingResistant : Bool)
  | approve (grantId approverMembershipId : Uuid)
  | revokeGrant (grantId : Uuid)
  | expireDue (now : Time)
  | createAssetGroup (id : Uuid) (name : String) (parent : Option Uuid)
  | createAsset (id : Uuid) (kind name externalRef : String) (parent owner : Option Uuid)
  | createAssetAccess (id : Uuid) (subjectType : ObjectType) (subjectId : Uuid) (relation : String)
      (objectType : ObjectType) (objectId : Uuid)
  | createGroupMembership (id groupId membershipId : Uuid)
  | deleteGroupMembership (groupId membershipId : Uuid)

/-- A refused call leaves the tenant as it was. -/
def orElse (s : TenantState) : Except CatalogError TenantState → TenantState
  | .error _ => s
  | .ok s' => s'

section Calls

variable (c : Collaborators) (org : Uuid) (s : TenantState)

def performTenant : TenantOp → TenantState
  -- the cascades of an identity enqueue nothing
  | .suspendIdentity identityId => s.commit s.db (suspendIdentity s.db identityId) fun _ => .ok []
  | .deprovisionIdentity identityId =>
    s.commit s.db (deprovisionIdentity s.db identityId) fun _ => .ok []
  | .inviteByEmail email invitedBy id =>
    s.commit s.db (inviteByEmail c s.db org email invitedBy id) fun _ => .ok []
  | .accept membershipId identityId => s.commit s.db (accept s.db org membershipId identityId) fun m =>
      enqueueMembershipLifecycle parse s org m.id true
  | .provisionUser email draw => s.commit s.db (provisionUser c s.db org email draw) fun _ => .ok []
  | .provisionFederated email draw =>
    s.commit (resolveOrCreateIdentity c s.db email draw).2 (provisionFederated c s.db org email draw)
      fun identityId => enqueueReturn parse s org identityId
  | .revokeMembership id => s.commit s.db (revokeMembership s.db org id) fun _ => do
      let us ← enqueueMembershipLifecycle parse s org id false
      let gs ← enqueueGrantProjections parse
        ((listActiveByMembership s.db org id).map (PrivilegedGrant.setStatus .revoked))
      return us ++ gs
  | .suspendForDeactivation id => s.commit s.db (suspendForDeactivation s.db org id) fun _ =>
      -- a membership that is not active is left alone
      if (getMembership s.db org id).any fun m => m.status = .active then
        enqueueMembershipLifecycle parse s org id false
      else .ok []
  | .requestBreakglass id subject target n justification incidentRef notBefore expiresAt =>
    s.commit s.db (requestBreakglass c s.db id org subject target n justification incidentRef
      notBefore expiresAt) fun g => enqueueGrantProjection parse g
  | .passStepUp grantId aal phishingResistant =>
    s.commit s.db (passStepUp s.db org grantId aal phishingResistant) fun g =>
      enqueueGrantProjection parse g
  | .approve grantId approver => s.commit s.db (approve s.db org grantId approver) fun g =>
      enqueueGrantProjection parse g
  | .revokeGrant grantId => s.commit s.db (revokeGrant s.db org grantId) fun g =>
      enqueueGrantProjection parse g
  | .expireDue now => s.commit s.db (expireDue s.db org now) fun _ =>
      enqueueGrantProjections parse
        ((listActiveExpired s.db org now).map (PrivilegedGrant.setStatus .expired))
  | .createAssetGroup id name parent =>
    orElse s (newAssetGroup id org name parent >>= fun g => createAssetGroup parse s org g)
  | .createAsset id kind name externalRef parent owner =>
    orElse s (newAsset id org kind name externalRef parent owner >>= fun a => createAsset parse s org a)
  | .createAssetAccess id subjectType subjectId relation objectType objectId =>
    orElse s (newAssetAccessAssignment id org subjectType subjectId relation objectType objectId >>=
      fun a => createAssetAccess parse s org a)
  | .createGroupMembership id groupId membershipId =>
    orElse s (newGroupMembership id org groupId membershipId >>= fun g =>
      createGroupMembership parse s org g)
  | .deleteGroupMembership groupId membershipId =>
    orElse s (deleteGroupMembership parse s org ⟨Uuid.nil, org, groupId, membershipId⟩)

def callTenant (op : TenantOp) : Option TenantState := some (performTenant parse c org s op)

end Calls

end ArchGuard.Authz
