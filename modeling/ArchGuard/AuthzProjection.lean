import ArchGuard.AuthzOutbox
import ArchGuard.AuthzResolver
import ArchGuard.PrivilegedGrant

/-! The tuple mutations derived from the catalog of assets, the groups and the grants, and
the store they are published to, one after the other. -/
namespace ArchGuard.Tenancy

/-- `Authorizes`: the grant is active, and within its window. -/
def PrivilegedGrant.authorizes (g : PrivilegedGrant) (now : Time) : Bool :=
  if g.status ≠ .active then false
  else if now < g.notBefore ∨ g.expired now then false
  else true

end ArchGuard.Tenancy

namespace ArchGuard.Authz
open Tenancy

inductive CatalogError
  | invalidAsset (detail : String)
  | invalidAssetGroup (detail : String)
  | selfParent
  | invalidAssetAccess (detail : String)
  | invalidGroupMembership
  | invalidProjection (detail : String)
  | crossTenantWrite (target scope : Uuid)
  | creation (table : String)
  | outbox (err : OutboxError)
  deriving DecidableEq, Repr

def CatalogError.text : CatalogError → String
  | .invalidAsset detail => "asset: dados obrigatórios ausentes: " ++ detail
  | .invalidAssetGroup detail => "asset_group: dados obrigatórios ausentes: " ++ detail
  | .selfParent => "asset_group: grupo não pode ser pai de si mesmo"
  | .invalidAssetAccess detail => "asset_access: dados obrigatórios ausentes ou inválidos: " ++ detail
  | .invalidGroupMembership =>
    "group_membership: dados obrigatórios ausentes: organização, grupo e membership"
  | .invalidProjection detail => "authz_projection: entrada de projeção inválida: " ++ detail
  | .crossTenantWrite target scope => "postgres: escrita cross-tenant recusada (Barreira 1): alvo " ++
      target.text ++ ", escopo " ++ scope.text
  | .creation table => "postgres: criação de " ++ table ++ " falhou"
  | .outbox err => err.text

section Domain

structure AssetGroup where
  id : Uuid
  organizationId : Uuid
  name : String
  parentGroupId : Option Uuid
  deriving DecidableEq, Repr

structure Asset where
  id : Uuid
  organizationId : Uuid
  kind : String
  name : String
  externalRef : String
  parentGroupId : Option Uuid
  ownerMembershipId : Option Uuid
  deriving DecidableEq, Repr

structure AssetAccessAssignment where
  id : Uuid
  organizationId : Uuid
  subjectType : ObjectType
  subjectId : Uuid
  relation : String
  objectType : ObjectType
  objectId : Uuid
  deriving DecidableEq, Repr

structure GroupMembership where
  id : Uuid
  organizationId : Uuid
  groupId : Uuid
  membershipId : Uuid
  deriving DecidableEq, Repr

/-- `NewAssetGroup`, with the drawn id. -/
def newAssetGroup (id org : Uuid) (name : String) (parent : Option Uuid) :
    Except CatalogError AssetGroup :=
  if org = Uuid.nil then .error (.invalidAssetGroup "organização")
  else if name = "" then .error (.invalidAssetGroup "nome")
  else if parent = some Uuid.nil then .error (.invalidAssetGroup "parent nulo explícito")
  else if parent = some id then .error .selfParent
  else .ok ⟨id, org, name, parent⟩

def newAsset (id org : Uuid) (kind name externalRef : String) (parent owner : Option Uuid) :
    Except CatalogError Asset :=
  if org = Uuid.nil then .error (.invalidAsset "organização")
  else if kind = "" then .error (.invalidAsset "tipo")
  else if name = "" then .error (.invalidAsset "nome")
  else if parent = some Uuid.nil then .error (.invalidAsset "parent nulo explícito")
  else if owner = some Uuid.nil then .error (.invalidAsset "owner nulo explícito")
  else .ok ⟨id, org, kind, name, externalRef, parent, owner⟩

def newAssetAccessAssignment (id org : Uuid) (subjectType : ObjectType) (subjectId : Uuid)
    (relation : String) (objectType : ObjectType) (objectId : Uuid) :
    Except CatalogError AssetAccessAssignment :=
  if org = Uuid.nil ∨ subjectId = Uuid.nil ∨ objectId = Uuid.nil then
    .error (.invalidAssetAccess "organização, sujeito e objeto")
  else if subjectType ≠ .membership ∧ subjectType ≠ .group then
    .error (.invalidAssetAccess ("sujeito " ++ quoted subjectType.text ++
      " deve ser membership ou group"))
  else if relation ≠ relOperator ∧ relation ≠ relAuditor then
    .error (.invalidAssetAccess ("relação " ++ quoted relation ++
      " não é atribuível (use operator/auditor)"))
  else if objectType ≠ .asset ∧ objectType ≠ .assetGroup then
    .error (.invalidAssetAccess ("objeto " ++ quoted objectType.text ++
      " deve ser asset ou asset_group"))
  else .ok ⟨id, org, subjectType, subjectId, relation, objectType, objectId⟩

def newGroupMembership (id org groupId membershipId : Uuid) : Except CatalogError GroupMembership :=
  if org = Uuid.nil ∨ groupId = Uuid.nil ∨ membershipId = Uuid.nil then
    .error .invalidGroupMembership
  else .ok ⟨id, org, groupId, membershipId⟩

def AssetGroup.ref (g : AssetGroup) : String := qualify g.organizationId .assetGroup g.id.text

def AssetGroup.tuples (g : AssetGroup) : List RelationTuple :=
  match g.parentGroupId with
  | none => []
  | some parent => [⟨qualify g.organizationId .assetGroup parent.text, relParent, g.ref⟩]

def Asset.ref (a : Asset) : String := qualify a.organizationId .asset a.id.text

/-- The `parent` and the `owner` edge of an asset. -/
def Asset.tuples (a : Asset) : List RelationTuple :=
  (match a.parentGroupId with
    | none => []
    | some parent => [⟨qualify a.organizationId .assetGroup parent.text, relParent, a.ref⟩]) ++
  match a.ownerMembershipId with
  | none => []
  | some owner => [⟨qualify a.organizationId .membership owner.text, relOwner, a.ref⟩]

def AssetAccessAssignment.subjectRef (a : AssetAccessAssignment) : String :=
  if a.subjectType = .group then qualify a.organizationId .group a.subjectId.text ++ "#member"
  else qualify a.organizationId .membership a.subjectId.text

def AssetAccessAssignment.objectRef (a : AssetAccessAssignment) : String :=
  qualify a.organizationId a.objectType a.objectId.text

end Domain

section Projections

def opFor (present : Bool) : TupleOp := if present then .write else .delete

def projectGroupMembership (org groupId membershipId : Uuid) (present : Bool) : TupleUpdate where
  op := opFor present
  tuple := ⟨qualify org .membership membershipId.text, relMember, qualify org .group groupId.text⟩
  condition := none

def assignableRelation (relation : String) : Bool := relation = relOperator || relation = relAuditor

def projectRoleAssignment (objectRef relation subjectRef : String) (present : Bool) :
    Except CatalogError TupleUpdate :=
  if !assignableRelation relation then
    .error (.invalidProjection ("relação " ++ quoted relation ++ " não é atribuível"))
  else
    let tuple : RelationTuple := ⟨subjectRef, relation, objectRef⟩
    match validateTuple tuple with
    | .error err => .error (.invalidProjection err.text)
    | .ok () => .ok ⟨opFor present, tuple, none⟩

/-- An active grant writes its tuple under its window, any other status deletes it. -/
def projectGrant (g : PrivilegedGrant) (assetRef : String) : Except CatalogError TupleUpdate :=
  let tuple : RelationTuple :=
    ⟨qualify g.organizationId .membership g.subjectMembershipId.text, relHasActiveGrant, assetRef⟩
  match validateTuple tuple with
  | .error err => .error (.invalidProjection err.text)
  | .ok () =>
    if g.status ≠ .active then .ok ⟨.delete, tuple, none⟩
    else .ok ⟨.write, tuple, some ⟨conditionValidWindow, g.notBefore, g.expiresAt⟩⟩

def projectAsset (a : Asset) (present : Bool) : List TupleUpdate :=
  a.tuples.map fun t => ⟨opFor present, t, none⟩

def AssetAccessAssignment.tuple (a : AssetAccessAssignment) (present : Bool) :
    Except CatalogError TupleUpdate :=
  projectRoleAssignment a.objectRef a.relation a.subjectRef present

def GroupMembership.tuple (g : GroupMembership) (present : Bool) : TupleUpdate :=
  projectGroupMembership g.organizationId g.groupId g.membershipId present

/- Outside the repository: `uuid.Parse`. -/
variable (parse : String → Option Uuid)

/-- `GrantTarget.AssetRef`: only a target that names a catalog asset has one. -/
def assetRef (t : GrantTarget) (org : Uuid) : Option String :=
  if t.type ≠ ObjectType.asset.text then none
  else match parse t.id with
    | none => none
    | some assetId => some (qualify org .asset assetId.text)

/-- `Enqueue` where nothing else runs: the updates, once each of them is accepted. -/
def enqueue : List TupleUpdate → Except CatalogError (List TupleUpdate)
  | [] => .ok []
  | u :: us =>
    match enqueueOrg parse u with
    | .error err => .error (.outbox err)
    | .ok _ => do
      let us ← enqueue us
      return u :: us

def enqueueGrantProjection (g : PrivilegedGrant) : Except CatalogError (List TupleUpdate) :=
  match assetRef parse g.target g.organizationId with
  | none => .ok []
  | some ref => do
    let update ← projectGrant g ref
    enqueue parse [update]

def enqueueGrantProjections : List PrivilegedGrant → Except CatalogError (List TupleUpdate)
  | [] => .ok []
  | g :: gs => do
    let us ← enqueueGrantProjection parse g
    let rest ← enqueueGrantProjections gs
    return us ++ rest

end Projections

section Store

structure StoredTuple where
  tuple : RelationTuple
  row : TupleRow
  deriving DecidableEq, Repr

/- Outside the repository: the text that a `uuid` column accepts. -/
variable (column : String → Option Uuid)

/-- One outbox row published: an upsert of its condition, or a delete. -/
def publishUpdate (store : List StoredTuple) (u : TupleUpdate) : Option (List StoredTuple) :=
  match u.op with
  | .write =>
    match (refOrg u.tuple.object).bind column with
    | none => none
    | some org =>
      let condition := u.condition.map TupleCondition.stored
      if store.any fun x => x.tuple = u.tuple then
        some (store.map fun x => if x.tuple = u.tuple then ⟨x.tuple, x.row.organizationId, condition⟩
          else x)
      else some (store ++ [⟨u.tuple, org, condition⟩])
  | .delete => some (store.filter fun x => x.tuple ≠ u.tuple)

/-- The store once the whole outbox is published, in order. -/
def drain (us : List TupleUpdate) : Option (List StoredTuple) := us.foldlM (publishUpdate column) []

def StoredTuple.window (x : StoredTuple) : Option ValidityWindow :=
  match x.row.condition with
  | some c => if c.name = conditionValidWindow then some c.window else none
  | none => none

/-- `loadTenantGraph`: the tuples of one organization. -/
def loadTenantGraph (store : List StoredTuple) (org : Uuid) : GraphReader :=
  memoryGraph ((store.filter fun x => x.row.organizationId = org).map fun x => ⟨x.tuple, x.window⟩)

/-- `loadTenantTuples` of the reconciler. -/
def loadTenantTuples (store : List StoredTuple) (org : Uuid) : List RelationTuple :=
  (store.filter fun x => x.row.organizationId = org).map StoredTuple.tuple

end Store

end ArchGuard.Authz
