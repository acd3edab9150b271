import ArchGuard.ApiFilter
import ArchGuard.KeyedRows
import ArchGuard.PolicyMirror

/-! The role and permission endpoints of the legacy API: the rows that each of them returns, and what it
leaves in the tables, also where it fails. -/
namespace ArchGuard.LegacyApi
open GoText KeyedRows Object Permissions

inductive Endpoint
  | getRole
  | updateRole
  | addRole
  | deleteRole
  | getPermission
  | updatePermission
  | addPermission
  | deletePermission
  deriving DecidableEq, Repr

def Endpoint.path : Endpoint → GoString
  | .getRole => utf8 "/api/get-role"
  | .updateRole => utf8 "/api/update-role"
  | .addRole => utf8 "/api/add-role"
  | .deleteRole => utf8 "/api/delete-role"
  | .getPermission => utf8 "/api/get-permission"
  | .updatePermission => utf8 "/api/update-permission"
  | .addPermission => utf8 "/api/add-permission"
  | .deletePermission => utf8 "/api/delete-permission"

/-- Whether the endpoint reads: it is routed for GET, the others for POST. -/
def Endpoint.reads (e : Endpoint) : Bool := e = .getRole || e = .getPermission

def Endpoint.method (e : Endpoint) : GoString := if e.reads then utf8 "GET" else utf8 "POST"

structure Call extends Request where
  endpoint : Endpoint
  /-- What `json.Unmarshal` makes of the body. -/
  role : Option Role
  permission : Option Permission
  /-- The text under "name" in the body, read as a map. -/
  fieldName : Option GoString
  /-- Whether the posted object differs from the row of the identifier in a column that the tables leave
  out, such as the display name. -/
  differs : Bool
  path_eq : path = endpoint.path
  object_role : ∀ r, role = some r → bodyEmpty = false ∧ object = some (r.owner, r.name)
  object_permission : ∀ p, permission = some p → bodyEmpty = false ∧ object = some (p.owner, p.name)

namespace Call

def id (c : Call) : GoString := c.query (utf8 "id")

def organization (c : Call) : GoString := c.query (utf8 "organization")

end Call

def forbiddenChars : GoString := utf8 "/?:#&%=+;"

/-- `FieldValidationFilter` ends the request. -/
def fieldRefused (c : Call) : Bool :=
  c.method = utf8 "POST" &&
    (hasPrefix c.path (utf8 "/api/add-") || hasPrefix c.path (utf8 "/api/update-")) &&
    c.fieldName.any fun name => name.any forbiddenChars.contains

/-- What one request meets with when it has the enforcers of permissions built. It asks for the policies of
a permission once to take them away and once to add them, so that the answers may be those of the tables
of the moment. -/
structure Enforcers extends Casbin where
  /-- Whether `removePolicies`, and `addPolicies`, end without an error: a group of the permission that
  has no organization is enough for one. -/
  removes : Permission → Bool
  adds : Permission → Bool

section Handlers

variable (casbin : Enforcers) (db : Database)

/-- What `UpdateRole` leaves, and the key of the row that its own update writes. -/
def updateRoleRows (id : GoString) (role : Role) (isGlobalAdmin : Bool) : Database × Option Key :=
  match getOwnerAndNameFromIdNoCheck id with
  | none => (db, none)
  | some (owner, name) =>
    match getRole db owner name with
    | none => (db, none)
    | some oldRole =>
      if isGlobalAdmin = false ∧ oldRole.owner ≠ role.owner then (db, none)
      else if name ≠ role.name ∧
          ∃ p ∈ getPermissionsByRole casbin.like db.toTables id, casbin.removes p = false then (db, none)
      else
        match if name = role.name then some db else roleChangeTrigger name role.name db with
        | none => (db, none)
        | some db =>
          -- the trigger has committed when the update finds the new key taken
          match db.withRows? (replaceAt Role.key (owner, name) role db.roles) db.permissions with
          | none => (db, none)
          | some db => (db, some (owner, name))

def addRoleRows (role : Role) : Database :=
  (db.withRows? (db.roles ++ [role]) db.permissions).getD db

/-- Whether the policies follow an update of the row of an identifier, once it is written. -/
def policiesFollow (id : GoString) (permission : Permission) : Bool :=
  ((getOwnerAndNameFromIdNoCheck id).bind fun (owner, name) =>
    Permissions.getPermission db owner name).all fun oldPermission =>
      casbin.removes oldPermission &&
        (checkPermissionValid casbin.toCasbin permission).all casbin.adds

/-- The loop of `DeleteRole` over the permissions that list the role, and whether it came to its end. -/
def detach (roleId : GoString) : List Permission → PolicyStore → PolicyStore × Bool
  | [], s => (s, true)
  | permission :: permissions, s =>
    let left := { permission with roles := permission.roles.filter (· ≠ roleId) }
    match updatePermission casbin.toCasbin s permission.getId left true with
    | none => (s, false)
    | some s' =>
      -- where the policies do not follow, the row is written all the same
      if policiesFollow casbin s.db permission.getId left then detach roleId permissions s'
      else (s', false)

def deleteRoleRows (role : Role) : Database :=
  let permissions := getPermissionsByRole casbin.like db.toTables role.getId
  let (s, ended) := detach casbin role.getId permissions ⟨db, []⟩
  if ended then
    (s.db.withRows? (s.db.roles.filter fun r => r.key ≠ role.key) s.db.permissions).getD s.db
  else s.db

-- Whether a row counts as affected that keeps its values is a matter of the policies only, and so is
-- whether they follow.
def updatePermissionRows (id : GoString) (permission : Permission) : Database × Option Key :=
  match updatePermission casbin.toCasbin ⟨db, []⟩ id permission true with
  | none => (db, none)
  | some s => (s.db, (getOwnerAndNameFromIdNoCheck id).filter fun k =>
      (Permissions.getPermission db k.1 k.2).isSome)

def addPermissionRows (permission : Permission) : Database :=
  ((addPermission casbin.toCasbin ⟨db, []⟩ permission).map PolicyStore.db).getD db

def deletePermissionRows (permission : Permission) : Database :=
  ((deletePermission casbin.toCasbin ⟨db, []⟩ permission).map PolicyStore.db).getD db

end Handlers

/-- What a request returns, and what it leaves. -/
structure Response where
  roles : List Role
  permissions : List Permission
  db : Database
  /-- The row that got other values in the columns that the tables leave out. -/
  rewritten : Option Key

def Response.leaving (db : Database) : Response := ⟨[], [], db, none⟩

section Serving

variable (casbin : Enforcers) (isGlobalAdmin : Bool) (c : Call) (db : Database)

def Response.updating (r : Database × Option Key) : Response :=
  ⟨[], [], r.1, if c.differs then r.2 else none⟩

/-- The handler of the endpoint; one that cannot read its body answers with an error. -/
def handle : Response :=
  let withRole (f : Role → Response) := (c.role.map f).getD (.leaving db)
  let withPermission (f : Permission → Response) := (c.permission.map f).getD (.leaving db)
  match c.endpoint with
  | .getRole =>
    { Response.leaving db with
      roles := ((getOwnerAndNameFromIdNoCheck c.id).bind fun (owner, name) =>
        getRole db owner name).toList }
  | .updateRole => withRole fun role => .updating c (updateRoleRows casbin db c.id role isGlobalAdmin)
  | .addRole => withRole fun role => .leaving (addRoleRows db role)
  | .deleteRole => withRole fun role => .leaving (deleteRoleRows casbin db role)
  | .getPermission =>
    { Response.leaving db with
      permissions := ((getOwnerAndNameFromIdNoCheck c.id).bind fun (owner, name) =>
        Permissions.getPermission db owner name).toList }
  | .updatePermission => withPermission fun permission =>
    .updating c (updatePermissionRows casbin db c.id permission)
  | .addPermission => withPermission fun permission => .leaving (addPermissionRows casbin db permission)
  | .deletePermission => withPermission fun permission =>
    .leaving (deletePermissionRows casbin db permission)

/-- What comes of a request that `ApiFilter` lets through. -/
def serve : Response :=
  if c.method = c.endpoint.method ∧ fieldRefused c = false then handle casbin isGlobalAdmin c db
  else .leaving db

end Serving

/-- The rows of other organizations are the same. -/
def Untouched (org : GoString) (db db' : Database) : Prop :=
  Same Role.key (fun k => k.1 ≠ org) db.roles db'.roles ∧
    Same Permission.key (fun k => k.1 ≠ org) db.permissions db'.permissions

/-- Every row that is returned, changed, added or deleted is of the organization, before and after. -/
structure Within (org : GoString) (db : Database) (r : Response) : Prop where
  roles : ∀ role ∈ r.roles, role.owner = org
  permissions : ∀ permission ∈ r.permissions, permission.owner = org
  untouched : Untouched org db r.db
  rewritten : ∀ k ∈ r.rewritten, k.1 = org

section Condition

variable (casbin : Enforcers) (org : GoString) (c : Call) (db : Database)

/-- A reference that a rename can read. -/
def Legible (ref : GoString) : Prop := ref = star ∨ (getOwnerAndNameFromIdWithError ref).isSome

/-- A rename of a role goes through. -/
def AllLegible : Prop :=
  (∀ role ∈ db.roles, ∀ ref ∈ role.roles, Legible ref) ∧
    ∀ permission ∈ db.permissions, ∀ ref ∈ permission.roles, Legible ref

/-- No row of another organization lists a role of the name, of whatever organization. -/
def NoForeignReference (name : GoString) : Prop :=
  (∀ role ∈ db.roles, role.owner ≠ org → NoneNamed name role.roles) ∧
    ∀ permission ∈ db.permissions, permission.owner ≠ org → NoneNamed name permission.roles

/-- What `UpdatePermission` asks of the model of a permission for applications. -/
def ModelFits (permission : Permission) : Prop :=
  permission.resourceType = utf8 "Application" → permission.model ≠ [] →
    casbin.policyParts permission.model = some 3

/-- The identifier of a permission leads to its own row. -/
def Direct (permission : Permission) : Prop :=
  getOwnerAndNameFromIdNoCheck permission.getId = some permission.key ∧
    permission.owner ≠ [] ∧ permission.name ≠ []

/-- The identifier of a permission leads to no row. -/
def Astray (permission : Permission) : Prop :=
  ∀ k ∈ getOwnerAndNameFromIdNoCheck permission.getId,
    k.1 = [] ∨ k.2 = [] ∨ k ∉ db.permissions.map Permission.key

def detached (roleId : GoString) (p : Permission) : Permission :=
  { p with
    roles := if casbin.hasRoleDefinition p.model then p.roles.filter (· ≠ roleId) else []
    domains := if casbin.hasDomainDefinition p.model then p.domains else [] }

/-- A permission of which the deletion of a role can take the role. -/
def Detachable (roleId : GoString) (permission : Permission) : Prop :=
  casbin.accepts { permission with roles := permission.roles.filter (· ≠ roleId) } ∧
    (Astray db permission ∨ Direct permission ∧ ModelFits casbin permission)

instance (ref : GoString) : Decidable (Legible ref) :=
  inferInstanceAs (Decidable (ref = star ∨ (getOwnerAndNameFromIdWithError ref).isSome))

instance (permission : Permission) : Decidable (ModelFits casbin permission) :=
  inferInstanceAs (Decidable (permission.resourceType = utf8 "Application" → permission.model ≠ [] →
    casbin.policyParts permission.model = some 3))

instance (permission : Permission) : Decidable (Direct permission) :=
  inferInstanceAs (Decidable (getOwnerAndNameFromIdNoCheck permission.getId = some permission.key ∧
    permission.owner ≠ [] ∧ permission.name ≠ []))

instance (permission : Permission) : Decidable (Astray db permission) :=
  inferInstanceAs (Decidable (∀ k ∈ getOwnerAndNameFromIdNoCheck permission.getId,
    k.1 = [] ∨ k.2 = [] ∨ k ∉ db.permissions.map Permission.key))

instance (roleId : GoString) (permission : Permission) :
    Decidable (Detachable casbin db roleId permission) :=
  inferInstanceAs (Decidable (casbin.accepts
      { permission with roles := permission.roles.filter (· ≠ roleId) } ∧
    (Astray db permission ∨ Direct permission ∧ ModelFits casbin permission)))

/-- The policies follow when the role is taken from the permission, or none are touched. -/
def Follows (roleId : GoString) (permission : Permission) : Prop :=
  Astray db permission ∨
    casbin.removes permission = true ∧ casbin.adds (detached casbin roleId permission) = true

instance (roleId : GoString) (permission : Permission) :
    Decidable (Follows casbin db roleId permission) :=
  inferInstanceAs (Decidable (Astray db permission ∨
    casbin.removes permission = true ∧ casbin.adds (detached casbin roleId permission) = true))

/-- The permissions of which the deletion of a role takes the role: it ends at the first that cannot be
updated, and after the first of which the policies do not follow. -/
def reached (roleId : GoString) : List Permission → List Permission
  | [] => []
  | p :: ps =>
    if Detachable casbin db roleId p then
      p :: if Follows casbin db roleId p then reached roleId ps else []
    else []

def UpdateRoleFits (k : Key) (role old : Role) : Prop :=
  if k.2 = role.name then k.1 = org ∨ role = old ∧ c.differs = false
  else (∀ p ∈ getPermissionsByRole casbin.like db.toTables c.id, casbin.removes p = true) →
    AllLegible db → NoForeignReference org db k.2 ∧ (k.1 = org ∨ role.key ∈ db.roles.map Role.key)

/-- The deletion of a role stays in the organization. -/
def DeleteRoleFits (role : Role) : Prop :=
  let listed := getPermissionsByRole casbin.like db.toTables role.getId
  (∀ p ∈ reached casbin db role.getId listed, Direct p → p.owner = org) ∧
    ((∀ p ∈ listed, Detachable casbin db role.getId p ∧ Follows casbin db role.getId p) →
    (getOwnerAndNameFromIdWithError c.id).isSome → role.owner = org ∨ role.key ∉ db.roles.map Role.key)

def UpdatePermissionFits (k : Key) (permission old : Permission) : Prop :=
  ModelFits casbin permission → (permission.key = k ∨ permission.key ∉ db.permissions.map Permission.key) →
    (k.1 = org ∧ permission.owner = org) ∨ permission = old ∧ c.differs = false

/-- The rows that the handler picks are of the organization: for the endpoints that read, unless the
parameter `organization` is what the filter goes by; for those that add and delete, unless it is the
parameter `id`. -/
def Fits : Prop :=
  match c.endpoint with
  | .getRole => c.organization ≠ [] → ∀ k ∈ getOwnerAndNameFromIdNoCheck c.id,
    (getRole db k.1 k.2).isSome → k.1 = org
  | .updateRole => ∀ role ∈ c.role, ∀ k ∈ getOwnerAndNameFromIdNoCheck c.id,
    ∀ old ∈ getRole db k.1 k.2, old.owner = role.owner → UpdateRoleFits casbin org c db k role old
  | .addRole => (getOwnerAndNameFromIdWithError c.id).isSome → ∀ role ∈ c.role,
    role.owner = org ∨ role.key ∈ db.roles.map Role.key
  | .deleteRole => ∀ role ∈ c.role, DeleteRoleFits casbin org c db role
  | .getPermission => c.organization ≠ [] → ∀ k ∈ getOwnerAndNameFromIdNoCheck c.id,
    (Permissions.getPermission db k.1 k.2).isSome → k.1 = org
  | .updatePermission => ∀ permission ∈ c.permission, ∀ valid ∈ checkPermissionValid casbin.toCasbin permission,
    ∀ k ∈ getOwnerAndNameFromIdNoCheck c.id, ∀ old ∈ Permissions.getPermission db k.1 k.2,
    UpdatePermissionFits casbin org c db k valid old
  | .addPermission => (getOwnerAndNameFromIdWithError c.id).isSome → ∀ permission ∈ c.permission,
    casbin.accepts permission → permission.owner = org ∨
      permission.key ∈ db.permissions.map Permission.key
  | .deletePermission => (getOwnerAndNameFromIdWithError c.id).isSome → ∀ permission ∈ c.permission,
    permission.owner = org ∨ permission.key ∉ db.permissions.map Permission.key

/-- The request does not come to its handler, or the rows that the handler picks are of the
organization. -/
def Contained : Prop :=
  c.method = c.endpoint.method → fieldRefused c = false → Fits casbin org c db

end Condition

end ArchGuard.LegacyApi
