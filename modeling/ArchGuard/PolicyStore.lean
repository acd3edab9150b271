import ArchGuard.AttachedPermissions
import ArchGuard.Credential
import ArchGuard.MirroredRows
import ArchGuard.RenameTriggers

/-! The permissions with the policy rows that are stored for them, and the operations that write to
either. -/
namespace ArchGuard.Permissions
open GoText MirroredRows Object

/-- What the operations read of models and adapters, and of the database's `LIKE`. -/
structure Casbin where
  lower : Char → Char
  like : GoString → GoString → Bool
  /-- The table of an adapter of an organization. -/
  adapterTable : GoString → GoString → Option GoString
  /-- Whether the policies of a permission are accepted by an enforcer of its model. -/
  accepts : Permission → Bool
  /-- Whether a model defines roles, and domains. -/
  hasRoleDefinition : GoString → Bool
  hasDomainDefinition : GoString → Bool
  /-- How many parts the policy definition of a model has; nothing for a model that is not found. -/
  policyParts : GoString → Option ℕ

/-- A row of a policy table: the name of the table, and the values. -/
abbrev PolicyRow := GoString × List GoString

structure PolicyStore where
  db : Database
  policies : List PolicyRow

section Policies

variable (casbin : Casbin)

def getPermissionGroupId (permissionOwner groupId : GoString) : GoString :=
  if groupId = star then getId permissionOwner star else groupId

def getPermissionGroupSubject (permissionOwner groupId : GoString) : GoString :=
  utf8 "group:" ++ getPermissionGroupId permissionOwner groupId

def getPolicies (permission : Permission) : List (List GoString) :=
  let permissionId := permission.getId
  let effect := toLower casbin.lower permission.effect
  let subjects := permission.users ++
    permission.groups.map (getPermissionGroupSubject permission.owner) ++ permission.roles
  subjects.flatMap fun subject =>
    permission.resources.flatMap fun resource =>
      permission.actions.flatMap fun action =>
        if permission.domains = [] then [[subject, resource, action, effect, [], permissionId]]
        else permission.domains.map fun domain =>
          [subject, domain, resource, action, effect, permissionId]

/-- The table that `setEnforcerAdapter` takes. -/
def tableName (permission : Permission) : GoString :=
  if permission.adapter = [] then utf8 "permission_rule"
  else
    match casbin.adapterTable permission.owner permission.adapter with
    | some table => if table = [] then utf8 "permission_rule" else table
    | none => utf8 "permission_rule"

def policyRows (permission : Permission) : List PolicyRow :=
  (getPolicies casbin permission).map fun values => (tableName casbin permission, values)

def PolicyRow.permissionId (r : PolicyRow) : GoString := r.2.getD 5 []

def addPolicies (s : PolicyStore) (permission : Permission) : PolicyStore :=
  { s with policies := s.policies ++ policyRows casbin permission }

def removePolicies (s : PolicyStore) (permission : Permission) : PolicyStore :=
  { s with policies := without s.policies (policyRows casbin permission) }

end Policies

section Operations

variable (casbin : Casbin) (s : PolicyStore)

def getPermission (db : Database) (owner name : GoString) : Option Permission :=
  if owner = [] ∨ name = [] then none else rowOf Permission.key db.permissions (owner, name)

def getRole (db : Database) (owner name : GoString) : Option Role :=
  if owner = [] ∨ name = [] then none else rowOf Role.key db.roles (owner, name)

/-- `checkPermissionValid`, which takes away what the model does not define. -/
def checkPermissionValid (permission : Permission) : Option Permission :=
  if casbin.accepts permission then
    some { permission with
      roles := if casbin.hasRoleDefinition permission.model then permission.roles else []
      domains := if casbin.hasDomainDefinition permission.model then permission.domains else [] }
  else none

/-- `UpdatePermission`; nothing is returned where it fails. Whether a row counts as affected that keeps
its values is up to the database and the other columns. -/
def updatePermission (id : GoString) (permission : Permission) (affected : Bool) :
    Option PolicyStore := do
  let permission ← checkPermissionValid casbin permission
  let (owner, name) ← getOwnerAndNameFromIdNoCheck id
  match getPermission s.db owner name with
  | none => some s
  | some oldPermission =>
    if permission.resourceType = utf8 "Application" ∧ permission.model ≠ [] ∧
        casbin.policyParts permission.model ≠ some 3 then none
    else if affected = false then
      if permission = oldPermission then some s else none
    else
      let db ← s.db.withRows? s.db.roles (s.db.permissions.map fun p =>
        if p.key = (owner, name) then permission else p)
      some (addPolicies casbin (removePolicies casbin { s with db := db } oldPermission) permission)

def addPermission (permission : Permission) : Option PolicyStore := do
  let permission ← checkPermissionValid casbin permission
  let db ← s.db.withRows? s.db.roles (s.db.permissions ++ [permission])
  some (addPolicies casbin { s with db := db } permission)

/-- `DeletePermission`, of the permission that the request names. -/
def deletePermission (permission : Permission) : Option PolicyStore := do
  let db ← s.db.withRows? s.db.roles (s.db.permissions.filter fun p => p.key ≠ permission.key)
  if permission.key ∈ s.db.permissions.map Permission.key then
    some (removePolicies casbin { s with db := db } permission)
  else some { s with db := db }

def updateRole (id : GoString) (role : Role) (isGlobalAdmin : Bool) : Option PolicyStore := do
  let (owner, name) ← getOwnerAndNameFromIdNoCheck id
  match getRole s.db owner name with
  | none => some s
  | some oldRole =>
    if isGlobalAdmin = false ∧ oldRole.owner ≠ role.owner then none
    else if name = role.name then
      let db ← s.db.withRows? (s.db.roles.map fun r => if r.key = (owner, name) then role else r)
        s.db.permissions
      some { s with db := db }
    else
      let oldPermissions := getPermissionsByRole casbin.like s.db.toTables id
      let s' := oldPermissions.foldl (removePolicies casbin) s
      let db ← roleChangeTrigger name role.name s'.db
      let db ← db.withRows? (db.roles.map fun r => if r.key = (owner, name) then role else r)
        db.permissions
      let permissions := getPermissionsByRole casbin.like db.toTables role.getId
      some (permissions.foldl (addPolicies casbin) { s' with db := db })

def deleteRole (role : Role) : Option PolicyStore := do
  let permissions := getPermissionsByRole casbin.like s.db.toTables role.getId
  let s ← permissions.foldlM (fun s permission => updatePermission casbin s permission.getId
    { permission with roles := permission.roles.filter (· ≠ role.getId) } true) s
  let db ← s.db.withRows? (s.db.roles.filter fun r => r.key ≠ role.key) s.db.permissions
  some { s with db := db }

/-- The rename of a user, as far as other rows refer to the user. -/
def renameUser (owner oldName newName : GoString) : Option PolicyStore :=
  (userChangeTrigger oldName newName owner s.db).map fun db => { s with db := db }

end Operations

inductive Operation
  | addPermission (permission : Permission)
  | updatePermission (id : GoString) (permission : Permission) (affected : Bool)
  | deletePermission (permission : Permission)
  | updateRole (id : GoString) (role : Role) (isGlobalAdmin : Bool)
  | deleteRole (role : Role)
  | renameUser (owner oldName newName : GoString)
  deriving DecidableEq, Repr

def perform (casbin : Casbin) (s : PolicyStore) : Operation → Option PolicyStore
  | .addPermission permission => addPermission casbin s permission
  | .updatePermission id permission affected => updatePermission casbin s id permission affected
  | .deletePermission permission => deletePermission casbin s permission
  | .updateRole id role isGlobalAdmin => updateRole casbin s id role isGlobalAdmin
  | .deleteRole role => deleteRole casbin s role
  | .renameUser owner oldName newName => renameUser s owner oldName newName

def Mirrored (casbin : Casbin) (s : PolicyStore) : Prop :=
  Mirrors Permission.getId (policyRows casbin) s.db.permissions s.policies

section Rows

variable {casbin : Casbin}

theorem tagged_policyRows :
    Tagged Permission.getId (policyRows casbin) PolicyRow.permissionId := by
  intro permission r hr
  obtain ⟨values, hvalues, rfl⟩ := List.mem_map.mp hr
  simp only [getPolicies, List.mem_flatMap] at hvalues
  obtain ⟨subject, -, resource, -, action, -, hvalues⟩ := hvalues
  split_ifs at hvalues
  · obtain rfl := List.mem_singleton.mp hvalues
    rfl
  · obtain ⟨domain, -, rfl⟩ := List.mem_map.mp hvalues
    rfl

theorem policyRows_eq_nil {permission : Permission}
    (h : permission.resources = [] ∨ permission.actions = []) :
    policyRows casbin permission = [] := by
  rw [policyRows, getPolicies]
  rcases h with h | h <;> simp [h]

theorem policies_foldl_removePolicies (permissions : List Permission) (s : PolicyStore) :
    permissions.foldl (removePolicies casbin) s = { s with
      policies := without s.policies (permissions.flatMap (policyRows casbin)) } := by
  induction permissions generalizing s with
  | nil => simp [without]
  | cons permission permissions ih =>
    rw [List.foldl_cons, ih]
    simp only [removePolicies, List.flatMap_cons, without_append]

theorem policies_foldl_addPolicies (permissions : List Permission) (s : PolicyStore) :
    permissions.foldl (addPolicies casbin) s = { s with
      policies := s.policies ++ permissions.flatMap (policyRows casbin) } := by
  induction permissions generalizing s with
  | nil => simp
  | cons permission permissions ih =>
    rw [List.foldl_cons, ih]
    simp only [addPolicies, List.flatMap_cons, List.append_assoc]

end Rows

end ArchGuard.Permissions
