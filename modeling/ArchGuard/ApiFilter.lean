import ArchGuard.ObjectIds

/-! Whom the filter of the legacy API lets through: the object that it takes a request to be about, and
on what ground the subject may act on it. -/
namespace ArchGuard.LegacyApi
open GoText Object

/-- What the filter reads of a request. -/
structure Request where
  method : GoString
  path : GoString
  /-- The parameters of the URL and of a form that was parsed; empty without a value. -/
  query : GoString → GoString
  bodyEmpty : Bool
  /-- Owner and name in the body; nothing in one that is not an object with texts there. -/
  object : Option (GoString × GoString)
  /-- Organization and name in the body. -/
  objectWithOrg : Option (GoString × GoString)
  /-- The parameters of a body that is no JSON. -/
  form : GoString → GoString

def hasPrefix (s p : GoString) : Bool := p.isPrefixOf s

def hasSuffix (s p : GoString) : Bool := p.isSuffixOf s

def contains (s p : GoString) : Bool := s.tails.any p.isPrefixOf

def orgOwnerObject : List GoString :=
  [utf8 "-organization", utf8 "-syncer", utf8 "-webhook", utf8 "-application", utf8 "-token"]

def checkIsOrgOwnerObject (urlPath : GoString) : Bool :=
  orgOwnerObject.any fun suffix => hasSuffix urlPath suffix || contains urlPath (suffix ++ utf8 "s")

/-- The owner and the name in the body, or in the form of a body that has none. -/
def bodyObject (r : Request) : GoString × GoString :=
  let ownerNameFromForm := (r.form (utf8 "owner"), r.form (utf8 "name"))
  if r.bodyEmpty then (r.query (utf8 "owner"), r.query (utf8 "name"))
  else if checkIsOrgOwnerObject r.path ∧ hasSuffix r.path (utf8 "-organization") = false then
    r.objectWithOrg.getD ownerNameFromForm
  else
    match r.object with
    | none => ownerNameFromForm
    | some (owner, name) =>
      if hasSuffix r.path (utf8 "-organization") then (name, name)
      else if r.path = utf8 "/api/delete-resource" then (owner, (name.splitOn slash).getD 4 name)
      else (owner, name)

/-- The owner and the name of the object; nothing where the identifier is not one of two parts. -/
def getObject (r : Request) : Option (GoString × GoString) :=
  let id := r.query (utf8 "id")
  if r.method = utf8 "GET" then
    let organization := r.query (utf8 "organization")
    let owner := r.query (utf8 "owner")
    let adapterId := r.query (utf8 "adapterId")
    if r.path = utf8 "/api/get-policies" ∧ id = utf8 "/" ∧ adapterId ≠ [] then
      getOwnerAndNameFromIdWithError adapterId
    else if r.path = utf8 "/api/get-policies" ∧ id ≠ utf8 "/" ∧ id ≠ [] then
      getOwnerAndNameFromIdWithError id
    else if (¬(hasPrefix r.path (utf8 "/api/get-") ∧ hasSuffix r.path (utf8 "s")) ∨
        r.path = utf8 "/api/get-ldap-users") ∧ id ≠ [] then
      (getOwnerAndNameFromIdWithError id).map fun (owner, name) =>
        if organization ≠ [] then (organization, name)
        else if hasSuffix r.path (utf8 "organization") then (name, name)
        else (owner, name)
    else if organization ≠ [] then some (organization, [])
    else some (owner, [])
  else
    let ownPath := [utf8 "/api/add-policy", utf8 "/api/remove-policy", utf8 "/api/update-policy",
      utf8 "/api/send-invitation"].contains r.path
    if ownPath ∧ id ≠ [] then getOwnerAndNameFromIdWithError id
    else if id ≠ [] ∧ (checkIsOrgOwnerObject r.path = false ∨
        hasSuffix r.path (utf8 "update-organization")) then
      -- an identifier that is not one of two parts is passed over
      (getOwnerAndNameFromIdWithError id).or (some (bodyObject r))
    else some (bodyObject r)

structure Account where
  owner : GoString
  name : GoString
  isAdmin : Bool
  isDeleted : Bool
  deriving DecidableEq, Repr

/-- On what ground a request is let through. -/
inductive Ground
  | app
  | globalAdmin
  | admin
  | policy
  deriving DecidableEq, Repr

/-- What is configured: the demo mode, and the policies and permissions. -/
structure Site where
  demoMode : Bool
  enforce : (subOwner subName method urlPath objOwner objName : GoString) → Bool
  checkApiPermission : (userId objOwner urlPath method : GoString) → Bool

def openInDemoMode : List GoString :=
  [utf8 "/api/logout", utf8 "/api/sso-logout", utf8 "/api/signup", utf8 "/api/callback",
    utf8 "/api/send-verification-code", utf8 "/api/send-email", utf8 "/api/verify-captcha",
    utf8 "/api/verify-code", utf8 "/api/check-user-password", utf8 "/api/webhook",
    utf8 "/api/get-qrcode", utf8 "/api/refresh-engines"]

def isAllowedInDemoMode (subOwner subName method urlPath objOwner objName : GoString) : Bool :=
  if method = utf8 "POST" then
    if hasPrefix urlPath (utf8 "/api/login") ∨ hasPrefix urlPath (utf8 "/api/mfa/") ∨
        urlPath ∈ openInDemoMode then true
    else if urlPath = utf8 "/api/update-user" then
      decide ((subOwner = objOwner ∧ subName = objName ∨ subOwner = utf8 "app") ∧
        ¬(subOwner = utf8 "built-in" ∧ subName = utf8 "admin"))
    else if urlPath = utf8 "/api/upload-resource" ∨ urlPath = utf8 "/api/add-transaction" then
      decide (subOwner = utf8 "app" ∧ subName = utf8 "app-casibase")
    else false
  else true

def Account.isGlobalAdmin (user : Account) : Bool := user.owner = utf8 "built-in"

/-- `IsAllowed`, with the ground; `user` is the account of the subject, if there is one. -/
def isAllowed (site : Site) (user : Option Account)
    (subOwner subName method urlPath objOwner objName : GoString) : Option Ground :=
  let byPolicy :=
    if site.enforce subOwner subName method urlPath objOwner objName ∨
      site.checkApiPermission (getId subOwner subName) objOwner urlPath method then some .policy
    else none
  if site.demoMode ∧ isAllowedInDemoMode subOwner subName method urlPath objOwner objName = false then
    none
  else if subOwner = utf8 "app" then some .app
  else
    match user with
    | none => byPolicy
    | some user =>
      if user.isDeleted then none
      else if user.isGlobalAdmin then some .globalAdmin
      else if user.isAdmin ∧ subOwner = objOwner then some .admin
      else byPolicy

-- Nothing is made here of the paths that `getUrlPath` shortens or that have no object.
/-- `ApiFilter`, for the request of a user who is signed in. -/
def apiFilter (site : Site) (user : Account) (r : Request) : Option Ground :=
  (getObject r).bind fun (objOwner, objName) =>
    isAllowed site (some user) user.owner user.name r.method r.path objOwner objName

/-- The ground of an administrator is that the object is of the own organization. -/
theorem isAllowed_admin {site : Site} {user : Account}
    {subOwner subName method urlPath objOwner objName : GoString}
    (h : isAllowed site (some user) subOwner subName method urlPath objOwner objName = some .admin) :
    user.isGlobalAdmin = false ∧ objOwner = subOwner := by
  simp only [isAllowed] at h
  split_ifs at h with _ _ _ hglobal hadmin _
  · cases h
  · cases h
  · exact ⟨Bool.eq_false_of_not_eq_true hglobal, hadmin.2.symm⟩
  · cases h

theorem apiFilter_admin {site : Site} {user : Account} {r : Request}
    (h : apiFilter site user r = some .admin) :
    user.isGlobalAdmin = false ∧ ∃ name, getObject r = some (user.owner, name) := by
  obtain ⟨⟨owner, name⟩, hobj, hallowed⟩ := Option.bind_eq_some_iff.mp h
  obtain ⟨hglobal, howner⟩ := isAllowed_admin hallowed
  exact ⟨hglobal, name, howner ▸ hobj⟩

end ArchGuard.LegacyApi
