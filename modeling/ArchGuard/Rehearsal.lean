import ArchGuard.IdentityFusion

/-! The rehearsal of the migration: the legacy accounts become identities, memberships,
credentials and role assignments of a database copy. -/
namespace ArchGuard.Migration
open GoMethod GoText Method Tenancy

/-- A row of the legacy user table; absent columns read as the empty text. -/
structure LegacyUser where
  owner : GoString
  name : GoString
  email : GoString
  type : GoString
  password : GoString
  passwordSalt : GoString
  passwordType : GoString
  totpSecret : GoString
  recoveryCodes : GoString
  webAuthnCredentials : Bytes
  deriving DecidableEq, Repr

/-- A row of the legacy role table that has a stable id. -/
structure LegacyRole where
  owner : GoString
  name : GoString
  id : Uuid
  users : GoString
  deriving DecidableEq, Repr

/-- What a run reads and does not write, and `json.Unmarshal` into texts and into raw items. -/
structure Legacy where
  users : List LegacyUser
  roles : List LegacyRole
  organizations : GoString → Option Uuid
  unmarshalStrings : GoString → Option (List GoString)
  unmarshalRaw : Bytes → Option (List Bytes)

structure RoleAssignment where
  id : Uuid
  organizationId : Uuid
  roleId : Uuid
  membershipId : Uuid
  deriving DecidableEq, Repr

/-- The tables that a run writes. -/
structure Db where
  identities : List Identity
  memberships : List Membership
  credentials : List Credential
  assignments : List RoleAssignment
  deriving DecidableEq, Repr

structure Report where
  identitiesCreated : ℕ
  membershipsCreated : ℕ
  credentialsByType : FactorType → ℕ
  membershipsPerOrg : GoString → ℕ
  forcedResets : List GoString
  droppedFactors : List GoString
  pendingApproval : List GoString
  conflicts : List Conflict
  factorLoss : List GoString
  preExisting : List GoString
  duplicateHumanEmails : ℕ
  roleAssignments : ℕ
  rolesUnresolved : List GoString

def Report.empty : Report := ⟨0, 0, fun _ => 0, fun _ => 0, [], [], [], [], [], [], 0, 0, []⟩

/-- The membership that a legacy user maps to. -/
structure ResolvedMembership where
  membershipId : Uuid
  organizationId : Uuid
  deriving DecidableEq, Repr

/-- A run in progress: the database, what was drawn, the report, the memberships created so far by
"org/user", and the vault references that were deleted again. -/
structure Site where
  db : Db
  calls : Calls
  report : Report
  membershipByOrgUser : GoString → Option ResolvedMembership
  deletedSecrets : List GoString

inductive RunError
  | invalidColumn (column : String) (owner name : GoString)
  | fusion (err : FusionError)
  | credentials (owner name : GoString) (err : MigrationError)
  | organizationNotFound (owner : GoString)
  | identity
  | membership
  | refused (table : String)
  | malformedCredential
  | nullRole
  | roleAssignment (user : GoString)
  deriving DecidableEq, Repr

abbrev Running (α : Type) := Method Site RunError α

def isSpace (c : Char) : Bool :=
  let n := c.toNat
  (9 ≤ n && n ≤ 13) || n = 0x20 || n = 0x85 || n = 0xa0 || n = 0x1680 ||
    (0x2000 ≤ n && n ≤ 0x200a) || n = 0x2028 || n = 0x2029 || n = 0x202f || n = 0x205f || n = 0x3000

/-- `strings.HasPrefix(strings.TrimSpace(s), "[")`. -/
def isList (s : GoString) : Bool :=
  (((runes s).map Rune.replaced).dropWhile isSpace).head? = some '['

structure Account where
  ref : LegacyAccount
  creds : LegacyCredentials
  deriving DecidableEq, Repr

def isServiceType (t : GoString) : Bool :=
  t = utf8 "bot" || t = utf8 "service" || t = utf8 "service-account"

section Extraction

variable (legacy : Legacy)

def parseList (column : String) (owner name text : GoString) : Except RunError (List GoString) :=
  if isList text then
    match legacy.unmarshalStrings text with
    | none => .error (.invalidColumn column owner name)
    | some texts => .ok texts
  else .ok []

def extractAccount (u : LegacyUser) : Except RunError Account := do
  let codes ← parseList legacy "recovery_codes" u.owner u.name u.recoveryCodes
  let keys ← if u.webAuthnCredentials = [] then pure []
    else match legacy.unmarshalRaw u.webAuthnCredentials with
      | none => .error (.invalidColumn "webauthn_credentials" u.owner u.name)
      | some items => pure items
  pure ⟨⟨u.owner, u.name, u.email, isServiceType u.type, u.password ≠ [], u.totpSecret ≠ [], keys ≠ []⟩,
    ⟨u.password, u.passwordSalt, u.passwordType, u.totpSecret, codes, keys⟩⟩

def extractAccounts : List LegacyUser → Except RunError (List Account)
  | [] => pure []
  | u :: us => do
    let a ← extractAccount legacy u
    let as ← extractAccounts us
    pure (a :: as)

end Extraction

/-- `byKey`: of several accounts under one key the last one. -/
def accountOf (accounts : List Account) (key : AccountKey) : LegacyCredentials :=
  match accounts.reverse.find? fun a => a.ref.ref.key = key with
  | some a => a.creds
  | none => LegacyCredentials.empty

/-- The keys of the identity table: its id, its subject, and an e-mail hash where there is one. -/
def Db.acceptsIdentity (db : Db) (i : Identity) : Bool :=
  db.identities.all fun j => j.id ≠ i.id && j.subject ≠ i.subject &&
    (i.emailHash = [] || j.emailHash ≠ i.emailHash)

/-- The keys of the membership table: its id, and the pair of identity and organization. -/
def Db.acceptsMembership (db : Db) (m : Membership) : Bool :=
  db.memberships.all fun n => n.id ≠ m.id &&
    (n.identityId ≠ m.identityId || n.organizationId ≠ m.organizationId)

def Db.insertMemberships (db : Db) : List Membership → Except RunError Db
  | [] => .ok db
  | m :: ms =>
    if !db.acceptsMembership m then .error (.refused "membership")
    else { db with memberships := db.memberships ++ [m] }.insertMemberships ms

def Db.insertCredentials (db : Db) : List Credential → Except RunError Db
  | [] => .ok db
  | c :: cs =>
    if !c.wellFormed then .error .malformedCredential
    else if !acceptsCredential db.credentials c then .error (.refused "credential")
    else { db with credentials := db.credentials ++ [c] }.insertCredentials cs

/-- The transaction of one identity: all its rows, or an error and none. -/
def Db.insertIdentity (db : Db) (i : Identity) (ms : List Membership) (cs : List Credential) :
    Except RunError Db :=
  if !db.acceptsIdentity i then .error (.refused "identity")
  else do
    let db ← { db with identities := db.identities ++ [i] }.insertMemberships ms
    db.insertCredentials cs

def orgUser (org user : GoString) : GoString := org ++ utf8 "/" ++ user

/-- `persist`: one transaction, then the counts and the memberships for the roles. -/
def persist (i : Identity) (ms : List Membership) (cs : List Credential)
    (accounts : List AccountRef) : Running Unit := do
  let s ← get
  match s.db.insertIdentity i ms cs with
  | .error err => throw err
  | .ok db =>
    modify fun s => { s with
      db := db
      report := { s.report with
        identitiesCreated := s.report.identitiesCreated+1
        membershipsCreated := s.report.membershipsCreated+ms.length
        credentialsByType := fun t => s.report.credentialsByType t+cs.countP (·.type = t)
        membershipsPerOrg := fun org => s.report.membershipsPerOrg org+
          (accounts.zip ms).countP fun am => am.1.owner = org }
      membershipByOrgUser := (accounts.zip ms).foldl (fun f am => Function.update f
        (orgUser am.1.owner am.1.name) (some ⟨am.2.id, am.2.organizationId⟩))
        s.membershipByOrgUser }

/-- The seeds of credentials that were not stored are taken out of the vault again. -/
def cleanupVault (cs : List Credential) : Running Unit :=
  modify fun s => { s with
    deletedSecrets := s.deletedSecrets ++ (cs.map (·.secretRef)).filter (· ≠ []) }

def persistOrClean (i : Identity) (ms : List Membership) (cs : List Credential)
    (accounts : List AccountRef) : Running Unit :=
  tryCatch (persist i ms cs accounts) fun err => do
    cleanupVault cs
    throw err

def lostFactors (sources : List AccountRef) (cs : List Credential) (passwordReset : Bool)
    (label : GoString) : List GoString :=
  let has (t : FactorType) := cs.any (·.type = t)
  (if sources.any (·.hasPassword) && !has .password && !passwordReset then
    [label ++ utf8 (": senha presente na origem, ausente após a migração e sem reset forçado — " ++
      "identidade sem caminho de login")] else []) ++
  (if sources.any (·.hasTotp) && !has .totp then
    [label ++ utf8 ": TOTP presente na origem e ausente após a migração"] else []) ++
  (if sources.any (·.hasWebAuthn) && !has .webAuthn then
    [label ++ utf8 ": WebAuthn presente na origem e ausente após a migração"] else [])

/-- `identityExistsByHash`; an account without e-mail is never there. -/
def Db.hasHash (db : Db) (hash : Bytes) : Bool :=
  hash ≠ [] && db.identities.any (·.emailHash = hash)

def mustHash (hex : GoString) : Bytes := (hexDecode hex).getD []

def hashPrefix (h : GoString) : GoString := if 12 < h.length then h.take 12 ++ utf8 "…" else h

def outside {ε α : Type} (wrap : ε → RunError) (m : Method Calls ε α) : Running α :=
  within Site.calls (fun s c => { s with calls := c }) wrap m

section Run

variable (legacy : Legacy) (w : Outside) (accounts : List Account)

def migrateSingle (hash : Bytes) (ref : AccountRef) : Running Unit := do
  let kind := if ref.isServiceAccount then IdentityType.service else .human
  let identity ← outside id (newIdentity w kind hash RunError.identity)
  match legacy.organizations ref.owner with
  | none => throw (.organizationNotFound ref.owner)
  | some org => do
    let m ← outside id (newMember w identity.id org RunError.membership)
    let migrated ← outside (.credentials ref.owner ref.name)
      (migrate w identity.id (accountOf accounts ref.key))
    if migrated.forcePasswordReset then
      modify fun s => { s with report := { s.report with
        forcedResets := s.report.forcedResets ++ [orgUser ref.owner ref.name] } }
    persistOrClean identity [m] migrated.credentials [ref]
    modify fun s => { s with report := { s.report with
      factorLoss := s.report.factorLoss ++ lostFactors [ref] migrated.credentials
        migrated.forcePasswordReset (orgUser ref.owner ref.name) } }

/-- One account with an e-mail of its own. -/
def runSingle (g : Group) : Running Unit := do
  let s ← get
  if s.db.hasHash (mustHash g.emailHashHex) then
    modify fun s => { s with report := { s.report with
      preExisting := s.report.preExisting ++ g.accounts.head?.toList.map fun r =>
        orgUser r.owner r.name } }
  else forEach (migrateSingle legacy w accounts (mustHash g.emailHashHex)) g.accounts.head?.toList

variable (approvals : GoString → Option Approval)

/-- One candidate: fused only with its approval, and only once. -/
def runCandidate (g : Group) : Running Unit :=
  match approvals g.emailHashHex with
  | none => modify fun s => { s with report := { s.report with
      pendingApproval := s.report.pendingApproval ++ [hashPrefix g.emailHashHex] } }
  | some approval => do
    let s ← get
    if s.db.hasHash (mustHash g.emailHashHex) then
      modify fun s => { s with report := { s.report with
        preExisting := s.report.preExisting ++ [hashPrefix g.emailHashHex ++
          utf8 " (grupo fundido)"] } }
    else do
      let fused ← outside .fusion
        (fuse w legacy.organizations ⟨g, approval, accountOf accounts⟩)
      persistOrClean fused.identity fused.memberships fused.credentials g.accounts
      modify fun s => { s with report := { s.report with
        droppedFactors := s.report.droppedFactors ++ fused.droppedFactors
        forcedResets := if fused.forcePasswordReset then s.report.forcedResets ++
          [orgUser approval.primary.owner approval.primary.name ++ utf8 " (grupo fundido)"]
          else s.report.forcedResets
        factorLoss := s.report.factorLoss ++ lostFactors g.accounts fused.credentials
          fused.forcePasswordReset (hashPrefix g.emailHashHex) } }

/-- What the re-pointing of one role gives: its assignments, and the users without membership. -/
structure Repointed where
  assignments : List RoleAssignment
  unresolved : List GoString

/-- The users of `rolemigration.Migrate`; `seen` are the memberships that have the role. -/
def repointUsers (roleId : Uuid) (resolve : GoString → Option ResolvedMembership)
    (seen : List Uuid) : List GoString → Running Repointed
  | [] => pure ⟨[], []⟩
  | u :: us =>
    if u = [] then repointUsers roleId resolve seen us
    else match resolve u with
      | none => do
        let rest ← repointUsers roleId resolve seen us
        pure { rest with unresolved := u :: rest.unresolved }
      | some rm =>
        if rm.membershipId ∈ seen then repointUsers roleId resolve seen us
        else do
          refuseIf (rm.organizationId = Uuid.nil ∨ rm.membershipId = Uuid.nil) (.roleAssignment u)
          let drawn ← outside id (newUuid w (RunError.roleAssignment u))
          let rest ← repointUsers roleId resolve (rm.membershipId :: seen) us
          pure { rest with
            assignments := ⟨drawn, rm.organizationId, roleId, rm.membershipId⟩ :: rest.assignments }

/-- The transaction of one organization: all assignments, or an error and none. -/
def Db.insertAssignments (db : Db) : List RoleAssignment → Except RunError Db
  | [] => .ok db
  | a :: as =>
    if db.assignments.any fun b => b.id = a.id || (b.roleId = a.roleId &&
        b.membershipId = a.membershipId) then .error (.refused "role_assignment")
    else { db with assignments := db.assignments ++ [a] }.insertAssignments as

def persistAssignments (as : List RoleAssignment) : Running Unit := do
  let s ← get
  match s.db.insertAssignments as with
  | .error err => throw err
  | .ok db => modify fun s => { s with
      db := db
      report := { s.report with roleAssignments := s.report.roleAssignments+as.length } }

/-- One role; its assignments by organization, in the order that the map gives. -/
def migrateRole (role : LegacyRole × List GoString) : Running Unit := do
  let s ← get
  refuseIf (role.1.id = Uuid.nil) .nullRole
  let res ← repointUsers w role.1.id s.membershipByOrgUser [] role.2
  modify fun s => { s with report := { s.report with
    rolesUnresolved := s.report.rolesUnresolved ++ res.unresolved } }
  forEach (fun org => persistAssignments (res.assignments.filter (·.organizationId = org)))
    (w.byOrg role.1.id (res.assignments.map (·.organizationId)).dedup)

def readRoles : List LegacyRole → Except RunError (List (LegacyRole × List GoString))
  | [] => pure []
  | r :: rs => do
    let users ← parseList legacy "users" r.owner r.name r.users
    let rest ← readRoles rs
    pure ((r, users) :: rest)

def migrateRoles : Running Unit :=
  match readRoles legacy legacy.roles with
  | .error err => throw err
  | .ok roles => forEach (migrateRole w) roles

def Db.duplicateHumans (db : Db) : ℕ :=
  let hashes := ((db.identities.filter (·.type = .human)).map (·.emailHash)).filter (· ≠ [])
  hashes.dedup.countP fun h => 1 < hashes.count h

variable (hashEmail : HashEmail)

/-- `Run`: extraction, inventory, the single accounts, those without e-mail, the approved
fusions, the roles. -/
def rehearse : Running Unit := do
  modify fun s => { s with report := Report.empty, membershipByOrgUser := fun _ => none }
  match extractAccounts legacy legacy.users with
  | .error err => throw err
  | .ok accounts => do
    let inventory := buildInventory hashEmail (accounts.map (·.ref))
    modify fun s => { s with report := { s.report with conflicts := inventory.conflicts } }
    forEach (runSingle legacy w accounts) inventory.singles
    forEach (migrateSingle legacy w accounts []) inventory.noEmail
    forEach (runCandidate legacy w accounts approvals) inventory.fusionCandidates
    migrateRoles legacy w
    modify fun s => { s with report := { s.report with
      duplicateHumanEmails := s.db.duplicateHumans
      pendingApproval := sortBy bytesLess s.report.pendingApproval
      factorLoss := sortBy bytesLess s.report.factorLoss } }

end Run

end ArchGuard.Migration
