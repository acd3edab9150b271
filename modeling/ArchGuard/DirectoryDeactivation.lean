import ArchGuard.LifecycleSpec
import ArchGuard.ScopeFilter

/-! A directory record on its way into an identity and its membership, from SCIM or from LDAP. -/
namespace ArchGuard.DirectorySync
open GoText Ldap Tenancy

/-- What other sessions commit while a call runs: before it creates the identity, before it looks
the e-mail up again, and before it starts on the membership. -/
structure Meanwhile where
  create : Db → Db
  retry : Db → Db
  ensure : Db → Db

/-- No other session runs. -/
def Meanwhile.alone : Meanwhile := ⟨id, id, id⟩

section Provisioner

variable (hashEmail : GoString → Except String Bytes) (others : Meanwhile)

/-- No identity is an answer here, and an error is that of the custodian. -/
def findByEmail (db : Db) (email : GoString) : Except String (Option Identity) :=
  (hashEmail email).map (findByEmailHash db)

/-- A failed insert looks the e-mail up once more: another session may have created it. -/
def createIdentity (db : Db) (email : GoString) (draw : ProvisionDraw) :
    Except ServiceError Identity × Db :=
  match hashEmail email with
  | .error err => (.error (.directory (.other err)), db)
  | .ok hash =>
    let i : Identity := ⟨draw.identityId, draw.subject, .human, .active, hash⟩
    match Tenancy.createIdentity db i with
    | some db' => (.ok i, db')
    | none =>
      match findByEmail hashEmail (others.retry db) email with
      | .ok (some existing) => (.ok existing, others.retry db)
      | _ => (.error .identityCreation, others.retry db)

def resolveOrCreateIdentity (db : Db) (email : GoString) (draw : ProvisionDraw) :
    Except ServiceError Identity × Db :=
  match findByEmail hashEmail db email with
  | .error err => (.error (.resolution err), db)
  | .ok (some i) => (.ok i, db)
  | .ok none => createIdentity hashEmail others (others.create db) email draw

def provisionUser (db : Db) (org : Uuid) (rec : DirectorySyncRecord) (draw : ProvisionDraw) :
    Except ServiceError Uuid × Db :=
  if rec.email = [] then (.error (.directory .emailMissing), db)
  else match resolveOrCreateIdentity hashEmail others db rec.email draw with
    | (.error err, db') => (.error err, db')
    | (.ok i, db') =>
      match ensureMembership (others.ensure db') org i.id draw.membershipId with
      | .error err => (.error (.ensureMembership err), others.ensure db')
      | .ok db'' => (.ok i.id, db'')

end Provisioner

/-- The one place that says what a deactivated entry asks for; no caller has it. -/
def requiresSuspension (rec : DirectorySyncRecord) (current : MembershipStatus) : Bool :=
  !rec.active && current = .active

structure SCIMName where
  formatted : String
  givenName : String
  familyName : String
  deriving DecidableEq, Repr

structure SCIMEmail where
  value : String
  type : String
  primary : Bool
  deriving DecidableEq, Repr

structure SCIMMeta where
  resourceType : String
  location : String
  deriving DecidableEq, Repr

structure SCIMUser where
  schemas : List String
  id : String
  externalID : String
  userName : String
  name : SCIMName
  emails : List SCIMEmail
  active : Bool
  info : Option SCIMMeta
  deriving DecidableEq, Repr

def scimUserSchema : String := "urn:ietf:params:scim:schemas:core:2.0:User"

namespace SCIMUser

/-- The first e-mail marked primary, or the first at all, of those with a value. -/
def primaryEmail (u : SCIMUser) : String :=
  let valued := u.emails.filter fun e => e.value ≠ ""
  (((valued.find? SCIMEmail.primary).orElse fun _ => valued.head?).map SCIMEmail.value).getD ""

def displayName (u : SCIMUser) : String :=
  let full := String.ofList (trimSpace (u.name.givenName ++ " " ++ u.name.familyName).toList)
  if u.name.formatted ≠ "" then u.name.formatted
  else if full ≠ "" then full
  else u.userName

def toSyncRecord (u : SCIMUser) : DirectorySyncRecord where
  externalID := utf8 (if u.externalID = "" then u.userName else u.externalID)
  email := utf8 u.primaryEmail
  attributes := [("email", utf8 u.primaryEmail), ("name", utf8 u.displayName)]
  groups := []
  active := u.active

end SCIMUser

section Membership

variable {db db' : Db} {org identityId id : Uuid}

theorem findByIdentity_eq_none : findByIdentity db org identityId = none ↔
    ∀ m, membershipAt db m.id = some m → m.identityId = identityId → m.organizationId ≠ org := by
  rw [findByIdentity, List.head?_eq_none_iff, List.filter_eq_nil_iff]
  constructor
  · intro h m hm hid horg
    exact h m (mem_listByIdentity.mpr ⟨hm, hid⟩) (decide_eq_true horg)
  · intro h m hm horg
    obtain ⟨hm, hid⟩ := mem_listByIdentity.mp hm
    exact h m hm hid (of_decide_eq_true horg)

/-- A membership that a pair without one is given is the pair's from then on. -/
theorem findByIdentity_insert {m : Membership} (horg : m.organizationId = org)
    (hpair : findByIdentity db org m.identityId = none) :
    findByIdentity (insertMembership db m) org m.identityId = some m := by
  have hrows : membershipAt (insertMembership db m) =
      Function.update (membershipAt db) m.id (some m) :=
    congrArg Tables.membership tables_insertMembership
  cases hfound : findByIdentity (insertMembership db m) org m.identityId with
  | none =>
    refine absurd horg (findByIdentity_eq_none.mp hfound m ?_ rfl)
    rw [hrows, Function.update_self]
  | some r =>
    obtain ⟨hr, hrid, hrorg⟩ := findByIdentity_some hfound
    rw [hrows] at hr
    by_cases hne : r.id = m.id
    · rw [hne, Function.update_self] at hr
      exact hr.symm
    · rw [Function.update_of_ne hne] at hr
      exact absurd hrorg (findByIdentity_eq_none.mp hpair r hr hrid)

theorem findByIdentity_ensured (h : ensureMembership db org identityId id = .ok db') :
    findByIdentity db' org identityId =
      some ((findByIdentity db org identityId).getD ⟨id, identityId, org, .active, none⟩) := by
  unfold ensureMembership withTenantTx at h
  split at h
  · cases h
  obtain ⟨m, hm, h⟩ := bind_eq_ok.mp h
  obtain ⟨-, -, rfl⟩ := newMembership_ok hm
  split at h
  · split at h
    · rename_i hfound
      obtain ⟨r, hr⟩ := Option.isSome_iff_exists.mp hfound
      rw [← Except.ok.inj h, hr]
      rfl
    · cases h
  · obtain ⟨horg, hpair, -, rfl⟩ := createMembership_ok h
    have hinserted := findByIdentity_insert horg hpair
    rw [hinserted, hpair]
    rfl

end Membership

section Deactivation

variable {hashEmail : GoString → Except String Bytes} {others : Meanwhile} {db db' : Db}
  {org id : Uuid} {rec : DirectorySyncRecord} {draw : ProvisionDraw}

/-- The identity that an e-mail stands for, with the rows that the membership step meets: it is known
already, or new, or another session was the first to create it. -/
inductive Resolves (hashEmail : GoString → Except String Bytes) (others : Meanwhile) (db : Db)
    (email : GoString) (draw : ProvisionDraw) : Identity → Db → Prop
  | known {i : Identity} (hknown : findByEmail hashEmail db email = .ok (some i)) :
    Resolves hashEmail others db email draw i (others.ensure db)
  | created {hash : Bytes} {db' : Db} (hhash : hashEmail email = .ok hash)
    (hunknown : findByEmail hashEmail db email = .ok none)
    (hcreate : Tenancy.createIdentity (others.create db)
      ⟨draw.identityId, draw.subject, .human, .active, hash⟩ = some db') :
    Resolves hashEmail others db email draw
      ⟨draw.identityId, draw.subject, .human, .active, hash⟩ (others.ensure db')
  | lostRace {hash : Bytes} {i : Identity} (hhash : hashEmail email = .ok hash)
    (hunknown : findByEmail hashEmail db email = .ok none)
    (hcreate : Tenancy.createIdentity (others.create db)
      ⟨draw.identityId, draw.subject, .human, .active, hash⟩ = none)
    (hretry : findByEmail hashEmail (others.retry (others.create db)) email = .ok (some i)) :
    Resolves hashEmail others db email draw i (others.ensure (others.retry (others.create db)))

theorem resolves_of_ok {email : GoString} {i : Identity}
    (h : resolveOrCreateIdentity hashEmail others db email draw = (.ok i, db')) :
    Resolves hashEmail others db email draw i (others.ensure db') := by
  unfold resolveOrCreateIdentity at h
  split at h
  · cases h
  · rename_i j hknown
    obtain ⟨hj, rfl⟩ := Prod.mk.inj h
    obtain rfl := Except.ok.inj hj
    exact .known hknown
  rename_i hunknown
  unfold createIdentity at h
  split at h
  · cases h
  rename_i hash hhash
  dsimp only at h
  split at h
  · rename_i db₁ hcreate
    obtain ⟨hi, rfl⟩ := Prod.mk.inj h
    obtain rfl := Except.ok.inj hi
    exact .created hhash hunknown hcreate
  rename_i hcreate
  split at h
  · rename_i existing hretry
    obtain ⟨hi, rfl⟩ := Prod.mk.inj h
    obtain rfl := Except.ok.inj hi
    exact .lostRace hhash hunknown hcreate hretry
  · cases h

theorem Resolves.ok {email : GoString} {i : Identity} {rows : Db}
    (h : Resolves hashEmail others db email draw i rows) : ∃ db',
      resolveOrCreateIdentity hashEmail others db email draw = (.ok i, db') ∧
        rows = others.ensure db' := by
  cases h with
  | known hknown =>
    rw [resolveOrCreateIdentity, hknown]
    exact ⟨db, rfl, rfl⟩
  | @created _ db' hhash hunknown hcreate =>
    rw [resolveOrCreateIdentity, hunknown]
    dsimp only
    rw [createIdentity, hhash]
    dsimp only
    rw [hcreate]
    exact ⟨db', rfl, rfl⟩
  | lostRace hhash hunknown hcreate hretry =>
    rw [resolveOrCreateIdentity, hunknown]
    dsimp only
    rw [createIdentity, hhash]
    dsimp only
    rw [hcreate]
    dsimp only
    rw [hretry]
    exact ⟨_, rfl, rfl⟩

/-- An e-mail stands for one identity, and the membership step meets the same rows. -/
theorem Resolves.unique {email : GoString} {i j : Identity} {rows rows' : Db}
    (h : Resolves hashEmail others db email draw i rows)
    (h' : Resolves hashEmail others db email draw j rows') : i = j ∧ rows = rows' := by
  obtain ⟨db₁, hok, rfl⟩ := h.ok
  obtain ⟨db₂, hok', rfl⟩ := h'.ok
  obtain ⟨hi, rfl⟩ := Prod.mk.inj (hok.symm.trans hok')
  exact ⟨Except.ok.inj hi, rfl⟩

theorem provisionUser_eq_ok (h : provisionUser hashEmail others db org rec draw = (.ok id, db')) :
    ∃ i rows, Resolves hashEmail others db rec.email draw i rows ∧ i.id = id ∧
      ensureMembership rows org id draw.membershipId = .ok db' := by
  unfold provisionUser at h
  split at h
  · cases h
  split at h
  · cases h
  · rename_i i db₁ hresolve
    split at h
    · cases h
    · rename_i db₂ hensure
      obtain ⟨hid, rfl⟩ := Prod.mk.inj h
      obtain rfl := Except.ok.inj hid
      exact ⟨i, others.ensure db₁, resolves_of_ok hresolve, rfl, hensure⟩

/-- What a deactivated entry asks of the identity's membership. -/
def Deactivated (rec : DirectorySyncRecord) (db : Db) (org id : Uuid) : Prop :=
  rec.active = false → ∀ m, findByIdentity db org id = some m → m.status ≠ .active

/-- A record is honoured exactly when it deactivates nothing, or when the membership step meets the
identity in the organization already, suspended or invited: a call never reads the record's state. -/
theorem provisionUser_deactivated_iff
    (h : provisionUser hashEmail others db org rec draw = (.ok id, db')) :
    Deactivated rec db' org id ↔ (rec.active = false →
      ∃ i rows m, Resolves hashEmail others db rec.email draw i rows ∧
        findByIdentity rows org i.id = some m ∧ m.status ≠ .active) := by
  obtain ⟨i, rows, hresolves, rfl, hensure⟩ := provisionUser_eq_ok h
  refine imp_congr_right fun _ => ?_
  rw [findByIdentity_ensured hensure]
  constructor
  · intro hstatus
    cases hfound : findByIdentity rows org i.id with
    | none =>
      rw [hfound] at hstatus
      exact absurd rfl (hstatus _ rfl)
    | some m =>
      rw [hfound] at hstatus
      exact ⟨i, rows, m, hresolves, hfound, hstatus m rfl⟩
  · rintro ⟨j, rows', m, hresolves', hfound, hstatus⟩ m' hm'
    obtain ⟨rfl, rfl⟩ := hresolves.unique hresolves'
    rw [hfound] at hm'
    obtain rfl := Option.some.inj hm'
    exact hstatus

end Deactivation

namespace Sample

def hashEmail (email : GoString) : Except String Bytes :=
  if email = [] then .error "keycustodian: e-mail vazio após normalização" else .ok email

/-- An entry that its directory has deactivated. -/
def ana : SCIMUser :=
  ⟨[scimUserSchema], "", "ext-7", "ana", ⟨"Ana", "", ""⟩, [⟨"ana@cli.com", "work", true⟩], false,
    none⟩

def suspended : Db :=
  insertMembership
    (insertIdentity ReadCommitted.Store.empty ⟨2, "s2", .human, .active, utf8 "ana@cli.com"⟩)
    ⟨3, 2, 1, .suspended, none⟩

end Sample

theorem suspended_stays :
    Deactivated Sample.ana.toSyncRecord (provisionUser Sample.hashEmail .alone Sample.suspended 1
      Sample.ana.toSyncRecord ⟨4, "s4", 5⟩).2 1 2 := by
  have hprovision : provisionUser Sample.hashEmail .alone Sample.suspended 1
      Sample.ana.toSyncRecord ⟨4, "s4", 5⟩ = (.ok 2, (provisionUser Sample.hashEmail .alone
        Sample.suspended 1 Sample.ana.toSyncRecord ⟨4, "s4", 5⟩).2) :=
    Prod.ext (by decide +kernel) rfl
  have hknown : findByEmail Sample.hashEmail Sample.suspended Sample.ana.toSyncRecord.email =
      .ok (some ⟨2, "s2", .human, .active, utf8 "ana@cli.com"⟩) := by decide +kernel
  apply (provisionUser_deactivated_iff hprovision).mpr
  exact fun _ => ⟨_, _, ⟨3, 2, 1, .suspended, none⟩, .known hknown, by decide +kernel, by decide⟩

/-- The first that is heard of a person is that the directory has deactivated them: they come out
with an active membership. -/
theorem deactivated_comes_active : ∃ id db', provisionUser Sample.hashEmail .alone
    ReadCommitted.Store.empty 1 Sample.ana.toSyncRecord ⟨2, "s2", 3⟩ = (.ok id, db') ∧
      ¬Deactivated Sample.ana.toSyncRecord db' 1 id := by
  have hprovision : (provisionUser Sample.hashEmail .alone ReadCommitted.Store.empty 1
      Sample.ana.toSyncRecord ⟨2, "s2", 3⟩).1 = .ok 2 := by decide +kernel
  have hactive : findByIdentity (provisionUser Sample.hashEmail .alone ReadCommitted.Store.empty 1
      Sample.ana.toSyncRecord ⟨2, "s2", 3⟩).2 1 2 = some ⟨3, 2, 1, .active, none⟩ := by
    decide +kernel
  exact ⟨2, _, Prod.ext hprovision rfl, fun h => h rfl _ hactive rfl⟩

end ArchGuard.DirectorySync
