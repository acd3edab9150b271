import ArchGuard.AuthSession
import ArchGuard.PrivilegedGrant
import ArchGuard.ReadCommitted

/-! The tables of identities, memberships, sessions and grants, and their queries. -/
namespace ArchGuard.Tenancy
open ReadCommitted

inductive Key
  | identity (id : Uuid)
  | membership (id : Uuid)
  | session (id : Uuid)
  | grant (id : Uuid)
  | approval (grant approver : Uuid)
  deriving DecidableEq, Repr

/-- A row of `auth_session`; the grant a session derives from is a column of its own. -/
structure SessionRow where
  session : AuthSession
  privilegedGrantId : Option Uuid
  deriving DecidableEq, Repr

/-- Approvals are rows of their own, with their organization. -/
abbrev Row : Key → Type
  | .identity id => {i : Identity // i.id = id}
  | .membership id => {m : Membership // m.id = id}
  | .session id => {r : SessionRow // r.session.id = id}
  | .grant id => {g : PrivilegedGrant // g.id = id ∧ g.approvals = []}
  | .approval _ _ => Uuid

abbrev Db := Store Row

variable (db : Db)

section Reads

def getIdentity (id : Uuid) : Option Identity := (db.row (.identity id)).map Subtype.val

def findByEmailHash (emailHash : Bytes) : Option Identity :=
  if emailHash = [] then none
  else (db.scan fun
    | .identity _, i => if i.1.emailHash = emailHash then some i.1 else none
    | _, _ => none).head?

def membershipAt (id : Uuid) : Option Membership := (db.row (.membership id)).map Subtype.val

def getMembership (org id : Uuid) : Option Membership :=
  (membershipAt db id).filter fun m => m.organizationId = org

def listByIdentity (identityId : Uuid) : List Membership :=
  db.scan fun
    | .membership _, m => if m.1.identityId = identityId then some m.1 else none
    | _, _ => none

/-- The membership of an identity in one organization; the pair is unique. -/
def findByIdentity (org identityId : Uuid) : Option Membership :=
  ((listByIdentity db identityId).filter fun m => m.organizationId = org).head?

def sessionAt (id : Uuid) : Option SessionRow := (db.row (.session id)).map Subtype.val

def getSession (identityId id : Uuid) : Option AuthSession :=
  ((sessionAt db id).filter fun r => r.session.identityId = identityId).map SessionRow.session

def grantAt (id : Uuid) : Option PrivilegedGrant := (db.row (.grant id)).map Subtype.val

def loadApprovals (grant org : Uuid) : List Uuid :=
  db.scan fun
    | .approval g approver, o => if g = grant ∧ o = org then some approver else none
    | _, _ => none

/-- The grants of an organization that pass a test, without their approvals. -/
def listGrants (org : Uuid) (test : PrivilegedGrant → Bool) : List PrivilegedGrant :=
  db.scan fun
    | .grant _, g => if g.1.organizationId = org ∧ test g.1 then some g.1 else none
    | _, _ => none

def listActiveByMembership (org membershipId : Uuid) : List PrivilegedGrant :=
  listGrants db org fun g => g.subjectMembershipId = membershipId && g.status = .active

def listActiveExpired (org : Uuid) (now : Time) : List PrivilegedGrant :=
  listGrants db org fun g => g.status = .active && (g.expiresAt ≤ now : Bool)

end Reads

/-- Which sessions a cascade ends: those of a membership, or those of a grant. -/
inductive SessionQuery
  | byMembership (membershipId org : Uuid)
  | byGrant (grantId org : Uuid)
  deriving DecidableEq, Repr

def SessionQuery.matches : SessionQuery → SessionRow → Bool
  | .byMembership membershipId org, r => r.session.membershipId = some membershipId &&
      r.session.organizationId = some org && r.session.status ≠ .revoked
  | .byGrant grantId org, r => r.privilegedGrantId = some grantId &&
      r.session.organizationId = some org && r.session.status ≠ .revoked

def SessionRow.revoked (r : SessionRow) : SessionRow :=
  { r with session := { r.session with status := .revoked } }

/-- A grant as its row keeps it: times in microseconds, approvals elsewhere. -/
def PrivilegedGrant.stored (g : PrivilegedGrant) : PrivilegedGrant :=
  { g with notBefore := g.notBefore.stored, expiresAt := g.expiresAt.stored, approvals := [] }

theorem PrivilegedGrant.stored_row (g : PrivilegedGrant) :
    g.stored.id = g.id ∧ g.stored.approvals = [] := ⟨rfl, rfl⟩

theorem AuthSession.row_id (s : AuthSession) : (SessionRow.mk s none).session.id = s.id := rfl

def destinationActive (s : AuthSession) : Bool :=
  s.membershipId.any fun id => (membershipAt db id).any fun m =>
    m.identityId = s.identityId && some m.organizationId = s.organizationId && m.status = .active

section Rows

variable {db}

theorem row_of_membershipAt {id : Uuid} {m : Membership} (h : membershipAt db id = some m) :
    m.id = id ∧ ∃ v, db.row (.membership id) = some v ∧ v.1 = m := by
  obtain ⟨v, hv, rfl⟩ := Option.map_eq_some_iff.mp h
  exact ⟨v.2, v, hv, rfl⟩

theorem mem_listByIdentity {identityId : Uuid} {m : Membership} :
    m ∈ listByIdentity db identityId ↔ membershipAt db m.id = some m ∧ m.identityId = identityId := by
  rw [listByIdentity, Store.mem_scan]
  constructor
  · rintro ⟨k, v, hv, hm⟩
    cases k with
    | membership id =>
      simp only [Option.ite_none_right_eq_some, Option.some.injEq] at hm
      obtain ⟨hi, rfl⟩ := hm
      obtain ⟨m, rfl⟩ := v
      exact ⟨Option.map_eq_some_iff.mpr ⟨_, hv, rfl⟩, hi⟩
    | _ => cases hm
  · rintro ⟨hm, hi⟩
    obtain ⟨v, hv, hve⟩ := Option.map_eq_some_iff.mp hm
    exact ⟨.membership m.id, v, hv, by simp [hve, hi]⟩

theorem mem_listGrants {org : Uuid} {test : PrivilegedGrant → Bool} {g : PrivilegedGrant} :
    g ∈ listGrants db org test ↔
      grantAt db g.id = some g ∧ g.organizationId = org ∧ test g = true := by
  rw [listGrants, Store.mem_scan]
  constructor
  · rintro ⟨k, v, hv, hg⟩
    cases k with
    | grant id =>
      simp only [Option.ite_none_right_eq_some, Option.some.injEq] at hg
      obtain ⟨ht, rfl⟩ := hg
      obtain ⟨g, rfl, ha⟩ := v
      exact ⟨Option.map_eq_some_iff.mpr ⟨_, hv, rfl⟩, ht⟩
    | _ => cases hg
  · rintro ⟨hg, ht⟩
    obtain ⟨v, hv, hve⟩ := Option.map_eq_some_iff.mp hg
    exact ⟨.grant g.id, v, hv, by simp [hve, ht]⟩

theorem destinationActive_iff {s : AuthSession} :
    destinationActive db s = true ↔ ∃ id m, s.membershipId = some id ∧
      membershipAt db id = some m ∧ m.identityId = s.identityId ∧
        s.organizationId = some m.organizationId ∧ m.status = .active := by
  simp only [destinationActive, Option.any_eq_true, Bool.and_eq_true, decide_eq_true_eq]
  constructor
  · rintro ⟨id, hid, m, hm, ⟨hi, ho⟩, ha⟩
    exact ⟨id, m, hid, hm, hi, ho.symm, ha⟩
  · rintro ⟨id, m, hid, hm, hi, ho, ha⟩
    exact ⟨id, hid, m, hm, ⟨hi, ho.symm⟩, ha⟩

end Rows

end ArchGuard.Tenancy
