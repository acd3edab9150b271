import ArchGuard.TenancyStore

/-! The statements of the directory and privileged-access services, one after the other:
what each of them leaves in the tables. -/
namespace ArchGuard.Tenancy
open ReadCommitted

/-- The rows of the tables, by key. -/
@[ext]
structure Tables where
  identity : Uuid → Option Identity
  membership : Uuid → Option Membership
  session : Uuid → Option SessionRow
  grant : Uuid → Option PrivilegedGrant

def tables (db : Db) : Tables := ⟨getIdentity db, membershipAt db, sessionAt db, grantAt db⟩

/-- An UPDATE on one row: the WHERE clause and the SET list. -/
def edit {α : Type} (test : α → Bool) (f : α → α) (a : α) : α := if test a then f a else a

theorem edit_key {α κ : Type} (test : α → Bool) (f : α → α) (key : α → κ)
    (hf : ∀ a, key (f a) = key a) (a : α) : key (edit test f a) = key a := by
  unfold edit
  split
  · exact hf a
  · rfl

section Statements

variable (db : Db)

def Identity.setStatus (status : IdentityStatus) (i : Identity) : Identity :=
  { i with status := status }

def Membership.setStatus (status : MembershipStatus) (m : Membership) : Membership :=
  { m with status := status }

def PrivilegedGrant.setStatus (status : GrantStatus) (g : PrivilegedGrant) : PrivilegedGrant :=
  { g with status := status }

def updateIdentities (test : Identity → Bool) (status : IdentityStatus) : Db :=
  db.mapRows fun
    | .identity _, i => ⟨edit test (Identity.setStatus status) i.1,
      (edit_key test (Identity.setStatus status) Identity.id (fun _ => rfl) i.1).trans i.2⟩
    | _, v => v

def updateMemberships (test : Membership → Bool) (status : MembershipStatus) : Db :=
  db.mapRows fun
    | .membership _, m => ⟨edit test (Membership.setStatus status) m.1,
      (edit_key test (Membership.setStatus status) Membership.id (fun _ => rfl) m.1).trans m.2⟩
    | _, v => v

def revokeSessions (test : SessionRow → Bool) : Db :=
  db.mapRows fun
    | .session _, r => ⟨edit test SessionRow.revoked r.1,
      (edit_key test SessionRow.revoked (fun r => r.session.id) (fun _ => rfl) r.1).trans r.2⟩
    | _, v => v

def updateGrants (test : PrivilegedGrant → Bool) (status : GrantStatus) : Db :=
  db.mapRows fun
    | .grant _, g => ⟨edit test (PrivilegedGrant.setStatus status) g.1,
      (edit_key test (PrivilegedGrant.setStatus status) PrivilegedGrant.id (fun _ => rfl) g.1).trans g.2.1,
      (edit_key test (PrivilegedGrant.setStatus status) PrivilegedGrant.approvals (fun _ => rfl) g.1).trans g.2.2⟩
    | _, v => v

/-- `RowsAffected` of an UPDATE on memberships. -/
def countMemberships (test : Membership → Bool) : ℕ :=
  (db.scan fun
    | .membership _, m => if test m.1 then some m.1.id else none
    | _, _ => none).length

def countSessions (test : SessionRow → Bool) : ℕ :=
  (db.scan fun
    | .session id, r => if test r.1 then some id else none
    | _, _ => none).length

def insertIdentity (i : Identity) : Db := db.set (.identity i.id) (some ⟨i, rfl⟩)

def insertMembership (m : Membership) : Db := db.set (.membership m.id) (some ⟨m, rfl⟩)

def insertSession (s : AuthSession) : Db := db.set (.session s.id) (some ⟨⟨s, none⟩, s.row_id⟩)

def insertGrant (g : PrivilegedGrant) : Db := db.set (.grant g.id) (some ⟨g.stored, g.stored_row⟩)

/-- `INSERT ... ON CONFLICT DO NOTHING`. -/
def insertApproval (grant org approver : Uuid) : Db :=
  match db.row (.approval grant approver) with
  | some _ => db
  | none => db.set (.approval grant approver) (some org)

end Statements

section Rows

variable {db : Db}

theorem tables_updateIdentities {test : Identity → Bool} {status : IdentityStatus} :
    tables (updateIdentities db test status) = { tables db with
      identity := fun id => ((tables db).identity id).map (edit test (Identity.setStatus status)) } := by
  ext id : 2 <;> simp only [tables, getIdentity, membershipAt, sessionAt, grantAt, updateIdentities]
  case identity =>
    rw [Store.mapRows_row, Option.map_map, Option.map_map]
    rfl
  all_goals
    rw [Store.mapRows_row, Option.map_map]
    rfl

theorem tables_updateMemberships {test : Membership → Bool} {status : MembershipStatus} :
    tables (updateMemberships db test status) = { tables db with
      membership := fun id => ((tables db).membership id).map (edit test (Membership.setStatus status)) } := by
  ext id : 2 <;> simp only [tables, getIdentity, membershipAt, sessionAt, grantAt, updateMemberships]
  case membership =>
    rw [Store.mapRows_row, Option.map_map, Option.map_map]
    rfl
  all_goals
    rw [Store.mapRows_row, Option.map_map]
    rfl

theorem tables_revokeSessions {test : SessionRow → Bool} :
    tables (revokeSessions db test) = { tables db with
      session := fun id => ((tables db).session id).map (edit test SessionRow.revoked) } := by
  ext id : 2 <;> simp only [tables, getIdentity, membershipAt, sessionAt, grantAt, revokeSessions]
  case session =>
    rw [Store.mapRows_row, Option.map_map, Option.map_map]
    rfl
  all_goals
    rw [Store.mapRows_row, Option.map_map]
    rfl

theorem tables_updateGrants {test : PrivilegedGrant → Bool} {status : GrantStatus} :
    tables (updateGrants db test status) = { tables db with
      grant := fun id => ((tables db).grant id).map (edit test (PrivilegedGrant.setStatus status)) } := by
  ext id : 2 <;> simp only [tables, getIdentity, membershipAt, sessionAt, grantAt, updateGrants]
  case grant =>
    rw [Store.mapRows_row, Option.map_map, Option.map_map]
    rfl
  all_goals
    rw [Store.mapRows_row, Option.map_map]
    rfl

theorem tables_insertIdentity {i : Identity} :
    tables (insertIdentity db i) = { tables db with
      identity := Function.update (tables db).identity i.id (some i) } := by
  ext id : 2
  · by_cases h : id = i.id
    · subst h
      simp [tables, getIdentity, insertIdentity]
    · simp [tables, getIdentity, insertIdentity, Store.set_row_of_ne, Function.update_of_ne, h]
  all_goals rfl

theorem tables_insertMembership {m : Membership} :
    tables (insertMembership db m) = { tables db with
      membership := Function.update (tables db).membership m.id (some m) } := by
  ext id : 2
  case membership =>
    by_cases h : id = m.id
    · subst h
      simp [tables, membershipAt, insertMembership]
    · simp [tables, membershipAt, insertMembership, Store.set_row_of_ne, Function.update_of_ne, h]
  all_goals rfl

theorem tables_insertSession {s : AuthSession} :
    tables (insertSession db s) = { tables db with
      session := Function.update (tables db).session s.id (some ⟨s, none⟩) } := by
  ext id : 2
  case session =>
    by_cases h : id = s.id
    · subst h
      simp [tables, sessionAt, insertSession]
    · simp [tables, sessionAt, insertSession, Store.set_row_of_ne, Function.update_of_ne, h]
  all_goals rfl

theorem tables_insertGrant {g : PrivilegedGrant} :
    tables (insertGrant db g) = { tables db with
      grant := Function.update (tables db).grant g.id (some g.stored) } := by
  ext id : 2
  case grant =>
    by_cases h : id = g.id
    · subst h
      simp [tables, grantAt, insertGrant]
    · simp [tables, grantAt, insertGrant, Store.set_row_of_ne, Function.update_of_ne, h]
  all_goals rfl

theorem tables_insertApproval {grant org approver : Uuid} :
    tables (insertApproval db grant org approver) = tables db := by
  unfold insertApproval
  split <;> rfl

theorem tables_insertApprovals {grant org : Uuid} (approvals : List Uuid) :
    tables (approvals.foldl (fun db a => insertApproval db grant org a) db) = tables db := by
  induction approvals generalizing db with
  | nil => rfl
  | cons a approvals ih => exact ih.trans tables_insertApproval

end Rows

end ArchGuard.Tenancy
