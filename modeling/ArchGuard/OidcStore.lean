import ArchGuard.OidcAuthCode
import ArchGuard.ReadCommitted

namespace ArchGuard.Oidc
open ReadCommitted

inductive Key
  | code (id : Uuid)
  | token (id : Uuid)
  deriving DecidableEq, Repr

/-- A row of each table carries the id it is stored under. -/
abbrev Row : Key → Type
  | .code id => {c : AuthorizationCode // c.id = id}
  | .token id => {r : RefreshToken // r.id = id}

abbrev Db := Store Row

def tokenRow (db : Db) : Key → Option RefreshToken
  | .token id => (db.row (.token id)).map Subtype.val
  | .code _ => none

def codeRow (db : Db) : Key → Option AuthorizationCode
  | .code id => (db.row (.code id)).map Subtype.val
  | .token _ => none

def tokens (db : Db) : List RefreshToken := db.keys.filterMap (tokenRow db)

def codes (db : Db) : List AuthorizationCode := db.keys.filterMap (codeRow db)

/-- `RefreshTokenStore.GetByHash` in the tenant `org`. -/
def getByHash (db : Db) (org : Uuid) (hash : Bytes) : Option RefreshToken :=
  (tokens db).find? fun r => r.tokenHash = hash ∧ r.organizationId = org

/-- `AuthorizationCodeStore.GetByHash` in the tenant `org`. -/
def getCodeByHash (db : Db) (org : Uuid) (hash : Bytes) : Option AuthorizationCode :=
  (codes db).find? fun c => c.codeHash = hash ∧ c.organizationId = org

/-- The unscoped read behind `ResolveRefreshTokenOrg`. -/
def tokenByHash (db : Db) (hash : Bytes) : Option RefreshToken :=
  (tokens db).find? fun r => r.tokenHash = hash

/-- The unscoped read behind `ResolveAuthCodeOrg`. -/
def codeByHash (db : Db) (hash : Bytes) : Option AuthorizationCode :=
  (codes db).find? fun c => c.codeHash = hash

/-- The row of a token: `expires_at` keeps microseconds. -/
def RefreshToken.stored (r : RefreshToken) : RefreshToken :=
  { r with expiresAt := r.expiresAt.stored }

@[simp]
theorem RefreshToken.stored_id (r : RefreshToken) : r.stored.id = r.id := rfl

/-- `RefreshTokenStore.Create`: the id and the hash are unique. -/
def createToken (db : Db) (org : Uuid) (r : RefreshToken) : Except OidcError Db :=
  if r.organizationId ≠ org then .error (.crossTenantGrant r.organizationId org)
  else if (db.row (.token r.id)).isSome ∨ (tokenByHash db r.tokenHash).isSome then
    .error .refreshTokenCreate
  else .ok (db.set (.token r.id) (some ⟨r.stored, r.stored_id⟩))

def setRow {id : Uuid} (r : Row (.token id)) (status : RefreshTokenStatus) : Row (.token id) :=
  ⟨{ r.1 with status := status }, r.2⟩

def setStatus (db : Db) (org id : Uuid) (status : RefreshTokenStatus) : Except OidcError Db :=
  match db.row (.token id) with
  | some r =>
    if r.1.organizationId = org then
      .ok (db.set (.token id) (some (setRow r status)))
    else .error .refreshTokenNotFound
  | none => .error .refreshTokenNotFound

/-- The rows a family revocation rewrites, and what it makes of them. -/
def revokeInFamily (org familyId : Uuid) (r : RefreshToken) : RefreshToken :=
  if r.familyId = familyId ∧ r.organizationId = org ∧ r.status ≠ .revoked then
    { r with status := .revoked }
  else r

theorem revokeInFamily_id (org familyId : Uuid) (r : RefreshToken) :
    (revokeInFamily org familyId r).id = r.id := by
  unfold revokeInFamily
  split_ifs <;> rfl

def revokeRow (org familyId : Uuid) {id : Uuid} (r : Row (.token id)) : Row (.token id) :=
  ⟨revokeInFamily org familyId r.1, (revokeInFamily_id ..).trans r.2⟩

def revokeFamily (db : Db) (org familyId : Uuid) : Db :=
  db.mapRows fun
    | .token _ => revokeRow org familyId
    | .code _ => id

/-- `AuthorizationCodeStore.MarkUsed`: only an unused code is marked. -/
def markUsed (db : Db) (org id : Uuid) : Except OidcError Db :=
  match db.row (.code id) with
  | some c =>
    if c.1.organizationId = org ∧ c.1.used = false then
      .ok (db.set (.code id) (some ⟨{ c.1 with used := true }, c.2⟩))
    else .error .authCodeExpiredOrUsed
  | none => .error .authCodeExpiredOrUsed

theorem mem_tokens {db : Db} {r : RefreshToken} :
    r ∈ tokens db ↔ db.row (.token r.id) = some ⟨r, rfl⟩ := by
  simp only [tokens, List.mem_filterMap]
  constructor
  · rintro ⟨k, -, hk⟩
    cases k with
    | code id => simp only [tokenRow, reduceCtorEq] at hk
    | token id =>
      obtain ⟨v, hv, rfl⟩ := Option.map_eq_some_iff.mp hk
      obtain ⟨w, rfl⟩ := v
      exact hv
  · intro h
    refine ⟨.token r.id, db.covers _ _ h, ?_⟩
    simp only [tokenRow, h, Option.map_some]

theorem mem_tokens_iff_val {db : Db} {r : RefreshToken} :
    r ∈ tokens db ↔ (db.row (.token r.id)).map Subtype.val = some r := by
  rw [mem_tokens, Option.map_eq_some_iff]
  constructor
  · exact fun h => ⟨_, h, rfl⟩
  · intro ⟨v, hv, hr⟩
    rw [hv]
    exact congrArg some (Subtype.ext hr)

theorem mem_tokens_of_row {db : Db} {id : Uuid} {v : Row (.token id)}
    (h : db.row (.token id) = some v) : v.1 ∈ tokens db := by
  obtain ⟨r, rfl⟩ := v
  exact mem_tokens.mpr h

theorem getByHash_of_tokenByHash {db : Db} {hash : Bytes} {r : RefreshToken}
    (h : tokenByHash db hash = some r) : getByHash db r.organizationId hash = some r := by
  obtain ⟨hp, as, bs, htok, has⟩ := List.find?_eq_some_iff_append.mp h
  refine List.find?_eq_some_iff_append.mpr ⟨?_, as, bs, htok, ?_⟩
  · simpa only [and_true] using hp
  · intro a ha
    have hn := has a ha
    simp only [Bool.not_eq_eq_eq_not, Bool.not_true, decide_eq_false_iff_not] at hn ⊢
    exact fun hc => hn hc.1

theorem tokenByHash_mem {db : Db} {hash : Bytes} {r : RefreshToken}
    (h : tokenByHash db hash = some r) :
    db.row (.token r.id) = some ⟨r, rfl⟩ ∧ r.tokenHash = hash := by
  have hp := List.find?_some h
  exact ⟨mem_tokens.mp (List.mem_of_find?_eq_some h), by simpa using hp⟩

theorem createToken_ok {db db' : Db} {org : Uuid} {r : RefreshToken}
    (h : createToken db org r = .ok db') : db' = db.set (.token r.id) (some ⟨r.stored, rfl⟩) := by
  unfold createToken at h
  split_ifs at h
  exact (Except.ok.inj h).symm

theorem createToken_fresh {db : Db} {r : RefreshToken} (hid : db.row (.token r.id) = none)
    (hhash : ∀ t ∈ tokens db, t.tokenHash ≠ r.tokenHash) :
    createToken db r.organizationId r = .ok (db.set (.token r.id) (some ⟨r.stored, rfl⟩)) := by
  have hn : tokenByHash db r.tokenHash = none := by
    refine List.find?_eq_none.mpr fun t ht => ?_
    simpa only [decide_eq_true_eq] using hhash t ht
  simp only [createToken, ne_eq, not_true_eq_false, ↓reduceIte, hid, hn, Option.isSome_none,
    Bool.false_eq_true, or_self]

theorem mem_tokens_set {db : Db} {id : Uuid} {v : Row (.token id)} {r : RefreshToken}
    (h : r ∈ tokens (db.set (.token id) (some v))) : r = v.1 ∨ r ∈ tokens db := by
  rw [mem_tokens] at h
  by_cases hk : r.id = id
  · subst hk
    rw [Store.set_row_self] at h
    exact Or.inl (congrArg Subtype.val (Option.some.inj h)).symm
  · rw [db.set_row_of_ne _ _ _ (by simpa using hk)] at h
    exact Or.inr (mem_tokens.mpr h)

theorem setStatus_row {db : Db} {org : Uuid} {r : RefreshToken} {status : RefreshTokenStatus}
    (h : db.row (.token r.id) = some ⟨r, rfl⟩) (ho : r.organizationId = org) :
    setStatus db org r.id status =
      .ok (db.set (.token r.id) (some ⟨{ r with status := status }, rfl⟩)) := by
  rw [setStatus, h]
  exact if_pos ho

end ArchGuard.Oidc
