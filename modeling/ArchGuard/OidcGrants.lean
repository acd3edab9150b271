import ArchGuard.OidcStore

namespace ArchGuard.Oidc
open ReadCommitted Sha256

structure Client where
  audience : String
  allowedScopes : List String

structure AccessToken where
  token : String
  issuedAt : ℤ
  expiresAt : ℤ

structure RefreshResult where
  accessToken : String
  refreshToken : String
  expiresInSecond : ℤ
  deriving DecidableEq, Repr

/-- What the grants call outside the token tables: the audit emitter, the client
registry and the access-token issuer. -/
structure Deps where
  auditReuse : RefreshToken → Except OidcError Unit
  lookup : String → Except OidcError Client
  issueAccessToken : (org sessionId : Uuid) → (audience : String) → (scopes : List String) →
    Time → Except OidcError AccessToken

/-- The random draws of one call: a fresh secret and fresh identifiers. -/
structure Draw where
  secret : String
  familyId : Uuid
  id : Uuid
  deriving DecidableEq

def hashRefreshToken (secret : String) : Bytes := sha256 (Bytes.ofString secret)

def hashAuthCode (secret : String) : Bytes := sha256 (Bytes.ofString secret)

theorem hashRefreshToken_ne_nil (secret : String) : hashRefreshToken secret ≠ [] :=
  List.ne_nil_of_length_pos (by rw [hashRefreshToken, length_sha256]; decide)

def resolveRefreshTokenOrg (db : Db) (presentedSecret : String) : Except OidcError Uuid :=
  match tokenByHash db (hashRefreshToken presentedSecret) with
  | some r => .ok r.organizationId
  | none => .error .refreshTokenNotFound

def resolveAuthCodeOrg (db : Db) (presentedSecret : String) : Except OidcError Uuid :=
  match codeByHash db (hashAuthCode presentedSecret) with
  | some c => .ok c.organizationId
  | none => .error .authCodeNotFound

structure ExchangeResult where
  newSecret : String
  newToken : RefreshToken

/-- The instant at which `RefreshExchanger.Exchange` judges expiry. -/
def nowFromExpiry (newExpiry : Time) : Time := newExpiry-1

/-- The normal rotation of `RefreshExchanger.Exchange`. -/
def rotation (org : Uuid) (db : Db) (tok : RefreshToken) (newExpiry : Time)
    (draw : Draw) : Except OidcError (RefreshToken × Db) := do
  let successor ← tok.rotate draw.id (hashRefreshToken draw.secret) newExpiry
  let db₁ ← setStatus db org tok.id .rotated
  let db₂ ← createToken db₁ org successor
  return (successor, db₂)

/-- `RefreshExchanger.Exchange`, one transaction: an error leaves the rows as they
were, except that a detected reuse commits the family's revocation first. -/
def exchange (d : Deps) (org : Uuid) (db : Db) (presentedSecret : String) (newExpiry : Time)
    (draw : Draw) : Except OidcError ExchangeResult × Db :=
  match getByHash db org (hashRefreshToken presentedSecret) with
  | none => (.error .refreshTokenNotFound, db)
  | some tok =>
    match tok.checkReuse with
    | .error _ =>
      match d.auditReuse tok with
      | .error e => (.error e, db)
      | .ok () => (.error .refreshReuse, revokeFamily db org tok.familyId)
    | .ok () =>
      if !tok.usable (nowFromExpiry newExpiry) then (.error .refreshExpired, db)
      else match rotation org db tok newExpiry draw with
        | .error e => (.error e, db)
        | .ok (successor, db') => (.ok ⟨draw.secret, successor⟩, db')

theorem rotation_ok {org : Uuid} {db db' : Db} {tok s : RefreshToken} {newExpiry : Time}
    {draw : Draw} (h : rotation org db tok newExpiry draw = .ok (s, db')) :
    ∃ db₁, tok.rotate draw.id (hashRefreshToken draw.secret) newExpiry = .ok s ∧
      setStatus db org tok.id .rotated = .ok db₁ ∧ createToken db₁ org s = .ok db' := by
  simp only [rotation, bind, Except.bind, pure, Except.pure] at h
  split at h <;> try cases h
  rename_i s' hs
  split at h <;> try cases h
  rename_i db₁ h₁
  split at h <;> cases h
  rename_i h₂
  exact ⟨db₁, hs, h₁, h₂⟩

theorem exchange_of_active {d : Deps} {org : Uuid} {db : Db} {presentedSecret : String}
    {tok : RefreshToken} (newExpiry : Time) (draw : Draw)
    (hg : getByHash db org (hashRefreshToken presentedSecret) = some tok)
    (ha : tok.status = .active) :
    exchange d org db presentedSecret newExpiry draw =
      if nowFromExpiry newExpiry < tok.expiresAt then
        match rotation org db tok newExpiry draw with
        | .error e => (.error e, db)
        | .ok (successor, db') => (.ok ⟨draw.secret, successor⟩, db')
      else (.error .refreshExpired, db) := by
  have hu : (!tok.usable (nowFromExpiry newExpiry)) = true ↔
      ¬nowFromExpiry newExpiry < tok.expiresAt := by
    rw [Bool.not_eq_true', ← Bool.not_eq_true, tok.usable_iff]
    simp only [ha, true_and]
  simp only [exchange, hg, (tok.checkReuse_ok_iff).mpr ha, hu, ite_not]

structure RefreshGrant where
  audience : String
  scopes : List String
  refreshTTL : Duration

def RefreshGrant.refresh (d : Deps) (g : RefreshGrant) (db : Db) (presentedSecret : String)
    (now : Time) (draw : Draw) : Except OidcError RefreshResult × Db :=
  match resolveRefreshTokenOrg db presentedSecret with
  | .error e => (.error e, db)
  | .ok org =>
    if org = Uuid.nil then (.error .noTenant, db)
    else match exchange d org db presentedSecret (now+g.refreshTTL) draw with
      | (.error e, db') => (.error e, db')
      | (.ok res, db') =>
        match d.issueAccessToken org res.newToken.sessionId g.audience g.scopes now with
        | .error e => (.error e, db')
        | .ok a => (.ok ⟨a.token, res.newSecret, a.expiresAt-a.issuedAt⟩, db')

section Refresh

variable {d : Deps} {g : RefreshGrant} {db : Db} {presentedSecret : String} {now : Time}
  {draw : Draw} {org : Uuid} (ho : resolveRefreshTokenOrg db presentedSecret = .ok org)
  (hn : org ≠ Uuid.nil)

include ho hn

theorem refresh_rows : (g.refresh d db presentedSecret now draw).2 =
    (exchange d org db presentedSecret (now+g.refreshTTL) draw).2 := by
  simp only [RefreshGrant.refresh, ho, hn, ↓reduceIte]
  split
  · rename_i hx
    rw [hx]
  · rename_i hx
    rw [hx]
    split <;> rfl

theorem refresh_of_exchange_error {e : OidcError} {db' : Db}
    (hx : exchange d org db presentedSecret (now+g.refreshTTL) draw = (.error e, db')) :
    g.refresh d db presentedSecret now draw = (.error e, db') := by
  simp only [RefreshGrant.refresh, ho, hn, ↓reduceIte, hx]

end Refresh

/-- The transaction of `AuthCodeGrant.Exchange`: redeem the code, mark it used and
start a refresh-token family for its session. -/
def redeemAndStartFamily (refreshTTL : Duration) (db : Db) (org : Uuid)
    (codeSecret redirectURI codeVerifier : String) (now : Time) (draw : Draw) :
    Except OidcError (AuthorizationCode × Db) := do
  let code ← match getCodeByHash db org (hashAuthCode codeSecret) with
    | some c => .ok c
    | none => .error .authCodeNotFound
  code.redeem redirectURI codeVerifier now
  let db₁ ← markUsed db org code.id
  let rt ← newRefreshFamily draw.familyId draw.id code.sessionId org
    (hashRefreshToken draw.secret) (now+refreshTTL)
  let db₂ ← createToken db₁ org rt
  return (code, db₂)

structure AuthCodeGrant where
  refreshTTL : Duration

def AuthCodeGrant.exchange (d : Deps) (g : AuthCodeGrant) (db : Db)
    (codeSecret redirectURI codeVerifier : String) (now : Time) (draw : Draw) :
    Except OidcError RefreshResult × Db :=
  match resolveAuthCodeOrg db codeSecret with
  | .error e => (.error e, db)
  | .ok org =>
    if org = Uuid.nil then (.error .noTenant, db)
    else match redeemAndStartFamily g.refreshTTL db org codeSecret redirectURI codeVerifier now draw with
      | .error e => (.error e, db)
      | .ok (code, db') =>
        match d.lookup code.clientId with
        | .error e => (.error e, db')
        | .ok client =>
          match d.issueAccessToken org code.sessionId client.audience client.allowedScopes now with
          | .error e => (.error e, db')
          | .ok a => (.ok ⟨a.token, draw.secret, a.expiresAt-a.issuedAt⟩, db')

end ArchGuard.Oidc
