import ArchGuard.Primitives

namespace ArchGuard.Oidc

inductive RefreshTokenStatus
  | active | rotated | revoked
  deriving DecidableEq, Repr

def RefreshTokenStatus.text : RefreshTokenStatus → String
  | .active => "active"
  | .rotated => "rotated"
  | .revoked => "revoked"

/-- The errors of the token endpoint's grants, with the data their texts carry. -/
inductive OidcError
  | invalidRefreshToken (detail : String)
  | refreshNotActive (status : RefreshTokenStatus)
  | refreshReuse
  | refreshReuseOf (id familyId : Uuid) (status : RefreshTokenStatus)
  | refreshExpired
  | refreshTokenNotFound
  | crossTenantGrant (target scope : Uuid)
  | refreshTokenCreate
  | authCodeNotFound
  | authCodeExpiredOrUsed
  | redirectURIMismatch
  | pkceVerificationFailed
  | noTenant
  | other (text : String)
  deriving DecidableEq, Repr

def OidcError.text : OidcError → String
  | .invalidRefreshToken detail => "refresh: dados obrigatórios ausentes: " ++ detail
  | .refreshNotActive status =>
    "refresh: apenas token ativo pode ser rotacionado: status " ++ status.text
  | .refreshReuse => "refresh: reuso de token rotacionado detectado — revogar a família"
  | .refreshReuseOf id familyId status =>
    OidcError.refreshReuse.text ++ ": token " ++ id.text ++ " da família " ++ familyId.text ++
      " (status " ++ status.text ++ ")"
  | .refreshExpired => "refresh: token expirado"
  | .refreshTokenNotFound => "postgres: refresh token não encontrado"
  | .crossTenantGrant target scope => "postgres: concessão de outra organização recusada: alvo " ++
      target.text ++ ", escopo " ++ scope.text
  | .refreshTokenCreate => "postgres: criação de refresh token falhou"
  | .authCodeNotFound => "postgres: código de autorização não encontrado"
  | .authCodeExpiredOrUsed => "authcode: código expirado ou já usado"
  | .redirectURIMismatch => "authcode: redirect_uri não corresponde ao do código"
  | .pkceVerificationFailed => "authcode: verificação PKCE falhou"
  | .noTenant => "tenant: contexto de tenant é obrigatório"
  | .other text => text

/-- One refresh token of a family; only the hash of its secret is held. -/
structure RefreshToken where
  id : Uuid
  familyId : Uuid
  sessionId : Uuid
  organizationId : Uuid
  tokenHash : Bytes
  status : RefreshTokenStatus
  expiresAt : Time
  deriving DecidableEq, Repr

/-- `newRefreshToken`, with the id that `uuid.NewV7` draws as `id`. -/
def newRefreshToken (id familyId sessionId organizationId : Uuid) (tokenHash : Bytes)
    (expiresAt : Time) : Except OidcError RefreshToken :=
  if sessionId = Uuid.nil ∨ organizationId = Uuid.nil then
    .error (.invalidRefreshToken "sessão/organização")
  else if tokenHash.length = 0 then .error (.invalidRefreshToken "hash vazio")
  else if expiresAt = Time.zero then .error (.invalidRefreshToken "expiração ausente")
  else .ok ⟨id, familyId, sessionId, organizationId, tokenHash, .active, expiresAt⟩

def newRefreshFamily (familyId id sessionId organizationId : Uuid) (tokenHash : Bytes)
    (expiresAt : Time) : Except OidcError RefreshToken :=
  newRefreshToken id familyId sessionId organizationId tokenHash expiresAt

/-- The successor of an active token, in the same family. -/
def RefreshToken.rotate (r : RefreshToken) (id : Uuid) (newTokenHash : Bytes) (expiresAt : Time) :
    Except OidcError RefreshToken :=
  if r.status ≠ .active then .error (.refreshNotActive r.status)
  else newRefreshToken id r.familyId r.sessionId r.organizationId newTokenHash expiresAt

def RefreshToken.expired (r : RefreshToken) (now : Time) : Bool := !(now < r.expiresAt)

def RefreshToken.usable (r : RefreshToken) (now : Time) : Bool :=
  r.status = .active && !r.expired now

def RefreshToken.checkReuse (r : RefreshToken) : Except OidcError Unit :=
  if r.status = .rotated ∨ r.status = .revoked then
    .error (.refreshReuseOf r.id r.familyId r.status)
  else .ok ()

theorem newRefreshToken_ok {id familyId sessionId organizationId : Uuid} {tokenHash : Bytes}
    {expiresAt : Time} {r : RefreshToken}
    (h : newRefreshToken id familyId sessionId organizationId tokenHash expiresAt = .ok r) :
    r = ⟨id, familyId, sessionId, organizationId, tokenHash, .active, expiresAt⟩ ∧
      sessionId ≠ Uuid.nil ∧ organizationId ≠ Uuid.nil ∧ expiresAt ≠ Time.zero := by
  unfold newRefreshToken at h
  split_ifs at h with hn hh he
  obtain ⟨hs, ho⟩ := not_or.mp hn
  exact ⟨(Except.ok.inj h).symm, hs, ho, he⟩

theorem newRefreshToken_eq_ok {id familyId sessionId organizationId : Uuid} {tokenHash : Bytes}
    {expiresAt : Time} (hs : sessionId ≠ Uuid.nil) (ho : organizationId ≠ Uuid.nil)
    (hh : tokenHash ≠ []) (he : expiresAt ≠ Time.zero) :
    newRefreshToken id familyId sessionId organizationId tokenHash expiresAt =
      .ok ⟨id, familyId, sessionId, organizationId, tokenHash, .active, expiresAt⟩ := by
  unfold newRefreshToken
  rw [if_neg (not_or.mpr ⟨hs, ho⟩), if_neg (by simpa using hh), if_neg he]

theorem RefreshToken.rotate_ok {r s : RefreshToken} {id : Uuid} {newTokenHash : Bytes}
    {expiresAt : Time} (h : r.rotate id newTokenHash expiresAt = .ok s) :
    r.status = .active ∧
      s = ⟨id, r.familyId, r.sessionId, r.organizationId, newTokenHash, .active, expiresAt⟩ := by
  unfold RefreshToken.rotate at h
  split_ifs at h with ha
  exact ⟨not_not.mp ha, (newRefreshToken_ok h).1⟩

theorem RefreshToken.checkReuse_ok_iff (r : RefreshToken) :
    r.checkReuse = .ok () ↔ r.status = .active := by
  unfold RefreshToken.checkReuse
  cases hs : r.status <;> simp

theorem RefreshToken.usable_iff (r : RefreshToken) (now : Time) :
    r.usable now = true ↔ r.status = .active ∧ now < r.expiresAt := by
  simp only [usable, expired, Bool.and_eq_true, decide_eq_true_eq, Bool.not_not]

end ArchGuard.Oidc
