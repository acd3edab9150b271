import ArchGuard.GoMethod
import ArchGuard.ObjectIds

/-! The token table of the object package, its refresh grant and its token exchange. -/
namespace ArchGuard.Object
open GoMethod GoText Method

/-- A row of the application table, as far as the token endpoint reads it; `expireSeconds` is
`int(ExpireInHours * 3600)`. -/
structure Application where
  owner : GoString
  name : GoString
  clientId : GoString
  clientSecret : GoString
  organization : GoString
  cert : GoString
  tokenFormat : GoString
  isShared : Bool
  expireSeconds : ℤ
  grantTypes : List GoString
  enableGuestSignin : Bool
  enableSignUp : Bool
  deriving DecidableEq, Repr

structure Token where
  owner : GoString
  name : GoString
  createdTime : GoString
  application : GoString
  organization : GoString
  user : GoString
  code : GoString
  accessToken : GoString
  refreshToken : GoString
  accessTokenHash : GoString
  refreshTokenHash : GoString
  expiresIn : ℤ
  scope : GoString
  tokenType : GoString
  grantType : GoString
  codeChallenge : GoString
  codeIsUsed : Bool
  codeExpireIn : ℤ
  resource : GoString
  dpopJkt : GoString
  deriving DecidableEq, Repr

def Token.key (t : Token) : GoString × GoString := (t.owner, t.name)

/-- The columns of a user that a grant reads. -/
structure TokenUser where
  owner : GoString
  name : GoString
  isForbidden : Bool
  deriving DecidableEq, Repr

structure Cert where
  owner : GoString
  name : GoString
  certificate : GoString
  deriving DecidableEq, Repr

structure Tables where
  applications : List Application
  tokens : List Token
  users : List TokenUser
  certs : List Cert
  deriving DecidableEq, Repr

/-- The claims of a token, as `Claims` and `ClaimsStandard` decode them. -/
structure Claims where
  owner : GoString
  name : GoString
  scope : GoString
  azp : GoString
  audience : List GoString
  deriving DecidableEq, Repr

structure Minted where
  accessToken : GoString
  refreshToken : GoString
  tokenName : GoString
  deriving DecidableEq, Repr

/-- The code outside: JWT libraries, keys, the clock and the random source. An error is its text. -/
structure World where
  /-- `ParseJwtTokenWithoutValidation`, decoded into `Claims`. -/
  parseUnverified : GoString → Except GoString Claims
  parseJwtToken : GoString → Cert → Except GoString Claims
  parseStandardJwtToken : GoString → Cert → Except GoString Claims
  /-- `ExtendUserWithRolesAndPermissions`; what it reads goes into the minted text only. -/
  extendUser : TokenUser → Except GoString Unit
  /-- `generateJwtToken` of an application, a user, a scope and a host. -/
  generateJwtToken : Application → TokenUser → GoString → GoString → Except GoString Minted
  /-- `ValidateDPoPProof` of a proof for "POST" at an address. -/
  validateDPoPProof : GoString → GoString → Except GoString GoString
  /-- The backend of `getOriginFromHost`. -/
  originBackend : GoString → GoString
  currentTime : GoString
  generateClientId : GoString

structure TokenError where
  error : GoString
  errorDescription : GoString
  deriving DecidableEq, Repr

/-- A call that does not succeed: refused with a token error, or failed with an error. -/
inductive Failure
  | refused (e : TokenError)
  | failed (text : GoString)
  deriving DecidableEq, Repr

def refusal (error : String) (description : GoString) : Failure := .refused ⟨utf8 error, description⟩

abbrev Granting (α : Type) := Method Tables Failure α

section Lookups

variable (t : Tables)

def getApplicationByClientId (clientId : GoString) : Option Application :=
  let shared := getSharedOrgFromApp clientId
  (t.applications.find? (·.clientId = shared.1)).map fun a =>
    if a.isShared && shared.2 ≠ [] then { a with organization := shared.2 } else a

def getTokenByRefreshToken (refreshToken : GoString) : Option Token :=
  t.tokens.find? (·.refreshTokenHash = getTokenHash refreshToken)

/-- `getCertByApplication`: the certificate that is named, or the built-in one. -/
def getCertByApplication (a : Application) : Option Cert :=
  if a.cert ≠ [] then t.certs.find? (·.name = a.cert)
  else t.certs.find? fun c => c.owner = utf8 "admin" && c.name = utf8 "cert-built-in"

def getUser (owner name : GoString) : Option TokenUser :=
  if owner = [] || name = [] then none
  else t.users.find? fun u => u.owner = owner && u.name = name

end Lookups

def Token.popularHashes (t : Token) : Token := { t with
  accessTokenHash := if t.accessTokenHash = [] && t.accessToken ≠ [] then getTokenHash t.accessToken
    else t.accessTokenHash
  refreshTokenHash := if t.refreshTokenHash = [] && t.refreshToken ≠ [] then
    getTokenHash t.refreshToken else t.refreshTokenHash }

def addToken (token : Token) : Granting Unit := do
  let t ← get
  refuseIf (∃ u ∈ t.tokens, u.key = token.key) (.failed (utf8 "Duplicate entry"))
  modify fun t => { t with tokens := t.tokens ++ [token.popularHashes] }

/-- Two columns of the row under a token's key. -/
def Tables.bindToken (t : Tables) (token : Token) : Tables := { t with
  tokens := t.tokens.map fun u =>
    if u.key = token.key then { u with tokenType := token.tokenType, dpopJkt := token.dpopJkt } else u }

def Tables.dropToken (t : Tables) (token : Token) : Tables := { t with
  tokens := t.tokens.filter fun u => u.key ≠ token.key || u.organization ≠ token.organization }

def updateTokenDPoP (token : Token) : Granting Unit := modify (·.bindToken token)

def deleteToken (token : Token) : Granting Unit := modify (·.dropToken token)

structure TokenWrapper where
  accessToken : GoString
  idToken : GoString
  refreshToken : GoString
  tokenType : GoString
  expiresIn : ℤ
  scope : GoString
  deriving DecidableEq, Repr

def Token.wrap (t : Token) : TokenWrapper :=
  ⟨t.accessToken, t.accessToken, t.refreshToken, t.tokenType, t.expiresIn, t.scope⟩

/-- The row of a token that was just minted for a user of an application. -/
def mintedToken (w : World) (a : Application) (u : TokenUser) (m : Minted) (scope : GoString)
    (codeIsUsed : Bool) : Token where
  owner := a.owner
  name := m.tokenName
  createdTime := w.currentTime
  application := a.name
  organization := u.owner
  user := u.name
  code := w.generateClientId
  accessToken := m.accessToken
  refreshToken := m.refreshToken
  accessTokenHash := []
  refreshTokenHash := []
  expiresIn := a.expireSeconds
  scope := scope
  tokenType := utf8 "Bearer"
  grantType := []
  codeChallenge := []
  codeIsUsed := codeIsUsed
  codeExpireIn := 0
  resource := []
  dpopJkt := []

def forbiddenUser : Failure := refusal "invalid_grant"
  (utf8 "the user is forbidden to sign in, please contact the administrator")

section Refresh

variable (w : World)

structure RefreshRequest where
  application : Option Application
  grantType : GoString
  refreshToken : GoString
  scope : GoString
  clientId : GoString
  clientSecret : GoString
  host : GoString
  dpopProof : GoString

def RefreshRequest.client (q : RefreshRequest) (t : Tables) : Option Application :=
  match q.application with
  | some a => some a
  | none => getApplicationByClientId t q.clientId

/-- `GetDPoPHtu` of the token endpoint. -/
def tokenEndpoint (host : GoString) : GoString :=
  w.originBackend host ++ utf8 "/api/login/oauth/access_token"

def parseByFormat (a : Application) (token : GoString) (c : Cert) : Except GoString Claims :=
  if a.tokenFormat = utf8 "JWT-Standard" then w.parseStandardJwtToken token c
  else w.parseJwtToken token c

def required {α : Type} (o : Option α) (err : Failure) : Granting α :=
  match o with
  | none => throw err
  | some a => pure a

def checked {α : Type} (e : Except GoString α) (err : GoString → Failure) : Granting α :=
  match e with
  | .error text => throw (err text)
  | .ok a => pure a

def bindDPoP (host dpopProof : GoString) (token : Token) : Granting Token :=
  if dpopProof = [] then pure token
  else do
    let jkt ← checked (w.validateDPoPProof dpopProof (tokenEndpoint w host))
      (refusal "invalid_dpop_proof")
    let token := { token with tokenType := utf8 "DPoP", dpopJkt := jkt }
    updateTokenDPoP token
    pure token

def refreshToken (q : RefreshRequest) : Granting TokenWrapper := do
  refuseIf (q.grantType ≠ utf8 "refresh_token")
    (refusal "unsupported_grant_type" (utf8 "grant_type should be refresh_token"))
  let t ← get
  let application ← required (q.client t) (refusal "invalid_client" (utf8 "client_id is invalid"))
  refuseIf (q.clientSecret ≠ [] ∧ application.clientSecret ≠ q.clientSecret)
    (refusal "invalid_client" (utf8 "client_secret is invalid"))
  let token ← required (getTokenByRefreshToken t q.refreshToken)
    (refusal "invalid_grant" (utf8 "refresh token is invalid or revoked"))
  refuseIf (token.expiresIn ≤ 0) (refusal "invalid_grant" (utf8 "refresh token is expired"))
  let cert ← required (getCertByApplication t application)
    (refusal "invalid_grant" (utf8 "cert: " ++ application.cert ++ utf8 " cannot be found"))
  let oldToken ← checked (parseByFormat w application q.refreshToken cert)
    fun err => refusal "invalid_grant" (utf8 "parse refresh token error: " ++ err)
  let scope := if q.scope = [] then oldToken.scope else q.scope
  let user ← required (getUser t application.organization token.user)
    (.failed (utf8 "The user: " ++ getId application.organization token.user ++
      utf8 " doesn't exist"))
  refuseIf (user.isForbidden = true) forbiddenUser
  checked (w.extendUser user) .failed
  let minted ← checked (w.generateJwtToken application user scope q.host)
    fun err => refusal "endpoint_error" (utf8 "generate jwt token error: " ++ err)
  let newToken := mintedToken w application user minted scope false
  addToken newToken
  let newToken ← bindDPoP w q.host q.dpopProof newToken
  deleteToken token
  pure newToken.wrap

end Refresh

section Checks

variable {α β : Type} {t t' : Tables} {b : β}

theorem call_required_bind {o : Option α} {err : Failure} {f : α → Granting β} :
    (required o err >>= f).call t =
      match o with
      | none => (.error err, t)
      | some b => (f b).call t := by
  cases o with
  | none => rfl
  | some b => rfl

theorem call_checked_bind {e : Except GoString α} {err : GoString → Failure}
    {f : α → Granting β} : (checked e err >>= f).call t =
      match e with
      | .error text => (.error (err text), t)
      | .ok b => (f b).call t := by
  cases e with
  | error text => rfl
  | ok b => rfl

theorem required_bind_ok {o : Option α} {err : Failure} {f : α → Granting β} :
    (required o err >>= f).call t = (.ok b, t') ↔ ∃ a, o = some a ∧ (f a).call t = (.ok b, t') := by
  cases o with
  | none => simp [required]
  | some a => simp [required]

theorem checked_bind_ok {e : Except GoString α} {err : GoString → Failure} {f : α → Granting β} :
    (checked e err >>= f).call t = (.ok b, t') ↔
      ∃ a, e = .ok a ∧ (f a).call t = (.ok b, t') := by
  cases e with
  | error text => simp [checked]
  | ok a => simp [checked]

theorem addToken_ok {token : Token} {u : Unit} :
    (addToken token).call t = (.ok u, t') ↔ (∀ v ∈ t.tokens, v.key ≠ token.key) ∧
      { t with tokens := t.tokens ++ [token.popularHashes] } = t' := by
  rw [addToken, call_get_bind, refuseIf_bind_ok, call_modify, Prod.mk.injEq]
  simp only [not_exists, not_and, true_and]

end Checks

section Exchange

variable (w : World)

/-- The claims of a subject token, with the application that issued it; `parseAndValidateSubjectToken`
returns owner, name and scope of the claims. -/
def parseAndValidateSubjectToken (subjectToken requestingClientId : GoString) : Granting Claims := do
  let t ← get
  let unverified ← checked (w.parseUnverified subjectToken)
    fun err => refusal "invalid_grant" (utf8 "invalid subject_token: " ++ err)
  refuseIf (unverified.azp = [])
    (refusal "invalid_grant" (utf8 "subject_token is missing the azp claim"))
  let issuingApp ← required (getApplicationByClientId t unverified.azp) (refusal "invalid_grant"
    (utf8 "subject_token issuing application not found: " ++ unverified.azp))
  let cert ← required (getCertByApplication t issuingApp) (refusal "endpoint_error"
    (utf8 "cert for issuing application " ++ unverified.azp ++ utf8 " cannot be found"))
  let claims ← checked (parseByFormat w issuingApp subjectToken cert)
    fun err => refusal "invalid_grant" (utf8 "invalid subject_token: " ++ err)
  -- the branch of the standard format returns before the audience is looked at
  refuseIf (issuingApp.tokenFormat ≠ utf8 "JWT-Standard" ∧
      issuingApp.clientId ≠ requestingClientId ∧ requestingClientId ∉ claims.audience)
    (refusal "invalid_grant" (utf8 "subject_token audience does not include the requesting client '" ++
      requestingClientId ++ utf8 "'"))
  pure claims

structure ExchangeRequest where
  application : Application
  clientSecret : GoString
  subjectToken : GoString
  subjectTokenType : GoString
  audience : GoString
  scope : GoString
  host : GoString

def supportedTokenTypes : List GoString :=
  [utf8 "urn:ietf:params:oauth:token-type:access_token",
    utf8 "urn:ietf:params:oauth:token-type:jwt",
    utf8 "urn:ietf:params:oauth:token-type:id_token"]

/-- The first scope that is asked for and not among those of the subject token. -/
def firstUncovered (subjectScope scope : GoString) : Option GoString :=
  (scope.splitOn space).find? fun s => s ≠ [] && !(subjectScope.splitOn space).contains s

/-- The scope of the new token: that of the subject token, or what is asked for. -/
def exchangedScope (subjectScope scope : GoString) : Granting GoString :=
  if scope = [] then pure subjectScope
  else if subjectScope = [] then pure scope
  else match firstUncovered subjectScope scope with
    | some s => throw (refusal "invalid_scope"
        (utf8 "requested scope '" ++ s ++ utf8 "' is not in subject token's scope"))
    | none => pure scope

def getTokenExchangeToken (q : ExchangeRequest) : Granting Token := do
  refuseIf (q.application.clientSecret ≠ q.clientSecret)
    (refusal "invalid_client" (utf8 "client_secret is invalid"))
  refuseIf (q.subjectToken = []) (refusal "invalid_request" (utf8 "subject_token is required"))
  let tokenType := if q.subjectTokenType = [] then
    utf8 "urn:ietf:params:oauth:token-type:access_token" else q.subjectTokenType
  refuseIf (tokenType ∉ supportedTokenTypes)
    (refusal "invalid_request" (utf8 "unsupported subject_token_type: " ++ tokenType))
  let subject ← parseAndValidateSubjectToken w q.subjectToken q.application.clientId
  let t ← get
  let user ← required (getUser t subject.owner subject.name) (refusal "invalid_grant"
    (utf8 "user from subject_token does not exist: " ++ getId subject.owner subject.name))
  refuseIf (user.isForbidden = true) forbiddenUser
  let scope ← exchangedScope subject.scope q.scope
  checked (w.extendUser user) .failed
  let minted ← checked (w.generateJwtToken q.application user scope q.host)
    fun err => refusal "endpoint_error" (utf8 "generate jwt token error: " ++ err)
  let token := mintedToken w q.application user minted scope true
  addToken token
  pure token

end Exchange

end ArchGuard.Object
