import ArchGuard.TokenSingleUse

/-! `GetOAuthToken` as one call, over a database that may fail at any statement: what a call that ends
in an error leaves in the token table. -/
namespace ArchGuard.Object
open GoMethod GoText Method

section Proofs

structure ProofHeader where
  typ : GoString
  alg : GoString
  jwk : GoString
  deriving DecidableEq, Repr

structure ProofClaims where
  jti : GoString
  htm : GoString
  htu : GoString
  ath : GoString
  issuedAt : Option Time
  deriving DecidableEq, Repr

/-- What the validation of a proof calls outside; an error is its text. -/
structure ProofLibrary where
  decodeRawURL : GoString → Except GoString GoString
  unmarshalHeader : GoString → Except GoString ProofHeader
  unmarshalKey : (jwk : GoString) → Except GoString Unit
  thumbprint : (jwk : GoString) → Except GoString Bytes
  /-- `jwt.ParseWithClaims` under the key, without a look at the claims. -/
  parseWithClaims : (proof jwk : GoString) → Except GoString ProofClaims
  /-- The simple case folding of a code point. -/
  fold : Char → Char
  now : Time

def equalFold (fold : Char → Char) (s t : GoString) : Bool :=
  (runes s).map (fun r => fold r.replaced) = (runes t).map fun r => fold r.replaced

def dot : UInt8 := 46

def dpopMaxAgeSeconds : ℤ := 300

def rawURLText (b : Bytes) : GoString := utf8 (String.ofList (Oidc.base64RawURL b))

/-- What the claims of a proof are refused for. -/
def claimsRefusal (lib : ProofLibrary) (claims : ProofClaims) (method htu accessToken : GoString) :
    Option GoString :=
  if equalFold lib.fold claims.htm method = false then
    some (utf8 "DPoP proof htm " ++ quoteBytes claims.htm ++ utf8 " does not match request method " ++
      quoteBytes method)
  else if equalFold lib.fold claims.htu htu = false then
    some (utf8 "DPoP proof htu " ++ quoteBytes claims.htu ++ utf8 " does not match request URL " ++
      quoteBytes htu)
  else
    match claims.issuedAt with
    | none => some (utf8 "DPoP proof missing iat claim")
    | some issuedAt =>
      if dpopMaxAgeSeconds*10^9 < |lib.now-issuedAt| then
        some (utf8 "DPoP proof iat is outside the acceptable time window (300 seconds)")
      else if claims.jti = [] then some (utf8 "DPoP proof missing jti claim")
      else if accessToken ≠ [] ∧ claims.ath ≠ rawURLText (Sha256.sha256 accessToken) then
        some (utf8 "DPoP proof ath claim does not match access token hash")
      else none

def headerRefusal (header : ProofHeader) : Option GoString :=
  if header.typ ≠ utf8 "dpop+jwt" then
    some (utf8 "DPoP proof typ must be \"dpop+jwt\", got " ++ quoteBytes header.typ)
  else if header.alg = [] ∨ (utf8 "HS").isPrefixOf header.alg then
    some (utf8 "DPoP proof must use an asymmetric algorithm, got " ++ quoteBytes header.alg)
  else if header.jwk = [] then some (utf8 "DPoP proof header must contain the jwk claim")
  else none

/-- A test that may refuse with an error. -/
def refusing {ε : Type} (refusal : Option ε) : Except ε Unit :=
  match refusal with
  | some err => .error err
  | none => .ok ()

/-- `ValidateDPoPProof`: the thumbprint of the key that the proof is signed with. -/
def validateDPoPProof (lib : ProofLibrary) (proofToken method htu accessToken : GoString) :
    Except GoString GoString :=
  match proofToken.splitOn dot with
  | [encoded, _, _] => do
    let headerBytes ← (lib.decodeRawURL encoded).mapError (utf8 "failed to decode DPoP proof header: " ++ ·)
    let header ← (lib.unmarshalHeader headerBytes).mapError (utf8 "failed to parse DPoP proof header: " ++ ·)
    refusing (headerRefusal header)
    (lib.unmarshalKey header.jwk).mapError (utf8 "failed to parse DPoP JWK: " ++ ·)
    let thumbprint ← (lib.thumbprint header.jwk).mapError
      (utf8 "failed to compute DPoP JWK thumbprint: " ++ ·)
    let claims ← (lib.parseWithClaims proofToken header.jwk).mapError
      (utf8 "DPoP proof signature verification failed: " ++ ·)
    refusing (claimsRefusal lib claims method htu accessToken)
    pure (rawURLText thumbprint)
  | _ => .error (utf8 "invalid DPoP proof JWT format")

end Proofs

section Grants

structure TokenRequest extends OAuthRequest where
  username : GoString
  password : GoString
  nonce : GoString
  subjectToken : GoString
  subjectTokenType : GoString
  assertion : GoString
  audience : GoString
  deriving DecidableEq, Repr

/-- The columns of a user that a password grant reads. -/
structure Account extends TokenUser where
  ldap : GoString
  password : GoString
  deriving DecidableEq, Repr

/-- The statements that a call runs. -/
inductive Statement
  | application | code | user | userByFields | organization | issuingApplication | refreshToken | cert
  | addUser | addToken | updateTokenDPoP | updateUsedByCode | deleteToken
  deriving DecidableEq, Repr

/-- What a call is answered outside of the token table. -/
structure Backend extends Surroundings where
  /-- The error of a statement that fails; it has changed nothing. -/
  fault : Statement → Option GoString
  proofs : ProofLibrary
  /-- `IsScopeValidAndExpand`. -/
  expandScope : GoString → Application → Option GoString
  /-- `GetUserByFieldsForSharedApp`. -/
  userByFields : Application → GoString → Option Account
  /-- `CheckLdapUserPassword` of a user from a directory, else `CheckPassword`. -/
  checkPassword : Account → GoString → Except GoString Unit
  recordUserSignin : Account → Except GoString Unit
  /-- The subject of an assertion that `ValidateJwtAssertion` accepts. -/
  assertedSubject : GoString → GoString
  organizationExists : GoString → Bool
  /-- `AddUser` of a guest, with what it says of the affected rows. -/
  addGuest : Application → Except GoString Bool
  guestName : GoString

/-- A value that has to be there. -/
def found {α : Type} (o : Option α) (err : Failure) : Except Failure α :=
  match o with
  | none => .error err
  | some a => .ok a

def refuse (p : Prop) [Decidable p] (err : Failure) : Except Failure Unit :=
  if p then .error err else .ok ()

variable (b : Backend)

def Backend.read {α : Type} (s : Statement) (onFault : GoString → Failure) (x : α) : Except Failure α :=
  match b.fault s with
  | some text => .error (onFault text)
  | none => .ok x

def Backend.proofOf (q : TokenRequest) : Except GoString GoString :=
  validateDPoPProof b.proofs q.dpopProof (utf8 "POST") (tokenEndpoint b.toWorld q.host) []

variable (t : Tables) (q : TokenRequest) (a : Application)

def invalidScope : Failure :=
  refusal "invalid_scope" (utf8 "the requested scope is invalid or not defined in the application")

def noUser : Failure := refusal "invalid_grant" (utf8 "the user does not exist")

def notGenerated (text : GoString) : Failure :=
  refusal "endpoint_error" (utf8 "generate jwt token error: " ++ text)

def codeRow : Except Failure Token := do
  let row ← b.read .code .failed (t.tokens.find? (·.code = q.code))
  let token ← found row
    (refusal "invalid_grant" (utf8 "authorization code: [" ++ q.code ++ utf8 "] is invalid"))
  refusing (codeRefusal b.toSurroundings q.toOAuthRequest a token)
  pure token

/-- The user of a request, once the password is checked. -/
def verifiedUser (grant : String) : Except Failure Account := do
  let user ← b.read .userByFields .failed (b.userByFields a q.username)
  let user ← found user noUser
  refuse (user.ldap = [] ∧ user.password = []) (refusal "invalid_grant" (utf8 "OAuth users cannot use " ++
    utf8 grant ++ utf8 " grant type, please use authorization code flow"))
  (b.checkPassword user q.password).mapError fun err =>
    refusal "invalid_grant" (utf8 "invalid username or password: " ++ err)
  pure user

/-- `GetPasswordToken`, up to the row. -/
def passwordRow : Except Failure Token := do
  let scope ← found (b.expandScope q.scope a) invalidScope
  let user ← verifiedUser b q a "password"
  refuse (user.isForbidden = true) forbiddenUser
  (b.extendUser user.toTokenUser).mapError .failed
  (b.recordUserSignin user).mapError .failed
  let minted ← (b.generateJwtToken a user.toTokenUser scope q.host).mapError notGenerated
  pure (mintedToken b.toWorld a user.toTokenUser minted scope true)

/-- `GetClientCredentialsToken`, up to the row: the application is its own user. -/
def clientCredentialsRow : Except Failure Token := do
  refuse (a.clientSecret ≠ q.clientSecret) (refusal "invalid_client" (utf8 "client_secret is invalid"))
  let scope ← found (b.expandScope q.scope a) invalidScope
  let nullUser : TokenUser := ⟨a.owner, a.name, false⟩
  let minted ← (b.generateJwtToken a nullUser scope q.host).mapError notGenerated
  pure { mintedToken b.toWorld a nullUser minted scope true with
    organization := a.organization
    refreshToken := []
    grantType := utf8 "client_credentials" }

/-- `mintImplicitToken` and `GetTokenByUser`, up to the row. The nonce goes into the token's text. -/
def implicitRow (username : GoString) : Except Failure Token := do
  let scope ← found (b.expandScope q.scope a) invalidScope
  let user ← b.read .userByFields .failed (b.userByFields a username)
  let user ← found user noUser
  refuse (user.isForbidden = true) forbiddenUser
  (b.extendUser user.toTokenUser).mapError .failed
  let minted ← (b.generateJwtToken a user.toTokenUser scope q.host).mapError .failed
  pure (mintedToken b.toWorld a user.toTokenUser minted scope true)

/-- `GetImplicitToken`, up to the row. -/
def verifiedImplicitRow : Except Failure Token := do
  let _ ← verifiedUser b q a "implicit"
  implicitRow b q a q.username

/-- `GetJwtBearerToken`, up to the row; its error comes with a token error that is dropped. -/
def jwtBearerRow : Except Failure Token := do
  let ok ← (b.validateJwtAssertion q.assertion a q.host).mapError .failed
  refuse (ok = false) (refusal "invalid_grant"
    (utf8 "assertion (JWT) is invalid for application: [" ++ getId a.owner a.name ++ utf8 "]"))
  implicitRow b q a (b.assertedSubject q.assertion)

/-- `parseAndValidateSubjectToken`. -/
def subjectOf : Except Failure Claims := do
  let unverified ← (b.parseUnverified q.subjectToken).mapError fun err =>
    refusal "invalid_grant" (utf8 "invalid subject_token: " ++ err)
  refuse (unverified.azp = []) (refusal "invalid_grant" (utf8 "subject_token is missing the azp claim"))
  let issuingApp ← b.read .issuingApplication .failed (getApplicationByClientId t unverified.azp)
  let issuingApp ← found issuingApp (refusal "invalid_grant"
    (utf8 "subject_token issuing application not found: " ++ unverified.azp))
  let cert ← b.read .cert .failed (getCertByApplication t issuingApp)
  let cert ← found cert (refusal "endpoint_error"
    (utf8 "cert for issuing application " ++ unverified.azp ++ utf8 " cannot be found"))
  let claims ← (parseByFormat b.toWorld issuingApp q.subjectToken cert).mapError fun err =>
    refusal "invalid_grant" (utf8 "invalid subject_token: " ++ err)
  refuse (issuingApp.tokenFormat ≠ utf8 "JWT-Standard" ∧
      issuingApp.clientId ≠ a.clientId ∧ a.clientId ∉ claims.audience)
    (refusal "invalid_grant" (utf8 "subject_token audience does not include the requesting client '" ++
      a.clientId ++ utf8 "'"))
  pure claims

/-- `GetTokenExchangeToken`, up to the row. -/
def exchangeRow : Except Failure Token := do
  refuse (a.clientSecret ≠ q.clientSecret) (refusal "invalid_client" (utf8 "client_secret is invalid"))
  refuse (q.subjectToken = []) (refusal "invalid_request" (utf8 "subject_token is required"))
  let tokenType := if q.subjectTokenType = [] then
    utf8 "urn:ietf:params:oauth:token-type:access_token" else q.subjectTokenType
  refuse (tokenType ∉ supportedTokenTypes)
    (refusal "invalid_request" (utf8 "unsupported subject_token_type: " ++ tokenType))
  let subject ← subjectOf b t q a
  let user ← b.read .user .failed (getUser t subject.owner subject.name)
  let user ← found user (refusal "invalid_grant"
    (utf8 "user from subject_token does not exist: " ++ getId subject.owner subject.name))
  refuse (user.isForbidden = true) forbiddenUser
  refusing (if q.scope ≠ [] ∧ subject.scope ≠ [] then
    (firstUncovered subject.scope q.scope).map fun s => refusal "invalid_scope"
      (utf8 "requested scope '" ++ s ++ utf8 "' is not in subject token's scope")
    else none)
  let scope := if q.scope = [] then subject.scope else q.scope
  (b.extendUser user).mapError .failed
  let minted ← (b.generateJwtToken a user scope q.host).mapError notGenerated
  pure (mintedToken b.toWorld a user minted scope true)

/-- `createGuestUserToken`, up to the row: the guest is there by then. -/
def guestRow : Except Failure Token := do
  refuse (q.clientSecret ≠ [] ∧ a.clientSecret ≠ q.clientSecret)
    (refusal "invalid_client" (utf8 "client_secret is invalid"))
  let there ← b.read .organization
    (fun text => refusal "endpoint_error" (utf8 "failed to get organization: " ++ text))
    (b.organizationExists a.organization)
  refuse (there = false) (refusal "invalid_client"
    (utf8 "organization: " ++ a.organization ++ utf8 " does not exist"))
  let notCreated (text : GoString) := refusal "endpoint_error" (utf8 "failed to create guest user: " ++ text)
  b.read .addUser notCreated ()
  let affected ← (b.addGuest a).mapError notCreated
  refuse (affected = false) (refusal "endpoint_error" (utf8 "failed to create guest user"))
  let guest : TokenUser := ⟨a.organization, b.guestName, false⟩
  (b.extendUser guest).mapError fun text => refusal "endpoint_error" (utf8 "failed to extend user: " ++ text)
  let minted ← (b.generateJwtToken a guest [] []).mapError fun text =>
    refusal "endpoint_error" (utf8 "failed to generate token: " ++ text)
  pure (mintedToken b.toWorld a guest minted [] true)

/-- The checks of `RefreshToken`: the row of the token that is presented, and the one to come. -/
def refreshRows : Except Failure (Token × Token) := do
  refuse (q.clientSecret ≠ [] ∧ a.clientSecret ≠ q.clientSecret)
    (refusal "invalid_client" (utf8 "client_secret is invalid"))
  let invalid := refusal "invalid_grant" (utf8 "refresh token is invalid or revoked")
  let token ← b.read .refreshToken (fun _ => invalid) (getTokenByRefreshToken t q.refreshToken)
  let token ← found token invalid
  refuse (token.expiresIn ≤ 0) (refusal "invalid_grant" (utf8 "refresh token is expired"))
  let cert ← b.read .cert .failed (getCertByApplication t a)
  let cert ← found cert (refusal "invalid_grant" (utf8 "cert: " ++ a.cert ++ utf8 " cannot be found"))
  let oldToken ← (parseByFormat b.toWorld a q.refreshToken cert).mapError fun err =>
    refusal "invalid_grant" (utf8 "parse refresh token error: " ++ err)
  let scope := if q.scope = [] then oldToken.scope else q.scope
  let user ← b.read .user .failed (getUser t a.organization token.user)
  let user ← found user (.failed (utf8 "The user: " ++ getId a.organization token.user ++ utf8 " doesn't exist"))
  refuse (user.isForbidden = true) forbiddenUser
  (b.extendUser user).mapError .failed
  let minted ← (b.generateJwtToken a user scope q.host).mapError notGenerated
  pure (token, mintedToken b.toWorld a user minted scope false)

/-- The row of a grant without a code and without a refresh token. -/
def issuedRow : Except Failure Token :=
  if q.grantType = utf8 "password" then passwordRow b q a
  else if q.grantType = utf8 "client_credentials" then clientCredentialsRow b q a
  else if q.grantType = utf8 "token" ∨ q.grantType = utf8 "id_token" then verifiedImplicitRow b q a
  else if q.grantType = utf8 "urn:ietf:params:oauth:grant-type:jwt-bearer" then jwtBearerRow b q a
  else if q.grantType = utf8 "urn:ietf:params:oauth:grant-type:device_code" then
    implicitRow b q a q.username
  else exchangeRow b t q a

/-- What a request is admitted to. -/
inductive Admission
  /-- To the token of a code. -/
  | redeem (q : TokenRequest) (token : Token)
  /-- To a token that is yet to be stored, with what becomes of an error there. -/
  | issue (q : TokenRequest) (row : Token) (onFault : GoString → Failure)
  /-- To a new token in the place of an old one. -/
  | renew (q : TokenRequest) (old new : Token)

/-- The application of a request, and the request as it goes on. -/
def clientOf : Except Failure (TokenRequest × Application) := do
  if q.clientAssertionType = utf8 "urn:ietf:params:oauth:client-assertion-type:jwt-bearer" then
    let _ ← (b.assertionSubject q.clientAssertion).mapError .failed
  b.read .application .failed ()
  let (oauth, a) ← authenticate b.toSurroundings t q.toOAuthRequest
  pure ({ q with toOAuthRequest := oauth }, a)

/-- The cases of `GetOAuthToken`, up to where a token is stored or returned. -/
def admitTo : Except Failure Admission :=
  if q.grantType = authorizationCode then
    if q.code = [] then
      .error (refusal "invalid_request" (utf8 "authorization code should not be empty"))
    else if q.code = guestUser then do
      refusing (guestRefusal a)
      let row ← guestRow b q a
      pure (.issue q row fun text => refusal "endpoint_error" (utf8 "failed to add token: " ++ text))
    else do
      let token ← codeRow b t q a
      pure (.redeem q token)
  else if q.grantType = refreshGrant then do
    let (old, new) ← refreshRows b t q a
    pure (.renew q old new)
  else if q.grantType ∈ otherGrantTypes then do
    let row ← issuedRow b t q a
    pure (.issue q row .failed)
  else do
    -- no case has set the token: a proof is still looked at before nil is dereferenced
    if q.dpopProof ≠ [] then
      let _ ← (b.proofOf q).mapError (refusal "invalid_dpop_proof")
    .error (.failed (utf8 "invalid memory address or nil pointer dereference"))

def admitted : Except Failure Admission := do
  let (q, a) ← clientOf b t q
  refuse (isGrantTypeValid q.grantType a.grantTypes = false) (refusal "unsupported_grant_type"
    (utf8 "grant_type: " ++ q.grantType ++ utf8 " is not supported in this application"))
  admitTo b t q a

/-- `AddToken`, where an error may be wrapped. -/
def insertRow (onFault : GoString → Failure) (row : Token) : Granting Unit :=
  match b.fault .addToken with
  | some text => throw (onFault text)
  | none => do
    let t ← get
    match t.insertToken row with
    | none => throw (onFault (utf8 "Duplicate entry"))
    | some t' => set t'

def Backend.write (s : Statement) (f : Tables → Tables) : Granting Unit :=
  match b.fault s with
  | some text => throw (.failed text)
  | none => modify f

/-- The DPoP binding of a token that has its row already. -/
def bindProof (token : Token) : Granting Token :=
  if q.dpopProof = [] then pure token
  else
    match b.proofOf q with
    | .error text => throw (refusal "invalid_dpop_proof" text)
    | .ok jkt => do
      let token := { token with tokenType := utf8 "DPoP", dpopJkt := jkt }
      b.write .updateTokenDPoP (·.bindToken token)
      pure token

def finish (token : Token) : Granting TokenWrapper := do
  let token ← bindProof b q token
  b.write .updateUsedByCode (·.markUsed token.code)
  pure token.wrap

/-- The tail of `RefreshToken`. -/
def replaceToken (old new : Token) : Granting TokenWrapper := do
  let new ← bindProof b q new
  b.write .deleteToken (·.dropToken old)
  pure new.wrap

def carryOut : Admission → Granting TokenWrapper
  | .redeem q token => finish b q token
  | .issue q row onFault => do
    insertRow b onFault row
    finish b q row
  | .renew q old new => do
    insertRow b .failed new
    replaceToken b q old new

def getOAuthToken : Granting TokenWrapper := do
  let t ← get
  match admitted b t q with
  | .error err => throw err
  | .ok admission => carryOut b admission

end Grants

section Atomicity

variable (b : Backend) (t : Tables) (q : TokenRequest)

/-- An error leaves the token table as it was. -/
def ErrorAtomic {α : Type} (m : Granting α) : Prop :=
  ∀ err t', m.call t = (.error err, t') → t'.tokens = t.tokens

def Stored (row : Token) : Prop := b.fault .addToken = none ∧ ∀ u ∈ t.tokens, u.key ≠ row.key

/-- A request comes without a proof, or with a valid one that is recorded. -/
def ProofHolds : Prop :=
  q.dpopProof = [] ∨ (∃ jkt, b.proofOf q = .ok jkt) ∧ b.fault .updateTokenDPoP = none

/-- The row under the key of a token has the binding already. -/
def Bound (token : Token) (jkt : GoString) : Prop :=
  ∀ u ∈ t.tokens, u.key = token.key → u.tokenType = utf8 "DPoP" ∧ u.dpopJkt = jkt

/-- Nothing can fail once the token table has changed. -/
def Settles : Admission → Prop
  | .redeem q token => ∀ jkt, q.dpopProof ≠ [] → b.proofOf q = .ok jkt →
      b.fault .updateTokenDPoP = none → b.fault .updateUsedByCode = none ∨ Bound t token jkt
  | .issue q row _ => Stored b t row → ProofHolds b q ∧ b.fault .updateUsedByCode = none
  | .renew q _ new => Stored b t new → ProofHolds b q ∧ b.fault .deleteToken = none

variable {b t q}

theorem call_write (s : Statement) (f : Tables → Tables) : (b.write s f).call t =
    match b.fault s with
    | some text => (.error (.failed text), t)
    | none => (.ok (), f t) := by
  unfold Backend.write
  cases b.fault s with
  | some text => rfl
  | none => rfl

theorem call_bindProof (token : Token) : (bindProof b q token).call t =
    if q.dpopProof = [] then (.ok token, t)
    else
      match b.proofOf q with
      | .error text => (.error (refusal "invalid_dpop_proof" text), t)
      | .ok jkt =>
        match b.fault .updateTokenDPoP with
        | some text => (.error (.failed text), t)
        | none => (.ok { token with tokenType := utf8 "DPoP", dpopJkt := jkt },
            t.bindToken { token with tokenType := utf8 "DPoP", dpopJkt := jkt }) := by
  unfold bindProof
  split_ifs with hproof
  · rfl
  · cases b.proofOf q with
    | error text => rfl
    | ok jkt =>
      dsimp only
      rw [call_bind, call_write]
      cases b.fault .updateTokenDPoP with
      | some text => rfl
      | none => rfl

theorem call_insertRow (onFault : GoString → Failure) (row : Token) :
    (Stored b t row ∧ (insertRow b onFault row).call t =
      (.ok (), { t with tokens := t.tokens ++ [row.popularHashes] })) ∨
    (¬Stored b t row ∧ ∃ err, (insertRow b onFault row).call t = (.error err, t)) := by
  unfold insertRow Stored
  cases hfault : b.fault .addToken with
  | some text =>
    right
    exact ⟨fun h => Option.some_ne_none text h.1, onFault text, rfl⟩
  | none =>
    by_cases hkey : ∃ u ∈ t.tokens, u.key = row.key
    · right
      obtain ⟨u, hu, hsame⟩ := hkey
      refine ⟨fun h => h.2 u hu hsame, onFault (utf8 "Duplicate entry"), ?_⟩
      dsimp only
      rw [call_get_bind, Tables.insertToken, if_pos ⟨u, hu, hsame⟩]
      rfl
    · left
      refine ⟨⟨rfl, fun u hu hsame => hkey ⟨u, hu, hsame⟩⟩, ?_⟩
      dsimp only
      rw [call_get_bind, Tables.insertToken, if_neg hkey]
      rfl

/-- A tail that succeeds under a condition, and has added or dropped no row where it does not. -/
structure Tail (m : Granting TokenWrapper) (p : Prop) : Prop where
  keeps : ∀ t err t', m.call t = (.error err, t') → t'.tokens.length = t.tokens.length
  succeeds : ∀ t, (∃ wrapper t', m.call t = (.ok wrapper, t')) ↔ p

theorem tail_bindProof (s : Statement) (f : Token → Tables → Tables) (token : Token) :
    Tail (do
      let token ← bindProof b q token
      b.write s (f token)
      pure token.wrap) (ProofHolds b q ∧ b.fault s = none) where
  keeps := by
    intro t err t' h
    rw [call_bind, call_bindProof] at h
    by_cases hproof : q.dpopProof = []
    · simp only [hproof, if_true] at h
      rw [call_bind, call_write] at h
      cases hfault : b.fault s with
      | some text => rw [hfault] at h; cases h; rfl
      | none => rw [hfault] at h; cases h
    · rw [if_neg hproof] at h
      cases hvalid : b.proofOf q with
      | error text => rw [hvalid] at h; cases h; rfl
      | ok jkt =>
        cases hbind : b.fault .updateTokenDPoP with
        | some text => rw [hvalid, hbind] at h; cases h; rfl
        | none =>
          rw [hvalid, hbind] at h
          simp only at h
          rw [call_bind, call_write] at h
          cases hfault : b.fault s with
          | some text =>
            rw [hfault] at h
            cases h
            exact List.length_map _
          | none => rw [hfault] at h; cases h
  succeeds := by
    intro t
    rw [call_bind, call_bindProof]
    unfold ProofHolds
    by_cases hproof : q.dpopProof = []
    · simp only [hproof, if_true, true_or, true_and]
      rw [call_bind, call_write]
      cases b.fault s with
      | some text => simp
      | none => simp
    · rw [if_neg hproof]
      cases b.proofOf q with
      | error text => simp [hproof]
      | ok jkt =>
        cases b.fault .updateTokenDPoP with
        | some text => simp [hproof]
        | none =>
          simp only
          rw [call_bind, call_write]
          cases b.fault s with
          | some text => simp
          | none => simp

theorem errorAtomic_insertRow_iff {m : Granting TokenWrapper} {p : Prop} (hm : Tail m p)
    (onFault : GoString → Failure) (row : Token) :
    ErrorAtomic t (insertRow b onFault row >>= fun _ => m) ↔ (Stored b t row → p) := by
  rcases call_insertRow (b := b) (t := t) onFault row with ⟨hstored, hcall⟩ | ⟨hstored, err, hcall⟩
  · have hbind : (insertRow b onFault row >>= fun _ => m).call t =
        m.call { t with tokens := t.tokens ++ [row.popularHashes] } := by
      rw [call_bind, hcall]
    unfold ErrorAtomic
    rw [hbind]
    constructor
    · intro hatomic _
      apply (hm.succeeds { t with tokens := t.tokens ++ [row.popularHashes] }).1
      rcases hresult : m.call { t with tokens := t.tokens ++ [row.popularHashes] } with ⟨⟨err⟩ | ⟨wrapper⟩, t'⟩
      · have hlength := hm.keeps _ _ _ hresult
        rw [hatomic err t' hresult, List.length_append, List.length_singleton] at hlength
        omega
      · exact ⟨wrapper, t', rfl⟩
    · intro hp err t' herr
      obtain ⟨wrapper, t'', hok⟩ := (hm.succeeds { t with tokens := t.tokens ++ [row.popularHashes] }).2 (hp hstored)
      rw [hok] at herr
      cases herr
  · constructor
    · intro _ h
      exact absurd h hstored
    · intro _ err' t' h
      rw [call_bind, hcall] at h
      cases h
      rfl

theorem bindToken_tokens_iff (token : Token) (jkt : GoString) :
    (t.bindToken { token with tokenType := utf8 "DPoP", dpopJkt := jkt }).tokens = t.tokens ↔
      Bound t token jkt := by
  have hmap : (t.bindToken { token with tokenType := utf8 "DPoP", dpopJkt := jkt }).tokens = t.tokens ↔
      ∀ u ∈ t.tokens, (if u.key = token.key then { u with tokenType := utf8 "DPoP", dpopJkt := jkt }
        else u) = id u := by
    rw [← List.map_inj_left, List.map_id]
    rfl
  rw [hmap]
  constructor
  · intro h u hu hkey
    have hsame := h u hu
    rw [if_pos hkey] at hsame
    exact ⟨(congrArg Token.tokenType hsame).symm, (congrArg Token.dpopJkt hsame).symm⟩
  · intro h u hu
    split_ifs with hkey
    · obtain ⟨htype, hjkt⟩ := h u hu hkey
      rw [← htype, ← hjkt]
      rfl
    · rfl

theorem errorAtomic_finish_iff (token : Token) : ErrorAtomic t (finish b q token) ↔
    ∀ jkt, q.dpopProof ≠ [] → b.proofOf q = .ok jkt → b.fault .updateTokenDPoP = none →
      b.fault .updateUsedByCode = none ∨ Bound t token jkt := by
  unfold ErrorAtomic finish
  simp only [call_bind, call_bindProof, call_write]
  by_cases hproof : q.dpopProof = []
  · simp only [hproof, if_true, not_true_eq_false, false_implies, implies_true, iff_true, ne_eq]
    intro err t' h
    cases hfault : b.fault .updateUsedByCode with
    | some text => rw [hfault] at h; cases h; rfl
    | none => rw [hfault] at h; cases h
  · simp only [if_neg hproof]
    cases hvalid : b.proofOf q with
    | error text =>
      constructor
      · intro _ jkt _ h
        cases h
      · intro _ err t' h
        cases h
        rfl
    | ok jkt =>
      cases hbind : b.fault .updateTokenDPoP with
      | some text =>
        constructor
        · intro _ _ _ _ h
          cases h
        · intro _ err t' h
          cases h
          rfl
      | none =>
        cases hfault : b.fault .updateUsedByCode with
        | none =>
          constructor
          · intro _ _ _ _ _
            exact Or.inl rfl
          · intro _ err t' h
            cases h
        | some text =>
          simp only [Except.ok.injEq]
          constructor
          · intro h jkt' _ hjkt _
            right
            rw [← hjkt, ← bindToken_tokens_iff]
            exact h _ _ rfl
          · intro h err t' herr
            cases herr
            rcases h jkt hproof rfl trivial with h | h
            · cases h
            · exact (bindToken_tokens_iff token jkt).2 h

/-- An error leaves the token table as it was exactly where nothing that comes after a change of the
table can fail. -/
theorem errorAtomic_iff (b : Backend) (t : Tables) (q : TokenRequest) :
    ErrorAtomic t (getOAuthToken b q) ↔ ∀ admission, admitted b t q = .ok admission → Settles b t admission := by
  unfold getOAuthToken
  have hcall (err : Failure) (t' : Tables) : (do
      let t ← get
      match admitted b t q with
      | .error err => throw err
      | .ok admission => carryOut b admission : Granting TokenWrapper).call t = (.error err, t') ↔
      (match admitted b t q with
      | .error err => throw err
      | .ok admission => carryOut b admission : Granting TokenWrapper).call t = (.error err, t') := by
    rw [call_get_bind]
  unfold ErrorAtomic
  simp only [hcall]
  cases admitted b t q with
  | error refused =>
    constructor
    · intro _ admission h
      cases h
    · intro _ err t' h
      cases h
      rfl
  | ok admission =>
    simp only [Except.ok.injEq, forall_eq']
    cases admission with
    | redeem q token => exact errorAtomic_finish_iff token
    | issue q row onFault =>
      exact errorAtomic_insertRow_iff (tail_bindProof .updateUsedByCode (fun token t => t.markUsed token.code) row)
        onFault row
    | renew q old new =>
      exact errorAtomic_insertRow_iff (tail_bindProof .deleteToken (fun _ t => t.dropToken old) new) .failed new

end Atomicity

namespace Sample

/-- A database that does not fail, and no library that reads a proof. -/
def backend : Backend where
  toSurroundings := surroundings
  fault _ := none
  proofs := {
    decodeRawURL := .error
    unmarshalHeader := .error
    unmarshalKey := .error
    thumbprint := .error
    parseWithClaims proof _ := .error proof
    fold := Char.toLower
    now := 0 }
  expandScope scope _ := some scope
  userByFields _ _ := none
  checkPassword _ _ := .ok ()
  recordUserSignin _ := .ok ()
  assertedSubject := id
  organizationExists _ := true
  addGuest _ := .ok true
  guestName := utf8 "guest"

def unproven : TokenRequest where
  toOAuthRequest := { request refreshGrant with dpopProof := utf8 "x" }
  username := []
  password := []
  nonce := []
  subjectToken := []
  subjectTokenType := []
  assertion := []
  audience := []

end Sample

/-- The refresh is refused for its proof, and the new token stays in the table. -/
theorem refused_refresh_stores : ¬∀ (b : Backend) (t : Tables) (q : TokenRequest),
    ErrorAtomic t (getOAuthToken b q) := by
  intro h
  have hcall : ((getOAuthToken Sample.backend Sample.unproven).call Sample.tables).1.isOk = false ∧
      ((getOAuthToken Sample.backend Sample.unproven).call Sample.tables).2.tokens.length = 2 := by
    decide +kernel
  rcases hresult : (getOAuthToken Sample.backend Sample.unproven).call Sample.tables with ⟨⟨err⟩ | ⟨wrapper⟩, t'⟩
  · rw [hresult, h Sample.backend Sample.tables Sample.unproven err t' hresult] at hcall
    exact absurd hcall.2 (by decide)
  · rw [hresult] at hcall
    cases hcall.1

end ArchGuard.Object
