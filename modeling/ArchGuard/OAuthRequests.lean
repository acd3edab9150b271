import ArchGuard.ObjectTokens
import ArchGuard.OidcAuthCode
import ArchGuard.SharedCalls

/-! `GetOAuthToken` statement by statement, for any number of calls that interleave. -/
namespace ArchGuard.Object
open GoMethod GoText Method SharedCalls

structure OAuthRequest where
  grantType : GoString
  clientId : GoString
  clientSecret : GoString
  code : GoString
  verifier : GoString
  scope : GoString
  host : GoString
  refreshToken : GoString
  clientAssertion : GoString
  clientAssertionType : GoString
  resource : GoString
  dpopProof : GoString
  deriving DecidableEq, Repr

/-- What a call is answered outside at one of its statements. -/
structure Surroundings extends World where
  nowUnix : ℤ
  /-- `time.Unix(...).Format(time.RFC3339)`, in the zone of the server. -/
  formatUnix : ℤ → GoString
  /-- The subject of a client assertion, not verified yet. -/
  assertionSubject : GoString → Except GoString GoString
  /-- `ValidateJwtAssertion`. -/
  validateJwtAssertion : GoString → Application → GoString → Except GoString Bool
  /-- What the checks of a grant without a code and without a refresh token come to: the row that
  it inserts, with its code marked as used. -/
  otherGrant : OAuthRequest → Application → Except Failure Token

/-- Where a call stands: the statement it runs next, with what it has read. -/
inductive OAuthPc
  | getApplicationByClientId (q : OAuthRequest)
  | getTokenByCode (q : OAuthRequest) (a : Application)
  | addGranted (q : OAuthRequest) (a : Application)
  | updateTokenDPoP (q : OAuthRequest) (token : Token)
  | updateUsedByCode (q : OAuthRequest) (token : Token)
  | getTokenByRefreshToken (q : OAuthRequest) (a : Application)
  | getCertByApplication (q : OAuthRequest) (a : Application) (token : Token)
  | getUser (q : OAuthRequest) (a : Application) (token : Token) (scope : GoString)
  | addToken (q : OAuthRequest) (token new : Token)
  | bindRefreshed (q : OAuthRequest) (token new : Token)
  | deleteToken (q : OAuthRequest) (token new : Token)
  | granted (q : OAuthRequest) (wrapper : TokenWrapper)
  | denied (q : OAuthRequest) (err : Failure)
  deriving DecidableEq, Repr

def authorizationCode : GoString := utf8 "authorization_code"

def refreshGrant : GoString := utf8 "refresh_token"

/-- The keyword that is sent in place of a code to be signed in as a new guest. -/
def guestUser : GoString := utf8 "guest-user"

/-- The grants with a case in `GetOAuthToken`, apart from codes and refresh tokens. -/
def otherGrantTypes : List GoString :=
  [utf8 "password", utf8 "client_credentials", utf8 "token", utf8 "id_token",
    utf8 "urn:ietf:params:oauth:grant-type:jwt-bearer",
    utf8 "urn:ietf:params:oauth:grant-type:device_code",
    utf8 "urn:ietf:params:oauth:grant-type:token-exchange"]

def isGrantTypeValid (method : GoString) (grantTypes : List GoString) : Bool :=
  method = authorizationCode || grantTypes.contains method

def pkceChallenge (verifier : GoString) : GoString :=
  utf8 (String.ofList (Oidc.base64RawURL (Sha256.sha256 verifier)))

/-- What stands in the way of a guest, before it is created. -/
def guestRefusal (a : Application) : Option Failure :=
  if a.organization = utf8 "built-in" then
    some (refusal "invalid_grant" (utf8 "guest signin is not allowed for built-in organization"))
  else if a.enableGuestSignin = false then
    some (refusal "invalid_grant" (utf8 "guest signin is not enabled for this application"))
  else if a.enableSignUp = false then
    some (refusal "invalid_grant" (utf8 "sign up is not enabled for this application"))
  else none

/-- The checks of `GetAuthorizationCodeToken` on the row of a code. -/
def codeRefusal (w : Surroundings) (q : OAuthRequest) (a : Application) (token : Token) :
    Option Failure :=
  if token.codeIsUsed then
    some (refusal "invalid_grant" (utf8 "authorization code has been used for token: [" ++
      getId token.owner token.name ++ utf8 "]"))
  else if token.codeChallenge ≠ [] ∧ pkceChallenge q.verifier ≠ token.codeChallenge then
    some (refusal "invalid_grant" (utf8 "verifier is invalid, challengeAnswer: [" ++
      pkceChallenge q.verifier ++ utf8 "], token.CodeChallenge: [" ++ token.codeChallenge ++ utf8 "]"))
  else if a.clientSecret ≠ q.clientSecret ∧ token.codeChallenge = [] then
    some (refusal "invalid_client" (utf8 "client_secret is invalid for application: [" ++
      getId a.owner a.name ++ utf8 "], token.CodeChallenge: empty"))
  else if a.clientSecret ≠ q.clientSecret ∧ q.clientSecret ≠ [] then
    some (refusal "invalid_client" (utf8 "client_secret is invalid for application: [" ++
      getId a.owner a.name ++ utf8 "], token.CodeChallenge: [" ++ token.codeChallenge ++ utf8 "]"))
  else if a.name ≠ token.application then
    some (refusal "invalid_grant" (utf8 "the token is for wrong application (client_id), " ++
      utf8 "application.Name: [" ++ a.name ++ utf8 "], token.Application: [" ++ token.application ++
      utf8 "]"))
  else if q.resource ≠ token.resource then
    some (refusal "invalid_grant" (utf8 "resource parameter does not match authorization request, " ++
      utf8 "expected: [" ++ token.resource ++ utf8 "], got: [" ++ q.resource ++ utf8 "]"))
  else if token.codeExpireIn < w.nowUnix then
    some (refusal "invalid_grant" (utf8 "authorization code has expired, nowUnix: [" ++
      w.formatUnix w.nowUnix ++ utf8 "], token.CodeExpireIn: [" ++ w.formatUnix token.codeExpireIn ++
      utf8 "]"))
  else none

/-- The application of a call, and the request as it goes on with it. -/
def authenticate (w : Surroundings) (t : Tables) (q : OAuthRequest) :
    Except Failure (OAuthRequest × Application) :=
  if q.clientAssertionType = utf8 "urn:ietf:params:oauth:client-assertion-type:jwt-bearer" then
    match w.assertionSubject q.clientAssertion with
    | .error text => .error (.failed text)
    | .ok clientId =>
      match getApplicationByClientId t clientId with
      | none => .error (.failed (utf8 "application not found for client: [" ++ clientId ++ utf8 "]"))
      | some a =>
        match w.validateJwtAssertion q.clientAssertion a q.host with
        | .error text => .error (.failed text)
        | .ok false => .error (refusal "invalid_client" (utf8 "client_assertion is invalid"))
        | .ok true => .ok ({ q with clientId := a.clientId, clientSecret := a.clientSecret }, a)
  else
    match getApplicationByClientId t q.clientId with
    | none => .error (refusal "invalid_client" (utf8 "client_id is invalid"))
    | some a => .ok (q, a)

/-- The cases of `GetOAuthToken` over the grant type. -/
def dispatch (q : OAuthRequest) (a : Application) : OAuthPc :=
  if !isGrantTypeValid q.grantType a.grantTypes then
    .denied q (refusal "unsupported_grant_type"
      (utf8 "grant_type: " ++ q.grantType ++ utf8 " is not supported in this application"))
  else if q.grantType = authorizationCode then
    if q.code = [] then
      .denied q (refusal "invalid_request" (utf8 "authorization code should not be empty"))
    else if q.code = guestUser then
      match guestRefusal a with
      | some err => .denied q err
      | none => .addGranted q a
    else .getTokenByCode q a
  else if q.grantType = refreshGrant then
    if q.clientSecret ≠ [] ∧ a.clientSecret ≠ q.clientSecret then
      .denied q (refusal "invalid_client" (utf8 "client_secret is invalid"))
    else .getTokenByRefreshToken q a
  else if q.grantType ∈ otherGrantTypes then .addGranted q a
  -- without a case there is no token, and the binding or the mark below dereferences nil
  else .denied q (.failed (utf8 "invalid memory address or nil pointer dereference"))

/-- The DPoP binding of a token that a grant has come to, ahead of the mark on its code. -/
def bindGranted (w : Surroundings) (q : OAuthRequest) (token : Token) : OAuthPc :=
  if q.dpopProof = [] then .updateUsedByCode q token
  else match w.validateDPoPProof q.dpopProof (tokenEndpoint w.toWorld q.host) with
    | .error text => .denied q (refusal "invalid_dpop_proof" text)
    | .ok jkt => .updateTokenDPoP q { token with tokenType := utf8 "DPoP", dpopJkt := jkt }

/-- The same for the token that a refresh has inserted, ahead of the deletion. -/
def bindNew (w : Surroundings) (q : OAuthRequest) (token new : Token) : OAuthPc :=
  if q.dpopProof = [] then .deleteToken q token new
  else match w.validateDPoPProof q.dpopProof (tokenEndpoint w.toWorld q.host) with
    | .error text => .denied q (refusal "invalid_dpop_proof" text)
    | .ok jkt => .bindRefreshed q token { new with tokenType := utf8 "DPoP", dpopJkt := jkt }

/-- The row that a refresh inserts, or what it is refused with, once its user is read. -/
def refreshedToken (w : Surroundings) (q : OAuthRequest) (a : Application) (user : TokenUser)
    (scope : GoString) : Except Failure Token :=
  if user.isForbidden then .error forbiddenUser
  else match w.extendUser user with
    | .error text => .error (.failed text)
    | .ok () =>
      match w.generateJwtToken a user scope q.host with
      | .error text =>
        .error (refusal "endpoint_error" (utf8 "generate jwt token error: " ++ text))
      | .ok minted => .ok (mintedToken w.toWorld a user minted scope false)

/-- `updateUsedByCode`. -/
def Tables.markUsed (t : Tables) (code : GoString) : Tables := { t with
  tokens := t.tokens.map fun u => if u.code = code then { u with codeIsUsed := true } else u }

/-- An insertion that the primary key may refuse. -/
def Tables.insertToken (t : Tables) (token : Token) : Option Tables :=
  if ∃ u ∈ t.tokens, u.key = token.key then none
  else some { t with tokens := t.tokens ++ [token.popularHashes] }

def duplicateEntry : Failure := .failed (utf8 "Duplicate entry")

section Reads

variable (w : Surroundings) (t : Tables) (q : OAuthRequest) (a : Application)

def afterApplication : OAuthPc :=
  match authenticate w t q with
  | .error err => .denied q err
  | .ok (q, a) => dispatch q a

def afterCode : OAuthPc :=
  match t.tokens.find? (·.code = q.code) with
  | none => .denied q (refusal "invalid_grant"
      (utf8 "authorization code: [" ++ q.code ++ utf8 "] is invalid"))
  | some token =>
    match codeRefusal w q a token with
    | some err => .denied q err
    | none => bindGranted w q token

def afterRefreshToken : OAuthPc :=
  match getTokenByRefreshToken t q.refreshToken with
  | none => .denied q (refusal "invalid_grant" (utf8 "refresh token is invalid or revoked"))
  | some token =>
    if token.expiresIn ≤ 0 then
      .denied q (refusal "invalid_grant" (utf8 "refresh token is expired"))
    else .getCertByApplication q a token

def afterCert (token : Token) : OAuthPc :=
  match getCertByApplication t a with
  | none => .denied q (refusal "invalid_grant" (utf8 "cert: " ++ a.cert ++ utf8 " cannot be found"))
  | some cert =>
    match parseByFormat w.toWorld a q.refreshToken cert with
    | .error text =>
      .denied q (refusal "invalid_grant" (utf8 "parse refresh token error: " ++ text))
    | .ok old => .getUser q a token (if q.scope = [] then old.scope else q.scope)

def afterUser (token : Token) (scope : GoString) : OAuthPc :=
  match getUser t a.organization token.user with
  | none => .denied q (.failed (utf8 "The user: " ++ getId a.organization token.user ++
      utf8 " doesn't exist"))
  | some user =>
    match refreshedToken w q a user scope with
    | .error err => .denied q err
    | .ok new => .addToken q token new

end Reads

def oauthProgram : Program Tables OAuthRequest OAuthPc Surroundings where
  entry := .getApplicationByClientId
  next
    | .getApplicationByClientId q, w, t => some (afterApplication w t q, t)
    | .getTokenByCode q a, w, t => some (afterCode w t q a, t)
    | .addGranted q a, w, t =>
      match w.otherGrant q a with
      | .error err => some (.denied q err, t)
      | .ok token =>
        match t.insertToken { token with codeIsUsed := true } with
        | none => some (.denied q duplicateEntry, t)
        | some t' => some (bindGranted w q { token with codeIsUsed := true }, t')
    | .updateTokenDPoP q token, _, t => some (.updateUsedByCode q token, t.bindToken token)
    | .updateUsedByCode q token, _, t => some (.granted q token.wrap, t.markUsed token.code)
    | .getTokenByRefreshToken q a, _, t => some (afterRefreshToken t q a, t)
    | .getCertByApplication q a token, w, t => some (afterCert w t q a token, t)
    | .getUser q a token scope, w, t => some (afterUser w t q a token scope, t)
    | .addToken q token new, w, t =>
      match t.insertToken new with
      | none => some (.denied q duplicateEntry, t)
      | some t' => some (bindNew w q token new, t')
    | .bindRefreshed q token new, _, t => some (.deleteToken q token new, t.bindToken new)
    | .deleteToken q token new, _, t => some (.granted q new.wrap, t.dropToken token)
    | .granted _ _, _, _ => none
    | .denied _ _, _, _ => none

abbrev TokenSite := Site Tables OAuthPc

abbrev OAuthEvent := Event OAuthRequest Surroundings

section Alone

/-- The refresh that a request of `GetOAuthToken` comes to. -/
def OAuthRequest.refresh (q : OAuthRequest) (a : Application) : RefreshRequest :=
  ⟨some a, q.grantType, q.refreshToken, q.scope, q.clientId, q.clientSecret, q.host, q.dpopProof⟩

theorem refresh_refreshToken {q : OAuthRequest} {a : Application} :
    (q.refresh a).refreshToken = q.refreshToken := rfl

theorem refresh_host {q : OAuthRequest} {a : Application} : (q.refresh a).host = q.host := rfl

/-- A call that goes on alone, for at most `n` statements. -/
def alone (w : Surroundings) : ℕ → OAuthPc × Tables → OAuthPc × Tables
  | 0, x => x
  | n+1, x =>
    match oauthProgram.next x.1 w x.2 with
    | none => x
    | some y => alone w n y

/-- Where a call ends with this outcome. -/
def settled (q : OAuthRequest) (r : Except Failure TokenWrapper × Tables) : OAuthPc × Tables :=
  match r with
  | (.ok wrapper, t) => (.granted q wrapper, t)
  | (.error err, t) => (.denied q err, t)

theorem dispatch_refresh {q : OAuthRequest} {a : Application} (hgrant : q.grantType = refreshGrant)
    (hvalid : refreshGrant ∈ a.grantTypes) : dispatch q a =
      if q.clientSecret ≠ [] ∧ a.clientSecret ≠ q.clientSecret then
        .denied q (refusal "invalid_client" (utf8 "client_secret is invalid"))
      else .getTokenByRefreshToken q a := by
  have hne : refreshGrant ≠ authorizationCode := by decide
  simp [dispatch, isGrantTypeValid, hgrant, hvalid, hne]

variable {w : Surroundings} {t : Tables} {q : OAuthRequest} {a : Application}

theorem alone_denied {n : ℕ} {err : Failure} : alone w n (.denied q err, t) = (.denied q err, t) := by
  cases n with
  | zero => rfl
  | succ n => rfl

theorem call_addToken_bind {β : Type} {token : Token} {f : Unit → Granting β} :
    (addToken token >>= f).call t =
      match t.insertToken token with
      | none => (.error duplicateEntry, t)
      | some t' => (f ()).call t' := by
  rw [addToken, bind_assoc, call_get_bind, bind_assoc, call_refuseIf_bind, Tables.insertToken]
  split_ifs
  · rfl
  · rfl

theorem alone_bindNew {token new : Token} : alone w 2 (bindNew w q token new, t) =
    settled q ((do
      let new ← bindDPoP w.toWorld q.host q.dpopProof new
      deleteToken token
      pure new.wrap).call t) := by
  unfold bindNew bindDPoP
  split_ifs with hproof
  · rfl
  · rcases w.validateDPoPProof q.dpopProof (tokenEndpoint w.toWorld q.host) with text | jkt
    · rfl
    · rfl

/-- A refresh whose statements run with nothing in between is a call of `refreshToken`. -/
theorem alone_refresh (hgrant : q.grantType = refreshGrant) (hvalid : refreshGrant ∈ a.grantTypes) :
    alone w 6 (dispatch q a, t) = settled q ((refreshToken w.toWorld (q.refresh a)).call t) := by
  have hg : ¬(q.refresh a).grantType ≠ utf8 "refresh_token" := not_not.mpr hgrant
  have hclient : (q.refresh a).client t = some a := rfl
  rw [dispatch_refresh hgrant hvalid, refreshToken, call_refuseIf_bind, if_neg hg, call_get_bind,
    call_required_bind, hclient]
  change _ = settled q (Method.call (refuseIf _ _ >>= _) t)
  rw [call_refuseIf_bind]
  change alone w 6 (if q.clientSecret ≠ [] ∧ a.clientSecret ≠ q.clientSecret then _ else _, t) =
    settled q (if q.clientSecret ≠ [] ∧ a.clientSecret ≠ q.clientSecret then _ else _)
  by_cases hsecret : q.clientSecret ≠ [] ∧ a.clientSecret ≠ q.clientSecret
  · rw [if_pos hsecret, if_pos hsecret, alone_denied]
    rfl
  rw [if_neg hsecret, if_neg hsecret, call_required_bind]
  -- each read is a statement of its own, and what it finds decides where the call goes on
  change alone w 5 (afterRefreshToken t q a, t) = _
  rw [afterRefreshToken, refresh_refreshToken]
  rcases getTokenByRefreshToken t q.refreshToken with _ | token
  · rw [alone_denied]
    rfl
  change alone w 5 (if token.expiresIn ≤ 0 then _ else _, t) =
    settled q (Method.call (refuseIf _ _ >>= _) t)
  rw [call_refuseIf_bind]
  by_cases hexpired : token.expiresIn ≤ 0
  · rw [if_pos hexpired, if_pos hexpired, alone_denied]
    rfl
  rw [if_neg hexpired, if_neg hexpired, call_required_bind]
  change alone w 4 (afterCert w t q a token, t) = _
  rw [afterCert]
  rcases getCertByApplication t a with _ | cert
  · rw [alone_denied]
    rfl
  change alone w 4 (match parseByFormat w.toWorld a q.refreshToken cert with
    | .error text => _
    | .ok old => _, t) = settled q (Method.call (checked _ _ >>= _) t)
  rw [call_checked_bind]
  rcases parseByFormat w.toWorld a q.refreshToken cert with text | old
  · rw [alone_denied]
    rfl
  change _ = settled q (Method.call (required _ _ >>= _) t)
  rw [call_required_bind]
  change alone w 3 (afterUser w t q a token
    (if (q.refresh a).scope = [] then old.scope else (q.refresh a).scope), t) = _
  rw [afterUser]
  rcases getUser t a.organization token.user with _ | user
  · rw [alone_denied]
    rfl
  change alone w 3 (match refreshedToken w q a user _ with
    | .error err => _
    | .ok new => _, t) = settled q (Method.call (refuseIf _ _ >>= _) t)
  rw [call_refuseIf_bind, refreshedToken]
  by_cases hforbidden : user.isForbidden = true
  · rw [if_pos hforbidden, if_pos hforbidden, alone_denied]
    rfl
  rw [if_neg hforbidden, if_neg hforbidden, call_checked_bind]
  rcases w.extendUser user with text | _
  · rw [alone_denied]
    rfl
  change _ = settled q (Method.call (checked _ _ >>= _) t)
  rw [call_checked_bind]
  simp only [refresh_host]
  generalize (if (q.refresh a).scope = [] then old.scope else (q.refresh a).scope) = scope
  rcases w.generateJwtToken a user scope q.host with text | minted
  · rw [alone_denied]
    rfl
  -- the checks between the reads are passed, and what is left writes
  change alone w 3 (.addToken q token (mintedToken w.toWorld a user minted scope false), t) =
    settled q (Method.call (addToken _ >>= _) t)
  rw [call_addToken_bind]
  generalize mintedToken w.toWorld a user minted scope false = new
  rw [alone]
  rcases hinsert : t.insertToken new with _ | t'
  · simp only [oauthProgram, hinsert]
    rfl
  · simp only [oauthProgram, hinsert]
    exact alone_bindNew

end Alone

end ArchGuard.Object
