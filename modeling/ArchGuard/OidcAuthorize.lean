import ArchGuard.OidcClaims
import ArchGuard.TenancyStore

/-! The client registry and the authorization endpoint, up to the code it issues. -/
namespace ArchGuard.Oidc
open ReadCommitted
open Tenancy (AuthSession getSession)

inductive OAuthFlow
  | authorizationCode | deviceCode
  deriving DecidableEq, Repr

def OAuthFlow.text : OAuthFlow → String
  | .authorizationCode => "authorization_code"
  | .deviceCode => "device_code"

structure OIDCClient extends Client where
  clientID : String
  allowedFlows : List OAuthFlow
  redirectURIs : List String

def unknownClient : String := "oidc: cliente não registrado"

/-- The registered clients: each with an id of its own, an audience and a flow. -/
structure ClientRegistry where
  clients : List OIDCClient
  nodup : (clients.map (·.clientID)).Nodup
  complete : ∀ c ∈ clients, c.clientID ≠ "" ∧ c.audience ≠ "" ∧ c.allowedFlows ≠ []

def ClientRegistry.lookup (r : ClientRegistry) (clientID : String) : Except OidcError OIDCClient :=
  match r.clients.find? fun c => c.clientID = clientID with
  | some c => .ok c
  | none => .error (.other (unknownClient ++ ": " ++ quoted clientID))

def ClientRegistry.empty : ClientRegistry := ⟨[], List.nodup_nil, by simp⟩

theorem ClientRegistry.nodup_register {r : ClientRegistry} {c : OIDCClient}
    (h : ¬(r.clients.find? fun c' => c'.clientID = c.clientID).isSome) :
    ((r.clients ++ [c]).map (·.clientID)).Nodup := by
  rw [Option.not_isSome_iff_eq_none, List.find?_eq_none] at h
  rw [List.map_append, List.nodup_append]
  refine ⟨r.nodup, List.nodup_singleton _, ?_⟩
  intro id hid id' hid'
  obtain ⟨c', hc', rfl⟩ := List.mem_map.mp hid
  obtain rfl : id' = c.clientID := by simpa using hid'
  simpa using h c' hc'

theorem ClientRegistry.complete_register {r : ClientRegistry} {c : OIDCClient}
    (hid : ¬(c.clientID = "" ∨ c.audience = "")) (hf : c.allowedFlows ≠ []) :
    ∀ c' ∈ r.clients ++ [c], c'.clientID ≠ "" ∧ c'.audience ≠ "" ∧ c'.allowedFlows ≠ [] := by
  intro c' hc'
  rcases List.mem_append.mp hc' with hc' | hc'
  · exact r.complete c' hc'
  · obtain rfl := List.mem_singleton.mp hc'
    exact ⟨fun h => hid (Or.inl h), fun h => hid (Or.inr h), hf⟩

def ClientRegistry.register (r : ClientRegistry) (c : OIDCClient) :
    Except OidcError ClientRegistry :=
  if hid : c.clientID = "" ∨ c.audience = "" then
    .error (.other (unknownClient ++ ": client_id/audience obrigatórios"))
  else if hf : c.allowedFlows = [] then
    .error (.other (unknownClient ++ ": cliente " ++ quoted c.clientID ++ " sem fluxo permitido"))
  else if hdup : (r.clients.find? fun c' => c'.clientID = c.clientID).isSome then
    .error (.other ("oidc: cliente " ++ quoted c.clientID ++ " já registrado"))
  else .ok ⟨r.clients ++ [c], nodup_register hdup, complete_register hid hf⟩

def ClientRegistry.authorizeClientFlow (r : ClientRegistry) (clientID : String) (flow : OAuthFlow) :
    Except OidcError OIDCClient :=
  match r.lookup clientID with
  | .error err => .error err
  | .ok c =>
    if !c.allowedFlows.any (· = flow) then .error (.other
      ("oidc: fluxo não permitido para este cliente: " ++ quoted clientID ++ " não permite " ++ flow.text))
    else .ok c

def validateResponseType (responseType : String) : Except OidcError Unit :=
  if responseType ≠ "code" then .error (.other ("oidc: fluxo de autorização não suportado: " ++
    "response_type " ++ quoted responseType ++ " (apenas 'code')"))
  else .ok ()

def validatePKCE (codeChallenge method : String) : Except OidcError Unit :=
  if codeChallenge = "" then .error (.other
    "oidc: PKCE (S256) é obrigatório no Authorization Code: code_challenge ausente")
  else if method ≠ "S256" then .error (.other ("oidc: PKCE (S256) é obrigatório no " ++
    "Authorization Code: método " ++ quoted method ++ " (apenas S256)"))
  else .ok ()

def validateAuthorizationCodeRequest (responseType codeChallenge method : String) :
    Except OidcError Unit :=
  match validateResponseType responseType with
  | .error err => .error err
  | .ok () => validatePKCE codeChallenge method

def authCodeMaxTTL : Duration := 60*10^9

/-- The secret of a new code and its id. -/
structure CodeDraw where
  secret : String
  id : Uuid
  deriving DecidableEq

def newAuthorizationCode (clientID redirectURI codeChallenge : String) (sessionId org : Uuid)
    (scopes : List String) (ttl : Duration) (now : Time) (draw : CodeDraw) :
    Except OidcError AuthorizationCode :=
  if clientID = "" ∨ redirectURI = "" ∨ codeChallenge = "" then
    .error (.other "authcode: dados obrigatórios ausentes: client/redirect/challenge")
  else if sessionId = Uuid.nil ∨ org = Uuid.nil then
    .error (.other "authcode: dados obrigatórios ausentes: sessão/organização")
  else .ok ⟨draw.id, hashAuthCode draw.secret, clientID, redirectURI, codeChallenge, sessionId, org,
    scopes, now+(if ttl ≤ 0 ∨ authCodeMaxTTL < ttl then authCodeMaxTTL else ttl), false⟩

/-- The row of a code: `expires_at` keeps microseconds. -/
def AuthorizationCode.stored (c : AuthorizationCode) : AuthorizationCode :=
  { c with expiresAt := c.expiresAt.stored }

theorem AuthorizationCode.stored_id (c : AuthorizationCode) : c.stored.id = c.id := rfl

/-- `AuthorizationCodeStore.Create`: the id and the hash are unique. -/
def createCode (db : Db) (org : Uuid) (c : AuthorizationCode) : Except OidcError Db :=
  if c.organizationId ≠ org then .error (.crossTenantGrant c.organizationId org)
  else if (db.row (.code c.id)).isSome ∨ (codeByHash db c.codeHash).isSome then
    .error (.other "postgres: criação de código de autorização falhou")
  else .ok (db.set (.code c.id) (some ⟨c.stored, c.stored_id⟩))

def issueCode (codeTTL : Duration) (db : Db) (clientID redirectURI codeChallenge : String)
    (s : AuthSession) (scopes : List String) (now : Time) (draw : CodeDraw) :
    Except OidcError (String × Db) :=
  match s.activeTenant with
  | .error err => .error (.other err.text)
  | .ok (_, org) => do
    let code ← newAuthorizationCode clientID redirectURI codeChallenge s.id org scopes codeTTL now draw
    let db' ← createCode db org code
    return (draw.secret, db')

/-- What `/authorize` reads of a request: its parameters, the scope split into fields, and
the identity and session that the login bound to the caller. -/
structure AuthorizeReq where
  clientID : String
  redirectURI : String
  responseType : String
  codeChallenge : String
  codeChallengeMethod : String
  scopes : List String
  bound : Option (Uuid × Uuid)

inductive AuthorizeAnswer
  | badRequest (text : String)
  | redirectError (code description : String)
  | redirectSuccess (secret : String)
  deriving DecidableEq, Repr

/-- `BridgingResolver.Session`: the bound session of the identity, while it is active. -/
def resolveBound (tenancy : Tenancy.Db) (bound : Option (Uuid × Uuid)) : Option AuthSession :=
  match bound with
  | none => none
  | some (identityId, sessionId) =>
    if identityId = Uuid.nil then none
    else (getSession tenancy identityId sessionId).filter fun s => s.status = .active

def authorize (registry : ClientRegistry) (codeTTL : Duration) (tenancy : Tenancy.Db) (db : Db)
    (q : AuthorizeReq) (now : Time) (draw : CodeDraw) : AuthorizeAnswer × Db :=
  match registry.authorizeClientFlow q.clientID .authorizationCode with
  | .error _ => (.badRequest "client_id inválido", db)
  | .ok client =>
    if !client.redirectURIs.any (· = q.redirectURI) then
      (.badRequest "redirect_uri não registrado", db)
    else match validateAuthorizationCodeRequest q.responseType q.codeChallenge
        q.codeChallengeMethod with
      | .error err => (.redirectError "invalid_request" err.text, db)
      | .ok () =>
        match resolveBound tenancy q.bound with
        | none => (.redirectError "login_required" "autenticação necessária", db)
        | some s =>
          match issueCode codeTTL db q.clientID q.redirectURI q.codeChallenge s
              (minimalScope q.scopes client.allowedScopes) now draw with
          | .error _ => (.redirectError "server_error" "não foi possível emitir o código", db)
          | .ok (secret, db') => (.redirectSuccess secret, db')

section Spec

variable {db : Db}

theorem createCode_eq_ok {db' : Db} {org : Uuid} {c : AuthorizationCode}
    (h : createCode db org c = .ok db') : db.row (.code c.id) = none ∧
      codeByHash db c.codeHash = none ∧
      db' = db.set (.code c.id) (some ⟨c.stored, c.stored_id⟩) := by
  unfold createCode at h
  rw [ite_error_eq_ok, ite_error_eq_ok, not_or, Option.not_isSome_iff_eq_none,
    Option.not_isSome_iff_eq_none] at h
  exact ⟨h.2.1.1, h.2.1.2, (Except.ok.inj h.2.2).symm⟩

theorem issueCode_eq_ok {codeTTL : Duration} {clientID redirectURI codeChallenge : String}
    {s : AuthSession} {scopes : List String} {now : Time} {draw : CodeDraw} {secret : String}
    {db' : Db}
    (h : issueCode codeTTL db clientID redirectURI codeChallenge s scopes now draw =
      .ok (secret, db')) :
    secret = draw.secret ∧ ∃ code : AuthorizationCode, code.codeHash = hashAuthCode draw.secret ∧
      code.clientId = clientID ∧ code.scopes = scopes ∧ db.row (.code code.id) = none ∧
      codeByHash db code.codeHash = none ∧
      db' = db.set (.code code.id) (some ⟨code.stored, code.stored_id⟩) := by
  unfold issueCode at h
  split at h
  · cases h
  obtain ⟨code, hcode, h⟩ := bind_eq_ok.mp h
  obtain ⟨db₁, hcreate, h⟩ := bind_eq_ok.mp h
  obtain ⟨rfl, rfl⟩ := Prod.mk.inj (Except.ok.inj h)
  unfold newAuthorizationCode at hcode
  rw [ite_error_eq_ok, ite_error_eq_ok] at hcode
  obtain rfl := Except.ok.inj hcode.2.2
  exact ⟨rfl, _, rfl, rfl, rfl, createCode_eq_ok hcreate⟩

theorem authorize_cases (registry : ClientRegistry) (codeTTL : Duration) (tenancy : Tenancy.Db)
    (db : Db) (q : AuthorizeReq) (now : Time) (draw : CodeDraw) :
    (∃ (client : OIDCClient) (code : AuthorizationCode),
      registry.lookup q.clientID = .ok client ∧ code.codeHash = hashAuthCode draw.secret ∧
      code.clientId = q.clientID ∧ code.scopes = minimalScope q.scopes client.allowedScopes ∧
      db.row (.code code.id) = none ∧ codeByHash db code.codeHash = none ∧
      authorize registry codeTTL tenancy db q now draw = (.redirectSuccess draw.secret,
        db.set (.code code.id) (some ⟨code.stored, code.stored_id⟩))) ∨
      ((authorize registry codeTTL tenancy db q now draw).2 = db ∧
        ∀ secret, (authorize registry codeTTL tenancy db q now draw).1 ≠ .redirectSuccess secret) := by
  unfold authorize
  cases hflow : registry.authorizeClientFlow q.clientID .authorizationCode with
  | error e => exact Or.inr ⟨rfl, by simp⟩
  | ok client =>
    have hlookup : registry.lookup q.clientID = .ok client := by
      unfold ClientRegistry.authorizeClientFlow at hflow
      split at hflow
      · cases hflow
      · rename_i c hc
        rw [ite_error_eq_ok] at hflow
        obtain rfl := Except.ok.inj hflow.2
        exact hc
    dsimp only
    split_ifs
    · exact Or.inr ⟨rfl, by simp⟩
    cases validateAuthorizationCodeRequest q.responseType q.codeChallenge q.codeChallengeMethod with
    | error e => exact Or.inr ⟨rfl, by simp⟩
    | ok u =>
      dsimp only
      cases resolveBound tenancy q.bound with
      | none => exact Or.inr ⟨rfl, by simp⟩
      | some s =>
        dsimp only
        cases hissue : issueCode codeTTL db q.clientID q.redirectURI q.codeChallenge s
            (minimalScope q.scopes client.allowedScopes) now draw with
        | error e => exact Or.inr ⟨rfl, by simp⟩
        | ok p =>
          obtain ⟨secret, db'⟩ := p
          obtain ⟨rfl, code, hhash, hclient, hscopes, hrow, hnone, rfl⟩ := issueCode_eq_ok hissue
          exact Or.inl ⟨client, code, hlookup, hhash, hclient, hscopes, hrow, hnone, rfl⟩

end Spec

end ArchGuard.Oidc
