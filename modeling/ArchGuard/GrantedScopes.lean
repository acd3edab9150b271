import ArchGuard.OidcSite
import ArchGuard.TokenGrants

/-! What the tokens of one authorization carry: from the request at `/authorize` through the
redemption of its code and every refresh after it. -/
namespace ArchGuard.Oidc
open ReadCommitted TransitionRun

inductive GrantKind
  | authorizationCode | refreshToken
  deriving DecidableEq, Repr

/-- An access token with its claims, and the scopes it was issued with. -/
structure IssuedToken where
  grant : GrantKind
  token : String
  claims : OIDCClaims
  scopes : List String
  deriving DecidableEq, Repr

/-- What `IssueAccessToken` returns to a grant, as the token it issued. -/
def issuedToken (grant : GrantKind) (scopes : List String) :
    Except OidcError (String × OIDCClaims) → Option IssuedToken
  | .error _ => none
  | .ok (token, claims) => some ⟨grant, token, claims, scopes⟩

def redemptionToken (cfg : Config) (s : Site) (codeSecret redirectURI codeVerifier : String)
    (now : Time) (draw : Draw) : Option IssuedToken :=
  match (cfg.authCode.exchange (cfg.deps s.tenancy) s.oidc codeSecret redirectURI codeVerifier now
      draw).1 with
  | .error _ => none
  | .ok _ =>
    (codeByHash s.oidc (hashAuthCode codeSecret)).bind fun code =>
      match cfg.registry.lookup code.clientId with
      | .error _ => none
      | .ok client => issuedToken .authorizationCode client.allowedScopes
          (cfg.issuer.issueAccessToken s.tenancy code.organizationId code.sessionId client.audience
            client.allowedScopes "" now)

def refreshedToken (cfg : Config) (s : Site) (presentedSecret : String) (now : Time) (draw : Draw) :
    Option IssuedToken :=
  match (cfg.refresh.refresh (cfg.deps s.tenancy) s.oidc presentedSecret now draw).1 with
  | .error _ => none
  | .ok _ =>
    (tokenByHash s.oidc (hashRefreshToken presentedSecret)).bind fun tok =>
      issuedToken .refreshToken cfg.refresh.scopes (cfg.issuer.issueAccessToken s.tenancy
        tok.organizationId tok.sessionId cfg.refresh.audience cfg.refresh.scopes "" now)

section Answers

variable {cfg : Config} {s : Site} {now : Time} {draw : Draw}

end Answers

/-- A refresh of the chain, after other calls. -/
structure Hop where
  before : List SiteOp
  now : Time
  draw : Draw

/-- One authorization: its request, the redemption of its code and the refreshes after it,
with any other calls in between. -/
structure GrantChain where
  request : AuthorizeReq
  askedAt : Time
  codeDraw : CodeDraw
  before : List SiteOp
  redirectURI : String
  codeVerifier : String
  redeemedAt : Time
  draw : Draw
  hops : List Hop

/-- The tokens of the refreshes, each with the secret of the last answer; a refresh that fails
may be tried again. -/
def refreshTokens (cfg : Config) : Site → String → List Hop → List IssuedToken
  | _, _, [] => []
  | s, secret, h :: hops =>
    match run (serve cfg) s h.before with
    | none => []
    | some s₁ =>
      let s₂ := s₁.after cfg (.refresh secret h.now h.draw)
      match refreshedToken cfg s₁ secret h.now h.draw with
      | none => refreshTokens cfg s₂ secret hops
      | some t => t :: refreshTokens cfg s₂ h.draw.secret hops

def GrantChain.tokens (c : GrantChain) (cfg : Config) (s : Site) : List IssuedToken :=
  match (authorize cfg.registry cfg.codeTTL s.tenancy s.oidc c.request c.askedAt c.codeDraw).1 with
  | .redirectSuccess secret =>
    match run (serve cfg) (s.after cfg (.authorize c.request c.askedAt c.codeDraw)) c.before with
    | none => []
    | some s₁ =>
      match redemptionToken cfg s₁ secret c.redirectURI c.codeVerifier c.redeemedAt c.draw with
      | none => []
      | some t => t :: refreshTokens cfg
          (s₁.after cfg (.exchange secret c.redirectURI c.codeVerifier c.redeemedAt c.draw))
          c.draw.secret c.hops
  | _ => []

/-- The token is for the client, and has no scope beyond those granted to the request. -/
def IssuedToken.Contained (t : IssuedToken) (client : OIDCClient) (requested : List String) : Prop :=
  (∀ scope ∈ t.scopes, scope ∈ minimalScope requested client.allowedScopes) ∧
    t.claims.aud = client.audience

/-- What makes the tokens of a grant contained: a redemption takes every scope the client is
allowed; a refresh takes the audience and the scopes the grant was built with. -/
def Fits (cfg : Config) (client : OIDCClient) (requested : List String) : GrantKind → Prop
  | .authorizationCode => ∀ scope ∈ client.allowedScopes, scope ∈ requested
  | .refreshToken => cfg.refresh.audience = client.audience ∧
      ∀ scope ∈ cfg.refresh.scopes, scope ∈ minimalScope requested client.allowedScopes

section Tokens

variable {cfg : Config} {s : Site} {client : OIDCClient} {requested : List String}

theorem issuedToken_eq_some {i : TokenIssuer} {db : Tenancy.Db} {org sessionId : Uuid}
    {audience : String} {scopes : List String} {now : Time} {grant : GrantKind} {t : IssuedToken}
    (h : issuedToken grant scopes (i.issueAccessToken db org sessionId audience scopes "" now) =
      some t) : t.grant = grant ∧ t.scopes = scopes ∧ t.claims.aud = audience := by
  unfold issuedToken at h
  split at h
  · cases h
  · rename_i token claims hi
    obtain rfl := Option.some.inj h
    obtain ⟨r, idn, membershipId, -, -, -, rfl, -⟩ := issueAccessToken_eq_ok.mp hi
    exact ⟨rfl, rfl, rfl⟩

theorem refreshedToken_contained {presentedSecret : String} {now : Time} {draw : Draw}
    {t : IssuedToken} (h : refreshedToken cfg s presentedSecret now draw = some t) :
    t.Contained client requested ↔ Fits cfg client requested t.grant := by
  unfold refreshedToken at h
  split at h
  · cases h
  obtain ⟨tok, -, ht⟩ := Option.bind_eq_some_iff.mp h
  obtain ⟨hg, hs, ha⟩ := issuedToken_eq_some ht
  rw [IssuedToken.Contained, hg, hs, ha, Fits, and_comm]

theorem refreshTokens_contained (secret : String) (hops : List Hop) :
    ∀ t ∈ refreshTokens cfg s secret hops,
      (t.Contained client requested ↔ Fits cfg client requested t.grant) := by
  induction hops generalizing s secret with
  | nil =>
    intro t ht
    cases ht
  | cons h hops ih =>
    intro t ht
    unfold refreshTokens at ht
    split at ht
    · cases ht
    dsimp only at ht
    split at ht
    · exact ih _ t ht
    · rename_i t' ht'
      rcases List.mem_cons.mp ht with rfl | ht
      · exact refreshedToken_contained ht'
      · exact ih _ t ht

end Tokens

/-- The code under the hash is there, and is the client's. -/
def CodeFor (hash : Bytes) (clientID : String) (db : Db) : Prop :=
  (∃ c ∈ codes db, c.codeHash = hash) ∧ ∀ c ∈ codes db, c.codeHash = hash → c.clientId = clientID

section Codes

variable {db : Db} {c : AuthorizationCode} {hash : Bytes} {clientID : String}

theorem mem_codes_set_token {id : Uuid} {v : Option (Row (.token id))} :
    c ∈ codes (db.set (.token id) v) ↔ c ∈ codes db := by
  rw [mem_codes, mem_codes, Store.set_row_of_ne _ _ _ _ (by simp)]

theorem mem_codes_set_code {id : Uuid} {v : Row (.code id)} :
    c ∈ codes (db.set (.code id) (some v)) ↔ c = v.1 ∨ (c.id ≠ id ∧ c ∈ codes db) := by
  rw [mem_codes_iff_val, mem_codes_iff_val]
  by_cases hid : c.id = id
  · rw [hid, Store.set_row_self, Option.map_some, Option.some.injEq]
    simp [eq_comm]
  · rw [Store.set_row_of_ne _ _ _ _ (by simpa using hid)]
    have hne : c ≠ v.1 := fun h => hid (h ▸ v.2)
    simp [hid, hne]

theorem CodeFor.congr {db' : Db} (h : CodeFor hash clientID db)
    (hc : ∀ c, c ∈ codes db' ↔ c ∈ codes db) : CodeFor hash clientID db' := by
  obtain ⟨⟨c, hmem, hh⟩, hall⟩ := h
  exact ⟨⟨c, (hc c).mpr hmem, hh⟩, fun c' hc' => hall c' ((hc c').mp hc')⟩

theorem CodeFor.insert {code : AuthorizationCode} (h : CodeFor hash clientID db)
    (hrow : db.row (.code code.id) = none) (hnone : codeByHash db code.codeHash = none) :
    CodeFor hash clientID (db.set (.code code.id) (some ⟨code.stored, code.stored_id⟩)) := by
  obtain ⟨⟨c, hmem, hh⟩, hall⟩ := h
  have hother (c' : AuthorizationCode) (hc' : c' ∈ codes db) : c'.codeHash ≠ code.codeHash := by
    have hn := List.find?_eq_none.mp hnone c' hc'
    simpa using hn
  refine ⟨⟨c, mem_codes_set_code.mpr (Or.inr ⟨?_, hmem⟩), hh⟩, ?_⟩
  · intro heq
    rw [mem_codes_iff_val, heq, hrow] at hmem
    cases hmem
  · intro c' hc' hh'
    rcases mem_codes_set_code.mp hc' with rfl | ⟨-, hc'⟩
    · exact absurd (hh.trans hh'.symm) (hother c hmem)
    · exact hall c' hc' hh'

theorem CodeFor.marked {code : AuthorizationCode} (h : CodeFor hash clientID db)
    (hrow : db.row (.code code.id) = some ⟨code, rfl⟩) :
    CodeFor hash clientID (db.set (.code code.id) (some ⟨{ code with used := true }, rfl⟩)) := by
  obtain ⟨⟨c, hmem, hh⟩, hall⟩ := h
  have hcode : code ∈ codes db := mem_codes.mpr hrow
  constructor
  · by_cases hid : c.id = code.id
    · have heq : c = code := by
        rw [mem_codes_iff_val, hid, hrow] at hmem
        exact (Option.some.inj hmem).symm
      exact ⟨{ code with used := true }, mem_codes_set_code.mpr (Or.inl rfl), heq ▸ hh⟩
    · exact ⟨c, mem_codes_set_code.mpr (Or.inr ⟨hid, hmem⟩), hh⟩
  · intro c' hc' hh'
    rcases mem_codes_set_code.mp hc' with rfl | ⟨-, hc'⟩
    · exact hall code hcode hh'
    · exact hall c' hc' hh'

theorem CodeFor.after {cfg : Config} {s : Site} {op : SiteOp} (h : CodeFor hash clientID s.oidc) :
    CodeFor hash clientID (s.after cfg op).oidc := by
  cases op with
  | establishSession q => exact h
  | selectTenant identityId id m => exact h
  | switchTenant identityId id dest => exact h
  | authorize q now draw =>
    simp only [Site.after]
    rcases authorize_cases cfg.registry cfg.codeTTL s.tenancy s.oidc q now draw with
      ⟨client, code, -, -, -, -, hrow, hnone, hres⟩ | ⟨hres, -⟩
    · rw [hres]
      exact h.insert hrow hnone
    · rw [hres]
      exact h
  | exchange codeSecret redirectURI codeVerifier now draw =>
    simp only [Site.after]
    rcases exchange_cases (cfg.deps s.tenancy) cfg.authCode s.oidc codeSecret redirectURI
      codeVerifier now draw with ⟨code, hred, hres⟩ | ⟨-, e, hres⟩
    · rw [hres]
      apply (h.marked (codeByHash_mem hred.found).1).congr
      intro c
      exact mem_codes_set_token
    · rw [hres]
      exact h
  | refresh presentedSecret now draw =>
    simp only [Site.after]
    rcases refresh_cases (cfg.deps s.tenancy) cfg.refresh s.oidc presentedSecret now draw with
      ⟨tok, hrot, hres⟩ | ⟨-, ⟨tok, hres⟩ | ⟨e, hres⟩⟩
    · rw [hres]
      apply h.congr
      intro c
      exact mem_codes_set_token.trans mem_codes_set_token
    · rw [hres]
      apply h.congr
      intro c
      rw [mem_codes, mem_codes]
      change (s.oidc.row (.code c.id)).map (fun v => v) = _ ↔ _
      rw [Option.map_id']
    · rw [hres]
      exact h
  | revokeSession org id =>
    apply h.congr
    intro c
    rw [mem_codes, mem_codes]
    change (s.oidc.row (.code c.id)).map (fun v => v) = _ ↔ _
    rw [Option.map_id']

theorem CodeFor.run {cfg : Config} {s s' : Site} {ops : List SiteOp}
    (h : CodeFor hash clientID s.oidc) (hrun : run (serve cfg) s ops = some s') :
    CodeFor hash clientID s'.oidc := by
  refine run_always (I := fun s => CodeFor hash clientID s.oidc) ?_ h hrun
  intro t op t' ht hop
  exact Option.some.inj hop ▸ ht.after

end Codes

theorem redemptionToken_contained {cfg : Config} {s : Site} {client : OIDCClient}
    {clientID : String} {requested : List String}
    {codeSecret redirectURI codeVerifier : String} {now : Time} {draw : Draw} {t : IssuedToken}
    (hclient : cfg.registry.lookup clientID = .ok client)
    (hcode : CodeFor (hashAuthCode codeSecret) clientID s.oidc)
    (h : redemptionToken cfg s codeSecret redirectURI codeVerifier now draw = some t) :
    t.Contained client requested ↔ Fits cfg client requested t.grant := by
  unfold redemptionToken at h
  split at h
  · cases h
  obtain ⟨code, hf, ht⟩ := Option.bind_eq_some_iff.mp h
  have hid : code.clientId = clientID :=
    hcode.2 code (List.mem_of_find?_eq_some hf) (codeByHash_mem hf).2
  rw [hid, hclient] at ht
  obtain ⟨hg, hs, ha⟩ := issuedToken_eq_some ht
  rw [IssuedToken.Contained, hg, hs, ha, Fits]
  simp only [mem_minimalScope, and_true]
  constructor
  · intro hall scope hscope
    exact (hall scope hscope).2
  · intro hall scope hscope
    exact ⟨hscope, hall scope hscope⟩

/-- Each token issued along an authorization of a registered client has only the scopes granted
and the client's audience exactly when the grant that issued it fits. -/
theorem chain_contained_iff (cfg : Config) (s : Site) (c : GrantChain) (client : OIDCClient)
    (hclient : cfg.registry.lookup c.request.clientID = .ok client) :
    ∀ t ∈ c.tokens cfg s,
      (t.Contained client c.request.scopes ↔ Fits cfg client c.request.scopes t.grant) := by
  intro t ht
  unfold GrantChain.tokens at ht
  rcases authorize_cases cfg.registry cfg.codeTTL s.tenancy s.oidc c.request c.askedAt c.codeDraw with
    ⟨client', code, -, hhash, hid, -, hrow, hnone, hres⟩ | ⟨-, hno⟩
  · rw [hres] at ht
    dsimp only at ht
    split at ht
    · cases ht
    rename_i s₁ hrun
    -- the code issued is the only one under its secret, and stays so
    have hcode : CodeFor (hashAuthCode c.codeDraw.secret) c.request.clientID s₁.oidc := by
      refine CodeFor.run ?_ hrun
      simp only [Site.after]
      rw [hres]
      refine ⟨⟨code.stored, mem_codes_set_code.mpr (Or.inl rfl), hhash⟩, ?_⟩
      intro c' hc' hh'
      rcases mem_codes_set_code.mp hc' with rfl | ⟨-, hc'⟩
      · exact hid
      · have hn := List.find?_eq_none.mp hnone c' hc'
        simp [hh', hhash] at hn
    split at ht
    · cases ht
    rename_i t' ht'
    rcases List.mem_cons.mp ht with rfl | ht
    · exact redemptionToken_contained hclient hcode ht'
    · exact refreshTokens_contained _ _ t ht
  · split at ht
    · rename_i secret hs
      exact absurd hs (hno secret)
    · cases ht

namespace Sample

/-- The code of the request is redeemed at once, and its family refreshed once. -/
def chainOf (scopes : List String) : GrantChain :=
  ⟨{ request with scopes := scopes }, 10^9, ⟨"ac", 20⟩, [], "https://app/cb", "v", 10^9,
    ⟨"rt", 8, 9⟩, [⟨[], 10^9, ⟨"rt2", 0, 10⟩⟩]⟩

example : minimalScope ["openid"] app.allowedScopes = ["openid"] := by decide +kernel

end Sample

theorem chain_contained_all_requested :
    (((Sample.chainOf ["email", "openid"]).tokens Sample.config Sample.site).map fun t => t.grant) =
        [.authorizationCode, .refreshToken] ∧
      ∀ t ∈ (Sample.chainOf ["email", "openid"]).tokens Sample.config Sample.site,
        t.Contained Sample.app ["email", "openid"] := by
  refine ⟨by decide +kernel, fun t ht => ?_⟩
  have hlookup : Sample.config.registry.lookup "app" = .ok Sample.app := rfl
  refine (chain_contained_iff Sample.config Sample.site (Sample.chainOf ["email", "openid"])
    Sample.app hlookup t ht).mpr ?_
  cases t.grant with
  | authorizationCode =>
    change ∀ scope ∈ Sample.app.allowedScopes, scope ∈ ["email", "openid"]
    decide
  | refreshToken =>
    change "app" = "app" ∧ ∀ scope ∈ ["openid"], scope ∈ minimalScope ["email", "openid"]
      ["openid", "email"]
    decide

/-- The client asks for one of its two scopes, and its first token is issued with both. -/
theorem token_wider_than_request :
    ¬∀ t ∈ (Sample.chainOf ["openid"]).tokens Sample.config Sample.site,
      t.Contained Sample.app ["openid"] := by
  intro h
  have hwide : ((Sample.chainOf ["openid"]).tokens Sample.config Sample.site).any
      (fun t => t.scopes.any fun scope => scope = "email") = true := by
    decide +kernel
  obtain ⟨t, ht, hemail⟩ := List.any_eq_true.mp hwide
  obtain ⟨scope, hscope, heq⟩ := List.any_eq_true.mp hemail
  have hmem := (h t ht).1 scope hscope
  rw [of_decide_eq_true heq] at hmem
  exact absurd hmem (by decide)

end ArchGuard.Oidc
