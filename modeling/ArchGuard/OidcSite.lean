import ArchGuard.OidcAuthorize
import ArchGuard.OidcRedemption
import ArchGuard.SessionOps
import ArchGuard.TokenIssuer

/-! The authorization server as one system: sessions on one side, codes and refresh tokens
on the other, and the calls that move both, one after the other. -/
namespace ArchGuard.Oidc
open ReadCommitted TransitionRun
open Tenancy (Membership EstablishReq Switching sessionAt)

structure Site where
  tenancy : Tenancy.Db
  oidc : Db

/-- What the server is built with. -/
structure Config where
  registry : ClientRegistry
  issuer : TokenIssuer
  policy : Uuid → Option Aal
  auditReuse : RefreshToken → Except OidcError Unit
  codeTTL : Duration
  authCode : AuthCodeGrant
  refresh : RefreshGrant

def Config.deps (cfg : Config) (tenancy : Tenancy.Db) : Deps where
  auditReuse := cfg.auditReuse
  lookup clientID := (cfg.registry.lookup clientID).map OIDCClient.toClient
  issueAccessToken := cfg.issuer.issue tenancy

/-- The rows an UPDATE by session rewrites, and what it makes of them. -/
def revokeOfSession (org sessionId : Uuid) (r : RefreshToken) : RefreshToken :=
  if r.sessionId = sessionId ∧ r.organizationId = org ∧ r.status ≠ .revoked then
    { r with status := .revoked }
  else r

theorem revokeOfSession_id (org sessionId : Uuid) (r : RefreshToken) :
    (revokeOfSession org sessionId r).id = r.id := by
  unfold revokeOfSession
  split_ifs <;> rfl

def revokeSessionToken (org sessionId : Uuid) {id : Uuid} (r : Row (.token id)) : Row (.token id) :=
  ⟨revokeOfSession org sessionId r.1, (revokeOfSession_id ..).trans r.2⟩

def revokeBySession (db : Db) (org sessionId : Uuid) : Db :=
  db.mapRows fun
    | .token _ => revokeSessionToken org sessionId
    | .code _ => id

/-- `SessionRevoker.RevokeSession` in the tenant `org`: the session and its refresh tokens,
in one transaction. -/
def revokeSession (s : Site) (org sessionId : Uuid) : Site :=
  ⟨Tenancy.revokeSessionRow s.tenancy org sessionId, revokeBySession s.oidc org sessionId⟩

/-- One call, with its instant and its random draws. -/
inductive SiteOp
  | establishSession (q : EstablishReq)
  | selectTenant (identityId sessionId : Uuid) (m : Membership)
  | switchTenant (identityId sessionId : Uuid) (dest : Membership)
  | authorize (q : AuthorizeReq) (now : Time) (draw : CodeDraw)
  | exchange (codeSecret redirectURI codeVerifier : String) (now : Time) (draw : Draw)
  | refresh (presentedSecret : String) (now : Time) (draw : Draw)
  | revokeSession (org sessionId : Uuid)

/-- The tables after a call, whether it succeeds or not. -/
def Site.after (cfg : Config) (s : Site) : SiteOp → Site
  | .establishSession q => { s with tenancy := (Tenancy.establishSession s.tenancy q).2 }
  | .selectTenant identityId sessionId m =>
    { s with tenancy := (Tenancy.selectTenant s.tenancy identityId sessionId m).2 }
  | .switchTenant identityId sessionId dest =>
    { s with tenancy := (Tenancy.switchTenant s.tenancy cfg.policy identityId sessionId dest).2 }
  | .authorize q now draw =>
    { s with oidc := (authorize cfg.registry cfg.codeTTL s.tenancy s.oidc q now draw).2 }
  | .exchange codeSecret redirectURI codeVerifier now draw =>
    { s with oidc := (cfg.authCode.exchange (cfg.deps s.tenancy) s.oidc codeSecret redirectURI
        codeVerifier now draw).2 }
  | .refresh presentedSecret now draw =>
    { s with oidc := (cfg.refresh.refresh (cfg.deps s.tenancy) s.oidc presentedSecret now draw).2 }
  | .revokeSession org sessionId => Oidc.revokeSession s org sessionId

def serve (cfg : Config) (s : Site) (op : SiteOp) : Option Site := some (s.after cfg op)

theorem serve_total (cfg : Config) (s : Site) (op : SiteOp) : (serve cfg s op).isSome := rfl

/-- What one call makes of the row of a session. -/
theorem sessionAt_after (cfg : Config) (s : Site) (op : SiteOp) (id : Uuid) :
    sessionAt (s.after cfg op).tenancy id = sessionAt s.tenancy id ∨ sessionAt s.tenancy id = none ∨
      (∃ r, sessionAt s.tenancy id = some r ∧ r.session.status = .pendingSelection) ∨
      (∃ r, sessionAt s.tenancy id = some r ∧
        sessionAt (s.after cfg op).tenancy id = some r.revoked) ∨
      ∃ identityId dest r, op = .switchTenant identityId id dest ∧
        Switching s.tenancy cfg.policy identityId id dest r ∧
        sessionAt (s.after cfg op).tenancy id = some (r.switched dest) := by
  cases op with
  | establishSession q =>
    rcases Tenancy.sessionAt_establishSession s.tenancy q id with h | h
    · exact Or.inl h
    · exact Or.inr (Or.inl h)
  | selectTenant identityId sessionId m =>
    rcases Tenancy.sessionAt_selectTenant s.tenancy identityId sessionId m id with h | h
    · exact Or.inl h
    · exact Or.inr (Or.inr (Or.inl h))
  | switchTenant identityId sessionId dest =>
    simp only [Site.after]
    rcases Tenancy.switchTenant_rows s.tenancy cfg.policy identityId sessionId dest with
      ⟨r, hr, hrows⟩ | ⟨-, hdb⟩
    · by_cases hid : id = sessionId
      · subst hid
        refine Or.inr (Or.inr (Or.inr (Or.inr ⟨identityId, dest, r, rfl, hr, ?_⟩)))
        rw [hrows, Function.update_self]
      · rw [hrows, Function.update_of_ne hid]
        exact Or.inl rfl
    · rw [hdb]
      exact Or.inl rfl
  | authorize q now draw => exact Or.inl rfl
  | exchange codeSecret redirectURI codeVerifier now draw => exact Or.inl rfl
  | refresh presentedSecret now draw => exact Or.inl rfl
  | revokeSession org sessionId =>
    rcases Tenancy.sessionAt_revokeSessionRow s.tenancy org sessionId id with h | h
    · exact Or.inl h
    · exact Or.inr (Or.inr (Or.inr (Or.inl h)))

namespace Sample

theorem ana_key : (⟨2, "idp|ana", .human, .active, [7]⟩ : Tenancy.Identity).id = 2 := rfl

theorem anaInFirst_key : (⟨3, 2, 1, .active, none⟩ : Tenancy.Membership).id = 3 := rfl

/-- A member of the organizations 1 and 5, with a session in the first. -/
def memberOfTwo : Tenancy.Db :=
  (((Store.empty.set (.identity 2) (some ⟨⟨2, "idp|ana", .human, .active, [7]⟩, ana_key⟩)).set
    (.membership 3) (some ⟨⟨3, 2, 1, .active, none⟩, anaInFirst_key⟩)).set
    (.membership 4) (some ⟨⟨4, 2, 5, .active, none⟩, rfl⟩)).set
    (.session 7) (some ⟨⟨⟨7, 2, some 3, some 1, .active, .aal1, 1, 10^9, [.password]⟩, none⟩, rfl⟩)

def app : OIDCClient := ⟨⟨"app", ["openid", "email"]⟩, "app", [.authorizationCode], ["https://app/cb"]⟩

theorem app_nodup : ([app].map (·.clientID)).Nodup := List.nodup_singleton _

theorem app_complete : ∀ c ∈ [app], c.clientID ≠ "" ∧ c.audience ≠ "" ∧ c.allowedFlows ≠ [] := by
  intro c hc
  obtain rfl := List.mem_singleton.mp hc
  decide

def config : Config where
  registry := ⟨[app], app_nodup, app_complete⟩
  issuer := ⟨fun _ => .ok "jwt", "https://id", minAccessTTL⟩
  policy _ := some .aal1
  auditReuse _ := .ok ()
  codeTTL := authCodeMaxTTL
  authCode := ⟨3600*10^9⟩
  refresh := ⟨"app", ["openid"], 3600*10^9⟩

def site : Site := ⟨memberOfTwo, Store.empty⟩

def toFirst : SiteOp := .switchTenant 2 7 ⟨3, 2, 1, .active, none⟩

def toSecond : SiteOp := .switchTenant 2 7 ⟨4, 2, 5, .active, none⟩

/-- A request for one of the client's two scopes; the verifier of its challenge is "v". -/
def request : AuthorizeReq :=
  ⟨"app", "https://app/cb", "code",
    String.ofList (base64RawURL (Sha256.sha256 (Bytes.ofString "v"))), "S256", ["openid"],
    some (2, 7)⟩

def askCode : SiteOp := .authorize request (10^9) ⟨"ac", 20⟩

def redeemCode : SiteOp := .exchange "ac" "https://app/cb" "v" (10^9) ⟨"rt", 8, 9⟩

end Sample

end ArchGuard.Oidc
