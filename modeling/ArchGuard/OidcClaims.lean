import ArchGuard.AuthSession
import ArchGuard.OidcGrants

/-! The claim set of an access token, and what it takes to build one. -/
namespace ArchGuard

/-- `Unix`: the instant in whole seconds. -/
def Time.unix (t : Time) : ℤ := t/10^9

/-- The assurance level behind the `acr` claim. -/
def Aal.level : Aal → String
  | .aal1 => "L1"
  | .aal2 => "L2"
  | .aal3 => "L3"

def validLevel (acr : String) : Bool := acr = "L1" || acr = "L2" || acr = "L3"

/-- A recovery code has no method of its own. -/
def amrToken : FactorType → Option String
  | .password => some "pwd"
  | .totp => some "otp"
  | .webAuthn => some "hwk"
  | .recoveryCode => none

namespace Tenancy

def AuthSession.activeTenant (s : AuthSession) : Except SessionError (Uuid × Uuid) :=
  match s.status with
  | .active =>
    match s.membershipId, s.organizationId with
    | some membershipId, some organizationId => .ok (membershipId, organizationId)
    | _, _ => .error (.invalidSession "sessão ativa sem tenant")
  | .pendingSelection => .error .tenantSelectionRequired
  | .revoked => .error .sessionRevoked

def AuthSession.acr (s : AuthSession) : String := s.provenAAL.level

/-- The methods in the order proven, each once, and `mfa` when the factors differ. -/
def AuthSession.amr (s : AuthSession) : List String :=
  let methods := s.authMethods.foldl (fun out f =>
    match amrToken f with
    | some t => if t ∈ out then out else out ++ [t]
    | none => out) []
  if 2 ≤ s.authMethods.dedup.length then methods ++ ["mfa"] else methods

theorem AuthSession.activeTenant_eq_ok {s : AuthSession} {m o : Uuid} :
    s.activeTenant = .ok (m, o) ↔
      s.status = .active ∧ s.membershipId = some m ∧ s.organizationId = some o := by
  unfold AuthSession.activeTenant
  cases hs : s.status <;> cases hm : s.membershipId <;> cases ho : s.organizationId <;> simp

end Tenancy

namespace Oidc
open Tenancy

/-- Only the claims the issuer fills: groups, roles, act, pcid and grant_ref stay empty. -/
structure OIDCClaims where
  iss : String
  sub : String
  aud : String
  exp : ℤ
  iat : ℤ
  org : String
  mid : String
  acr : String
  amr : List String
  authTime : ℤ
  sid : String
  email : String
  version : String
  deriving DecidableEq, Repr

def oidcClaimsVersion : String := "v1"

def invalidClaims (detail : String) : OidcError := .other ("oidc: claim set inválido: " ++ detail)

def OIDCClaims.wellFormed (c : OIDCClaims) : Except OidcError Unit :=
  if c.iss = "" then .error (invalidClaims "iss ausente")
  else if c.sub = "" then .error (invalidClaims "sub ausente")
  else if c.aud = "" then .error (invalidClaims "aud ausente")
  else if c.org = "" then .error (invalidClaims "org (tenant ativo) ausente")
  else if c.mid = "" then .error (invalidClaims "mid ausente")
  else if c.sid = "" then .error (invalidClaims "sid ausente")
  else if !validLevel c.acr then .error (invalidClaims ("acr " ++ quoted c.acr ++ " inválido"))
  else if c.amr = [] then .error (invalidClaims "amr vazio")
  else if c.authTime ≤ 0 then .error (invalidClaims "auth_time ausente")
  else if c.iat ≤ 0 ∨ c.exp ≤ c.iat then .error (invalidClaims "janela iat/exp inválida")
  else if c.version ≠ oidcClaimsVersion then .error (invalidClaims ("versão de contrato " ++
    quoted c.version ++ ", esperada " ++ quoted oidcClaimsVersion))
  else .ok ()

def minAccessTTL : Duration := 5*60*10^9

def maxAccessTTL : Duration := 15*60*10^9

def scopeEmail : String := "email"

def hasScope (granted : List String) (scope : String) : Bool := granted.any (· = scope)

/-- The scopes granted: those allowed that were requested, in the order allowed. -/
def minimalScope (requested allowed : List String) : List String :=
  allowed.foldl (fun out s => if s ∈ requested ∧ s ∉ out then out ++ [s] else out) []

structure OIDCClaimsInput where
  issuer : String
  audience : String
  subject : String
  session : AuthSession
  issuedAt : Time
  accessTTL : Duration
  grantedScopes : List String
  email : String

/-- The claims before they are checked. -/
def OIDCClaimsInput.claims (i : OIDCClaimsInput) (membershipId organizationId : Uuid) :
    OIDCClaims where
  iss := i.issuer
  sub := i.subject
  aud := i.audience
  exp := Time.unix (i.issuedAt+i.accessTTL)
  iat := Time.unix i.issuedAt
  org := organizationId.text
  mid := membershipId.text
  acr := i.session.acr
  amr := i.session.amr
  authTime := Time.unix i.session.authTime
  sid := i.session.id.text
  -- the e-mail is released under its own scope only
  email := if hasScope i.grantedScopes scopeEmail then i.email else ""
  version := oidcClaimsVersion

def buildOIDCClaims (i : OIDCClaimsInput) : Except OidcError OIDCClaims :=
  if i.issuer = "" ∨ i.audience = "" ∨ i.subject = "" then
    .error (invalidClaims "iss/aud/sub obrigatórios")
  else if i.issuedAt = Time.zero then .error (invalidClaims "iat ausente")
  else if i.accessTTL < minAccessTTL ∨ maxAccessTTL < i.accessTTL then
    .error (invalidClaims "TTL de access fora de [5m0s,15m0s]")
  else match i.session.activeTenant with
    | .error err => .error (invalidClaims err.text)
    | .ok (membershipId, organizationId) =>
      match (i.claims membershipId organizationId).wellFormed with
      | .error err => .error err
      | .ok () => .ok (i.claims membershipId organizationId)

section Scopes

variable {requested allowed : List String} {s : String}

theorem mem_foldl_minimal (out : List String) :
    s ∈ allowed.foldl (fun out s => if s ∈ requested ∧ s ∉ out then out ++ [s] else out) out ↔
      s ∈ out ∨ (s ∈ allowed ∧ s ∈ requested) := by
  induction allowed generalizing out with
  | nil => simp
  | cons a allowed ih =>
    rw [List.foldl_cons, ih]
    split_ifs with h
    · simp only [List.mem_append, List.mem_cons, List.not_mem_nil, or_false]
      constructor
      · rintro ((hs | rfl) | hs)
        · exact Or.inl hs
        · exact Or.inr ⟨Or.inl rfl, h.1⟩
        · exact Or.inr ⟨Or.inr hs.1, hs.2⟩
      · rintro (hs | ⟨rfl | hs, hr⟩)
        · exact Or.inl (Or.inl hs)
        · exact Or.inl (Or.inr rfl)
        · exact Or.inr ⟨hs, hr⟩
    · simp only [List.mem_cons]
      constructor
      · rintro (hs | hs)
        · exact Or.inl hs
        · exact Or.inr ⟨Or.inr hs.1, hs.2⟩
      · rintro (hs | ⟨rfl | hs, hr⟩)
        · exact Or.inl hs
        -- a requested scope that is not added is there already
        · exact Or.inl (by_contra fun hn => h ⟨hr, hn⟩)
        · exact Or.inr ⟨hs, hr⟩

theorem mem_minimalScope : s ∈ minimalScope requested allowed ↔ s ∈ allowed ∧ s ∈ requested := by
  rw [minimalScope, mem_foldl_minimal]
  simp

end Scopes

end Oidc

end ArchGuard
