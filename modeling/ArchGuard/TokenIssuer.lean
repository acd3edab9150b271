import ArchGuard.OidcClaims
import ArchGuard.TenancyStore

/-! The issue of an access token for a session, and its introspection afterwards. -/
namespace ArchGuard.Oidc
open Tenancy (AuthSession SessionRow SessionError sessionAt getIdentity)

structure TokenIssuer where
  sign : OIDCClaims → Except String String
  issuer : String
  accessTTL : Duration

/-- The row of a session under the tenant `org`. -/
def sessionInOrg (db : Tenancy.Db) (org sessionId : Uuid) : Option SessionRow :=
  (sessionAt db sessionId).filter fun r => r.session.organizationId = some org

def TokenIssuer.input (i : TokenIssuer) (s : AuthSession) (subject audience : String)
    (grantedScopes : List String) (email : String) (now : Time) : OIDCClaimsInput :=
  ⟨i.issuer, audience, subject, s, now, i.accessTTL, grantedScopes, email⟩

/-- `IssueAccessToken` in the tenant `org`: the session and its subject, the claims, the
signature. -/
def TokenIssuer.issueAccessToken (i : TokenIssuer) (db : Tenancy.Db) (org sessionId : Uuid)
    (audience : String) (grantedScopes : List String) (email : String) (now : Time) :
    Except OidcError (String × OIDCClaims) :=
  match sessionInOrg db org sessionId with
  | none => .error (.other SessionError.sessionNotFound.text)
  | some r =>
    match getIdentity db r.session.identityId with
    | none => .error (.other "no rows in result set")
    | some idn =>
      match buildOIDCClaims (i.input r.session idn.subject audience grantedScopes email now) with
      | .error err => .error err
      | .ok claims =>
        match i.sign claims with
        | .error text => .error (.other text)
        | .ok token => .ok (token, claims)

/-- What the claims of a session need: an active tenant, a subject, an audience, an access
TTL within bounds, and times after the epoch. -/
structure Claimable (i : TokenIssuer) (s : AuthSession) (subject audience : String) (now : Time)
    (membershipId org : Uuid) : Prop where
  issuer : i.issuer ≠ ""
  audience : audience ≠ ""
  subject : subject ≠ ""
  ttl : minAccessTTL ≤ i.accessTTL ∧ i.accessTTL ≤ maxAccessTTL
  active : s.status = .active
  membership : s.membershipId = some membershipId
  organization : s.organizationId = some org
  methods : s.amr ≠ []
  authTime : 0 < Time.unix s.authTime
  issuedAt : 0 < Time.unix now

/-- An access token can be issued for the session in the tenant `org`: its claims can be
built, and the signer signs them. -/
def Issuable (i : TokenIssuer) (db : Tenancy.Db) (org sessionId : Uuid) (audience : String)
    (grantedScopes : List String) (email : String) (now : Time) : Prop :=
  ∃ r idn membershipId token, sessionAt db sessionId = some r ∧
    getIdentity db r.session.identityId = some idn ∧
    Claimable i r.session idn.subject audience now membershipId org ∧
    i.sign ((i.input r.session idn.subject audience grantedScopes email now).claims
      membershipId org) = .ok token

theorem text_ne_empty (u : Uuid) : u.text ≠ "" := by
  intro h
  have hlen := congrArg String.length h
  simp only [Uuid.text, String.length_append] at hlen
  have hdash : String.length "-" = 1 := by decide
  have hempty : String.length "" = 0 := by decide
  omega

theorem validLevel_level (a : Aal) : validLevel a.level = true := by
  cases a <;> decide

theorem unix_lt_add {t : Time} {d : Duration} (h : minAccessTTL ≤ d) :
    Time.unix t < Time.unix (t+d) := by
  have hmin : (300*10^9 : ℤ) ≤ d := by simpa [minAccessTTL] using h
  unfold Time.unix
  omega

theorem zero_unix_neg : Time.unix Time.zero < 0 := by decide

theorem wellFormed_ok_iff (c : OIDCClaims) : c.wellFormed = .ok () ↔
    (c.iss ≠ "" ∧ c.sub ≠ "" ∧ c.aud ≠ "" ∧ c.org ≠ "" ∧ c.mid ≠ "" ∧ c.sid ≠ "") ∧
      validLevel c.acr = true ∧ c.amr ≠ [] ∧ 0 < c.authTime ∧ (0 < c.iat ∧ c.iat < c.exp) ∧
        c.version = oidcClaimsVersion := by
  simp only [OIDCClaims.wellFormed, ite_error_eq_ok, not_or, not_le, Bool.not_eq_true',
    Bool.not_eq_false, not_not, ne_eq, and_true, and_assoc]

section Issue

variable {i : TokenIssuer} {db : Tenancy.Db} {org sessionId : Uuid} {s : AuthSession}
  {subject audience : String} {grantedScopes : List String} {email : String} {now : Time}
  {claims : OIDCClaims}

/-- The claims are built exactly when everything but the signature is there. -/
theorem buildOIDCClaims_eq_ok :
    buildOIDCClaims (i.input s subject audience grantedScopes email now) = .ok claims ↔
      ∃ membershipId org, Claimable i s subject audience now membershipId org ∧
        claims = (i.input s subject audience grantedScopes email now).claims membershipId org := by
  unfold buildOIDCClaims TokenIssuer.input
  rw [ite_error_eq_ok, ite_error_eq_ok, ite_error_eq_ok, not_or, not_or, not_or, not_lt, not_lt]
  constructor
  · rintro ⟨⟨hi, ha, hs⟩, -, httl, h⟩
    split at h
    · cases h
    · rename_i membershipId org htenant
      obtain ⟨hact, hm, ho⟩ := AuthSession.activeTenant_eq_ok.mp htenant
      split at h
      · cases h
      · rename_i hwf
        obtain ⟨-, -, hmethods, hauth, ⟨hiat, -⟩, -⟩ := (wellFormed_ok_iff _).mp hwf
        exact ⟨membershipId, org, ⟨hi, ha, hs, httl, hact, hm, ho, hmethods, hauth, hiat⟩,
          (Except.ok.inj h).symm⟩
  · rintro ⟨membershipId, org, h, rfl⟩
    have hzero : now ≠ Time.zero := by
      intro hz
      have hpos := h.issuedAt
      have hneg := zero_unix_neg
      rw [hz] at hpos
      omega
    refine ⟨⟨h.issuer, h.audience, h.subject⟩, hzero, h.ttl, ?_⟩
    have htenant := AuthSession.activeTenant_eq_ok.mpr ⟨h.active, h.membership, h.organization⟩
    have hwf : ((i.input s subject audience grantedScopes email now).claims membershipId org).wellFormed
        = .ok () := by
      refine (wellFormed_ok_iff _).mpr ⟨⟨h.issuer, h.subject, h.audience, text_ne_empty _,
        text_ne_empty _, text_ne_empty _⟩, validLevel_level _, h.methods, h.authTime,
        ⟨h.issuedAt, unix_lt_add h.ttl.1⟩, rfl⟩
    rw [htenant]
    dsimp only
    unfold TokenIssuer.input at hwf
    rw [hwf]

theorem issueAccessToken_eq_ok {token : String} :
    i.issueAccessToken db org sessionId audience grantedScopes email now = .ok (token, claims) ↔
      ∃ r idn membershipId, sessionAt db sessionId = some r ∧
        getIdentity db r.session.identityId = some idn ∧
        Claimable i r.session idn.subject audience now membershipId org ∧
        claims = (i.input r.session idn.subject audience grantedScopes email now).claims
          membershipId org ∧
        i.sign claims = .ok token := by
  unfold TokenIssuer.issueAccessToken
  constructor
  · intro h
    split at h
    · cases h
    rename_i r hr
    obtain ⟨hrow, horg⟩ := Option.filter_eq_some_iff.mp hr
    split at h
    · cases h
    rename_i idn hidn
    split at h
    · cases h
    rename_i c hc
    split at h
    · cases h
    rename_i t ht
    obtain ⟨rfl, rfl⟩ := Prod.mk.inj (Except.ok.inj h)
    obtain ⟨membershipId, org', hcl, hce⟩ := buildOIDCClaims_eq_ok.mp hc
    -- the row was read under the tenant, so the claims are of it
    obtain rfl : org' = org := by
      have heq := of_decide_eq_true horg
      rw [hcl.organization] at heq
      exact Option.some.inj heq
    exact ⟨r, idn, membershipId, hrow, hidn, hcl, hce, ht⟩
  · intro ⟨r, idn, membershipId, hrow, hidn, hcl, hce, ht⟩
    have hr : sessionInOrg db org sessionId = some r :=
      Option.filter_eq_some_iff.mpr ⟨hrow, decide_eq_true hcl.organization⟩
    have hc : buildOIDCClaims (i.input r.session idn.subject audience grantedScopes email now) =
        .ok claims := buildOIDCClaims_eq_ok.mpr ⟨membershipId, org, hcl, hce⟩
    simp only [hr, hidn, hc, ht]

theorem issuable_iff :
    Issuable i db org sessionId audience grantedScopes email now ↔
      ∃ a, i.issueAccessToken db org sessionId audience grantedScopes email now = .ok a := by
  constructor
  · intro ⟨r, idn, membershipId, token, hrow, hidn, hcl, ht⟩
    exact ⟨_, issueAccessToken_eq_ok.mpr ⟨r, idn, membershipId, hrow, hidn, hcl, rfl, ht⟩⟩
  · intro ⟨a, ha⟩
    obtain ⟨r, idn, membershipId, hrow, hidn, hcl, hce, ht⟩ := issueAccessToken_eq_ok.mp ha
    exact ⟨r, idn, membershipId, a.1, hrow, hidn, hcl, hce ▸ ht⟩

end Issue

def TokenIssuer.issue (i : TokenIssuer) (db : Tenancy.Db) (org sessionId : Uuid)
    (audience : String) (grantedScopes : List String) (now : Time) : Except OidcError AccessToken :=
  match i.issueAccessToken db org sessionId audience grantedScopes "" now with
  | .error err => .error err
  | .ok (token, claims) => .ok ⟨token, claims.iat, claims.exp⟩

/-- `IntrospectionResponse`; its pcid is empty, as the claim is. -/
structure IntrospectionResponse where
  active : Bool
  iss : String
  sub : String
  aud : String
  org : String
  acr : String
  sid : String
  exp : ℤ
  iat : ℤ
  deriving DecidableEq, Repr

def IntrospectionResponse.inactive : IntrospectionResponse := ⟨false, "", "", "", "", "", "", 0, 0⟩

def buildIntrospection (c : OIDCClaims) (sessionLive : Bool) (now : Time) : IntrospectionResponse :=
  if sessionLive && (Time.unix now < c.exp : Bool) then
    ⟨true, c.iss, c.sub, c.aud, c.org, c.acr, c.sid, c.exp, c.iat⟩
  else .inactive

section Introspection

/- Outside the repository: `uuid.Parse`, and the check of a token's signature. -/
variable (parse : String → Option Uuid) (verify : String → Option OIDCClaims)

/-- `SessionLivenessChecker.Live`: the session is active in the organization. -/
def live (db : Tenancy.Db) (organizationID sid : String) : Except OidcError Bool :=
  match parse organizationID with
  | none => .error (.other ("postgres: org inválida " ++ quoted organizationID))
  | some org =>
    match parse sid with
    | none => .error (.other ("postgres: sid inválido " ++ quoted sid))
    | some sessionId =>
      if org = Uuid.nil then .error .noTenant
      else .ok ((sessionInOrg db org sessionId).any fun r => r.session.status = .active)

/-- The introspection of a presented token: what cannot be verified or judged is not
active. -/
def introspect (db : Tenancy.Db) (token : String) (now : Time) : IntrospectionResponse :=
  match verify token with
  | none => .inactive
  | some claims =>
    match live parse db claims.org claims.sid with
    | .error _ => buildIntrospection claims false now
    | .ok sessionLive => buildIntrospection claims sessionLive now

variable {parse verify}

/-- A token is reported active while its session is active in its organization, until it
expires. -/
theorem introspect_active_iff {db : Tenancy.Db} {token : String} {claims : OIDCClaims}
    {org sessionId : Uuid} {now : Time} (hv : verify token = some claims)
    (horg : parse claims.org = some org) (hsid : parse claims.sid = some sessionId) :
    (introspect parse verify db token now).active = true ↔
      org ≠ Uuid.nil ∧ Time.unix now < claims.exp ∧ ∃ r, sessionAt db sessionId = some r ∧
        r.session.organizationId = some org ∧ r.session.status = .active := by
  have hactive (b : Bool) : (buildIntrospection claims b now).active = true ↔
      b = true ∧ Time.unix now < claims.exp := by
    unfold buildIntrospection
    split_ifs with h
    · simpa using h
    · simpa [IntrospectionResponse.inactive] using h
  have hlive : (sessionInOrg db org sessionId).any (fun r => r.session.status = .active) = true ↔
      ∃ r, sessionAt db sessionId = some r ∧ r.session.organizationId = some org ∧
        r.session.status = .active := by
    simp only [Option.any_eq_true, sessionInOrg, Option.filter_eq_some_iff, decide_eq_true_eq,
      and_assoc]
  simp only [introspect, hv, live, horg, hsid]
  by_cases hn : org = Uuid.nil
  · simp [hn, hactive]
  · simp only [hn, ↓reduceIte, hactive, hlive, ne_eq, not_false_eq_true, true_and, and_comm]

end Introspection

end ArchGuard.Oidc
