import ArchGuard.ObjectTokens

/-! What the refresh grant keeps of the token that is presented: its application, its user, the
bounds of its scope and its key. -/
namespace ArchGuard.Object
open GoMethod GoText Method

/-- The rows that a call has added to the token table. -/
def newTokens (t t' : Tables) : List Token :=
  t'.tokens.filter fun u => ∀ v ∈ t.tokens, v.key ≠ u.key

/-- What the presented refresh token says, verified by the certificate of the application. -/
def presentedClaims (w : World) (t : Tables) (a : Application) (refreshToken : GoString) :
    Option Claims :=
  (getCertByApplication t a).bind fun c => (parseByFormat w a refreshToken c).toOption

/-- What a refresh that succeeds has read and written. -/
structure Refreshed (w : World) (q : RefreshRequest) (t t' : Tables) (app : Application)
    (old : Token) (claims : Claims) (new : Token) : Prop where
  client : q.client t = some app
  presented : getTokenByRefreshToken t q.refreshToken = some old
  claimed : presentedClaims w t app q.refreshToken = some claims
  organization : new.organization = app.organization
  user : new.user = old.user
  scope : new.scope = if q.scope = [] then claims.scope else q.scope
  unproved : q.dpopProof = [] → new.dpopJkt = []
  proved : q.dpopProof ≠ [] →
    w.validateDPoPProof q.dpopProof (tokenEndpoint w q.host) = .ok new.dpopJkt
  issued : newTokens t t' = [new]

section Spec

variable {w : World} {q : RefreshRequest} {t t' : Tables}

theorem getUser_eq_some {owner name : GoString} {u : TokenUser} (h : getUser t owner name = some u) :
    u.owner = owner ∧ u.name = name := by
  rw [getUser] at h
  split_ifs at h
  simpa using List.find?_some h

theorem mem_of_presented {r : GoString} {old : Token} (h : getTokenByRefreshToken t r = some old) :
    old ∈ t.tokens := List.mem_of_find?_eq_some h

/-- Binding a row that was added last changes its type and its key, and no other row. -/
theorem bindDPoP_ok {host proof : GoString} {token bound : Token} {base : List Token}
    (htokens : t.tokens = base ++ [token.popularHashes]) (hfresh : ∀ v ∈ base, v.key ≠ token.key)
    (hjkt : token.dpopJkt = []) (h : (bindDPoP w host proof token).call t = (.ok bound, t')) :
    ∃ row : Token, t'.tokens = base ++ [row] ∧ row.key = token.key ∧
      row.organization = token.organization ∧ row.user = token.user ∧ row.scope = token.scope ∧
      (proof = [] → row.dpopJkt = []) ∧
      (proof ≠ [] → w.validateDPoPProof proof (tokenEndpoint w host) = .ok row.dpopJkt) := by
  rw [bindDPoP] at h
  by_cases hproof : proof = []
  · rw [if_pos hproof] at h
    obtain ⟨-, rfl⟩ := (pure_ok _).mp h
    exact ⟨token.popularHashes, htokens, rfl, rfl, rfl, rfl, fun _ => hjkt, fun hne => absurd hproof hne⟩
  · rw [if_neg hproof] at h
    obtain ⟨jkt, hvalid, h⟩ := checked_bind_ok.mp h
    obtain ⟨_, t₂, hupdate, h⟩ := (bind_ok _).mp h
    obtain ⟨-, rfl⟩ := (pure_ok _).mp h
    rw [updateTokenDPoP, call_modify] at hupdate
    obtain rfl := (Prod.mk.inj hupdate).2
    refine ⟨{ token.popularHashes with tokenType := utf8 "DPoP", dpopJkt := jkt }, ?_, rfl, rfl, rfl, rfl,
      fun he => absurd he hproof, fun _ => hvalid⟩
    change t.tokens.map _ = _
    rw [htokens, List.map_append, List.map_singleton]
    -- the key is that of the last row alone
    have hbase : base.map (fun u => if u.key = token.key then
        { u with tokenType := utf8 "DPoP", dpopJkt := jkt } else u) = base := by
      conv_rhs => rw [← List.map_id base]
      apply List.map_congr_left
      intro v hv
      exact if_neg (hfresh v hv)
    have hlast : (if token.popularHashes.key = token.key then
        { token.popularHashes with tokenType := utf8 "DPoP", dpopJkt := jkt }
        else token.popularHashes) =
          { token.popularHashes with tokenType := utf8 "DPoP", dpopJkt := jkt } := if_pos rfl
    exact congrArg₂ (· ++ [·]) hbase hlast

theorem refreshToken_ok {wrapper : TokenWrapper}
    (h : (refreshToken w q).call t = (.ok wrapper, t')) :
    ∃ app old claims new, Refreshed w q t t' app old claims new := by
  obtain ⟨-, h⟩ := (refuseIf_bind_ok _).mp h
  rw [call_get_bind] at h
  obtain ⟨app, hclient, h⟩ := required_bind_ok.mp h
  obtain ⟨-, h⟩ := (refuseIf_bind_ok _).mp h
  obtain ⟨old, hold, h⟩ := required_bind_ok.mp h
  obtain ⟨-, h⟩ := (refuseIf_bind_ok _).mp h
  obtain ⟨cert, hcert, h⟩ := required_bind_ok.mp h
  obtain ⟨claims, hclaims, h⟩ := checked_bind_ok.mp h
  obtain ⟨user, huser, h⟩ := required_bind_ok.mp h
  obtain ⟨-, h⟩ := (refuseIf_bind_ok _).mp h
  obtain ⟨_, -, h⟩ := checked_bind_ok.mp h
  obtain ⟨minted, -, h⟩ := checked_bind_ok.mp h
  obtain ⟨_, t₁, hadd, h⟩ := (bind_ok _).mp h
  obtain ⟨hfresh, rfl⟩ := addToken_ok.mp hadd
  obtain ⟨bound, t₁, hbind, h⟩ := (bind_ok _).mp h
  obtain ⟨row, hrow, hkey, horg, hname, hscope, hunproved, hproved⟩ :=
    bindDPoP_ok rfl hfresh rfl hbind
  obtain ⟨_, t₂, hdelete, h⟩ := (bind_ok _).mp h
  obtain ⟨-, rfl⟩ := (pure_ok _).mp h
  rw [deleteToken, call_modify] at hdelete
  obtain rfl := (Prod.mk.inj hdelete).2
  obtain ⟨howner, huname⟩ := getUser_eq_some huser
  have hclaimed : presentedClaims w t app q.refreshToken = some claims := by
    rw [presentedClaims, hcert, Option.bind_some, hclaims]
    rfl
  refine ⟨app, old, claims, row, hclient, hold, hclaimed, horg.trans howner, hname.trans huname,
    hscope, hunproved, hproved, ?_⟩
  -- the deletion leaves the new row, and the other rows were there before
  have hne : ∀ v ∈ t.tokens, v.key ≠ row.key := fun v hv => hkey ▸ hfresh v hv
  have hkept : (decide (row.key ≠ old.key) || decide (row.organization ≠ old.organization)) = true := by
    simp [(hne old (mem_of_presented hold)).symm]
  have hnone : (t.tokens.filter fun u => u.key ≠ old.key || u.organization ≠ old.organization).filter
      (fun u => ∀ v ∈ t.tokens, v.key ≠ u.key) = [] := by
    apply List.filter_eq_nil_iff.mpr
    intro u hu hall
    exact of_decide_eq_true hall u (List.mem_filter.mp hu).1 rfl
  have htokens : (t₁.tokens.filter fun u => u.key ≠ old.key || u.organization ≠ old.organization) =
      (t.tokens.filter fun u => u.key ≠ old.key || u.organization ≠ old.organization) ++ [row] := by
    rw [hrow, List.filter_append, List.filter_cons_of_pos (by simpa using hkept), List.filter_nil]
  change List.filter _ (t₁.tokens.filter _) = _
  rw [htokens, List.filter_append, hnone, List.nil_append,
    List.filter_cons_of_pos (by simpa using hne), List.filter_nil]

end Spec

/-- The presented token was issued to the application of the request, and the new one is for the
same user, within the same scope and bound to the same key. -/
def KeepsBinding (w : World) (q : RefreshRequest) (t t' : Tables) : Prop :=
  ∃ app old claims new, q.client t = some app ∧
    getTokenByRefreshToken t q.refreshToken = some old ∧
    presentedClaims w t app q.refreshToken = some claims ∧ newTokens t t' = [new] ∧
    (old.owner = app.owner ∧ old.application = app.name) ∧
    (new.organization = old.organization ∧ new.user = old.user) ∧
    ScopeWithin new.scope claims.scope ∧ (old.dpopJkt ≠ [] → new.dpopJkt = old.dpopJkt)

/-- The presented token is one of the application and its organization, no scope beyond its own is
asked for, and a token with a key is presented with a proof of that key. -/
structure WithinBinding (w : World) (q : RefreshRequest) (t : Tables) (app : Application)
    (old : Token) (claims : Claims) : Prop where
  issuedTo : old.owner = app.owner ∧ old.application = app.name
  organization : old.organization = app.organization
  scope : ScopeWithin q.scope claims.scope
  key : old.dpopJkt ≠ [] → q.dpopProof ≠ [] ∧
    w.validateDPoPProof q.dpopProof (tokenEndpoint w q.host) = .ok old.dpopJkt

/-- A refresh that succeeds keeps the binding exactly where the request stays within it. -/
theorem refresh_keepsBinding_iff {w : World} {q : RefreshRequest} {t t' : Tables}
    {wrapper : TokenWrapper} (h : (refreshToken w q).call t = (.ok wrapper, t')) :
    KeepsBinding w q t t' ↔ ∃ app old claims, q.client t = some app ∧
      getTokenByRefreshToken t q.refreshToken = some old ∧
      presentedClaims w t app q.refreshToken = some claims ∧ WithinBinding w q t app old claims := by
  obtain ⟨app, old, claims, new, hr⟩ := refreshToken_ok h
  have hscope : ScopeWithin new.scope claims.scope ↔ ScopeWithin q.scope claims.scope := by
    rw [hr.scope]
    split_ifs with he
    · rw [he]
      exact ⟨fun _ _ hs => absurd hs List.not_mem_nil, fun _ => scopeWithin_refl _⟩
    · exact Iff.rfl
  have hkey : (old.dpopJkt ≠ [] → new.dpopJkt = old.dpopJkt) ↔ (old.dpopJkt ≠ [] →
      q.dpopProof ≠ [] ∧
        w.validateDPoPProof q.dpopProof (tokenEndpoint w q.host) = .ok old.dpopJkt) := by
    apply imp_congr_right
    intro hbound
    by_cases hproof : q.dpopProof = []
    · rw [hr.unproved hproof]
      exact ⟨fun he => absurd he.symm hbound, fun hp => absurd hproof hp.1⟩
    · rw [hr.proved hproof, Except.ok.injEq]
      exact ⟨fun he => ⟨hproof, he⟩, fun hp => hp.2⟩
  constructor
  · rintro ⟨app', old', claims', new', hc, hp, hs, hi, hissued, huser, hwithin, hbound⟩
    -- the request determines what was read, and one row is new
    obtain rfl := Option.some.inj (hr.client.symm.trans hc)
    obtain rfl := Option.some.inj (hr.presented.symm.trans hp)
    obtain rfl := Option.some.inj (hr.claimed.symm.trans hs)
    obtain rfl := (List.cons.inj (hr.issued.symm.trans hi)).1
    exact ⟨app, old, claims, hc, hp, hs, hissued, huser.1.symm.trans hr.organization,
      hscope.mp hwithin, hkey.mp hbound⟩
  · rintro ⟨app', old', claims', hc, hp, hs, hw⟩
    obtain rfl := Option.some.inj (hr.client.symm.trans hc)
    obtain rfl := Option.some.inj (hr.presented.symm.trans hp)
    obtain rfl := Option.some.inj (hr.claimed.symm.trans hs)
    have horg : new.organization = old.organization := hr.organization.trans hw.organization.symm
    exact ⟨app, old, claims, new, hc, hp, hs, hr.issued, hw.issuedTo, ⟨horg, hr.user⟩,
      hscope.mpr hw.scope, hkey.mpr hw.key⟩

namespace Sample

def builtInCert : Cert := ⟨utf8 "admin", utf8 "cert-built-in", utf8 "PEM"⟩

/-- Two applications of one organization, both under the built-in certificate. -/
def shop : Application :=
  ⟨utf8 "admin", utf8 "shop", utf8 "c1", utf8 "s1", utf8 "acme", [], utf8 "JWT", false, 3600,
    [utf8 "refresh_token"], false, false⟩

def blog : Application :=
  ⟨utf8 "admin", utf8 "blog", utf8 "c2", utf8 "s2", utf8 "acme", [], utf8 "JWT", false, 3600,
    [utf8 "refresh_token"], false, false⟩

def shopToken : Token where
  owner := utf8 "admin"
  name := utf8 "t1"
  createdTime := []
  application := utf8 "shop"
  organization := utf8 "acme"
  user := utf8 "ana"
  code := utf8 "k1"
  accessToken := utf8 "at1"
  refreshToken := utf8 "rt1"
  accessTokenHash := getTokenHash (utf8 "at1")
  refreshTokenHash := getTokenHash (utf8 "rt1")
  expiresIn := 3600
  scope := utf8 "read"
  tokenType := utf8 "Bearer"
  grantType := []
  codeChallenge := []
  codeIsUsed := true
  codeExpireIn := 0
  resource := []
  dpopJkt := []

def store : Tables :=
  ⟨[shop, blog], [shopToken], [⟨utf8 "acme", utf8 "ana", false⟩], [builtInCert]⟩

/-- Tokens whose payload is that of the user of the shop, and no proofs of keys. -/
def library : World where
  parseUnverified _ := .ok ⟨utf8 "acme", utf8 "ana", utf8 "read", utf8 "c1", [utf8 "c1"]⟩
  parseJwtToken _ _ := .ok ⟨utf8 "acme", utf8 "ana", utf8 "read", utf8 "c1", [utf8 "c1"]⟩
  parseStandardJwtToken _ _ := .error (utf8 "token is malformed")
  extendUser _ := .ok ()
  generateJwtToken _ _ _ _ := .ok ⟨utf8 "at2", utf8 "rt2", utf8 "t2"⟩
  validateDPoPProof _ _ := .error (utf8 "invalid DPoP proof JWT format")
  originBackend host := utf8 "https://" ++ host
  currentTime := utf8 "2024-01-01T00:00:00Z"
  generateClientId := utf8 "k2"

def refreshBy (a : Application) : RefreshRequest :=
  ⟨some a, utf8 "refresh_token", utf8 "rt1", [], a.clientId, a.clientSecret, utf8 "host", []⟩

theorem refreshBy_ok {a : Application}
    (h : ((refreshToken library (refreshBy a)).call store).1.isOk = true) :
    ∃ wrapper t', (refreshToken library (refreshBy a)).call store = (.ok wrapper, t') := by
  rcases hcall : (refreshToken library (refreshBy a)).call store with ⟨⟨err⟩ | ⟨wrapper⟩, t'⟩
  · rw [hcall] at h
    cases h
  · exact ⟨wrapper, t', rfl⟩

theorem presented_store : getTokenByRefreshToken store (utf8 "rt1") = some shopToken := by
  decide +kernel

end Sample

/-- The shop refreshes its own token. -/
theorem refresh_keepsBinding_own : ∃ t',
    KeepsBinding Sample.library (Sample.refreshBy Sample.shop) Sample.store t' := by
  obtain ⟨wrapper, t', hcall⟩ := Sample.refreshBy_ok (a := Sample.shop) (by decide +kernel)
  refine ⟨t', (refresh_keepsBinding_iff hcall).mpr ⟨Sample.shop, Sample.shopToken, _, rfl,
    Sample.presented_store, rfl, ⟨rfl, rfl⟩, rfl, ?_, fun h => absurd rfl h⟩⟩
  intro s hs
  cases hs

/-- The blog is given a token of its own for the refresh token of the shop. -/
theorem refreshed_by_other_application : ∃ wrapper t',
    (refreshToken Sample.library (Sample.refreshBy Sample.blog)).call Sample.store =
      (.ok wrapper, t') ∧
    ¬KeepsBinding Sample.library (Sample.refreshBy Sample.blog) Sample.store t' := by
  obtain ⟨wrapper, t', hcall⟩ := Sample.refreshBy_ok (a := Sample.blog) (by decide +kernel)
  refine ⟨wrapper, t', hcall, ?_⟩
  rintro ⟨app, old, claims, new, happ, hold, -, -, ⟨-, hname⟩, -⟩
  obtain rfl : Sample.blog = app := Option.some.inj happ
  obtain rfl : Sample.shopToken = old :=
    Option.some.inj (Sample.presented_store.symm.trans hold)
  exact absurd hname (by decide +kernel)

end ArchGuard.Object
