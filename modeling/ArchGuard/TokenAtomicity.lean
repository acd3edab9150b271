import ArchGuard.OidcSite
import ArchGuard.TokenGrants

/-! A grant that fails after its transaction: the credential is spent, and the access token
was not issued. -/
namespace ArchGuard.Oidc
open ReadCommitted

/-- A refresh that answers an error other than reuse leaves its credential as it was, makes
no token active, and is not answered as a reuse when the token was active and is presented
again. -/
def RefreshAtomic (cfg : Config) (s : Site) (presentedSecret : String) (now : Time) (draw : Draw) :
    Prop :=
  ∀ e db', cfg.refresh.refresh (cfg.deps s.tenancy) s.oidc presentedSecret now draw = (.error e, db') →
    e ≠ .refreshReuse →
    tokenByHash db' (hashRefreshToken presentedSecret) =
        tokenByHash s.oidc (hashRefreshToken presentedSecret) ∧
      (∀ t ∈ tokens db', t.status = .active → t ∈ tokens s.oidc) ∧
      ∀ tok, tokenByHash s.oidc (hashRefreshToken presentedSecret) = some tok → tok.status = .active →
        ∀ tenancy now' draw', (cfg.refresh.refresh (cfg.deps tenancy) db' presentedSecret now' draw').1 ≠
          .error .refreshReuse

/-- The same of a redemption: a code that was unused and is presented again before it expires
is not answered as used. -/
def ExchangeAtomic (cfg : Config) (s : Site) (codeSecret redirectURI codeVerifier : String)
    (now : Time) (draw : Draw) : Prop :=
  ∀ e db', cfg.authCode.exchange (cfg.deps s.tenancy) s.oidc codeSecret redirectURI codeVerifier now
      draw = (.error e, db') →
    e ≠ .refreshReuse →
    codeByHash db' (hashAuthCode codeSecret) = codeByHash s.oidc (hashAuthCode codeSecret) ∧
      (∀ t ∈ tokens db', t.status = .active → t ∈ tokens s.oidc) ∧
      ∀ code, codeByHash s.oidc (hashAuthCode codeSecret) = some code → code.used = false →
        ∀ tenancy now' draw', now' < code.expiresAt →
          (cfg.authCode.exchange (cfg.deps tenancy) db' codeSecret redirectURI codeVerifier now'
            draw').1 ≠ .error .authCodeExpiredOrUsed

/-- What holds of the error of a check and of every error after it. -/
theorem errors_ite {α : Type} {P : OidcError → Prop} {p : Prop} [Decidable p] {e : OidcError}
    {x : Except OidcError α} (he : P e) (hx : ∀ e', x = .error e' → P e') :
    ∀ e', (if p then .error e else x) = .error e' → P e' := by
  intro e' h
  split_ifs at h
  · exact Except.error.inj h ▸ he
  · exact hx e' h

def OwnText (e : OidcError) : Prop := ∃ text, e = .other text

theorem wellFormed_error (c : OIDCClaims) : ∀ e, c.wellFormed = .error e → OwnText e := by
  unfold OIDCClaims.wellFormed
  iterate 11 refine errors_ite ⟨_, rfl⟩ ?_
  intro e h
  cases h

theorem buildOIDCClaims_error (i : OIDCClaimsInput) :
    ∀ e, buildOIDCClaims i = .error e → OwnText e := by
  unfold buildOIDCClaims
  iterate 3 refine errors_ite ⟨_, rfl⟩ ?_
  intro e h
  split at h
  · exact ⟨_, (Except.error.inj h).symm⟩
  split at h
  · rename_i err herr
    exact Except.error.inj h ▸ wellFormed_error _ err herr
  · cases h

section Issue

variable {cfg : Config} {tenancy : Tenancy.Db} {org sessionId : Uuid} {audience : String}
  {scopes : List String} {now : Time} {e : OidcError}

theorem issue_error (h : cfg.issuer.issue tenancy org sessionId audience scopes now = .error e) :
    OwnText e := by
  unfold TokenIssuer.issue at h
  split at h
  · rename_i err herr
    obtain rfl := Except.error.inj h
    unfold TokenIssuer.issueAccessToken at herr
    split at herr
    · exact ⟨_, (Except.error.inj herr).symm⟩
    split at herr
    · exact ⟨_, (Except.error.inj herr).symm⟩
    split at herr
    · rename_i err' herr'
      exact Except.error.inj herr ▸ buildOIDCClaims_error _ err' herr'
    split at herr
    · exact ⟨_, (Except.error.inj herr).symm⟩
    · cases herr
  · cases h

theorem issue_ok_iff : (∃ a, cfg.issuer.issue tenancy org sessionId audience scopes now = .ok a) ↔
    Issuable cfg.issuer tenancy org sessionId audience scopes "" now := by
  rw [issuable_iff]
  unfold TokenIssuer.issue
  cases cfg.issuer.issueAccessToken tenancy org sessionId audience scopes "" now <;> simp

end Issue

section Refresh

variable {cfg : Config} {s : Site} {presentedSecret : String} {now : Time} {draw : Draw}

theorem not_mem_rotatedRows {db : Db} {tok : RefreshToken} {newExpiry : Time}
    (hrow : db.row (.token tok.id) = some ⟨tok, rfl⟩) (hf : draw.Fresh db)
    (ha : tok.status = .active) : tok ∉ tokens (rotatedRows db tok newExpiry draw) := by
  intro hmem
  have hne := hf.id_ne hrow
  rw [mem_tokens, rotatedRows, Store.set_row_of_ne _ _ _ _ (by simpa using hne),
    Store.set_row_self] at hmem
  have hst := congrArg RefreshToken.status (congrArg Subtype.val (Option.some.inj hmem))
  rw [ha] at hst
  cases hst

theorem refreshAtomic_iff :
    RefreshAtomic cfg s presentedSecret now draw ↔
      ∀ tok, Rotatable cfg.refresh s.oidc presentedSecret now draw tok →
        Issuable cfg.issuer s.tenancy tok.organizationId tok.sessionId cfg.refresh.audience
          cfg.refresh.scopes "" now := by
  rcases refresh_cases (cfg.deps s.tenancy) cfg.refresh s.oidc presentedSecret now draw with
    ⟨tok, hrot, hres⟩ | ⟨hno, hres⟩
  · have honly (t : RefreshToken) (h : Rotatable cfg.refresh s.oidc presentedSecret now draw t) :
        t = tok := Option.some.inj (h.found.symm.trans hrot.found)
    constructor
    · intro h t ht
      obtain rfl := honly t ht
      by_contra hnot
      cases hi : cfg.issuer.issue s.tenancy t.organizationId t.sessionId cfg.refresh.audience
          cfg.refresh.scopes now with
      | ok a => exact hnot (issue_ok_iff.mp ⟨a, hi⟩)
      | error e =>
        obtain ⟨text, rfl⟩ := issue_error hi
        change _ = (answer draw.secret (cfg.issuer.issue s.tenancy t.organizationId t.sessionId
          cfg.refresh.audience cfg.refresh.scopes now), _) at hres
        rw [hi] at hres
        obtain ⟨hsame, -⟩ := h (.other text) _ hres (by simp)
        rw [hrot.found] at hsame
        exact not_mem_rotatedRows (tokenByHash_mem hrot.found).1 hrot.fresh hrot.active
          (List.mem_of_find?_eq_some hsame)
    · intro h e db' herr
      obtain ⟨a, ha⟩ := issue_ok_iff.mpr (h tok hrot)
      change _ = (answer draw.secret (cfg.issuer.issue s.tenancy tok.organizationId tok.sessionId
        cfg.refresh.audience cfg.refresh.scopes now), _) at hres
      rw [hres, ha] at herr
      cases herr
  · refine ⟨fun _ tok h => absurd h (hno tok), fun _ e db' herr hne => ?_⟩
    rcases hres with ⟨tok, hres⟩ | ⟨e', hres⟩
    · rw [hres] at herr
      exact absurd (Except.error.inj (Prod.mk.inj herr).1).symm hne
    · rw [hres] at herr
      obtain ⟨-, rfl⟩ := Prod.mk.inj herr
      refine ⟨rfl, fun t ht _ => ht, fun tok hf ha tenancy now' draw' => ?_⟩
      apply refresh_active_ne_reuse hf ha
      intro org sid audience scopes now hreuse
      obtain ⟨text, htext⟩ := issue_error hreuse
      cases htext

end Refresh

section Redemption

variable {cfg : Config} {s : Site} {codeSecret redirectURI codeVerifier : String} {now : Time}
  {draw : Draw}

theorem lookup_error {clientID : String} {e : OidcError}
    (h : (cfg.deps s.tenancy).lookup clientID = .error e) : OwnText e := by
  change (cfg.registry.lookup clientID).map OIDCClient.toClient = .error e at h
  unfold ClientRegistry.lookup at h
  split at h
  · cases h
  · exact ⟨_, (Except.error.inj h).symm⟩

theorem issueForCode_error {code : AuthorizationCode} {e : OidcError}
    (h : issueForCode (cfg.deps s.tenancy) code now = .error e) : OwnText e := by
  unfold issueForCode at h
  split at h
  · rename_i err herr
    exact Except.error.inj h ▸ lookup_error herr
  · exact issue_error h

theorem issueForCode_ok_iff {code : AuthorizationCode} :
    (∃ a, issueForCode (cfg.deps s.tenancy) code now = .ok a) ↔
      ∃ client, cfg.registry.lookup code.clientId = .ok client ∧
        Issuable cfg.issuer s.tenancy code.organizationId code.sessionId client.audience
          client.allowedScopes "" now := by
  have hlookup : (cfg.deps s.tenancy).lookup code.clientId =
      (cfg.registry.lookup code.clientId).map OIDCClient.toClient := rfl
  unfold issueForCode
  rw [hlookup]
  cases cfg.registry.lookup code.clientId with
  | error e => simp [Except.map]
  | ok client =>
    simp only [Except.map, Except.ok.injEq, exists_eq_left']
    exact issue_ok_iff

theorem redeemAndStartFamily_ne_used {refreshTTL : Duration} {db : Db} {code : AuthorizationCode}
    (hf : codeByHash db (hashAuthCode codeSecret) = some code) (hu : code.used = false)
    (hexp : now < code.expiresAt) :
    redeemAndStartFamily refreshTTL db code.organizationId codeSecret redirectURI codeVerifier now
      draw ≠ .error .authCodeExpiredOrUsed := by
  obtain ⟨hrow, -⟩ := codeByHash_mem hf
  have hredeem : ∀ e, code.redeem redirectURI codeVerifier now = .error e →
      e ≠ .authCodeExpiredOrUsed := by
    have hfirst : ¬((code.used : Prop) ∨ (!decide (now < code.expiresAt)) = true) := by
      simp [hu, hexp]
    unfold AuthorizationCode.redeem
    rw [if_neg hfirst]
    iterate 2 refine errors_ite (by simp) ?_
    intro e h
    cases h
  have hmark : markUsed db code.organizationId code.id =
      .ok (db.set (.code code.id) (some ⟨{ code with used := true }, rfl⟩)) := by
    simp only [markUsed, hrow, hu, and_self, ↓reduceIte]
  have hnew : ∀ e, newRefreshFamily draw.familyId draw.id code.sessionId code.organizationId
      (hashRefreshToken draw.secret) (now+refreshTTL) = .error e → e ≠ .authCodeExpiredOrUsed := by
    unfold newRefreshFamily newRefreshToken
    iterate 3 refine errors_ite (by simp) ?_
    intro e h
    cases h
  have hcreate (db₁ : Db) (rt : RefreshToken) : ∀ e,
      createToken db₁ code.organizationId rt = .error e → e ≠ .authCodeExpiredOrUsed := by
    unfold createToken
    iterate 2 refine errors_ite (by simp) ?_
    intro e h
    cases h
  intro h
  simp only [redeemAndStartFamily, getCodeByHash_of_codeByHash hf, hmark, bind, Except.bind, pure,
    Except.pure] at h
  split at h
  · rename_i e he
    exact hredeem e he (Except.error.inj h)
  split at h
  · rename_i e he
    exact hnew e he (Except.error.inj h)
  split at h
  · rename_i e he
    exact hcreate _ _ e he (Except.error.inj h)
  · cases h

theorem exchange_usable_ne_used {db : Db} {code : AuthorizationCode}
    (hf : codeByHash db (hashAuthCode codeSecret) = some code) (hu : code.used = false)
    (hexp : now < code.expiresAt) :
    (cfg.authCode.exchange (cfg.deps s.tenancy) db codeSecret redirectURI codeVerifier now draw).1 ≠
      .error .authCodeExpiredOrUsed := by
  rcases exchange_cases (cfg.deps s.tenancy) cfg.authCode db codeSecret redirectURI codeVerifier now
    draw with ⟨c, -, hres⟩ | ⟨hno, -⟩
  · rw [hres]
    cases hi : issueForCode (cfg.deps s.tenancy) c now with
    | ok a => simp [answer, Except.map]
    | error e =>
      obtain ⟨text, rfl⟩ := issueForCode_error hi
      simp [answer, Except.map]
  · unfold AuthCodeGrant.exchange resolveAuthCodeOrg
    simp only [hf]
    by_cases hn : code.organizationId = Uuid.nil
    · simp [hn]
    rw [if_neg hn]
    cases hx : redeemAndStartFamily cfg.authCode.refreshTTL db code.organizationId codeSecret
        redirectURI codeVerifier now draw with
    | error e =>
      intro h
      obtain rfl : e = .authCodeExpiredOrUsed := Except.error.inj h
      exact redeemAndStartFamily_ne_used hf hu hexp hx
    | ok p =>
      obtain ⟨⟨ht, hs, hr, he, hfr⟩, -⟩ := (redeemAndStartFamily_found hf).mp hx
      exact absurd ⟨hf, ht, hs, hr, he, hfr⟩ (hno code)

/-- A redemption is atomic exactly when its transaction is refused, or the client is registered
and the access token can be issued after it. -/
theorem exchangeAtomic_iff :
    ExchangeAtomic cfg s codeSecret redirectURI codeVerifier now draw ↔
      ∀ code, Redeemable cfg.authCode.refreshTTL s.oidc codeSecret redirectURI codeVerifier now draw
          code →
        ∃ client, cfg.registry.lookup code.clientId = .ok client ∧
          Issuable cfg.issuer s.tenancy code.organizationId code.sessionId client.audience
            client.allowedScopes "" now := by
  rcases exchange_cases (cfg.deps s.tenancy) cfg.authCode s.oidc codeSecret redirectURI codeVerifier
    now draw with ⟨code, hred, hres⟩ | ⟨hno, e', hres⟩
  · have honly (c : AuthorizationCode) (h : Redeemable cfg.authCode.refreshTTL s.oidc codeSecret
        redirectURI codeVerifier now draw c) : c = code :=
      Option.some.inj (h.found.symm.trans hred.found)
    constructor
    · intro h c hc
      obtain rfl := honly c hc
      by_contra hnot
      cases hi : issueForCode (cfg.deps s.tenancy) c now with
      | ok a => exact hnot (issueForCode_ok_iff.mp ⟨a, hi⟩)
      | error e =>
        obtain ⟨text, rfl⟩ := issueForCode_error hi
        rw [hi] at hres
        obtain ⟨hsame, -⟩ := h (.other text) _ hres (by simp)
        rw [hred.found] at hsame
        -- the row of the code is marked used
        obtain ⟨hrow, -⟩ := codeByHash_mem hsame
        rw [redeemedRows, Store.set_row_of_ne _ _ _ _ (by simp), Store.set_row_self] at hrow
        have hused := congrArg AuthorizationCode.used (congrArg Subtype.val (Option.some.inj hrow))
        rw [((c.redeem_ok_iff _ _ _).mp hred.redeems).1] at hused
        cases hused
    · intro h e db' herr
      obtain ⟨a, ha⟩ := issueForCode_ok_iff.mpr (h code hred)
      rw [hres, ha] at herr
      cases herr
  · refine ⟨fun _ code h => absurd h (hno code), fun _ e db' herr _ => ?_⟩
    rw [hres] at herr
    obtain ⟨-, rfl⟩ := Prod.mk.inj herr
    refine ⟨rfl, fun t ht _ => ht, fun code hf hu tenancy now' draw' hexp => ?_⟩
    exact exchange_usable_ne_used (s := ⟨tenancy, s.oidc⟩) hf hu hexp

end Redemption

/-- The token endpoint is atomic exactly where its transaction is refused or the access token
can be issued after the commit. -/
theorem tokenEndpoint_atomic_iff (cfg : Config) (s : Site) (now : Time) (draw : Draw) :
    (∀ presentedSecret, RefreshAtomic cfg s presentedSecret now draw ↔
      ∀ tok, Rotatable cfg.refresh s.oidc presentedSecret now draw tok →
        Issuable cfg.issuer s.tenancy tok.organizationId tok.sessionId cfg.refresh.audience
          cfg.refresh.scopes "" now) ∧
    ∀ codeSecret redirectURI codeVerifier,
      ExchangeAtomic cfg s codeSecret redirectURI codeVerifier now draw ↔
        ∀ code, Redeemable cfg.authCode.refreshTTL s.oidc codeSecret redirectURI codeVerifier now
            draw code →
          ∃ client, cfg.registry.lookup code.clientId = .ok client ∧
            Issuable cfg.issuer s.tenancy code.organizationId code.sessionId client.audience
              client.allowedScopes "" now :=
  ⟨fun _ => refreshAtomic_iff, fun _ _ _ => exchangeAtomic_iff⟩

namespace Sample

/-- A refresh token of session 7, from the time it was in organization 1. -/
def heldToken : RefreshToken :=
  ⟨9, 8, 7, 1, hashRefreshToken "rt", .active, 3600*10^9+2*10^9⟩

def withToken : Site := ⟨memberOfTwo, Store.empty.set (.token 9) (some ⟨heldToken, rfl⟩)⟩

/-- The session has moved to its other organization. -/
def moved : Site := withToken.after config toSecond

example : (Tenancy.sessionAt moved.tenancy 7).any (fun r => r.session.organizationId = some 5) =
    true := by
  decide +kernel

def isReuse : Except OidcError RefreshResult → Bool
  | .error e => e = .refreshReuse
  | .ok _ => false

/-- A refresh fails, and the same token presented again is a reuse. -/
def failsThenReuse (s : Site) (presentedSecret : String) (now : Time) (draw : Draw) : Bool :=
  match config.refresh.refresh (config.deps s.tenancy) s.oidc presentedSecret now draw with
  | (.ok _, _) => false
  | (.error e, db') => e ≠ .refreshReuse &&
      isReuse (config.refresh.refresh (config.deps s.tenancy) db' presentedSecret now draw).1

end Sample

/-- The session has moved to another tenant: the refresh fails, and its retry is answered as a
reuse. -/
theorem retry_answered_as_reuse :
    ¬RefreshAtomic Sample.config Sample.moved "rt" (10^9) ⟨"rt2", 0, 10⟩ := by
  intro h
  have hfails : Sample.failsThenReuse Sample.moved "rt" (10^9) ⟨"rt2", 0, 10⟩ = true := by
    decide +kernel
  have hheld : tokenByHash Sample.moved.oidc (hashRefreshToken "rt") = some Sample.heldToken := by
    decide +kernel
  unfold Sample.failsThenReuse at hfails
  split at hfails
  · cases hfails
  rename_i e db' hres
  obtain ⟨hne, hreuse⟩ := Bool.and_eq_true_iff.mp hfails
  obtain ⟨-, -, hretry⟩ := h e db' hres (of_decide_eq_true hne)
  have hnot := hretry _ hheld rfl Sample.moved.tenancy (10^9) ⟨"rt2", 0, 10⟩
  unfold Sample.isReuse at hreuse
  split at hreuse
  · rename_i e' he'
    rw [he', of_decide_eq_true hreuse] at hnot
    exact hnot rfl
  · cases hreuse

end ArchGuard.Oidc
