import ArchGuard.OidcSite
import ArchGuard.TokenGrants

/-! The end of a session and the refresh tokens derived from it: they are revoked in one
organization only, and a code that is still out starts a new family. -/
namespace ArchGuard.Oidc
open ReadCommitted TransitionRun
open Tenancy (sessionAt)

def SessionQuiet (sessionId : Uuid) (s : Site) : Prop :=
  ∀ t ∈ tokens s.oidc, t.sessionId = sessionId → t.status ≠ .active

def StartsFamily (cfg : Config) (sessionId : Uuid) (s : Site) (op : SiteOp) : Prop :=
  ∃ codeSecret redirectURI codeVerifier now draw code,
    op = .exchange codeSecret redirectURI codeVerifier now draw ∧ code.sessionId = sessionId ∧
      Redeemable cfg.authCode.refreshTTL s.oidc codeSecret redirectURI codeVerifier now draw code

section Rows

variable {db : Db} {t : RefreshToken}

theorem mem_tokens_mapRows {f : (k : Key) → Row k → Row k} {g : RefreshToken → RefreshToken}
    (hg : ∀ id (r : Row (.token id)), (f (.token id) r).1 = g r.1)
    (h : t ∈ tokens (db.mapRows f)) : ∃ r ∈ tokens db, t = g r := by
  rw [mem_tokens, Store.mapRows_row] at h
  obtain ⟨v, hv, ht⟩ := Option.map_eq_some_iff.mp h
  refine ⟨v.1, mem_tokens_of_row hv, ?_⟩
  rw [← hg, ht]

theorem mem_revokeFamily {org familyId : Uuid} (h : t ∈ tokens (revokeFamily db org familyId)) :
    ∃ r ∈ tokens db, t = revokeInFamily org familyId r := by
  refine mem_tokens_mapRows ?_ h
  intro id r
  rfl

theorem mem_revokeBySession {org sessionId : Uuid}
    (h : t ∈ tokens (revokeBySession db org sessionId)) :
    ∃ r ∈ tokens db, t = revokeOfSession org sessionId r := by
  refine mem_tokens_mapRows ?_ h
  intro id r
  rfl

theorem revokeInFamily_active {org familyId : Uuid} {r : RefreshToken}
    (h : (revokeInFamily org familyId r).status = .active) : revokeInFamily org familyId r = r := by
  by_cases hc : r.familyId = familyId ∧ r.organizationId = org ∧ r.status ≠ .revoked
  · rw [revokeInFamily, if_pos hc] at h
    cases h
  · rw [revokeInFamily, if_neg hc]

theorem revokeOfSession_active {org sessionId : Uuid} {r : RefreshToken}
    (h : (revokeOfSession org sessionId r).status = .active) :
    revokeOfSession org sessionId r = r ∧ (r.sessionId = sessionId → r.organizationId ≠ org) := by
  by_cases hc : r.sessionId = sessionId ∧ r.organizationId = org ∧ r.status ≠ .revoked
  · rw [revokeOfSession, if_pos hc] at h
    cases h
  · rw [revokeOfSession, if_neg hc] at h ⊢
    refine ⟨rfl, fun hs ho => hc ⟨hs, ho, ?_⟩⟩
    rw [h]
    simp

theorem mem_redeemedRows {refreshTTL : Duration} {now : Time} {draw : Draw}
    {code : AuthorizationCode} (h : t ∈ tokens (redeemedRows refreshTTL db now draw code)) :
    t = (familyStart refreshTTL now draw code).stored ∨ t ∈ tokens db := by
  rcases mem_tokens_set h with rfl | h
  · exact Or.inl rfl
  · exact Or.inr (mem_tokens_set_code.mp h)

theorem familyStart_mem {refreshTTL : Duration} {now : Time} {draw : Draw}
    {code : AuthorizationCode} :
    (familyStart refreshTTL now draw code).stored ∈
      tokens (redeemedRows refreshTTL db now draw code) := by
  rw [mem_tokens]
  exact Store.set_row_self ..

theorem mem_rotatedRows {tok : RefreshToken} {newExpiry : Time} {draw : Draw}
    (h : t ∈ tokens (rotatedRows db tok newExpiry draw)) :
    t = (successor tok newExpiry draw).stored ∨ t.status = .rotated ∨ t ∈ tokens db := by
  rcases mem_tokens_set h with rfl | h
  · exact Or.inl rfl
  rcases mem_tokens_set h with rfl | h
  · exact Or.inr (Or.inl rfl)
  · exact Or.inr (Or.inr h)

end Rows

section Steps

variable {cfg : Config} {s : Site} {op : SiteOp} {sessionId : Uuid}

/-- Where the active tokens of a session come from: they were active before the call, or
descend from one that was, or begin a family for a code of the session. -/
theorem active_of_after {t : RefreshToken} (ht : t ∈ tokens (s.after cfg op).oidc)
    (ha : t.status = .active) :
    (∃ r ∈ tokens s.oidc, r.status = .active ∧ r.sessionId = t.sessionId) ∨
      StartsFamily cfg t.sessionId s op := by
  have hkept (h : t ∈ tokens s.oidc) :
      ∃ r ∈ tokens s.oidc, r.status = .active ∧ r.sessionId = t.sessionId := ⟨t, h, ha, rfl⟩
  cases op with
  | establishSession q => exact Or.inl (hkept ht)
  | selectTenant identityId id m => exact Or.inl (hkept ht)
  | switchTenant identityId id dest => exact Or.inl (hkept ht)
  | authorize q now draw =>
    simp only [Site.after] at ht
    rcases authorize_cases cfg.registry cfg.codeTTL s.tenancy s.oidc q now draw with
      ⟨client, code, -, -, -, -, -, -, hres⟩ | ⟨hres, -⟩
    · rw [hres] at ht
      exact Or.inl (hkept (mem_tokens_set_code.mp ht))
    · rw [hres] at ht
      exact Or.inl (hkept ht)
  | exchange codeSecret redirectURI codeVerifier now draw =>
    simp only [Site.after] at ht
    rcases exchange_cases (cfg.deps s.tenancy) cfg.authCode s.oidc codeSecret redirectURI
      codeVerifier now draw with ⟨code, hred, hres⟩ | ⟨-, e, hres⟩
    · rw [hres] at ht
      rcases mem_redeemedRows ht with rfl | ht
      · exact Or.inr ⟨codeSecret, redirectURI, codeVerifier, now, draw, code, rfl, rfl, hred⟩
      · exact Or.inl (hkept ht)
    · rw [hres] at ht
      exact Or.inl (hkept ht)
  | refresh presentedSecret now draw =>
    simp only [Site.after] at ht
    rcases refresh_cases (cfg.deps s.tenancy) cfg.refresh s.oidc presentedSecret now draw with
      ⟨tok, hrot, hres⟩ | ⟨-, ⟨tok, hres⟩ | ⟨e, hres⟩⟩
    · rw [hres] at ht
      rcases mem_rotatedRows ht with rfl | hst | ht
      · exact Or.inl ⟨tok, mem_tokens.mpr (tokenByHash_mem hrot.found).1, hrot.active, rfl⟩
      · rw [ha] at hst
        cases hst
      · exact Or.inl (hkept ht)
    · rw [hres] at ht
      obtain ⟨r, hr, rfl⟩ := mem_revokeFamily ht
      have hsame := revokeInFamily_active ha
      rw [hsame] at ha ⊢
      exact Or.inl ⟨r, hr, ha, rfl⟩
    · rw [hres] at ht
      exact Or.inl (hkept ht)
  | revokeSession org id =>
    obtain ⟨r, hr, rfl⟩ := mem_revokeBySession ht
    have hsame := (revokeOfSession_active ha).1
    rw [hsame] at ha ⊢
    exact Or.inl ⟨r, hr, ha, rfl⟩

theorem sessionQuiet_step (h : SessionQuiet sessionId s) :
    SessionQuiet sessionId (s.after cfg op) ↔ ¬StartsFamily cfg sessionId s op := by
  constructor
  · rintro hafter ⟨codeSecret, redirectURI, codeVerifier, now, draw, code, rfl, rfl, hred⟩
    rcases exchange_cases (cfg.deps s.tenancy) cfg.authCode s.oidc codeSecret redirectURI
      codeVerifier now draw with ⟨c, hc, hres⟩ | ⟨hno, -⟩
    · obtain rfl : c = code := Option.some.inj (hc.found.symm.trans hred.found)
      refine hafter (familyStart cfg.authCode.refreshTTL now draw c).stored ?_ rfl rfl
      simp only [Site.after]
      rw [hres]
      exact familyStart_mem
    · exact hno code hred
  · rintro hno t ht rfl ha
    rcases active_of_after ht ha with ⟨r, hr, hract, hsid⟩ | hstart
    · exact h r hr hsid hract
    · exact hno hstart

end Steps

/-- After the revocation no refresh token of the session is active, in any state of the run. -/
def RevocationReaches (cfg : Config) (s : Site) (org sessionId : Uuid) (ops : List SiteOp) : Prop :=
  ∀ pre post s', ops = pre ++ post → run (serve cfg) (revokeSession s org sessionId) pre = some s' →
    SessionQuiet sessionId s'

theorem sessionQuiet_revokeSession {s : Site} {org sessionId : Uuid} :
    SessionQuiet sessionId (revokeSession s org sessionId) ↔
      ∀ t ∈ tokens s.oidc, t.sessionId = sessionId → t.status = .active → t.organizationId = org := by
  constructor
  · intro h t ht hs ha
    by_contra ho
    -- the row is not in the WHERE clause, and stays as it is
    have hsame : revokeOfSession org sessionId t = t := by
      rw [revokeOfSession, if_neg fun hc => ho hc.2.1]
    have hmem : t ∈ tokens (revokeSession s org sessionId).oidc := by
      rw [mem_tokens_iff_val] at ht ⊢
      obtain ⟨v, hv, hvt⟩ := Option.map_eq_some_iff.mp ht
      change ((s.oidc.row (.token t.id)).map (revokeSessionToken org sessionId)).map Subtype.val = _
      rw [hv, Option.map_some, Option.map_some]
      change some (revokeOfSession org sessionId v.1) = some t
      rw [hvt, hsame]
    exact h t hmem hs ha
  · rintro h t ht hs ha
    obtain ⟨r, hr, rfl⟩ := mem_revokeBySession ht
    obtain ⟨hsame, hother⟩ := revokeOfSession_active ha
    rw [hsame] at hs ha
    exact hother hs (h r hr hs ha)

/-- The revocation of a session in the tenant `org` reaches its refresh tokens exactly when its
active ones all belong to that tenant, and no code of the session is redeemed afterwards. -/
theorem revocationReaches_iff (cfg : Config) (s : Site) (org sessionId : Uuid) (ops : List SiteOp) :
    RevocationReaches cfg s org sessionId ops ↔
      (∀ t ∈ tokens s.oidc, t.sessionId = sessionId → t.status = .active → t.organizationId = org) ∧
        Along (serve cfg) (fun s op => ¬StartsFamily cfg sessionId s op)
          (revokeSession s org sessionId) ops := by
  rw [← sessionQuiet_revokeSession]
  have hstays (hq : SessionQuiet sessionId (revokeSession s org sessionId)) :
      RevocationReaches cfg s org sessionId ops ↔
        Along (serve cfg) (fun s op => ¬StartsFamily cfg sessionId s op)
          (revokeSession s org sessionId) ops := by
    refine stays_iff_along (serve_total cfg) ?_ hq
    intro u op u' hu he
    exact Option.some.inj he ▸ sessionQuiet_step hu
  constructor
  · intro h
    have hq : SessionQuiet sessionId (revokeSession s org sessionId) := h [] ops _ rfl rfl
    exact ⟨hq, (hstays hq).mp h⟩
  · intro ⟨hq, hal⟩
    exact (hstays hq).mpr hal

/-- A family is started in one tenant, and the session is revoked in the next: the token of the
first stays active. -/
theorem token_outlives_session :
    ∃ s, run (serve Sample.config) Sample.site [Sample.askCode, Sample.redeemCode, Sample.toSecond] =
        some s ∧
      (sessionAt s.tenancy 7).any (fun r => r.session.organizationId = some 5) = true ∧
      ¬RevocationReaches Sample.config s 5 7 [] := by
  have hrun : (run (serve Sample.config) Sample.site
      [Sample.askCode, Sample.redeemCode, Sample.toSecond]).any (fun s =>
        (sessionAt s.tenancy 7).any (fun r => r.session.organizationId = some 5) &&
          (tokens (revokeSession s 5 7).oidc).any fun t =>
            t.sessionId = 7 && t.status = .active) = true := by
    decide +kernel
  obtain ⟨s, hs, hboth⟩ := (Option.any_eq_true _ _).mp hrun
  obtain ⟨hsession, htoken⟩ := Bool.and_eq_true_iff.mp hboth
  obtain ⟨t, ht, hact⟩ := List.any_eq_true.mp htoken
  obtain ⟨hsid, hst⟩ := Bool.and_eq_true_iff.mp hact
  refine ⟨s, hs, hsession, fun h => ?_⟩
  exact h [] [] _ rfl rfl t ht (of_decide_eq_true hsid) (of_decide_eq_true hst)

end ArchGuard.Oidc
