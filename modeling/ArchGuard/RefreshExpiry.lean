import ArchGuard.OidcGrants

/-! The expiry verdict of a refresh: what `RefreshGrant.refresh` answers for a token
that one of the two grants stored earlier, as a function of the two instants. -/
namespace ArchGuard.Oidc
open ReadCommitted

/-- `tok` is the row that a grant with the given TTL stored at instant `t0`. -/
inductive IssuedAt (d : Deps) (ttl : Duration) (t0 : Time) (tok : RefreshToken) : Prop
  | authCode (g : AuthCodeGrant) (db : Db) (codeSecret redirectURI codeVerifier : String)
      (draw : Draw) (httl : g.refreshTTL = ttl) (hold : db.row (.token tok.id) = none)
      (hnew : (g.exchange d db codeSecret redirectURI codeVerifier t0 draw).2.row (.token tok.id) =
        some ⟨tok, rfl⟩)
  | refresh (g : RefreshGrant) (db : Db) (presentedSecret : String) (draw : Draw)
      (httl : g.refreshTTL = ttl) (hold : db.row (.token tok.id) = none)
      (hnew : (g.refresh d db presentedSecret t0 draw).2.row (.token tok.id) = some ⟨tok, rfl⟩)

/-- The shape of a stored token: active, and expiring one TTL after `t0`. -/
structure Issued (ttl : Duration) (t0 : Time) (tok : RefreshToken) : Prop where
  active : tok.status = .active
  expiresAt : tok.expiresAt = (t0+ttl).stored
  sessionId : tok.sessionId ≠ Uuid.nil
  organizationId : tok.organizationId ≠ Uuid.nil
  expiry : t0+ttl ≠ Time.zero

theorem set_token_row {db : Db} {k : Uuid} {v : Option (Row (.token k))} {r : RefreshToken}
    (hold : db.row (.token r.id) = none)
    (hnew : (db.set (.token k) v).row (.token r.id) = some ⟨r, rfl⟩) :
    ∃ h : r.id = k, v = some ⟨r, h⟩ := by
  by_cases hk : r.id = k
  · subst hk
    exact ⟨rfl, by simpa only [Store.set_row_self] using hnew⟩
  · rw [db.set_row_of_ne _ _ _ (by simpa using hk), hold] at hnew
    cases hnew

/-- What the two grants have in common: `createToken` of a token that
`newRefreshToken` accepted, over rows that do not hold the id. -/
theorem issued_of_create {db db' : Db} {org id familyId sessionId organizationId : Uuid}
    {hash : Bytes} {ttl : Duration} {t0 : Time} {r tok : RefreshToken}
    (hr : newRefreshToken id familyId sessionId organizationId hash (t0+ttl) = .ok r)
    (hc : createToken db org r = .ok db') (hold : db.row (.token tok.id) = none)
    (hnew : db'.row (.token tok.id) = some ⟨tok, rfl⟩) : Issued ttl t0 tok := by
  obtain ⟨hrow, hs, ho, he⟩ := newRefreshToken_ok hr
  subst hrow
  rw [createToken_ok hc] at hnew
  obtain ⟨hid, htok⟩ := set_token_row hold hnew
  have hval : tok = RefreshToken.stored ⟨id, familyId, sessionId, organizationId, hash, .active,
      t0+ttl⟩ := (congrArg Subtype.val (Option.some.inj htok)).symm
  rw [hval]
  exact ⟨rfl, rfl, hs, ho, he⟩

theorem setStatus_row_none {db db' : Db} {org id : Uuid} {status : RefreshTokenStatus} {k : Uuid}
    (h : setStatus db org id status = .ok db') (hk : db.row (.token k) = none) :
    db'.row (.token k) = none := by
  unfold setStatus at h
  split at h
  · rename_i r hr
    split_ifs at h
    cases h
    have hne : k ≠ id := fun he => by rw [he, hr] at hk; cases hk
    rw [db.set_row_of_ne _ _ _ (by simpa using hne)]
    exact hk
  · cases h

theorem markUsed_token_row {db db' : Db} {org id : Uuid} (h : markUsed db org id = .ok db')
    (k : Uuid) : db'.row (.token k) = db.row (.token k) := by
  unfold markUsed at h
  split at h
  · split_ifs at h
    cases h
    exact db.set_row_of_ne _ _ _ (by simp)
  · cases h

theorem exchange_issued {d : Deps} {org : Uuid} {db : Db} {presentedSecret : String}
    {ttl : Duration} {t0 : Time} {draw : Draw} {tok : RefreshToken}
    (hold : db.row (.token tok.id) = none)
    (hnew : (exchange d org db presentedSecret (t0+ttl) draw).2.row (.token tok.id) =
      some ⟨tok, rfl⟩) : Issued ttl t0 tok := by
  have hsame : ¬db.row (.token tok.id) = some ⟨tok, rfl⟩ := by
    rw [hold]
    exact Option.some_ne_none _ ∘ Eq.symm
  unfold exchange at hnew
  split at hnew
  · exact absurd hnew hsame
  split at hnew
  · split at hnew
    · exact absurd hnew hsame
    · simp only [revokeFamily, Store.mapRows, hold, Option.map_none, reduceCtorEq] at hnew
  split_ifs at hnew
  · exact absurd hnew hsame
  split at hnew
  · exact absurd hnew hsame
  · rename_i successor db' hrot
    obtain ⟨db₁, hs, h₁, hc⟩ := rotation_ok hrot
    unfold RefreshToken.rotate at hs
    split_ifs at hs
    exact issued_of_create hs hc (setStatus_row_none h₁ hold) hnew

theorem redeemAndStartFamily_ok {ttl : Duration} {db db' : Db} {org : Uuid}
    {codeSecret redirectURI codeVerifier : String} {now : Time} {draw : Draw}
    {code : AuthorizationCode}
    (h : redeemAndStartFamily ttl db org codeSecret redirectURI codeVerifier now draw =
      .ok (code, db')) :
    ∃ db₁ rt, markUsed db org code.id = .ok db₁ ∧
      newRefreshFamily draw.familyId draw.id code.sessionId org
        (hashRefreshToken draw.secret) (now+ttl) = .ok rt ∧ createToken db₁ org rt = .ok db' := by
  simp only [redeemAndStartFamily, bind, Except.bind, pure, Except.pure] at h
  split at h <;> try cases h
  split at h <;> try cases h
  split at h <;> try cases h
  rename_i db₁ h₁
  split at h <;> try cases h
  rename_i rt hrt
  split at h <;> cases h
  rename_i h₂
  exact ⟨db₁, rt, h₁, hrt, h₂⟩

/-- A row that appears during one of the two grants is a stored token of that instant. -/
theorem issued_of_issuedAt {d : Deps} {ttl : Duration} {t0 : Time} {tok : RefreshToken}
    (h : IssuedAt d ttl t0 tok) : Issued ttl t0 tok := by
  have hsame (db : Db) (hold : db.row (.token tok.id) = none) :
      ¬db.row (.token tok.id) = some ⟨tok, rfl⟩ := by
    rw [hold]
    exact Option.some_ne_none _ ∘ Eq.symm
  cases h with
  | authCode g db codeSecret redirectURI codeVerifier draw httl hold hnew =>
    subst httl
    have hdb : ∀ db' code org, redeemAndStartFamily g.refreshTTL db org codeSecret redirectURI
        codeVerifier t0 draw = .ok (code, db') → db'.row (.token tok.id) = some ⟨tok, rfl⟩ →
        Issued g.refreshTTL t0 tok := by
      intro db' code org hred hrow
      obtain ⟨db₁, rt, h₁, hrt, hc⟩ := redeemAndStartFamily_ok hred
      exact issued_of_create hrt hc ((markUsed_token_row h₁ _).trans hold) hrow
    unfold AuthCodeGrant.exchange at hnew
    split at hnew
    · exact absurd hnew (hsame db hold)
    split_ifs at hnew
    · exact absurd hnew (hsame db hold)
    split at hnew
    · exact absurd hnew (hsame db hold)
    rename_i code db' hred
    split at hnew
    · exact hdb db' code _ hred hnew
    split at hnew
    · exact hdb db' code _ hred hnew
    · exact hdb db' code _ hred hnew
  | refresh g db presentedSecret draw httl hold hnew =>
    subst httl
    cases ho : resolveRefreshTokenOrg db presentedSecret with
    | error e =>
      simp only [RefreshGrant.refresh, ho] at hnew
      exact absurd hnew (hsame db hold)
    | ok org =>
      by_cases hn : org = Uuid.nil
      · simp only [RefreshGrant.refresh, ho, hn, ↓reduceIte] at hnew
        exact absurd hnew (hsame db hold)
      · rw [refresh_rows ho hn] at hnew
        exact exchange_issued hold hnew

section Verdict

variable (d : Deps) (g : RefreshGrant) (db : Db) (secret : String) (now : Time) (draw : Draw)
  (tok : RefreshToken)

def Rotates : Prop :=
  (g.refresh d db secret now draw).2.row (.token tok.id) =
      some ⟨{ tok with status := .rotated }, rfl⟩ ∧
    ∃ successor : RefreshToken, successor.status = .active ∧ successor.familyId = tok.familyId ∧
      successor.tokenHash = hashRefreshToken draw.secret ∧
      (g.refresh d db secret now draw).2.row (.token successor.id) = some ⟨successor, rfl⟩

/-- The token is refused as expired and no row changes. -/
def RefusesExpired : Prop :=
  g.refresh d db secret now draw = (.error .refreshExpired, db)

/-- The verdict of the instant `now` itself. -/
def JudgedAtNow : Prop :=
  (now < tok.expiresAt → Rotates d g db secret now draw tok) ∧
    (tok.expiresAt ≤ now → RefusesExpired d g db secret now draw)

end Verdict

def successor (tok : RefreshToken) (newExpiry : Time) (draw : Draw) : RefreshToken :=
  ⟨draw.id, tok.familyId, tok.sessionId, tok.organizationId, hashRefreshToken draw.secret,
    .active, newExpiry⟩

/-- Draws that no stored token carries yet. -/
structure Draw.Fresh (db : Db) (draw : Draw) : Prop where
  id : db.row (.token draw.id) = none
  hash : ∀ r ∈ tokens db, r.tokenHash ≠ hashRefreshToken draw.secret

section Rotation

variable {db : Db} {tok : RefreshToken} {newExpiry : Time} {draw : Draw}

/-- The rows after a rotation of `tok`. -/
def rotatedRows (db : Db) (tok : RefreshToken) (newExpiry : Time) (draw : Draw) : Db :=
  (db.set (.token tok.id) (some ⟨{ tok with status := .rotated }, rfl⟩)).set (.token draw.id)
    (some ⟨(successor tok newExpiry draw).stored, rfl⟩)

variable (hf : draw.Fresh db) (hrow : db.row (.token tok.id) = some ⟨tok, rfl⟩)

include hf hrow

theorem Draw.Fresh.id_ne : tok.id ≠ draw.id := by
  intro h
  have hid := hf.id
  rw [← h, hrow] at hid
  cases hid

theorem rotation_of_fresh (ha : tok.status = .active) (hs : tok.sessionId ≠ Uuid.nil)
    (ho : tok.organizationId ≠ Uuid.nil) (he : newExpiry ≠ Time.zero) :
    rotation tok.organizationId db tok newExpiry draw =
      .ok (successor tok newExpiry draw, rotatedRows db tok newExpiry draw) := by
  have hrot : tok.rotate draw.id (hashRefreshToken draw.secret) newExpiry =
      .ok (successor tok newExpiry draw) := by
    simp only [RefreshToken.rotate, ha, ne_eq, not_true_eq_false, ↓reduceIte]
    exact newRefreshToken_eq_ok hs ho (hashRefreshToken_ne_nil _) he
  have hcreate : createToken (db.set (.token tok.id) (some ⟨{ tok with status := .rotated }, rfl⟩))
      tok.organizationId (successor tok newExpiry draw) =
        .ok (rotatedRows db tok newExpiry draw) := by
    refine createToken_fresh ?_ ?_
    · rw [db.set_row_of_ne _ _ _ (by simpa [successor] using (hf.id_ne hrow).symm)]
      exact hf.id
    · intro t ht
      rcases mem_tokens_set ht with rfl | ht
      · exact hf.hash tok (mem_tokens.mpr hrow)
      · exact hf.hash t ht
  simp only [rotation, hrot, setStatus_row hrow rfl, hcreate, bind, Except.bind, pure, Except.pure]

end Rotation

/-- The instant of the decision is one TTL ahead of `now`: a token issued at `t0` is
judged as `now` would judge it only at `t0` itself (when its expiry falls on a whole
microsecond) and from its expiry on. -/
theorem refresh_judgedAtNow_iff {d : Deps} {g : RefreshGrant} {db : Db} {secret : String}
    {t0 now : Time} {draw : Draw} {tok : RefreshToken} (hpos : 0 < g.refreshTTL)
    (hi : IssuedAt d g.refreshTTL t0 tok) (hle : t0 ≤ now)
    (hdb : tokenByHash db (hashRefreshToken secret) = some tok) (hf : draw.Fresh db) :
    JudgedAtNow d g db secret now draw tok ↔
      (now = t0 ∧ (t0+g.refreshTTL).stored = t0+g.refreshTTL) ∨ (t0+g.refreshTTL).stored ≤ now := by
  have hs := issued_of_issuedAt hi
  obtain ⟨hrow, -⟩ := tokenByHash_mem hdb
  have horg : resolveRefreshTokenOrg db secret = .ok tok.organizationId := by
    simp only [resolveRefreshTokenOrg, hdb]
  have hx := exchange_of_active (d := d) (now+g.refreshTTL) draw (getByHash_of_tokenByHash hdb)
    hs.active
  have hbound := (t0+g.refreshTTL).stored_le
  by_cases hexp : nowFromExpiry (now+g.refreshTTL) < tok.expiresAt
  · have hjudge := hexp
    rw [hs.expiresAt, nowFromExpiry] at hjudge
    have hnow : now = t0 := by lia
    have hst : (t0+g.refreshTTL).stored = t0+g.refreshTTL := by lia
    subst hnow
    rw [if_pos hexp, rotation_of_fresh hf hrow hs.active hs.sessionId hs.organizationId hs.expiry]
      at hx
    refine ⟨fun _ => Or.inl ⟨rfl, hst⟩, fun _ => ⟨fun _ => ?_, fun h => ?_⟩⟩
    · rw [Rotates, refresh_rows horg hs.organizationId, hx]
      refine ⟨?_, (successor tok (now+g.refreshTTL) draw).stored, rfl, rfl, rfl, ?_⟩
      · refine ((db.set _ _).set_row_of_ne _ _ _ ?_).trans (db.set_row_self _ _)
        simpa using hf.id_ne hrow
      · exact (db.set _ _).set_row_self _ _
    · rw [hs.expiresAt] at h
      lia
  · rw [if_neg hexp] at hx
    have hrefuse := refresh_of_exchange_error horg hs.organizationId hx
    have hnot : ¬Rotates d g db secret now draw tok := by
      rintro ⟨hr, -⟩
      rw [hrefuse, hrow] at hr
      have hst := congrArg RefreshToken.status (congrArg Subtype.val (Option.some.inj hr))
      rw [hs.active] at hst
      cases hst
    rw [hs.expiresAt, nowFromExpiry] at hexp
    rw [JudgedAtNow, hs.expiresAt]
    constructor
    · rintro ⟨h, -⟩
      by_contra hcon
      exact hnot (h (by lia))
    · intro h
      refine ⟨fun hlt => ?_, fun _ => hrefuse⟩
      lia

namespace Sample

def deps : Deps where
  auditReuse _ := .ok ()
  lookup _ := .ok ⟨"api", ["openid"]⟩
  issueAccessToken _ _ _ _ now := .ok ⟨"at", now/10^9, now/10^9+300⟩

def second : Duration := 10^9

def grant : RefreshGrant := ⟨"api", ["openid"], 3600*second⟩

def t0 : Time := 1767225600*second

def code : AuthorizationCode where
  id := 1
  codeHash := hashAuthCode "code"
  clientId := "app"
  redirectURI := "https://app/cb"
  codeChallenge := "E9Melhoa2OwvFrEMTJguCHaoeK1t8URWbuGJSstw-cM"
  sessionId := 2
  organizationId := 3
  scopes := ["openid"]
  expiresAt := t0+60*second
  used := false

def before : Db := Store.empty.set (.code 1) (some ⟨code, rfl⟩)

def token : RefreshToken :=
  ⟨5, 4, 2, 3, hashRefreshToken "first", .active, t0+3600*second⟩

def after : Db :=
  (before.set (.code 1) (some ⟨{ code with used := true }, rfl⟩)).set (.token 5) (some ⟨token, rfl⟩)

theorem token_issued : IssuedAt deps grant.refreshTTL t0 token :=
  .authCode ⟨grant.refreshTTL⟩ before "code" "https://app/cb"
    "dBjftJeZ4CVP-mB92K27uhbUJU1p1r_wW1gFWFOEjXk" ⟨"first", 4, 5⟩ rfl (by decide)
    (by decide +kernel)

theorem token_stored : tokenByHash after (hashRefreshToken "first") = some token := by
  decide +kernel

def draw : Draw := ⟨"second", 0, 6⟩

theorem draw_fresh : draw.Fresh after := ⟨by decide +kernel, by decide +kernel⟩

end Sample

theorem refresh_judgedAtNow_at_issue :
    JudgedAtNow Sample.deps Sample.grant Sample.after "first" Sample.t0 Sample.draw Sample.token :=
  (refresh_judgedAtNow_iff (by decide) Sample.token_issued le_rfl Sample.token_stored
    Sample.draw_fresh).mpr (Or.inl ⟨rfl, by decide⟩)

/-- One second after its issue, with an hour to live, the token is refused. -/
theorem refresh_refused_after_one_second :
    IssuedAt Sample.deps Sample.grant.refreshTTL Sample.t0 Sample.token ∧
      tokenByHash Sample.after (hashRefreshToken "first") = some Sample.token ∧
      Sample.t0+Sample.second < Sample.token.expiresAt ∧
      (Sample.grant.refresh Sample.deps Sample.after "first" (Sample.t0+Sample.second)
        Sample.draw).1 = .error .refreshExpired ∧
      ¬JudgedAtNow Sample.deps Sample.grant Sample.after "first" (Sample.t0+Sample.second)
        Sample.draw Sample.token := by
  have hlt : Sample.t0+Sample.second < Sample.token.expiresAt := by decide
  refine ⟨Sample.token_issued, Sample.token_stored, hlt, by decide +kernel, fun h => ?_⟩
  have hrow : (Sample.grant.refresh Sample.deps Sample.after "first" (Sample.t0+Sample.second)
      Sample.draw).2.row (.token Sample.token.id) ≠
        some ⟨{ Sample.token with status := .rotated }, rfl⟩ := by
    decide +kernel
  exact hrow (h.1 hlt).1

end ArchGuard.Oidc
