import ArchGuard.OidcRedemption
import ArchGuard.RefreshExpiry

/-! When the transaction of a grant commits, and what it leaves: the redemption of a code
and the rotation of a refresh token. -/
namespace ArchGuard.Oidc
open ReadCommitted

section Codes

variable {db : Db}

theorem mem_codes {c : AuthorizationCode} :
    c ∈ codes db ↔ db.row (.code c.id) = some ⟨c, rfl⟩ := by
  simp only [codes, List.mem_filterMap]
  constructor
  · intro ⟨k, _, hk⟩
    cases k with
    | token id => simp only [codeRow, reduceCtorEq] at hk
    | code id =>
      obtain ⟨v, hv, rfl⟩ := Option.map_eq_some_iff.mp hk
      obtain ⟨w, rfl⟩ := v
      exact hv
  · intro h
    refine ⟨.code c.id, db.covers _ _ h, ?_⟩
    simp only [codeRow, h, Option.map_some]

theorem mem_codes_iff_val {c : AuthorizationCode} :
    c ∈ codes db ↔ (db.row (.code c.id)).map Subtype.val = some c := by
  rw [mem_codes, Option.map_eq_some_iff]
  constructor
  · exact fun h => ⟨_, h, rfl⟩
  · intro ⟨v, hv, hc⟩
    rw [hv]
    exact congrArg some (Subtype.ext hc)

theorem codeByHash_mem {hash : Bytes} {c : AuthorizationCode} (h : codeByHash db hash = some c) :
    db.row (.code c.id) = some ⟨c, rfl⟩ ∧ c.codeHash = hash := by
  have hp := List.find?_some h
  exact ⟨mem_codes.mp (List.mem_of_find?_eq_some h), by simpa using hp⟩

theorem getCodeByHash_of_codeByHash {hash : Bytes} {c : AuthorizationCode}
    (h : codeByHash db hash = some c) : getCodeByHash db c.organizationId hash = some c := by
  obtain ⟨hp, as, bs, hcodes, has⟩ := List.find?_eq_some_iff_append.mp h
  refine List.find?_eq_some_iff_append.mpr ⟨?_, as, bs, hcodes, ?_⟩
  · simpa only [and_true] using hp
  · intro a ha
    have hn := has a ha
    simp only [Bool.not_eq_eq_eq_not, Bool.not_true, decide_eq_false_iff_not] at hn ⊢
    exact fun hc => hn hc.1

end Codes

/-- The refresh token with which a redemption of `code` starts a family. -/
def familyStart (refreshTTL : Duration) (now : Time) (draw : Draw) (code : AuthorizationCode) :
    RefreshToken :=
  ⟨draw.id, draw.familyId, code.sessionId, code.organizationId, hashRefreshToken draw.secret,
    .active, now+refreshTTL⟩

/-- What a redemption needs: the code is there and redeems, and the family's draws are new. -/
structure Redeemable (refreshTTL : Duration) (db : Db)
    (codeSecret redirectURI codeVerifier : String) (now : Time) (draw : Draw)
    (code : AuthorizationCode) : Prop where
  found : codeByHash db (hashAuthCode codeSecret) = some code
  tenant : code.organizationId ≠ Uuid.nil
  session : code.sessionId ≠ Uuid.nil
  redeems : code.redeem redirectURI codeVerifier now = .ok ()
  expiry : now+refreshTTL ≠ Time.zero
  fresh : draw.Fresh db

/-- The rows a redemption leaves: the code used, and its family begun. -/
def redeemedRows (refreshTTL : Duration) (db : Db) (now : Time) (draw : Draw)
    (code : AuthorizationCode) : Db :=
  (db.set (.code code.id) (some ⟨{ code with used := true }, rfl⟩)).set (.token draw.id)
    (some ⟨(familyStart refreshTTL now draw code).stored, rfl⟩)

/-- What a rotation needs: the token is there, active and not past the instant at which the
exchange judges it, and the successor's draws are new. -/
structure Rotatable (g : RefreshGrant) (db : Db) (presentedSecret : String) (now : Time)
    (draw : Draw) (tok : RefreshToken) : Prop where
  found : tokenByHash db (hashRefreshToken presentedSecret) = some tok
  tenant : tok.organizationId ≠ Uuid.nil
  session : tok.sessionId ≠ Uuid.nil
  active : tok.status = .active
  unexpired : nowFromExpiry (now+g.refreshTTL) < tok.expiresAt
  expiry : now+g.refreshTTL ≠ Time.zero
  fresh : draw.Fresh db

section Redemption

variable {refreshTTL : Duration} {db : Db} {codeSecret redirectURI codeVerifier : String}
  {now : Time} {draw : Draw} {code : AuthorizationCode}

theorem mem_tokens_set_code {id : Uuid} {v : Row (.code id)} {t : RefreshToken} :
    t ∈ tokens (db.set (.code id) (some v)) ↔ t ∈ tokens db := by
  rw [mem_tokens, mem_tokens, Store.set_row_of_ne _ _ _ _ (by simp)]

theorem createToken_eq_ok {db' : Db} {org : Uuid} {r : RefreshToken} :
    createToken db org r = .ok db' ↔ r.organizationId = org ∧ db.row (.token r.id) = none ∧
      (∀ t ∈ tokens db, t.tokenHash ≠ r.tokenHash) ∧
      db' = db.set (.token r.id) (some ⟨r.stored, r.stored_id⟩) := by
  have hhash : tokenByHash db r.tokenHash = none ↔ ∀ t ∈ tokens db, t.tokenHash ≠ r.tokenHash := by
    simp only [tokenByHash, List.find?_eq_none, decide_eq_true_eq, ne_eq]
  rw [createToken, ite_error_eq_ok, ite_error_eq_ok, not_or, Option.not_isSome_iff_eq_none,
    Option.not_isSome_iff_eq_none, hhash, not_not, Except.ok.injEq, and_assoc, eq_comm (a := db')]

theorem redeemAndStartFamily_found (hf : codeByHash db (hashAuthCode codeSecret) = some code)
    {p : AuthorizationCode × Db} :
    redeemAndStartFamily refreshTTL db code.organizationId codeSecret redirectURI codeVerifier now
        draw = .ok p ↔
      (code.organizationId ≠ Uuid.nil ∧ code.sessionId ≠ Uuid.nil ∧
        code.redeem redirectURI codeVerifier now = .ok () ∧ now+refreshTTL ≠ Time.zero ∧
        draw.Fresh db) ∧ p = (code, redeemedRows refreshTTL db now draw code) := by
  obtain ⟨hrow, -⟩ := codeByHash_mem hf
  have hget := getCodeByHash_of_codeByHash hf
  constructor
  · intro h
    unfold redeemAndStartFamily at h
    rw [hget] at h
    obtain ⟨c, hc, h⟩ := bind_eq_ok.mp h
    obtain rfl := Except.ok.inj hc
    obtain ⟨⟨⟩, hred, h⟩ := bind_eq_ok.mp h
    obtain ⟨db₁, hmark, h⟩ := bind_eq_ok.mp h
    obtain ⟨rt, hrt, h⟩ := bind_eq_ok.mp h
    obtain ⟨db₂, hcreate, h⟩ := bind_eq_ok.mp h
    obtain rfl := Except.ok.inj h
    obtain ⟨rfl, hs, ho, he⟩ := newRefreshToken_ok hrt
    obtain ⟨-, hid, hhash, rfl⟩ := createToken_eq_ok.mp hcreate
    have hunused := (code.redeem_ok_iff _ _ _).mp hred |>.1
    obtain rfl : db.set (.code code.id) (some ⟨{ code with used := true }, rfl⟩) = db₁ := by
      simp only [markUsed, hrow, hunused, and_self, ↓reduceIte] at hmark
      exact Except.ok.inj hmark
    refine ⟨⟨ho, hs, hred, he, ?_, ?_⟩, rfl⟩
    · rwa [Store.set_row_of_ne _ _ _ _ (by simp)] at hid
    · intro t ht
      exact hhash t (mem_tokens_set_code.mpr ht)
  · rintro ⟨⟨ho, hs, hred, he, hfresh⟩, rfl⟩
    have hunused := (code.redeem_ok_iff _ _ _).mp hred |>.1
    have hmark : markUsed db code.organizationId code.id =
        .ok (db.set (.code code.id) (some ⟨{ code with used := true }, rfl⟩)) := by
      simp only [markUsed, hrow, hunused, and_self, ↓reduceIte]
    have hrt : newRefreshFamily draw.familyId draw.id code.sessionId code.organizationId
        (hashRefreshToken draw.secret) (now+refreshTTL) =
          .ok (familyStart refreshTTL now draw code) :=
      newRefreshToken_eq_ok hs ho (hashRefreshToken_ne_nil _) he
    have hcreate : createToken (db.set (.code code.id) (some ⟨{ code with used := true }, rfl⟩))
        code.organizationId (familyStart refreshTTL now draw code) =
          .ok (redeemedRows refreshTTL db now draw code) := by
      refine createToken_eq_ok.mpr ⟨rfl, ?_, ?_, rfl⟩
      · rw [Store.set_row_of_ne _ _ _ _ (by simp)]
        exact hfresh.id
      · intro t ht
        exact hfresh.hash t (mem_tokens_set_code.mp ht)
    simp only [redeemAndStartFamily, hget, hred, hmark, hrt, hcreate, bind, Except.bind, pure,
      Except.pure]

/-- The access token of a redeemed code: its client's audience and scopes. -/
def issueForCode (d : Deps) (code : AuthorizationCode) (now : Time) : Except OidcError AccessToken :=
  match d.lookup code.clientId with
  | .error e => .error e
  | .ok client =>
    d.issueAccessToken code.organizationId code.sessionId client.audience client.allowedScopes now

/-- The answer of a grant, once its transaction has committed. -/
def answer (newSecret : String) (a : Except OidcError AccessToken) : Except OidcError RefreshResult :=
  a.map fun a => ⟨a.token, newSecret, a.expiresAt-a.issuedAt⟩

/-- A redemption commits and then issues the token, or leaves every row as it was. -/
theorem exchange_cases (d : Deps) (g : AuthCodeGrant) (db : Db)
    (codeSecret redirectURI codeVerifier : String) (now : Time) (draw : Draw) :
    (∃ code, Redeemable g.refreshTTL db codeSecret redirectURI codeVerifier now draw code ∧
      g.exchange d db codeSecret redirectURI codeVerifier now draw =
        (answer draw.secret (issueForCode d code now), redeemedRows g.refreshTTL db now draw code)) ∨
      ((∀ code, ¬Redeemable g.refreshTTL db codeSecret redirectURI codeVerifier now draw code) ∧
        ∃ e, g.exchange d db codeSecret redirectURI codeVerifier now draw = (.error e, db)) := by
  unfold AuthCodeGrant.exchange resolveAuthCodeOrg
  cases hf : codeByHash db (hashAuthCode codeSecret) with
  | none =>
    refine Or.inr ⟨fun code h => ?_, _, rfl⟩
    have hfound := h.found
    rw [hf] at hfound
    cases hfound
  | some code =>
    have honly (c : AuthorizationCode)
        (h : Redeemable g.refreshTTL db codeSecret redirectURI codeVerifier now draw c) : c = code :=
      Option.some.inj (h.found.symm.trans hf)
    dsimp only
    by_cases hn : code.organizationId = Uuid.nil
    · rw [if_pos hn]
      refine Or.inr ⟨fun c h => ?_, _, rfl⟩
      obtain rfl := honly c h
      exact h.tenant hn
    · rw [if_neg hn]
      cases hx : redeemAndStartFamily g.refreshTTL db code.organizationId codeSecret redirectURI
          codeVerifier now draw with
      | error e =>
        refine Or.inr ⟨fun c h => ?_, _, rfl⟩
        obtain rfl := honly c h
        have hok := (redeemAndStartFamily_found hf).mpr
          ⟨⟨h.tenant, h.session, h.redeems, h.expiry, h.fresh⟩, rfl⟩
        rw [hx] at hok
        cases hok
      | ok p =>
        obtain ⟨⟨ht, hs, hr, he, hfr⟩, rfl⟩ := (redeemAndStartFamily_found hf).mp hx
        refine Or.inl ⟨code, ⟨hf, ht, hs, hr, he, hfr⟩, ?_⟩
        unfold issueForCode answer
        dsimp only
        cases d.lookup code.clientId with
        | error e => rfl
        | ok client =>
          dsimp only
          cases d.issueAccessToken code.organizationId code.sessionId client.audience
            client.allowedScopes now <;> rfl

end Redemption

section Rotation

variable {db : Db} {tok : RefreshToken} {newExpiry : Time} {draw : Draw}

theorem rotation_eq_ok (hrow : db.row (.token tok.id) = some ⟨tok, rfl⟩)
    {p : RefreshToken × Db} (h : rotation tok.organizationId db tok newExpiry draw = .ok p) :
    (tok.sessionId ≠ Uuid.nil ∧ newExpiry ≠ Time.zero ∧ draw.Fresh db) ∧
      p = (successor tok newExpiry draw, rotatedRows db tok newExpiry draw) := by
  obtain ⟨db₁, hrot, hset, hcreate⟩ := rotation_ok h
  rw [setStatus_row hrow rfl] at hset
  obtain rfl := Except.ok.inj hset
  have hs : tok.sessionId ≠ Uuid.nil ∧ newExpiry ≠ Time.zero := by
    unfold RefreshToken.rotate at hrot
    split_ifs at hrot
    obtain ⟨-, hs, -, he⟩ := newRefreshToken_ok hrot
    exact ⟨hs, he⟩
  obtain ⟨-, hp⟩ := RefreshToken.rotate_ok hrot
  obtain ⟨-, hid, hhash, hdb⟩ := createToken_eq_ok.mp hcreate
  have hne : draw.id ≠ tok.id := by
    intro heq
    rw [hp] at hid
    dsimp only at hid
    rw [heq, Store.set_row_self] at hid
    cases hid
  have hfresh : draw.Fresh db := by
    rw [hp] at hid hhash
    refine ⟨?_, ?_⟩
    · rwa [Store.set_row_of_ne _ _ _ _ (by simpa using hne)] at hid
    · intro t ht
      by_cases heq : t.id = tok.id
      -- the presented token keeps its hash when it is marked
      · have htok : t = tok := by
          have hmem := mem_tokens.mp ht
          rw [mem_tokens_iff_val, heq, hrow] at ht
          exact (Option.some.inj ht).symm
        rw [htok]
        refine hhash { tok with status := .rotated } (mem_tokens.mpr ?_)
        exact Store.set_row_self ..
      · refine hhash t (mem_tokens.mpr ?_)
        rw [Store.set_row_of_ne _ _ _ _ (by simpa using heq)]
        exact mem_tokens.mp ht
  refine ⟨⟨hs.1, hs.2, hfresh⟩, ?_⟩
  apply Prod.ext hp
  rw [hdb]
  obtain ⟨s, db'⟩ := p
  dsimp only at hp
  subst hp
  rfl

/-- A refresh rotates its token and then issues the access token; or it answers a reuse, and
revokes the family; or it leaves every row as it was. -/
theorem refresh_cases (d : Deps) (g : RefreshGrant) (db : Db) (presentedSecret : String)
    (now : Time) (draw : Draw) :
    (∃ tok, Rotatable g db presentedSecret now draw tok ∧
      g.refresh d db presentedSecret now draw =
        (answer draw.secret (d.issueAccessToken tok.organizationId tok.sessionId g.audience g.scopes
          now), rotatedRows db tok (now+g.refreshTTL) draw)) ∨
      ((∀ tok, ¬Rotatable g db presentedSecret now draw tok) ∧
        ((∃ tok : RefreshToken, g.refresh d db presentedSecret now draw =
            (.error .refreshReuse, revokeFamily db tok.organizationId tok.familyId)) ∨
          ∃ e, g.refresh d db presentedSecret now draw = (.error e, db))) := by
  unfold RefreshGrant.refresh resolveRefreshTokenOrg
  cases hf : tokenByHash db (hashRefreshToken presentedSecret) with
  | none =>
    refine Or.inr ⟨fun tok h => ?_, Or.inr ⟨_, rfl⟩⟩
    have hfound := h.found
    rw [hf] at hfound
    cases hfound
  | some tok =>
    have honly (t : RefreshToken) (h : Rotatable g db presentedSecret now draw t) : t = tok :=
      Option.some.inj (h.found.symm.trans hf)
    obtain ⟨hrow, -⟩ := tokenByHash_mem hf
    have hget := getByHash_of_tokenByHash hf
    dsimp only
    by_cases hn : tok.organizationId = Uuid.nil
    · rw [if_pos hn]
      refine Or.inr ⟨fun t h => ?_, Or.inr ⟨_, rfl⟩⟩
      obtain rfl := honly t h
      exact h.tenant hn
    rw [if_neg hn]
    by_cases ha : tok.status = .active
    · rw [exchange_of_active _ _ hget ha]
      by_cases hexp : nowFromExpiry (now+g.refreshTTL) < tok.expiresAt
      · rw [if_pos hexp]
        cases hrot : rotation tok.organizationId db tok (now+g.refreshTTL) draw with
        | error e =>
          refine Or.inr ⟨fun t h => ?_, Or.inr ⟨_, rfl⟩⟩
          obtain rfl := honly t h
          have hok := rotation_of_fresh h.fresh hrow ha h.session h.tenant h.expiry
          rw [hrot] at hok
          cases hok
        | ok p =>
          obtain ⟨⟨hs, he, hfr⟩, rfl⟩ := rotation_eq_ok hrow hrot
          refine Or.inl ⟨tok, ⟨hf, hn, hs, ha, hexp, he, hfr⟩, ?_⟩
          unfold answer
          dsimp only [successor]
          cases d.issueAccessToken tok.organizationId tok.sessionId g.audience g.scopes now <;> rfl
      · rw [if_neg hexp]
        refine Or.inr ⟨fun t h => ?_, Or.inr ⟨_, rfl⟩⟩
        obtain rfl := honly t h
        exact hexp h.unexpired
    -- a token that is not active is a reuse, once the audit event is written
    · refine Or.inr ⟨fun t h => ?_, ?_⟩
      · obtain rfl := honly t h
        exact ha h.active
      · simp only [exchange, hget]
        cases hr : tok.checkReuse with
        | ok u => exact absurd (tok.checkReuse_ok_iff.mp hr) ha
        | error e =>
          dsimp only
          cases d.auditReuse tok with
          | error e => exact Or.inr ⟨_, rfl⟩
          | ok u => exact Or.inl ⟨tok, rfl⟩

theorem refresh_active_ne_reuse {d : Deps} {g : RefreshGrant} {presentedSecret : String}
    {now : Time} (hf : tokenByHash db (hashRefreshToken presentedSecret) = some tok)
    (ha : tok.status = .active)
    (hissue : ∀ org sid audience scopes now,
      d.issueAccessToken org sid audience scopes now ≠ .error .refreshReuse) :
    (g.refresh d db presentedSecret now draw).1 ≠ .error .refreshReuse := by
  obtain ⟨hrow, -⟩ := tokenByHash_mem hf
  have hrot : rotation tok.organizationId db tok (now+g.refreshTTL) draw ≠ .error .refreshReuse := by
    simp only [rotation, RefreshToken.rotate, ha, newRefreshToken, setStatus_row hrow rfl,
      createToken, bind, Except.bind, pure, Except.pure]
    split_ifs <;> simp
    all_goals split_ifs <;> simp
  unfold RefreshGrant.refresh resolveRefreshTokenOrg
  simp only [hf]
  split_ifs
  · simp
  rw [exchange_of_active _ _ (getByHash_of_tokenByHash hf) ha]
  split_ifs
  · cases hx : rotation tok.organizationId db tok (now+g.refreshTTL) draw with
    | error e =>
      simp only [ne_eq, Except.error.injEq]
      rintro rfl
      exact hrot hx
    | ok p =>
      dsimp only
      cases hi : d.issueAccessToken tok.organizationId p.1.sessionId g.audience g.scopes now with
      | error e =>
        simp only [ne_eq, Except.error.injEq]
        rintro rfl
        exact hissue _ _ _ _ _ hi
      | ok a => simp
  · simp

end Rotation

end ArchGuard.Oidc
