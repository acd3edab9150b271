import ArchGuard.OidcGrants
import ArchGuard.ReadCommittedFrame

/-! The redemption of an authorization code statement by statement, for runs in which
any number of redemptions interleave. -/
namespace ArchGuard.Oidc
open ReadCommitted TransitionRun Sha256

structure RedeemReq where
  codeSecret : String
  redirectURI : String
  codeVerifier : String
  now : Time
  refreshTTL : Duration
  draw : Draw
  deriving DecidableEq

/-- Where a redemption stands: the statement it runs next and what it has read. -/
inductive RedeemPc
  | resolveAuthCodeOrg (q : RedeemReq)
  | withTenantTx (q : RedeemReq) (org : Uuid)
  | getByHash (q : RedeemReq) (org : Uuid)
  | lockRow (q : RedeemReq) (org id : Uuid)
  | markUsed (q : RedeemReq) (org : Uuid) (code : AuthorizationCode)
  | create (q : RedeemReq) (code : AuthorizationCode) (rt : RefreshToken)
  | commitRedemption (q : RedeemReq) (code : AuthorizationCode) (rt : RefreshToken)
  | fail
  deriving DecidableEq

/-- The decision on the locked row: the lookup still matches, and the code redeems. -/
def afterCodeLock (q : RedeemReq) (org : Uuid) (code : AuthorizationCode) : RedeemPc :=
  if code.codeHash ≠ hashAuthCode q.codeSecret ∨ code.organizationId ≠ org then .fail
  else match code.redeem q.redirectURI q.codeVerifier q.now with
    | .error _ => .fail
    | .ok () => .markUsed q org code

def afterMarkUsed (q : RedeemReq) (org : Uuid) (code : AuthorizationCode) : RedeemPc :=
  match newRefreshFamily q.draw.familyId q.draw.id code.sessionId org
      (hashRefreshToken q.draw.secret) (q.now+q.refreshTTL) with
  | .error _ => .fail
  | .ok rt => .create q code rt

theorem usedRow_key {id : Uuid} (c : Row (.code id)) : c.1.id = id := c.2

def usedRow {id : Uuid} (c : Row (.code id)) : Row (.code id) :=
  ⟨{ c.1 with used := true }, usedRow_key c⟩

/-- `AuthCodeGrant.Exchange` up to the commit of its transaction; the tenant is resolved
in a transaction of its own. The token is signed after the commit, from other tables.
The unique index on `token_hash` could only make more redemptions fail. -/
def redeemProgram : Program Row RedeemReq RedeemPc where
  entry := .resolveAuthCodeOrg
  next
    | .resolveAuthCodeOrg q => .read fun db =>
      match resolveAuthCodeOrg db q.codeSecret with
      | .error _ => .fail
      | .ok org => if org = Uuid.nil then .fail else .withTenantTx q org
    | .withTenantTx q org => .commit (some (.getByHash q org))
    | .getByHash q org => .read fun db =>
      match getCodeByHash db org (hashAuthCode q.codeSecret) with
      | some c => .lockRow q org c.id
      | none => .fail
    | .lockRow q org id => .update (.code id) .fail fun c => (some c, afterCodeLock q org c.1)
    | .markUsed q org code => .update (.code code.id) .fail fun c =>
      if c.1.organizationId = org ∧ c.1.used = false then (some (usedRow c), afterMarkUsed q org code)
      else (some c, .fail)
    | .create q code rt =>
      .insert (.token rt.id) ⟨rt.stored, rt.stored_id⟩ (.commitRedemption q code rt) .fail
    | .commitRedemption _ _ _ => .commit none
    | .fail => .abort

abbrev RedeemCfg := Cfg Row RedeemPc

/-- A redemption that succeeded: what was presented, the code and the family it started. -/
structure Redemption where
  req : RedeemReq
  code : AuthorizationCode
  family : RefreshToken
  deriving DecidableEq

/-- A redemption succeeds when its transaction commits. -/
def redeemed (c : RedeemCfg) : Event RedeemReq → Option Redemption
  | .step i =>
    match c.proc i with
    | some (.commitRedemption q code rt) => some ⟨q, code, rt⟩
    | _ => none
  | _ => none

/-- The redemptions that succeed along a run. -/
def redemptions (c : RedeemCfg) (es : List (Event RedeemReq)) : List Redemption :=
  trace (exec redeemProgram) redeemed c es

theorem AuthorizationCode.redeem_ok_iff (c : AuthorizationCode) (redirectURI codeVerifier : String)
    (now : Time) : c.redeem redirectURI codeVerifier now = .ok () ↔
      c.used = false ∧ now < c.expiresAt ∧ c.redirectURI = redirectURI ∧
        verifyPKCE codeVerifier c.codeChallenge = true := by
  unfold AuthorizationCode.redeem
  split_ifs with h₁ h₂ h₃
  · simp only [false_iff]
    intro h
    simp [h.1, h.2.1] at h₁
  · simp only [false_iff]
    exact fun h => h₂ h.2.2.1
  · simp only [false_iff]
    intro h
    simp [h.2.2.2] at h₃
  · simp only [true_iff]
    simp only [Bool.not_eq_eq_eq_not, Bool.not_true, decide_eq_false_iff_not, not_or, not_not,
      Bool.not_eq_true] at h₁
    refine ⟨h₁.1, h₁.2, not_not.mp h₂, ?_⟩
    simpa using h₃

/-- The request names this code, and the code redeems for it. -/
structure Presented (q : RedeemReq) (code : AuthorizationCode) : Prop where
  hash : code.codeHash = hashAuthCode q.codeSecret
  unused : code.used = false
  expiry : q.now < code.expiresAt
  redirectURI : code.redirectURI = q.redirectURI
  pkce : verifyPKCE q.codeVerifier code.codeChallenge = true

/-- The refresh token a redemption of `code` starts its family with. -/
def familyOf (q : RedeemReq) (code : AuthorizationCode) : RefreshToken :=
  ⟨q.draw.id, q.draw.familyId, code.sessionId, code.organizationId,
    hashRefreshToken q.draw.secret, .active, q.now+q.refreshTTL⟩

/-- Transaction `i` has locked the row of `code`, marked or not, and only rows of `keys`. -/
structure Redeeming (c : RedeemCfg) (i : ℕ) (q : RedeemReq) (code : AuthorizationCode)
    (used : Bool) (keys : List Key) : Prop where
  presented : Presented q code
  committed : c.db.row (.code code.id) = some ⟨code, rfl⟩
  held : c.lock (.code code.id) = some (i, some ⟨{ code with used := used }, rfl⟩)
  only : ∀ k r, c.lock k = some (i, r) → k ∈ keys

/-- What transaction `i` knows when it stands at a statement. -/
def RedeemPcOk (c : RedeemCfg) (i : ℕ) : RedeemPc → Prop
  | .markUsed q org code =>
    code.organizationId = org ∧ Redeeming c i q code false [.code code.id]
  | .create q code rt => rt = familyOf q code ∧ Redeeming c i q code true [.code code.id]
  | .commitRedemption q code rt => rt = familyOf q code ∧
      Redeeming c i q code true [.code code.id, .token rt.id] ∧
      c.db.row (.token rt.id) = none ∧ c.lock (.token rt.id) = some (i, some ⟨rt.stored, rt.stored_id⟩)
  | .fail => True
  | _ => ∀ k r, c.lock k ≠ some (i, r)

section Steps

variable {c c' : RedeemCfg} {i : ℕ} {q : RedeemReq} {code : AuthorizationCode} {used : Bool}
  {keys : List Key}

theorem Redeeming.frame (h : Redeeming c i q code used keys) (hf : Frame c c' i) :
    Redeeming c' i q code used keys where
  presented := h.presented
  committed := (hf.row _ _ h.held).trans h.committed
  held := (hf.lock _ _).mpr h.held
  only k r hk := h.only k r ((hf.lock k r).mp hk)

theorem RedeemPcOk.frame {l : RedeemPc} (h : RedeemPcOk c i l) (hf : Frame c c' i) :
    RedeemPcOk c' i l := by
  have hnone (hn : ∀ k r, c.lock k ≠ some (i, r)) : ∀ k r, c'.lock k ≠ some (i, r) :=
    fun k r hk => hn k r ((hf.lock k r).mp hk)
  cases l with
  | markUsed q org code => exact ⟨h.1, h.2.frame hf⟩
  | create q code rt => exact ⟨h.1, h.2.frame hf⟩
  | commitRedemption q code rt =>
    obtain ⟨hrt, hr, hdb, hlock⟩ := h
    exact ⟨hrt, hr.frame hf, (hf.row _ _ hlock).trans hdb, (hf.lock _ _).mpr hlock⟩
  | fail => trivial
  | _ => exact hnone h

theorem afterCodeLock_eq (q : RedeemReq) (org : Uuid) (code : AuthorizationCode) :
    afterCodeLock q org code = .fail ∨ (afterCodeLock q org code = .markUsed q org code ∧
      code.organizationId = org ∧ Presented q code) := by
  unfold afterCodeLock
  split_ifs with h
  · exact Or.inl rfl
  · obtain ⟨hh, ho⟩ := not_or.mp h
    cases hr : code.redeem q.redirectURI q.codeVerifier q.now with
    | error e => exact Or.inl rfl
    | ok u =>
      obtain ⟨hu, he, hd, hp⟩ := (code.redeem_ok_iff ..).mp hr
      exact Or.inr ⟨rfl, not_not.mp ho, not_not.mp hh, hu, he, hd, hp⟩

theorem afterMarkUsed_eq (q : RedeemReq) (code : AuthorizationCode) :
    afterMarkUsed q code.organizationId code = .fail ∨
      afterMarkUsed q code.organizationId code = .create q code (familyOf q code) := by
  unfold afterMarkUsed newRefreshFamily
  split
  · exact Or.inl rfl
  · rename_i rt hrt
    rw [(newRefreshToken_ok hrt).1]
    exact Or.inr rfl

theorem mem_of_write {k k' : Key} {r : Option (Row k)} {r' : Option (Row k')} {l : RedeemPc}
    (honly : ∀ k r, c.lock k = some (i, r) → k ∈ keys)
    (h : ((c.write i k r).goto i l).lock k' = some (i, r')) : k' = k ∨ k' ∈ keys := by
  rcases lock_write h with hl | ⟨-, hk, -⟩
  · exact Or.inr (honly k' r' hl)
  · exact Or.inl hk.symm

/-- The FOR UPDATE of a code: the transaction holds the committed row, as it is. -/
theorem redeemPcOk_lockRow {org id : Uuid} (h : ∀ k r, c.lock k ≠ some (i, r))
    (ha : c.act i (redeemProgram.next (.lockRow q org id)) = some c') {l : RedeemPc}
    (hl : c'.proc i = some l) : RedeemPcOk c' i l := by
  rcases act_update ha with ⟨-, rfl⟩ | ⟨⟨code, rfl⟩, hv, -, rfl⟩
  · obtain rfl : RedeemPc.fail = l := by simpa using hl
    trivial
  · obtain rfl : afterCodeLock q org code = l := by simpa using hl
    rcases afterCodeLock_eq q org code with hfail | ⟨hmark, horg, hp⟩
    · rw [hfail]
      trivial
    · rw [hmark]
      -- the transaction held nothing, so what it saw is the committed row
      have hdb : c.db.row (.code code.id) = some ⟨code, rfl⟩ := by
        rw [← hv]
        exact (Cfg.viewRow_other (h _)).symm
      have hheld : (⟨{ code with used := false }, rfl⟩ : Row (.code code.id)) = ⟨code, rfl⟩ := by
        rw [← hp.unused]
      refine ⟨horg, hp, hdb, ?_, ?_⟩
      · rw [hheld]
        exact Function.update_self ..
      · intro k r hk
        have honly : ∀ k r, c.lock k = some (i, r) → k ∈ [] := fun k r hk => absurd hk (h k r)
        simpa using mem_of_write honly hk

theorem redeemPcOk_markUsed {org : Uuid} (horg : code.organizationId = org)
    (h : Redeeming c i q code false [.code code.id])
    (ha : c.act i (redeemProgram.next (.markUsed q org code)) = some c') {l : RedeemPc}
    (hl : c'.proc i = some l) : RedeemPcOk c' i l := by
  subst horg
  have hview := Cfg.viewRow_own h.held
  rcases act_update ha with ⟨hv, -⟩ | ⟨v, hv, -, rfl⟩
  · rw [hview] at hv
    cases hv
  · obtain rfl : ⟨{ code with used := false }, rfl⟩ = v := Option.some.inj (hview.symm.trans hv)
    simp only [and_self, ↓reduceIte] at hl ⊢
    obtain rfl : afterMarkUsed q code.organizationId code = l := by simpa using hl
    rcases afterMarkUsed_eq q code with hfail | hcreate
    · rw [hfail]
      trivial
    · rw [hcreate]
      refine ⟨rfl, h.presented, h.committed, Function.update_self .., ?_⟩
      intro k r hk
      rcases mem_of_write h.only hk with rfl | hmem
      · exact List.mem_singleton_self _
      · exact hmem

theorem redeemPcOk_create {rt : RefreshToken} (hrt : rt = familyOf q code)
    (h : Redeeming c i q code true [.code code.id])
    (ha : c.act i (redeemProgram.next (.create q code rt)) = some c') {l : RedeemPc}
    (hl : c'.proc i = some l) : RedeemPcOk c' i l := by
  rcases act_insert ha with ⟨hv, -, rfl⟩ | ⟨-, rfl⟩
  · obtain rfl : RedeemPc.commitRedemption q code rt = l := by simpa using hl
    have hnone : c.db.row (.token rt.id) = none := by
      rw [← hv]
      refine (Cfg.viewRow_other fun r hr => ?_).symm
      simpa using h.only _ r hr
    refine ⟨hrt, ⟨h.presented, h.committed, ?_, ?_⟩, hnone, Function.update_self ..⟩
    · rw [Cfg.goto_lock, Cfg.write_lock, Function.update_of_ne (by simp)]
      exact h.held
    · intro k r hk
      rcases mem_of_write h.only hk with rfl | hmem
      · simp
      · simpa using Or.inl (List.mem_singleton.mp hmem)
  · obtain rfl : RedeemPc.fail = l := by simpa using hl
    trivial

theorem redeemPcOk_act {l l' : RedeemPc} (h : RedeemPcOk c i l)
    (ha : c.act i (redeemProgram.next l) = some c') (hl : c'.proc i = some l') :
    RedeemPcOk c' i l' := by
  cases l with
  | resolveAuthCodeOrg q =>
    obtain rfl := act_read ha
    rw [Cfg.goto_proc, Function.update_self, Option.some.injEq] at hl
    subst hl
    cases resolveAuthCodeOrg (c.view i) q.codeSecret with
    | error e => trivial
    | ok org =>
      dsimp only
      split_ifs
      · trivial
      · exact h
  | withTenantTx q org =>
    obtain rfl := act_commit ha
    obtain rfl : RedeemPc.getByHash q org = l' := by simpa using hl
    intro k r hk
    exact h k r (Cfg.releaseLock_eq_some.mp hk).1
  | getByHash q org =>
    obtain rfl := act_read ha
    rw [Cfg.goto_proc, Function.update_self, Option.some.injEq] at hl
    subst hl
    cases getCodeByHash (c.view i) org (hashAuthCode q.codeSecret) with
    | none => trivial
    | some code => exact h
  | lockRow q org id => exact redeemPcOk_lockRow h ha hl
  | markUsed q org code => exact redeemPcOk_markUsed h.1 h.2 ha hl
  | create q code rt => exact redeemPcOk_create h.1 h.2 ha hl
  | commitRedemption q code rt =>
    obtain rfl := act_commit ha
    simp at hl
  | fail =>
    obtain rfl := act_abort ha
    simp at hl

theorem redeem_rows_cases {e : Event RedeemReq}
    (hc : ∀ i l, c.proc i = some l → RedeemPcOk c i l)
    (h : exec redeemProgram c e = some c') :
    (redeemed c e = none ∧ c'.db.row = c.db.row) ∨
      ∃ i q code rt, e = .step i ∧ c.proc i = some (.commitRedemption q code rt) ∧
        redeemed c e = some ⟨q, code, rt⟩ ∧ c' = c.commit i none := by
  by_cases hr : redeemed c e = none
  · refine Or.inl ⟨hr, ?_⟩
    rcases row_of_exec h with hrow | ⟨i, l, n, rfl, hi, hn, rfl⟩
    · exact hrow
    -- the only other commit ends the transaction that resolves the tenant
    · have hpc := hc i l hi
      cases l with
      | withTenantTx q org =>
        funext k
        exact Cfg.commit_row_of_not_own (hpc k)
      | commitRedemption q code rt => simp [redeemed, hi] at hr
      | _ => simp [redeemProgram] at hn
  · apply Or.inr
    obtain ⟨r, hr⟩ := Option.ne_none_iff_exists'.mp hr
    cases e with
    | start i q => simp [redeemed] at hr
    | kill i => simp [redeemed] at hr
    | step i =>
      unfold redeemed at hr
      dsimp only at hr
      split at hr
      · rename_i q code rt hi
        simp only [exec, hi, Option.bind_some] at h
        refine ⟨i, q, code, rt, rfl, hi, ?_, act_commit h⟩
        simp only [redeemed, hi]
      · cases hr

end Steps

/-- The row of a code after the redemptions `rs`: marked when one of them is of it. -/
def spend (rs : List Redemption) {id : Uuid} (c : Row (.code id)) : Row (.code id) :=
  if rs.any (·.code.id = id) then usedRow c else c

/-- After the successful redemptions `rs`, in a run that began over `db₀`. -/
structure RedeemInv (db₀ : Db) (rs : List Redemption) (c : RedeemCfg) : Prop where
  live : OwnersLive c
  procs : ∀ i l, c.proc i = some l → RedeemPcOk c i l
  nodup : (rs.map (·.code.id)).Nodup
  presented : ∀ r ∈ rs, db₀.row (.code r.code.id) = some ⟨r.code, rfl⟩ ∧
    Presented r.req r.code ∧ r.family = familyOf r.req r.code
  marked : ∀ id, c.db.row (.code id) = (db₀.row (.code id)).map (spend rs)
  families : ∀ t, t ∈ tokens c.db ↔ t ∈ tokens db₀ ∨ ∃ r ∈ rs, t = r.family.stored

section Run

variable {db₀ : Db} {rs : List Redemption} {c c' : RedeemCfg} {e : Event RedeemReq}

theorem spend_nil {id : Uuid} : (spend [] : Row (.code id) → Row (.code id)) = fun v => v := rfl

theorem redeemInv_idle (db : Db) : RedeemInv db [] (Cfg.idle db) where
  live := ownersLive_idle db
  procs _ _ h := by cases h
  nodup := List.nodup_nil
  presented _ h := by cases h
  marked _ := by rw [spend_nil, Option.map_id']; rfl
  families t := by simp [Cfg.idle]

theorem RedeemInv.procs_step (hc : RedeemInv db₀ rs c) (h : exec redeemProgram c e = some c') :
    ∀ i l, c'.proc i = some l → RedeemPcOk c' i l := by
  intro j l hl
  by_cases hj : j = e.actor
  · subst hj
    rcases exec_cases h with ⟨i, q, rfl, hi, rfl⟩ | ⟨i, rfl, -, rfl⟩ | ⟨i, l', rfl, hi, ha⟩
    · obtain rfl : RedeemPc.resolveAuthCodeOrg q = l := by
        simpa [Event.actor, redeemProgram] using hl
      intro k r hk
      exact hc.live k i r hk hi
    · simp [Event.actor] at hl
    · exact redeemPcOk_act (hc.procs i l' hi) ha hl
  · obtain ⟨hf, hproc⟩ := frame_of_exec h hj
    exact (hc.procs j l (hproc ▸ hl)).frame hf

/-- A redemption can only commit a code that no earlier one has spent. -/
theorem RedeemInv.unspent (hc : RedeemInv db₀ rs c) {i : ℕ} {q : RedeemReq}
    {code : AuthorizationCode} {used : Bool} {keys : List Key}
    (h : Redeeming c i q code used keys) :
    code.id ∉ rs.map (·.code.id) ∧ db₀.row (.code code.id) = some ⟨code, rfl⟩ := by
  have hrow := hc.marked code.id
  rw [h.committed, eq_comm, Option.map_eq_some_iff] at hrow
  obtain ⟨v, hv, hs⟩ := hrow
  have hnot : rs.any (·.code.id = code.id) = false := by
    by_contra hany
    rw [Bool.not_eq_false] at hany
    -- a spent code is marked, and this one is not
    have hused : (spend rs v).1.used = true := by
      unfold spend
      rw [if_pos hany]
      rfl
    rw [hs, h.presented.unused] at hused
    cases hused
  constructor
  · intro hmem
    obtain ⟨r, hr, hid⟩ := List.mem_map.mp hmem
    have hany : rs.any (·.code.id = code.id) = true :=
      List.any_eq_true.mpr ⟨r, hr, by simpa using hid⟩
    rw [hnot] at hany
    cases hany
  · unfold spend at hs
    rw [hnot, if_neg (by simp)] at hs
    rw [hv, hs]

theorem spend_append_of_ne {r : Redemption} {id : Uuid} (h : r.code.id ≠ id) (v : Row (.code id)) :
    spend (rs ++ [r]) v = spend rs v := by
  simp [spend, h]

theorem spend_append_self (rs : List Redemption) (r : Redemption) (v : Row (.code r.code.id)) :
    spend (rs ++ [r]) v = usedRow v := by
  simp [spend]

theorem RedeemInv.commit (hc : RedeemInv db₀ rs c) {i : ℕ} {q : RedeemReq}
    {code : AuthorizationCode} {rt : RefreshToken}
    (hi : c.proc i = some (.commitRedemption q code rt)) (hlive : OwnersLive (c.commit i none))
    (hprocs : ∀ j l, (c.commit i none).proc j = some l → RedeemPcOk (c.commit i none) j l) :
    RedeemInv db₀ (rs ++ [⟨q, code, rt⟩]) (c.commit i none) := by
  obtain ⟨hrt, hr, hnone, hlock⟩ := hc.procs i _ hi
  obtain ⟨hnew, hrow⟩ := hc.unspent hr
  refine ⟨hlive, hprocs, ?_, ?_, ?_, ?_⟩
  · rw [List.map_append]
    apply List.Nodup.append hc.nodup (List.nodup_singleton _)
    simpa using hnew
  · intro r hmem
    rcases List.mem_append.mp hmem with hmem | hmem
    · exact hc.presented r hmem
    · obtain rfl := List.mem_singleton.mp hmem
      exact ⟨hrow, hr.presented, hrt⟩
  · intro id
    by_cases hid : code.id = id
    · subst hid
      have hview : (c.commit i none).db.row (.code code.id) = _ := Cfg.viewRow_own hr.held
      have hspend := spend_append_self rs ⟨q, code, rt⟩ ⟨code, rfl⟩
      rw [hview, hrow, Option.map_some, hspend]
      rfl
    · have hview : (c.commit i none).db.row (.code id) = c.db.row (.code id) := by
        refine Cfg.commit_row_of_not_own fun r hk => hid ?_
        simpa [eq_comm] using hr.only _ r hk
      rw [hview, hc.marked id]
      congr 1
      funext v
      exact (spend_append_of_ne hid v).symm
  · intro t
    have hview : t ∈ tokens (c.commit i none).db ↔ t ∈ tokens c.db ∨ t = rt.stored := by
      rw [mem_tokens_iff_val, mem_tokens_iff_val, Cfg.commit_row]
      by_cases hid : t.id = rt.id
      · rw [hid, Cfg.viewRow_own hlock, hnone]
        simp [eq_comm]
      · have hother : c.viewRow i (.token t.id) = c.db.row (.token t.id) := by
          refine Cfg.viewRow_other fun r hk => hid ?_
          simpa using hr.only _ r hk
        have hne : t ≠ rt.stored := fun h => hid (by rw [h, RefreshToken.stored_id])
        rw [hother]
        simp only [hne, or_false]
    rw [hview, hc.families t]
    simp only [List.mem_append, List.mem_singleton, or_and_right, exists_or, exists_eq_left, or_assoc]

theorem RedeemInv.step (hc : RedeemInv db₀ rs c) (h : exec redeemProgram c e = some c') :
    RedeemInv db₀ (rs ++ (redeemed c e).toList) c' := by
  have hlive := hc.live.step h
  have hprocs := hc.procs_step h
  rcases redeem_rows_cases hc.procs h with ⟨hnone, hrow⟩ | ⟨i, q, code, rt, rfl, hi, hsome, rfl⟩
  · rw [hnone, Option.toList_none, List.append_nil]
    refine ⟨hlive, hprocs, hc.nodup, hc.presented, ?_, ?_⟩
    · intro id
      rw [hrow, hc.marked id]
    · intro t
      rw [← hc.families t, mem_tokens, mem_tokens, hrow]
  · rw [hsome, Option.toList_some]
    exact hc.commit hi hlive hprocs

end Run

/-- In every run of interleaved redemptions each code is redeemed at most once; a redemption
that succeeds was presented with the code's redirect_uri and a verifier of its challenge,
before it expired, and starts the one family of the code. Every other code stays as it was. -/
theorem authCode_redeemed_at_most_once (db : Db) (es : List (Event RedeemReq)) (c : RedeemCfg)
    (h : run (exec redeemProgram) (Cfg.idle db) es = some c) :
    ((redemptions (Cfg.idle db) es).map (·.code.id)).Nodup ∧
      (∀ r ∈ redemptions (Cfg.idle db) es, db.row (.code r.code.id) = some ⟨r.code, rfl⟩ ∧
        Presented r.req r.code ∧ r.family = familyOf r.req r.code) ∧
      (∀ t, t ∈ tokens c.db ↔
        t ∈ tokens db ∨ ∃ r ∈ redemptions (Cfg.idle db) es, t = r.family.stored) ∧
      ∀ id, c.db.row (.code id) =
        (db.row (.code id)).map (spend (redemptions (Cfg.idle db) es)) := by
  have hinv : RedeemInv db ([] ++ redemptions (Cfg.idle db) es) c := by
    refine trace_always ?_ (redeemInv_idle db) h
    intro os s e s' hs he
    exact hs.step he
  rw [List.nil_append] at hinv
  exact ⟨hinv.nodup, hinv.presented, hinv.families, hinv.marked⟩

namespace Sample

def issuedCode : AuthorizationCode :=
  ⟨20, hashAuthCode "ac", "app", "https://app/cb",
    String.ofList (base64RawURL (sha256 (Bytes.ofString "v"))), 2, 3, ["openid"], 60*10^9, false⟩

def issued : Db := Store.empty.set (.code 20) (some ⟨issuedCode, rfl⟩)

def redeemWith (id : Uuid) : RedeemReq := ⟨"ac", "https://app/cb", "v", 0, 10^9, ⟨"rt", 4, id⟩⟩

/-- Two redemptions of one code, both past their first read before either locks the row. -/
def race : List (Event RedeemReq) :=
  [.start 0 (redeemWith 30), .start 1 (redeemWith 31), .step 0, .step 1, .step 0, .step 1, .step 0,
   .step 1, .step 0, .step 0, .step 0, .step 0, .step 1, .step 1]

end Sample

theorem authCode_redeemed_at_most_once_raced :
    ∃ c, run (exec redeemProgram) (Cfg.idle Sample.issued) Sample.race = some c ∧
      (tokens c.db).map (·.id) = [30] ∧
      ∃ r ∈ redemptions (Cfg.idle Sample.issued) Sample.race, Presented r.req r.code := by
  have hrun : (run (exec redeemProgram) (Cfg.idle Sample.issued) Sample.race).any
      (fun c => (tokens c.db).map (·.id) = [30]) = true := by
    decide +kernel
  have hone : (redemptions (Cfg.idle Sample.issued) Sample.race).length = 1 := by
    decide +kernel
  obtain ⟨c, hc, htok⟩ := (Option.any_eq_true _ _).mp hrun
  obtain ⟨r, hr⟩ := List.length_eq_one_iff.mp hone
  have hmem : r ∈ redemptions (Cfg.idle Sample.issued) Sample.race := by
    rw [hr]
    exact List.mem_singleton_self r
  exact ⟨c, hc, of_decide_eq_true htok, r, hmem,
    ((authCode_redeemed_at_most_once _ _ c hc).2.1 r hmem).2.1⟩

end ArchGuard.Oidc
