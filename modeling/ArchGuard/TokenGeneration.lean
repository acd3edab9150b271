import ArchGuard.OidcSite
import ArchGuard.UuidText

/-! An access token against the token generation of its session: introspection looks at
the session's tenant and status, and a session can come back to a tenant it left. -/
namespace ArchGuard.Oidc
open TransitionRun
open Tenancy (Switching SessionRow sessionAt)

def generationOf (s : Site) (sessionId : Uuid) : Option ℕ :=
  (sessionAt s.tenancy sessionId).map fun r => r.session.tokenGeneration

section Bound

/- Outside the repository: `uuid.Parse`, and the check of a token's signature. -/
variable (parse : String → Option Uuid) (verify : String → Option OIDCClaims)

/-- In every state of the run the token is reported active only at the generation the run
began with, and never again once the generation has moved. -/
def BoundToGeneration (cfg : Config) (s₀ : Site) (token : String) (sessionId : Uuid)
    (ops : List SiteOp) : Prop :=
  ∀ pre post s, ops = pre ++ post → run (serve cfg) s₀ pre = some s →
    (∀ now, (introspect parse verify s.tenancy token now).active = true →
      generationOf s sessionId = generationOf s₀ sessionId) ∧
    (generationOf s sessionId ≠ generationOf s₀ sessionId →
      ∀ mid rest s', post = mid ++ rest → run (serve cfg) s mid = some s' →
        ∀ now, (introspect parse verify s'.tenancy token now).active = false)

end Bound

def Returns (cfg : Config) (org sessionId : Uuid) (s : Site) (op : SiteOp) : Prop :=
  ∃ identityId dest r, op = .switchTenant identityId sessionId dest ∧ dest.organizationId = org ∧
    Switching s.tenancy cfg.policy identityId sessionId dest r

/-- The session has its tenant, at generation `g` or a later one. -/
def Since (sessionId : Uuid) (g : ℕ) (s : Site) : Prop :=
  ∃ r, sessionAt s.tenancy sessionId = some r ∧ r.session.status ≠ .pendingSelection ∧
    g ≤ r.session.tokenGeneration

/-- Where the session is active in the organization, it is at generation `g`. -/
def OnlyAt (org sessionId : Uuid) (g : ℕ) (s : Site) : Prop :=
  ∀ r, sessionAt s.tenancy sessionId = some r → r.session.organizationId = some org →
    r.session.status = .active → r.session.tokenGeneration = g

section Steps

variable {cfg : Config} {s : Site} {op : SiteOp} {org sessionId : Uuid} {g : ℕ}

theorem Since.step (h : Since sessionId g s) : Since sessionId g (s.after cfg op) := by
  obtain ⟨r, hr, hp, hg⟩ := h
  rcases sessionAt_after cfg s op sessionId with
    hsame | hnone | ⟨r', hr', hpend⟩ | ⟨r', hr', hrev⟩ | ⟨identityId, dest, r', -, hsw, hmoved⟩
  · exact ⟨r, hsame.trans hr, hp, hg⟩
  · rw [hr] at hnone
    cases hnone
  · obtain rfl := Option.some.inj (hr.symm.trans hr')
    exact absurd hpend hp
  · obtain rfl := Option.some.inj (hr.symm.trans hr')
    exact ⟨r.revoked, hrev, by simp [SessionRow.revoked], hg⟩
  · obtain rfl := Option.some.inj (hr.symm.trans hsw.row)
    refine ⟨r.switched dest, hmoved, hp, ?_⟩
    change g ≤ r.session.tokenGeneration+1
    omega

theorem onlyAt_step (hs : Since sessionId g s) (h : OnlyAt org sessionId g s) :
    OnlyAt org sessionId g (s.after cfg op) ↔ ¬Returns cfg org sessionId s op := by
  obtain ⟨r, hr, hp, hg⟩ := hs
  constructor
  · rintro hafter ⟨identityId, dest, r', rfl, horg, hsw⟩
    obtain rfl := Option.some.inj (hr.symm.trans hsw.row)
    rcases Tenancy.switchTenant_rows s.tenancy cfg.policy identityId sessionId dest with
      ⟨r', hr', hrows⟩ | ⟨hno, -⟩
    · obtain rfl := Option.some.inj (hr.symm.trans hr'.row)
      have hmoved : sessionAt (s.after cfg (.switchTenant identityId sessionId dest)).tenancy
          sessionId = some (r.switched dest) := by
        simp only [Site.after]
        rw [hrows, Function.update_self]
      have hgen := hafter _ hmoved (congrArg some horg) hsw.active
      change r.session.tokenGeneration+1 = g at hgen
      omega
    · exact hno r hsw
  · intro hret r' hr' horg hact
    rcases sessionAt_after cfg s op sessionId with
      hsame | hnone | ⟨r₁, hr₁, hpend⟩ | ⟨r₁, hr₁, hrev⟩ | ⟨identityId, dest, r₁, hop, hsw, hmoved⟩
    · exact h r' (hsame.symm.trans hr') horg hact
    · rw [hr] at hnone
      cases hnone
    · obtain rfl := Option.some.inj (hr.symm.trans hr₁)
      exact absurd hpend hp
    · obtain rfl := Option.some.inj (hr'.symm.trans hrev)
      cases hact
    · obtain rfl := Option.some.inj (hr'.symm.trans hmoved)
      exact absurd ⟨identityId, dest, r₁, hop, Option.some.inj horg, hsw⟩ hret

theorem Since.run {ops : List SiteOp} {s' : Site} (h : Since sessionId g s)
    (hrun : run (serve cfg) s ops = some s') : Since sessionId g s' := by
  refine run_always ?_ h hrun
  intro t op t' ht hop
  exact Option.some.inj hop ▸ ht.step

end Steps

section Token

variable {parse : String → Option Uuid} {verify : String → Option OIDCClaims} {cfg : Config}
  {s₀ : Site} {org sessionId : Uuid} {audience : String} {scopes : List String} {email : String}
  {now₀ : Time} {token : String} {claims : OIDCClaims}

theorem issued_session
    (h : cfg.issuer.issueAccessToken s₀.tenancy org sessionId audience scopes email now₀ =
      .ok (token, claims)) :
    ∃ r, sessionAt s₀.tenancy sessionId = some r ∧ r.session.status = .active ∧
      claims.org = org.text ∧ claims.sid = sessionId.text := by
  obtain ⟨r, idn, membershipId, hr, -, hcl, rfl, -⟩ := issueAccessToken_eq_ok.mp h
  refine ⟨r, hr, hcl.active, rfl, ?_⟩
  change r.session.id.text = sessionId.text
  rw [Tenancy.sessionAt_id hr]

theorem exists_unix_lt (exp : ℤ) : ∃ now : Time, Time.unix now < exp := by
  refine ⟨(exp-1)*10^9, ?_⟩
  unfold Time.unix
  omega

/-- A token stays bound to the generation of its session exactly along the runs in which no
switch brings the session back into the token's organization. -/
theorem boundToGeneration_iff_noReturn (ops : List SiteOp)
    (hissue : cfg.issuer.issueAccessToken s₀.tenancy org sessionId audience scopes email now₀ =
      .ok (token, claims))
    (hverify : verify token = some claims) (horg : parse org.text = some org)
    (hsid : parse sessionId.text = some sessionId) :
    BoundToGeneration parse verify cfg s₀ token sessionId ops ↔
      Along (serve cfg) (fun s op => ¬Returns cfg org sessionId s op) s₀ ops := by
  obtain ⟨r₀, hr₀, hact₀, hco, hcs⟩ := issued_session hissue
  let g := r₀.session.tokenGeneration
  have hgen₀ : generationOf s₀ sessionId = some g := by
    rw [generationOf, hr₀]
    rfl
  have hactive (s : Site) (now : Time) :
      (introspect parse verify s.tenancy token now).active = true ↔
        org ≠ Uuid.nil ∧ Time.unix now < claims.exp ∧ ∃ r, sessionAt s.tenancy sessionId = some r ∧
          r.session.organizationId = some org ∧ r.session.status = .active :=
    introspect_active_iff hverify (hco ▸ horg) (hcs ▸ hsid)
  have hsince : Since sessionId g s₀ := ⟨r₀, hr₀, by simp [hact₀], le_rfl⟩
  have honly : OnlyAt org sessionId g s₀ := by
    intro r hr _ _
    obtain rfl := Option.some.inj (hr₀.symm.trans hr)
    rfl
  obtain ⟨t, ht⟩ := run_of_total (serve_total cfg) s₀ ops
  have hstays : (∀ pre post s, ops = pre ++ post → run (serve cfg) s₀ pre = some s →
      OnlyAt org sessionId g s) ↔
        Along (serve cfg) (fun s op => ¬Returns cfg org sessionId s op) s₀ ops :=
    stays_iff_along_of_run (J := Since sessionId g) (A := fun _ => True)
      (fun s op s' _ hs _ he => Option.some.inj he ▸ hs.step)
      (fun s op s' hs hI he => Option.some.inj he ▸ onlyAt_step hs hI)
      (fun _ _ => trivial) hsince honly ht
  constructor
  · intro hb
    by_cases hnil : org = Uuid.nil
    -- no switch leads to the nil organization
    · refine along_of_forall ?_ _ _
      rintro s op ⟨identityId, dest, r, -, hdest, hsw⟩
      exact hsw.refs.2.2.2 (hdest.trans hnil)
    · apply hstays.mp
      intro pre post s he hrun r hr hro hract
      obtain ⟨now, hnow⟩ := exists_unix_lt claims.exp
      have hbound := (hb pre post s he hrun).1 now
        ((hactive s now).mpr ⟨hnil, hnow, r, hr, hro, hract⟩)
      rw [hgen₀, generationOf, hr] at hbound
      exact Option.some.inj hbound
  · intro hal pre post s he hrun
    have hstay := hstays.mpr hal
    have hat (u : Site) (hu : OnlyAt org sessionId g u) (now : Time)
        (ha : (introspect parse verify u.tenancy token now).active = true) :
        generationOf u sessionId = some g := by
      obtain ⟨-, -, r, hr, hro, hract⟩ := (hactive u now).mp ha
      rw [generationOf, hr, Option.map_some, hu r hr hro hract]
    refine ⟨fun now ha => hgen₀ ▸ hat s (hstay pre post s he hrun) now ha, ?_⟩
    intro hmoved mid rest s' hpost hmid now
    rw [Bool.eq_false_iff]
    intro ha
    have hrun' : run (serve cfg) s₀ (pre ++ mid) = some s' := run_append.mpr ⟨s, hrun, hmid⟩
    have hs' := hat s' (hstay (pre ++ mid) rest s' (by rw [he, hpost, List.append_assoc]) hrun')
      now ha
    -- the generation had moved past `g`, and it never goes down
    obtain ⟨r, hr, hp, hg⟩ := hsince.run hrun
    obtain ⟨r', hr', -, hg'⟩ := Since.run ⟨r, hr, hp, le_rfl⟩ hmid
    have hgr' : r'.session.tokenGeneration = g := by
      rw [generationOf, hr'] at hs'
      exact Option.some.inj hs'
    apply hmoved
    rw [hgen₀, generationOf, hr, Option.map_some]
    congr 1
    omega

end Token

namespace Sample

/-- `uuid.Parse` on a text in canonical form. -/
def parse (s : String) : Option Uuid :=
  let digits := s.toList.filter (· ≠ '-')
  if digits.length ≠ 32 ∨ (digits.any fun c => (hexValue c).isNone) then none
  else some (BitVec.ofNat 128 (digits.foldl (fun n c => 16*n+(hexValue c).getD 0) 0))

/-- The claims of a token issued for session 7, at its first second. -/
def issuedClaims : OIDCClaims :=
  (config.issuer.input ⟨7, 2, some 3, some 1, .active, .aal1, 1, 10^9, [.password]⟩ "idp|ana" "app"
    ["openid"] "" (10^9)).claims 3 1

def verify (token : String) : Option OIDCClaims := if token = "jwt" then some issuedClaims else none

theorem tokenIssued : config.issuer.issueAccessToken site.tenancy 1 7 "app" ["openid"] "" (10^9) =
    .ok ("jwt", issuedClaims) := by
  refine issueAccessToken_eq_ok.mpr ⟨_, _, 3, rfl, rfl, ?_, rfl, rfl⟩
  exact {
    issuer := by decide
    audience := by decide
    subject := by decide
    ttl := by decide
    active := rfl
    membership := rfl
    organization := rfl
    methods := by decide
    authTime := by decide
    issuedAt := by decide }

end Sample

theorem boundToGeneration_switched_away :
    BoundToGeneration Sample.parse Sample.verify Sample.config Sample.site "jwt" 7 [Sample.toSecond] := by
  refine (boundToGeneration_iff_noReturn _ Sample.tokenIssued rfl (by decide +kernel)
    (by decide +kernel)).mpr ⟨?_, fun _ _ => trivial⟩
  rintro ⟨identityId, dest, r, hop, horg, -⟩
  cases hop
  exact absurd horg (by decide)

/-- The session switches to its second tenant and back: the token of the first generation is
reported active at the third. -/
theorem token_active_after_return :
    Sample.config.issuer.issueAccessToken Sample.site.tenancy 1 7 "app" ["openid"] "" (10^9) =
        .ok ("jwt", Sample.issuedClaims) ∧
      ¬BoundToGeneration Sample.parse Sample.verify Sample.config Sample.site "jwt" 7
        [Sample.toSecond, Sample.toFirst] := by
  refine ⟨Sample.tokenIssued, fun h => ?_⟩
  have hrun : (run (serve Sample.config) Sample.site [Sample.toSecond, Sample.toFirst]).any
      (fun s => (introspect Sample.parse Sample.verify s.tenancy "jwt" (10^9)).active &&
        generationOf s 7 = some 3) = true := by
    decide +kernel
  obtain ⟨s, hs, hboth⟩ := (Option.any_eq_true _ _).mp hrun
  obtain ⟨hactive, hgen⟩ := Bool.and_eq_true_iff.mp hboth
  have hbound := (h _ [] s (List.append_nil _).symm hs).1 _ hactive
  rw [of_decide_eq_true hgen] at hbound
  exact absurd hbound (by decide +kernel)

end ArchGuard.Oidc
