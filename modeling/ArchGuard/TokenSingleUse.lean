import ArchGuard.OAuthRequests
import ArchGuard.RefreshBinding

/-! How often a code and a refresh token are accepted, when the statements of calls interleave. -/
namespace ArchGuard.Object
open GoText SharedCalls TransitionRun

def OAuthPc.Authorizes (l : OAuthPc) (code : GoString) : Prop :=
  ∃ q wrapper, l = .granted q wrapper ∧ q.grantType = authorizationCode ∧ q.code = code

def OAuthPc.Refreshes (l : OAuthPc) (refreshToken : GoString) : Prop :=
  ∃ q wrapper, l = .granted q wrapper ∧ q.grantType = refreshGrant ∧ q.refreshToken = refreshToken

def OAuthPc.isGranted : OAuthPc → Bool
  | .granted _ _ => true
  | _ => false

/-- Both calls have succeeded for one code, or for one refresh token. -/
def OAuthPc.Shares (l m : OAuthPc) : Prop :=
  (∃ code, l.Authorizes code ∧ m.Authorizes code) ∨ ∃ r, l.Refreshes r ∧ m.Refreshes r

/-- At most one call succeeds for a code, and for a refresh token. -/
def SingleUse (s : TokenSite) : Prop := Apart OAuthPc.Shares s

/-- In every state that a run from these tables reaches. -/
def SingleUseThroughout (t : Tables) (es : List OAuthEvent) : Prop :=
  ∀ pre post s, es = pre ++ post → run (exec oauthProgram) (Site.idle t) pre = some s → SingleUse s

/-- Where a call records a use, it is unrecorded yet: the code has an unmarked row, and the row that
a refresh deletes is there, alone with its refresh token. -/
def Unrecorded (t : Tables) : OAuthPc → Prop
  | .updateUsedByCode q _ => q.grantType = authorizationCode →
      ∃ r ∈ t.tokens, r.code = q.code ∧ r.codeIsUsed = false
  | .deleteToken q token _ =>
      ∃ r, t.tokens.filter (·.refreshTokenHash = getTokenHash q.refreshToken) = [r] ∧
        r.key = token.key ∧ r.organization = token.organization
  | _ => True

/-- A call that records a use is the first; the keyword for guests, which names no code, is not sent. -/
structure RecordsFirst (s : TokenSite) (e : OAuthEvent) : Prop where
  unrecorded : ∀ i w l, e = .step i w → s.call i = some l → Unrecorded s.shared l
  keyword : ∀ i q, e = .start i q → q.grantType = authorizationCode → q.code ≠ guestUser

/-- The row that a statement inserts. -/
def OAuthPc.mints (w : Surroundings) : OAuthPc → Option Token
  | .addGranted q a =>
    match w.otherGrant q a with
    | .error _ => none
    | .ok token => some { token with codeIsUsed := true }.popularHashes
  | .addToken _ _ new => some new.popularHashes
  | _ => none

/-- What is minted is random: it is no code and no refresh token that was accepted before. -/
structure MintsFresh (s : TokenSite) (e : OAuthEvent) : Prop where
  code : ∀ i w l row, e = .step i w → s.call i = some l → l.mints w = some row →
    row.codeIsUsed = false → ∀ j m, s.call j = some m → ¬m.Authorizes row.code
  refreshToken : ∀ i w l row, e = .step i w → s.call i = some l → l.mints w = some row →
    ∀ j m r, s.call j = some m → m.Refreshes r → row.refreshTokenHash ≠ getTokenHash r

/-- What a call knows at a statement: the grant that led there, and, once it has succeeded, that its
code is marked everywhere and its refresh token is gone. -/
def Knows (t : Tables) : OAuthPc → Prop
  | .getApplicationByClientId q => q.grantType = authorizationCode → q.code ≠ guestUser
  | .getTokenByCode q _ => q.grantType = authorizationCode
  | .addGranted q _ => q.grantType ≠ authorizationCode ∧ q.grantType ≠ refreshGrant
  | .updateTokenDPoP q token => q.grantType ≠ refreshGrant ∧
      (q.grantType = authorizationCode → token.code = q.code)
  | .updateUsedByCode q token => q.grantType ≠ refreshGrant ∧
      (q.grantType = authorizationCode → token.code = q.code)
  | .getTokenByRefreshToken q _ => q.grantType = refreshGrant
  | .getCertByApplication q _ _ => q.grantType = refreshGrant
  | .getUser q _ _ _ => q.grantType = refreshGrant
  | .addToken q _ _ => q.grantType = refreshGrant
  | .bindRefreshed q _ _ => q.grantType = refreshGrant
  | .deleteToken q _ _ => q.grantType = refreshGrant
  | .granted q _ => (q.grantType = authorizationCode →
        ∀ r ∈ t.tokens, r.code = q.code → r.codeIsUsed = true) ∧
      (q.grantType = refreshGrant →
        ∀ r ∈ t.tokens, r.refreshTokenHash ≠ getTokenHash q.refreshToken)
  | .denied _ _ => True

theorem refreshGrant_ne : refreshGrant ≠ authorizationCode := by decide

/-- Each row is one that was there, no less used and with its code and its refresh token, or is the
one that was inserted. -/
def Follows (t t' : Tables) (minted : Option Token) : Prop :=
  ∀ r ∈ t'.tokens, (∃ r₀ ∈ t.tokens, r₀.code = r.code ∧ r₀.refreshTokenHash = r.refreshTokenHash ∧
    (r₀.codeIsUsed = true → r.codeIsUsed = true)) ∨ minted = some r

section Rows

variable {t t' : Tables} {minted : Option Token}

theorem follows_refl : Follows t t minted := fun r hr => Or.inl ⟨r, hr, rfl, rfl, id⟩

theorem follows_markUsed {code : GoString} : Follows t (t.markUsed code) minted := by
  intro r hr
  obtain ⟨r₀, hr₀, rfl⟩ := List.mem_map.mp hr
  refine Or.inl ⟨r₀, hr₀, ?_⟩
  split_ifs
  · exact ⟨rfl, rfl, fun _ => rfl⟩
  · exact ⟨rfl, rfl, id⟩

theorem follows_bindToken {token : Token} : Follows t (t.bindToken token) minted := by
  intro r hr
  obtain ⟨r₀, hr₀, rfl⟩ := List.mem_map.mp hr
  refine Or.inl ⟨r₀, hr₀, ?_⟩
  split_ifs
  · exact ⟨rfl, rfl, id⟩
  · exact ⟨rfl, rfl, id⟩

theorem follows_dropToken {token : Token} : Follows t (t.dropToken token) minted :=
  fun r hr => Or.inl ⟨r, (List.mem_filter.mp hr).1, rfl, rfl, id⟩

theorem follows_insertToken {token : Token} (h : t.insertToken token = some t') :
    Follows t t' (some token.popularHashes) := by
  rw [Tables.insertToken] at h
  split_ifs at h
  obtain rfl := Option.some.inj h
  intro r hr
  rcases List.mem_append.mp hr with hr | hr
  · exact Or.inl ⟨r, hr, rfl, rfl, id⟩
  · rw [List.mem_singleton.mp hr]
    exact Or.inr rfl

/-- A code that is marked stays marked, unless it is minted again unmarked. -/
theorem Follows.marked {code : GoString} (h : Follows t t' minted)
    (hmarked : ∀ r ∈ t.tokens, r.code = code → r.codeIsUsed = true)
    (hminted : ∀ r, minted = some r → r.codeIsUsed = false → r.code ≠ code) :
    ∀ r ∈ t'.tokens, r.code = code → r.codeIsUsed = true := by
  intro r hr hcode
  rcases h r hr with ⟨r₀, hr₀, hc, -, hused⟩ | hnew
  · exact hused (hmarked r₀ hr₀ (hc.trans hcode))
  · by_contra hunused
    exact hminted r hnew (Bool.eq_false_iff.mpr hunused) hcode

theorem Follows.gone {hash : GoString} (h : Follows t t' minted)
    (hgone : ∀ r ∈ t.tokens, r.refreshTokenHash ≠ hash)
    (hminted : ∀ r, minted = some r → r.refreshTokenHash ≠ hash) :
    ∀ r ∈ t'.tokens, r.refreshTokenHash ≠ hash := by
  intro r hr
  rcases h r hr with ⟨r₀, hr₀, -, hh, -⟩ | hnew
  · exact hh ▸ hgone r₀ hr₀
  · exact hminted r hnew

theorem marked_markUsed {code : GoString} :
    ∀ r ∈ (t.markUsed code).tokens, r.code = code → r.codeIsUsed = true := by
  intro r hr hcode
  obtain ⟨r₀, -, rfl⟩ := List.mem_map.mp hr
  split_ifs at hcode ⊢ with hc
  · rfl
  · exact absurd hcode hc

theorem gone_dropToken {token r : Token} {hash : GoString}
    (honly : t.tokens.filter (·.refreshTokenHash = hash) = [r]) (hkey : r.key = token.key)
    (horg : r.organization = token.organization) :
    ∀ u ∈ (t.dropToken token).tokens, u.refreshTokenHash ≠ hash := by
  intro u hu hh
  obtain ⟨hmem, hkept⟩ := List.mem_filter.mp hu
  have hu' : u ∈ t.tokens.filter (·.refreshTokenHash = hash) :=
    List.mem_filter.mpr ⟨hmem, decide_eq_true hh⟩
  rw [honly, List.mem_singleton] at hu'
  subst hu'
  simp [hkey, horg] at hkept

end Rows

section Steps

variable {w : Surroundings} {t t' : Tables} {q : OAuthRequest} {l l' : OAuthPc}

theorem authenticate_ok {a : Application} {q' : OAuthRequest} (h : authenticate w t q = .ok (q', a)) :
    q'.grantType = q.grantType ∧ q'.code = q.code := by
  unfold authenticate at h
  grind

theorem knows_dispatch {a : Application} (h : q.grantType = authorizationCode → q.code ≠ guestUser) :
    Knows t (dispatch q a) := by
  unfold dispatch
  split_ifs with hvalid hcode hempty hguest hrefresh hsecret hother
  · trivial
  · trivial
  · exact absurd hguest (h hcode)
  · exact hcode
  · trivial
  · exact hrefresh
  · exact ⟨hcode, hrefresh⟩
  · trivial

theorem knows_bindGranted {token : Token} (hgrant : q.grantType ≠ refreshGrant)
    (hcode : q.grantType = authorizationCode → token.code = q.code) :
    Knows t (bindGranted w q token) := by
  unfold bindGranted
  split
  · exact ⟨hgrant, hcode⟩
  · split
    · trivial
    · exact ⟨hgrant, hcode⟩

theorem knows_bindNew {token new : Token} (h : q.grantType = refreshGrant) :
    Knows t (bindNew w q token new) := by
  unfold bindNew
  split
  · exact h
  · split
    · trivial
    · exact h

theorem follows_next (h : oauthProgram.next l w t = some (l', t')) : Follows t t' (l.mints w) := by
  have hsame {m : OAuthPc} (he : some (m, t) = some (l', t')) : Follows t t' (l.mints w) := by
    obtain ⟨-, rfl⟩ := Prod.mk.inj (Option.some.inj he)
    exact follows_refl
  cases l with
  | addGranted q a =>
    simp only [oauthProgram] at h
    split at h
    · exact hsame h
    · rename_i token hother
      split at h
      · exact hsame h
      · rename_i t₁ hinsert
        obtain ⟨-, rfl⟩ := Prod.mk.inj (Option.some.inj h)
        simp only [OAuthPc.mints, hother]
        exact follows_insertToken hinsert
  | updateTokenDPoP q token =>
    obtain ⟨-, rfl⟩ := Prod.mk.inj (Option.some.inj h)
    exact follows_bindToken
  | updateUsedByCode q token =>
    obtain ⟨-, rfl⟩ := Prod.mk.inj (Option.some.inj h)
    exact follows_markUsed
  | addToken q token new =>
    simp only [oauthProgram] at h
    split at h
    · exact hsame h
    · rename_i t₁ hinsert
      obtain ⟨-, rfl⟩ := Prod.mk.inj (Option.some.inj h)
      exact follows_insertToken hinsert
  | bindRefreshed q token new =>
    obtain ⟨-, rfl⟩ := Prod.mk.inj (Option.some.inj h)
    exact follows_bindToken
  | deleteToken q token new =>
    obtain ⟨-, rfl⟩ := Prod.mk.inj (Option.some.inj h)
    exact follows_dropToken
  | granted q wrapper => cases h
  | denied q err => cases h
  -- the other statements read
  | _ => exact hsame h

theorem knows_afterApplication (h : q.grantType = authorizationCode → q.code ≠ guestUser) :
    Knows t (afterApplication w t q) := by
  unfold afterApplication
  split
  · trivial
  · rename_i q' a hauth
    obtain ⟨hgrant, hcode⟩ := authenticate_ok hauth
    exact knows_dispatch (by rwa [hgrant, hcode])

theorem knows_afterCode {a : Application} (h : q.grantType = authorizationCode) :
    Knows t (afterCode w t q a) := by
  unfold afterCode
  split
  · trivial
  · rename_i token hfind
    have hcode : token.code = q.code := by simpa using List.find?_some hfind
    split
    · trivial
    · exact knows_bindGranted (fun hr => refreshGrant_ne (hr.symm.trans h)) fun _ => hcode

theorem knows_afterRefreshToken {a : Application} (h : q.grantType = refreshGrant) :
    Knows t (afterRefreshToken t q a) := by
  unfold afterRefreshToken
  split
  · trivial
  · split
    · trivial
    · exact h

theorem knows_afterCert {a : Application} {token : Token} (h : q.grantType = refreshGrant) :
    Knows t (afterCert w t q a token) := by
  unfold afterCert
  split
  · trivial
  · split
    · trivial
    · exact h

theorem knows_afterUser {a : Application} {token : Token} {scope : GoString}
    (h : q.grantType = refreshGrant) : Knows t (afterUser w t q a token scope) := by
  unfold afterUser
  split
  · trivial
  · split
    · trivial
    · exact h

theorem knows_next (hl : Knows t l) (hfirst : Unrecorded t l)
    (h : oauthProgram.next l w t = some (l', t')) : Knows t' l' := by
  cases l with
  | getApplicationByClientId q =>
    obtain ⟨rfl, rfl⟩ := Prod.mk.inj (Option.some.inj h)
    exact knows_afterApplication hl
  | getTokenByCode q a =>
    obtain ⟨rfl, rfl⟩ := Prod.mk.inj (Option.some.inj h)
    exact knows_afterCode hl
  | addGranted q a =>
    simp only [oauthProgram] at h
    split at h
    · obtain ⟨rfl, -⟩ := Prod.mk.inj (Option.some.inj h)
      trivial
    · split at h
      · obtain ⟨rfl, -⟩ := Prod.mk.inj (Option.some.inj h)
        trivial
      · obtain ⟨rfl, -⟩ := Prod.mk.inj (Option.some.inj h)
        exact knows_bindGranted hl.2 fun hc => absurd hc hl.1
  | updateTokenDPoP q token =>
    obtain ⟨rfl, -⟩ := Prod.mk.inj (Option.some.inj h)
    exact hl
  | updateUsedByCode q token =>
    obtain ⟨rfl, rfl⟩ := Prod.mk.inj (Option.some.inj h)
    refine ⟨fun hc => ?_, fun hr => absurd hr hl.1⟩
    rw [← hl.2 hc]
    exact marked_markUsed
  | getTokenByRefreshToken q a =>
    obtain ⟨rfl, rfl⟩ := Prod.mk.inj (Option.some.inj h)
    exact knows_afterRefreshToken hl
  | getCertByApplication q a token =>
    obtain ⟨rfl, rfl⟩ := Prod.mk.inj (Option.some.inj h)
    exact knows_afterCert hl
  | getUser q a token scope =>
    obtain ⟨rfl, rfl⟩ := Prod.mk.inj (Option.some.inj h)
    exact knows_afterUser hl
  | addToken q token new =>
    simp only [oauthProgram] at h
    split at h
    · obtain ⟨rfl, -⟩ := Prod.mk.inj (Option.some.inj h)
      trivial
    · obtain ⟨rfl, -⟩ := Prod.mk.inj (Option.some.inj h)
      exact knows_bindNew hl
  | bindRefreshed q token new =>
    obtain ⟨rfl, -⟩ := Prod.mk.inj (Option.some.inj h)
    exact hl
  | deleteToken q token new =>
    obtain ⟨rfl, rfl⟩ := Prod.mk.inj (Option.some.inj h)
    obtain ⟨r, honly, hkey, horg⟩ := hfirst
    exact ⟨fun hc => absurd ((show q.grantType = refreshGrant from hl).symm.trans hc) refreshGrant_ne,
      fun _ => gone_dropToken honly hkey horg⟩
  | granted q wrapper => cases h
  | denied q err => cases h

theorem Knows.follows {m : OAuthPc} {minted : Option Token} (hm : Knows t m)
    (h : Follows t t' minted)
    (hcode : ∀ r, minted = some r → r.codeIsUsed = false → ¬m.Authorizes r.code)
    (hrefresh : ∀ r, minted = some r → ∀ rt, m.Refreshes rt →
      r.refreshTokenHash ≠ getTokenHash rt) : Knows t' m := by
  cases m with
  | granted q wrapper =>
    refine ⟨fun hc => h.marked (hm.1 hc) ?_, fun hr => h.gone (hm.2 hr) ?_⟩
    · intro r hr hunused he
      exact hcode r hr hunused ⟨q, wrapper, rfl, hc, he.symm⟩
    · intro r hnew
      exact hrefresh r hnew q.refreshToken ⟨q, wrapper, rfl, hr, rfl⟩
  | _ => exact hm

@[simp] theorem isGranted_bindGranted {token : Token} : (bindGranted w q token).isGranted = false := by
  grind [bindGranted, OAuthPc.isGranted]

@[simp] theorem isGranted_bindNew {token new : Token} :
    (bindNew w q token new).isGranted = false := by
  grind [bindNew, OAuthPc.isGranted]

@[simp] theorem isGranted_dispatch {a : Application} : (dispatch q a).isGranted = false := by
  grind [dispatch, OAuthPc.isGranted]

@[simp] theorem isGranted_afterApplication : (afterApplication w t q).isGranted = false := by
  grind [afterApplication, isGranted_dispatch, OAuthPc.isGranted]

@[simp] theorem isGranted_afterCode {a : Application} : (afterCode w t q a).isGranted = false := by
  grind [afterCode, isGranted_bindGranted, OAuthPc.isGranted]

@[simp] theorem isGranted_afterRefreshToken {a : Application} :
    (afterRefreshToken t q a).isGranted = false := by
  grind [afterRefreshToken, OAuthPc.isGranted]

@[simp] theorem isGranted_afterCert {a : Application} {token : Token} :
    (afterCert w t q a token).isGranted = false := by
  grind [afterCert, OAuthPc.isGranted]

@[simp] theorem isGranted_afterUser {a : Application} {token : Token} {scope : GoString} :
    (afterUser w t q a token scope).isGranted = false := by
  grind [afterUser, OAuthPc.isGranted]

theorem granted_next (h : oauthProgram.next l w t = some (l', t')) (hg : l'.isGranted = true) :
    (∃ q token, l = .updateUsedByCode q token ∧ l' = .granted q token.wrap) ∨
      ∃ q token new, l = .deleteToken q token new ∧ l' = .granted q new.wrap := by
  have hfalse {m : OAuthPc} {u : Tables} (he : some (m, u) = some (l', t'))
      (hm : m.isGranted = false) : False := by
    obtain ⟨rfl, -⟩ := Prod.mk.inj (Option.some.inj he)
    rw [hm] at hg
    cases hg
  cases l with
  | updateUsedByCode q token =>
    obtain ⟨rfl, -⟩ := Prod.mk.inj (Option.some.inj h)
    exact Or.inl ⟨q, token, rfl, rfl⟩
  | deleteToken q token new =>
    obtain ⟨rfl, -⟩ := Prod.mk.inj (Option.some.inj h)
    exact Or.inr ⟨q, token, new, rfl, rfl⟩
  | addGranted q a =>
    simp only [oauthProgram] at h
    split at h
    · exact (hfalse h rfl).elim
    · split at h
      · exact (hfalse h rfl).elim
      · exact (hfalse h isGranted_bindGranted).elim
  | addToken q token new =>
    simp only [oauthProgram] at h
    split at h
    · exact (hfalse h rfl).elim
    · exact (hfalse h isGranted_bindNew).elim
  | granted q wrapper => cases h
  | denied q err => cases h
  | updateTokenDPoP q token => exact (hfalse h rfl).elim
  | bindRefreshed q token new => exact (hfalse h rfl).elim
  | getApplicationByClientId q => exact (hfalse h isGranted_afterApplication).elim
  | getTokenByCode q a => exact (hfalse h isGranted_afterCode).elim
  | getTokenByRefreshToken q a => exact (hfalse h isGranted_afterRefreshToken).elim
  | getCertByApplication q a token => exact (hfalse h isGranted_afterCert).elim
  | getUser q a token scope => exact (hfalse h isGranted_afterUser).elim

theorem not_shares_next {m : OAuthPc} (hl : Knows t l) (hfirst : Unrecorded t l) (hm : Knows t m)
    (h : oauthProgram.next l w t = some (l', t')) : ¬l'.Shares m := by
  rintro (⟨code, ⟨q, wrapper, rfl, hgrant, rfl⟩, qm, wm, rfl, hgm, hcode⟩ |
    ⟨r, ⟨q, wrapper, rfl, hgrant, rfl⟩, qm, wm, rfl, hgm, hrefresh⟩)
  · rcases granted_next h rfl with ⟨q', token, rfl, he⟩ | ⟨q', token, new, rfl, he⟩
    · obtain ⟨rfl, -⟩ := OAuthPc.granted.inj he
      obtain ⟨r, hr, hc, hunused⟩ := hfirst hgrant
      have hused := hm.1 hgm r hr (hc.trans hcode.symm)
      rw [hunused] at hused
      cases hused
    · obtain ⟨rfl, -⟩ := OAuthPc.granted.inj he
      exact refreshGrant_ne ((show q.grantType = refreshGrant from hl).symm.trans hgrant)
  · rcases granted_next h rfl with ⟨q', token, rfl, he⟩ | ⟨q', token, new, rfl, he⟩
    · obtain ⟨rfl, -⟩ := OAuthPc.granted.inj he
      exact hl.1 hgrant
    · obtain ⟨rfl, -⟩ := OAuthPc.granted.inj he
      obtain ⟨r, honly, -, -⟩ := hfirst
      have hr : r ∈ t.tokens.filter (·.refreshTokenHash = getTokenHash q.refreshToken) := by
        rw [honly]
        exact List.mem_singleton_self r
      obtain ⟨hmem, hhash⟩ := List.mem_filter.mp hr
      exact hm.2 hgm r hmem (by rw [hrefresh]; exact of_decide_eq_true hhash)

end Steps

section Runs

variable {s s' : TokenSite} {e : OAuthEvent}

/-- What every call knows, and that no two share a use. -/
structure Redeeming (s : TokenSite) : Prop where
  knows : Holds (fun _ => True) Knows s
  single : SingleUse s

theorem shares_symm (l m : OAuthPc) (h : l.Shares m) : m.Shares l := by
  rcases h with ⟨code, hl, hm⟩ | ⟨r, hl, hm⟩
  · exact Or.inl ⟨code, hm, hl⟩
  · exact Or.inr ⟨r, hm, hl⟩

theorem Redeeming.step (h : Redeeming s) (hfirst : RecordsFirst s e) (hfresh : MintsFresh s e)
    (he : exec oauthProgram s e = some s') : Redeeming s' := by
  refine ⟨h.knows.exec he ?_ ?_ ?_, h.single.exec shares_symm he ?_ ?_⟩
  · intro i q hstart
    exact hfirst.keyword i q hstart
  · intro i w l l' t hstep hl hnext
    exact ⟨trivial, knows_next (h.knows.call i l hl) (hfirst.unrecorded i w l hstep hl) hnext⟩
  · intro i w l l' t hstep hl hnext j m hj hm
    refine (h.knows.call j m hm).follows (follows_next hnext) ?_ ?_
    · intro r hr hunused
      exact hfresh.code i w l r hstep hl hr hunused j m hm
    · intro r hr rt hrt
      exact hfresh.refreshToken i w l r hstep hl hr j m rt hm hrt
  · rintro i q - j m - - (⟨code, ⟨q', wrapper, hg, -⟩, -⟩ | ⟨r, ⟨q', wrapper, hg, -⟩, -⟩)
    · cases hg
    · cases hg
  · intro i w l l' t hstep hl hnext j m hj hm
    exact not_shares_next (h.knows.call i l hl) (hfirst.unrecorded i w l hstep hl)
      (h.knows.call j m hm) hnext

theorem redeeming_idle (t : Tables) : Redeeming (Site.idle t) :=
  ⟨holds_idle trivial, apart_idle⟩

end Runs

/-- Codes and refresh tokens are accepted once where every use is recorded before another call
records it too. -/
theorem single_use_of_recordsFirst (t : Tables) (es : List OAuthEvent)
    (hfirst : Along (exec oauthProgram) RecordsFirst (Site.idle t) es)
    (hfresh : Along (exec oauthProgram) MintsFresh (Site.idle t) es) :
    SingleUseThroughout t es := by
  rintro pre post s rfl hrun
  have hok := along_and (along_append.mp hfirst).1 (along_append.mp hfresh).1
  have hredeeming : Redeeming s := by
    refine run_invariant (fun s e s' hs hok he => ?_) (redeeming_idle t) hok hrun
    exact hs.step hok.1 hok.2 he
  exact hredeeming.single

/-- `RecordsFirst` by evaluation. -/
def recordsFirstTest (s : TokenSite) : OAuthEvent → Bool
  | .start _ q => q.grantType ≠ authorizationCode || q.code ≠ guestUser
  | .step i _ =>
    match s.call i with
    | some (.updateUsedByCode q _) => q.grantType ≠ authorizationCode ||
        s.shared.tokens.any fun r => r.code = q.code && !r.codeIsUsed
    | some (.deleteToken q token _) =>
      match s.shared.tokens.filter (·.refreshTokenHash = getTokenHash q.refreshToken) with
      | [r] => r.key = token.key && r.organization = token.organization
      | _ => false
    | _ => true

/-- `MintsFresh` by evaluation, for the first `n` calls. -/
def mintsFreshTest (n : ℕ) (s : TokenSite) : OAuthEvent → Bool
  | .start i _ => i < n
  | .step i w => i < n && ((s.call i).bind (·.mints w)).all fun row =>
      (List.range n).all fun j => (s.call j).all fun
        | .granted q _ => (row.codeIsUsed || q.grantType ≠ authorizationCode || q.code ≠ row.code) &&
            (q.grantType ≠ refreshGrant || row.refreshTokenHash ≠ getTokenHash q.refreshToken)
        | _ => true

theorem recordsFirst_of_test {s : TokenSite} {e : OAuthEvent} (h : recordsFirstTest s e = true) :
    RecordsFirst s e := by
  constructor
  · rintro i w l rfl hl
    simp only [recordsFirstTest, hl] at h
    cases l with
    | updateUsedByCode q token =>
      intro hgrant
      simpa [hgrant] using h
    | deleteToken q token new =>
      simp only at h
      split at h
      · rename_i r honly
        exact ⟨r, honly, by simpa using h⟩
      · cases h
    | _ => trivial
  · rintro i q rfl hgrant
    simpa [recordsFirstTest, hgrant] using h

theorem mintsFresh_of_test {n : ℕ} {s : TokenSite} {e : OAuthEvent} (hs : Among n s)
    (h : mintsFreshTest n s e = true) : MintsFresh s e := by
  have hrow {i : ℕ} {w : Surroundings} {l : OAuthPc} {row : Token} (he : e = .step i w)
      (hl : s.call i = some l) (hm : l.mints w = some row) {j : ℕ} {q : OAuthRequest}
      {wrapper : TokenWrapper} (hj : s.call j = some (.granted q wrapper)) :
      (row.codeIsUsed = true ∨ q.grantType ≠ authorizationCode ∨ q.code ≠ row.code) ∧
        (q.grantType ≠ refreshGrant ∨ row.refreshTokenHash ≠ getTokenHash q.refreshToken) := by
    subst he
    simp only [mintsFreshTest, hl, Option.bind_some, hm, Option.all_some, Bool.and_eq_true] at h
    simpa [or_assoc] using hs.forall h.2 hj
  refine ⟨?_, ?_⟩
  · rintro i w l row he hl hm hunused j m hj ⟨q, wrapper, rfl, hgrant, hcode⟩
    rcases (hrow he hl hm hj).1 with hused | hgrant' | hcode'
    · rw [hunused] at hused
      cases hused
    · exact hgrant' hgrant
    · exact hcode' hcode
  · rintro i w l row he hl hm j m rt hj ⟨q, wrapper, rfl, hgrant, rfl⟩
    rcases (hrow he hl hm hj).2 with hgrant' | hhash
    · exact absurd hgrant hgrant'
    · exact hhash

theorem caller_of_test {n : ℕ} {s : TokenSite} {e : OAuthEvent} (h : mintsFreshTest n s e = true) :
    e.caller < n := by
  cases e with
  | start i q => exact of_decide_eq_true h
  | step i w => exact of_decide_eq_true (Bool.and_eq_true_iff.mp h).1

theorem mintsFresh_of_check {n : ℕ} {t : Tables} {es : List OAuthEvent}
    (h : checkAlong (exec oauthProgram) (mintsFreshTest n) (Site.idle t) es = true) :
    Along (exec oauthProgram) MintsFresh (Site.idle t) es :=
  along_of_among (fun _ _ ht => caller_of_test ht) (fun _ _ hs ht => mintsFresh_of_test hs ht) h

namespace Sample

def codeToken : Token := { shopToken with
  name := utf8 "t0"
  code := utf8 "k0"
  refreshToken := utf8 "rt0"
  refreshTokenHash := getTokenHash (utf8 "rt0")
  codeIsUsed := false
  codeExpireIn := 300 }

def tables : Tables := { store with tokens := [codeToken] }

def surroundings : Surroundings where
  toWorld := library
  nowUnix := 60
  formatUnix _ := utf8 "2024-01-01T00:01:00Z"
  assertionSubject _ := .error (utf8 "token is malformed")
  validateJwtAssertion _ _ _ := .ok false
  otherGrant _ _ := .error forbiddenUser

def request (grantType : GoString) : OAuthRequest where
  grantType := grantType
  clientId := utf8 "c1"
  clientSecret := utf8 "s1"
  code := utf8 "k0"
  verifier := []
  scope := []
  host := utf8 "host"
  refreshToken := utf8 "rt0"
  clientAssertion := []
  clientAssertionType := []
  resource := []
  dpopProof := []

def step (i : ℕ) : OAuthEvent := .step i surroundings

/-- Two calls for a code and two for its refresh token, one after the other. -/
def inTurn : List OAuthEvent :=
  [.start 0 (request authorizationCode), step 0, step 0, step 0,
    .start 1 (request authorizationCode), step 1, step 1,
    .start 2 (request refreshGrant), step 2, step 2, step 2, step 2, step 2, step 2,
    .start 3 (request refreshGrant), step 3, step 3]

/-- Two calls for a code that both read it before either marks it. -/
def overlapping : List OAuthEvent :=
  [.start 0 (request authorizationCode), .start 1 (request authorizationCode), step 0, step 1, step 0,
    step 1, step 0, step 1]

def outcome (es : List OAuthEvent) (i : ℕ) : Option OAuthPc :=
  (run (exec oauthProgram) (Site.idle tables) es).bind (·.call i)

end Sample

theorem single_use_of_recordsFirst_inTurn : SingleUseThroughout Sample.tables Sample.inTurn :=
  single_use_of_recordsFirst Sample.tables Sample.inTurn
    (along_of_check (fun _ _ => recordsFirst_of_test) (by decide +kernel))
    (mintsFresh_of_check (n := 4) (by decide +kernel))

example : ((List.range 4).map fun i => (Sample.outcome Sample.inTurn i).map (·.isGranted)) =
    [some true, some false, some true, some false] := by
  decide +kernel

/-- Both of two calls for one code succeed. -/
theorem code_accepted_twice : ¬SingleUseThroughout Sample.tables Sample.overlapping := by
  intro h
  rcases hrun : run (exec oauthProgram) (Site.idle Sample.tables) Sample.overlapping with _ | s
  · exact absurd (congrArg Option.isSome hrun) (by decide +kernel)
  · have hcall (i : ℕ) (hi : i < 2) : s.call i =
        some (.granted (Sample.request authorizationCode) Sample.codeToken.wrap) := by
      have hout : Sample.outcome Sample.overlapping i =
          some (.granted (Sample.request authorizationCode) Sample.codeToken.wrap) := by
        interval_cases i
        · decide +kernel
        · decide +kernel
      rwa [Sample.outcome, hrun] at hout
    refine h _ [] s (List.append_nil _).symm hrun 0 1 _ _ (by decide) (hcall 0 (by decide))
      (hcall 1 (by decide)) (Or.inl ⟨utf8 "k0", ⟨_, _, rfl, rfl, rfl⟩, ⟨_, _, rfl, rfl, rfl⟩⟩)

end ArchGuard.Object
