import ArchGuard.RefreshBinding

/-! The bounds of a token exchange: who may present a subject token, and for which scopes. -/
namespace ArchGuard.Object
open GoMethod GoText Method

def issuer (w : World) (t : Tables) (subjectToken : GoString) : Option Application :=
  (w.parseUnverified subjectToken).toOption.bind fun c => getApplicationByClientId t c.azp

/-- What the subject token says, verified by the certificate of its issuer. -/
def subjectClaims (w : World) (t : Tables) (subjectToken : GoString) : Option Claims :=
  (issuer w t subjectToken).bind fun a => presentedClaims w t a subjectToken

/-- The requesting application issued the subject token, or is in its audience. -/
def Addressed (requesting issuing : Application) (subject : Claims) : Prop :=
  issuing.clientId = requesting.clientId ∨ requesting.clientId ∈ subject.audience

section Spec

variable {w : World} {t t' : Tables}

theorem parseAndValidate_ok {subjectToken clientId : GoString} {subject : Claims}
    (h : (parseAndValidateSubjectToken w subjectToken clientId).call t = (.ok subject, t')) :
    t = t' ∧ ∃ issuing, issuer w t subjectToken = some issuing ∧
      subjectClaims w t subjectToken = some subject ∧
      (issuing.tokenFormat = utf8 "JWT-Standard" ∨ issuing.clientId = clientId ∨
        clientId ∈ subject.audience) := by
  rw [parseAndValidateSubjectToken, call_get_bind] at h
  obtain ⟨unverified, hunverified, h⟩ := checked_bind_ok.mp h
  obtain ⟨-, h⟩ := (refuseIf_bind_ok _).mp h
  obtain ⟨issuing, hissuing, h⟩ := required_bind_ok.mp h
  obtain ⟨cert, hcert, h⟩ := required_bind_ok.mp h
  obtain ⟨claims, hclaims, h⟩ := checked_bind_ok.mp h
  obtain ⟨haudience, h⟩ := (refuseIf_bind_ok _).mp h
  obtain ⟨rfl, rfl⟩ := (pure_ok _).mp h
  have hissuer : issuer w t subjectToken = some issuing := by
    rw [issuer, hunverified]
    exact hissuing
  refine ⟨rfl, issuing, hissuer, ?_, ?_⟩
  · rw [subjectClaims, hissuer, Option.bind_some, presentedClaims, hcert, Option.bind_some, hclaims]
    rfl
  · by_contra hnot
    obtain ⟨hformat, hnot⟩ := not_or.mp hnot
    obtain ⟨hclient, hmem⟩ := not_or.mp hnot
    exact haudience ⟨hformat, hclient, hmem⟩

theorem firstUncovered_eq_none {subjectScope scope : GoString} :
    firstUncovered subjectScope scope = none ↔ ScopeWithin scope subjectScope := by
  rw [firstUncovered, List.find?_eq_none]
  constructor
  · intro h s hs
    obtain ⟨hmem, hne⟩ := mem_scopeWords.mp hs
    have hcovered := h s hmem
    simp only [hne, ne_eq, not_false_eq_true, decide_true, Bool.true_and, Bool.not_eq_true',
      Bool.not_eq_false, List.contains_iff_mem] at hcovered
    exact mem_scopeWords.mpr ⟨hcovered, hne⟩
  · intro h s hmem
    by_cases hne : s = []
    · simp [hne]
    · have hcovered := (mem_scopeWords.mp (h s (mem_scopeWords.mpr ⟨hmem, hne⟩))).1
      simp [hcovered]

theorem exchangedScope_ok {subjectScope scope new : GoString}
    (h : (exchangedScope subjectScope scope).call t = (.ok new, t')) :
    t = t' ∧ (ScopeWithin new subjectScope ↔ (subjectScope = [] → scopeWords scope = [])) := by
  rw [exchangedScope] at h
  split_ifs at h with hscope hsubject
  · obtain ⟨rfl, rfl⟩ := (pure_ok _).mp h
    refine ⟨rfl, fun _ _ => ?_, fun _ => scopeWithin_refl _⟩
    rw [hscope, scopeWords_nil]
  · obtain ⟨rfl, rfl⟩ := (pure_ok _).mp h
    refine ⟨rfl, fun hwithin _ => ?_, fun hnone s hs => ?_⟩
    · apply List.eq_nil_iff_forall_not_mem.mpr
      intro s hs
      have hmem := hwithin s hs
      rw [hsubject, scopeWords_nil] at hmem
      cases hmem
    · rw [hnone hsubject] at hs
      cases hs
  · cases hfirst : firstUncovered subjectScope scope with
    | some s =>
      rw [hfirst] at h
      cases h
    | none =>
      rw [hfirst] at h
      obtain ⟨rfl, rfl⟩ := (pure_ok _).mp h
      exact ⟨rfl, fun _ he => absurd he hsubject, fun _ => firstUncovered_eq_none.mp hfirst⟩

theorem tokenExchange_ok {q : ExchangeRequest} {token : Token}
    (h : (getTokenExchangeToken w q).call t = (.ok token, t')) :
    ∃ issuing subject, issuer w t q.subjectToken = some issuing ∧
      subjectClaims w t q.subjectToken = some subject ∧
      (issuing.tokenFormat = utf8 "JWT-Standard" ∨ Addressed q.application issuing subject) ∧
      (ScopeWithin token.scope subject.scope ↔ (subject.scope = [] → scopeWords q.scope = [])) := by
  obtain ⟨-, h⟩ := (refuseIf_bind_ok _).mp h
  obtain ⟨-, h⟩ := (refuseIf_bind_ok _).mp h
  obtain ⟨-, h⟩ := (refuseIf_bind_ok _).mp h
  obtain ⟨subject, t₁, hsubject, h⟩ := (bind_ok _).mp h
  obtain ⟨rfl, issuing, hissuer, hclaims, haddressed⟩ := parseAndValidate_ok hsubject
  rw [call_get_bind] at h
  obtain ⟨user, -, h⟩ := required_bind_ok.mp h
  obtain ⟨-, h⟩ := (refuseIf_bind_ok _).mp h
  obtain ⟨scope, t₁, hscope, h⟩ := (bind_ok _).mp h
  obtain ⟨rfl, hwithin⟩ := exchangedScope_ok hscope
  obtain ⟨_, -, h⟩ := checked_bind_ok.mp h
  obtain ⟨minted, -, h⟩ := checked_bind_ok.mp h
  obtain ⟨_, t₁, hadd, h⟩ := (bind_ok _).mp h
  obtain ⟨rfl, rfl⟩ := (pure_ok _).mp h
  exact ⟨issuing, subject, hissuer, hclaims, haddressed, hwithin⟩

end Spec

/-- The requesting application is entitled to the subject token, and the scope of the new token is
within that of the subject token. -/
def ExchangeBound (w : World) (t : Tables) (q : ExchangeRequest) (token : Token) : Prop :=
  ∃ issuing subject, issuer w t q.subjectToken = some issuing ∧
    subjectClaims w t q.subjectToken = some subject ∧
    Addressed q.application issuing subject ∧ ScopeWithin token.scope subject.scope

/-- An exchange that succeeds is bound exactly where a token of an issuer with the standard format
is addressed to the application, and no scope is asked for beside a token without scopes. -/
theorem exchange_bound_iff {w : World} {t t' : Tables} {q : ExchangeRequest} {token : Token}
    (h : (getTokenExchangeToken w q).call t = (.ok token, t')) :
    ExchangeBound w t q token ↔ ∃ issuing subject, issuer w t q.subjectToken = some issuing ∧
      subjectClaims w t q.subjectToken = some subject ∧
      (issuing.tokenFormat = utf8 "JWT-Standard" → Addressed q.application issuing subject) ∧
      (subject.scope = [] → scopeWords q.scope = []) := by
  obtain ⟨issuing, subject, hissuer, hclaims, haddressed, hscope⟩ := tokenExchange_ok h
  constructor
  · rintro ⟨issuing', subject', hi, hs, haudience, hwithin⟩
    obtain rfl := Option.some.inj (hissuer.symm.trans hi)
    obtain rfl := Option.some.inj (hclaims.symm.trans hs)
    exact ⟨issuing, subject, hi, hs, fun _ => haudience, hscope.mp hwithin⟩
  · rintro ⟨issuing', subject', hi, hs, hstandard, hempty⟩
    obtain rfl := Option.some.inj (hissuer.symm.trans hi)
    obtain rfl := Option.some.inj (hclaims.symm.trans hs)
    refine ⟨issuing, subject, hi, hs, ?_, hscope.mpr hempty⟩
    -- in every other format the audience was looked at
    rcases haddressed with hformat | haudience
    · exact hstandard hformat
    · exact haudience

namespace Sample

/-- The shop's subject token, with the given scope. -/
def scopedLibrary (scope : GoString) : World := { library with
  parseUnverified := fun _ => .ok ⟨utf8 "acme", utf8 "ana", scope, utf8 "c1", [utf8 "c1"]⟩
  parseJwtToken := fun _ _ => .ok ⟨utf8 "acme", utf8 "ana", scope, utf8 "c1", [utf8 "c1"]⟩ }

def exchange (scope : GoString) : ExchangeRequest :=
  ⟨shop, utf8 "s1", utf8 "jwt", [], [], scope, utf8 "host"⟩

theorem exchange_ok (subjectScope scope : GoString)
    (h : ((getTokenExchangeToken (scopedLibrary subjectScope) (exchange scope)).call store).1.isOk =
      true) : ∃ token t', (getTokenExchangeToken (scopedLibrary subjectScope)
        (exchange scope)).call store = (.ok token, t') := by
  rcases hcall : (getTokenExchangeToken (scopedLibrary subjectScope) (exchange scope)).call store with
    ⟨⟨err⟩ | ⟨token⟩, t'⟩
  · rw [hcall] at h
    cases h
  · exact ⟨token, t', rfl⟩

end Sample

/-- One of two scopes is asked for. -/
theorem exchange_bound_narrowed : ∃ token, ExchangeBound (Sample.scopedLibrary (utf8 "read write"))
    Sample.store (Sample.exchange (utf8 "read")) token := by
  obtain ⟨token, t', hcall⟩ := Sample.exchange_ok (utf8 "read write") (utf8 "read")
    (by decide +kernel)
  refine ⟨token, (exchange_bound_iff hcall).mpr ⟨Sample.shop,
    ⟨utf8 "acme", utf8 "ana", utf8 "read write", utf8 "c1", [utf8 "c1"]⟩, by decide +kernel,
    by decide +kernel, fun _ => Or.inl rfl, ?_⟩⟩
  exact fun he => absurd he (by decide +kernel)

/-- A subject token without scopes is exchanged for one that may administrate. -/
theorem exchange_widens : ∃ token t', (getTokenExchangeToken (Sample.scopedLibrary [])
      (Sample.exchange (utf8 "admin"))).call Sample.store = (.ok token, t') ∧
    ¬ExchangeBound (Sample.scopedLibrary []) Sample.store (Sample.exchange (utf8 "admin")) token := by
  obtain ⟨token, t', hcall⟩ := Sample.exchange_ok [] (utf8 "admin") (by decide +kernel)
  refine ⟨token, t', hcall, ?_⟩
  rintro ⟨issuing, subject, -, hsubject, -, hwithin⟩
  have hclaims : subjectClaims (Sample.scopedLibrary []) Sample.store (utf8 "jwt") =
      some ⟨utf8 "acme", utf8 "ana", [], utf8 "c1", [utf8 "c1"]⟩ := by
    decide +kernel
  obtain rfl := Option.some.inj (hclaims.symm.trans hsubject)
  have hscope : token.scope = utf8 "admin" := by
    have hmade : ((getTokenExchangeToken (Sample.scopedLibrary [])
        (Sample.exchange (utf8 "admin"))).call Sample.store).1.toOption.map (·.scope) =
          some (utf8 "admin") := by
      decide +kernel
    rw [hcall] at hmade
    exact Option.some.inj hmade
  rw [hscope] at hwithin
  have hmem := hwithin (utf8 "admin") (by decide +kernel)
  rw [scopeWords_nil] at hmem
  cases hmem

end ArchGuard.Object
