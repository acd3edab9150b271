import ArchGuard.WebAuthnStepUp

/-! Which assertions raise a session, and the counters that they present. -/
namespace ArchGuard.WebAuthn
open ReadCommitted Tenancy Sessions TransitionRun GoMethod Method

/-- A verified assertion: the credential, its counter, and the level that it proves. -/
structure Verified where
  credentialId : Bytes
  counter : ℕ
  level : Aal
  deriving DecidableEq, Repr

variable {S : Type} (lib : Library S)

/-- The assertion of a finish against the pending challenge of its session. -/
def verified (s : Server S) : Call → Option Verified
  | .begin _ _ _ => none
  | .finish identityId sessionId assertion now =>
    match (s.take sessionId now).1, userAndCreds lib s identityId, lib.parse assertion with
    | some sessionData, .ok (u, creds), .ok a =>
      match lib.validateLogin u sessionData a with
      | .ok wc => some ⟨wc.id, a.signCount, levelOf creds wc.id⟩
      | .error _ => none
    | _, _, _ => none

/-- The session of a finish can be raised to a level: it is active, of the identity, and proves no
higher level yet. -/
def raisable (s : Server S) (level : Aal) : Call → Bool
  | .begin _ _ _ => false
  | .finish identityId sessionId _ now => identityId ≠ Uuid.nil && now ≠ Time.zero &&
      (Sessions.sessionAt s.sessions sessionId).any fun r => r.session.identityId = identityId &&
        r.session.status = .active && level.atLeast r.session.provenAAL

/-- The verified assertion of a finish whose session it can raise. -/
def raising (s : Server S) (call : Call) : Option Verified :=
  (verified lib s call).filter fun v => raisable s v.level call

/-- What a finish accepts: the session is raised, and the caller is told its level. -/
def accepted (s : Server S) : Call → Option Verified
  | .begin _ _ _ => none
  | .finish identityId sessionId assertion now =>
    match (finishWebAuthn lib s identityId sessionId assertion now).1 with
    | .ok _ => verified lib s (.finish identityId sessionId assertion now)
    | .error _ => none

section Spec

variable {lib} {s : Server S} {identityId sessionId : Uuid} {assertion : Bytes} {now : Time}

@[simp] theorem take_sessions : (s.take sessionId now).2.sessions = s.sessions := by
  rw [Server.take]
  split
  · rfl
  · dsimp only
    split_ifs <;> rfl

@[simp] theorem userAndCreds_take :
    userAndCreds lib (s.take sessionId now).2 identityId = userAndCreds lib s identityId := by
  rw [Server.take]
  split
  · rfl
  · dsimp only
    split_ifs <;> rfl

theorem webAuthn_ceiling (level : Aal) :
    (strongestCeiling [.webAuthn]).any (·.atLeast level) = true := by
  cases level <;> rfl

theorem beginStepUp_webAuthn (identityId : Uuid) (now : Time) (r : AuthSession) (level : Aal) :
    beginStepUp identityId r now level.text ["webauthn"] = .saveStepUp
        { r with provenAAL := level, authTime := now, authMethods := [.webAuthn] } ∧
      r.status ≠ .revoked ∧ level.atLeast r.provenAAL = true ∧ now ≠ Time.zero ∧
        r.identityId = identityId ∨
    (∃ err, beginStepUp identityId r now level.text ["webauthn"] = .fail err) ∧
      ¬(r.status ≠ .revoked ∧ level.atLeast r.provenAAL = true ∧ now ≠ Time.zero ∧
        r.identityId = identityId) := by
  have hparse : FactorType.parseAll ["webauthn"] = .ok [.webAuthn] := by decide
  simp only [beginStepUp, SessionMethod.stepUp, call_get_bind, call_refuseIf_bind]
  -- the checks of the step-up in their order, the owner of the session last
  by_cases hr : r.status = .revoked
  · rw [if_pos hr]
    exact Or.inr ⟨⟨_, rfl⟩, fun h => h.1 hr⟩
  rw [if_neg hr]
  simp only [Aal.parse_text, call_refuseIf_bind, call_modify_bind, call_tryCatch]
  cases hl : level.atLeast r.provenAAL with
  | false =>
    rw [if_pos (by rfl)]
    exact Or.inr ⟨⟨_, rfl⟩, fun h => (by cases h.2.1)⟩
  | true =>
    rw [if_neg (by decide)]
    simp only [SessionMethod.setAuthContext, call_get_bind, call_refuseIf_bind, hparse,
      webAuthn_ceiling, call_modify]
    by_cases hnow : now = Time.zero
    · rw [if_pos hnow]
      exact Or.inr ⟨⟨_, rfl⟩, fun h => h.2.2.1 hnow⟩
    rw [if_neg hnow, if_neg (by simp), if_neg (by decide)]
    dsimp only [ofIdentity]
    by_cases hid : r.identityId = identityId
    · rw [if_neg (not_not.mpr hid), if_neg (by simp [hnow])]
      exact Or.inl ⟨rfl, hr, trivial, hnow, hid⟩
    · rw [if_pos hid]
      exact Or.inr ⟨⟨_, rfl⟩, fun h => hid h.2.2.2⟩

theorem stepUpAlone_isOk (db : Sessions.Db) (identityId sessionId : Uuid) (now : Time)
    (level : Aal) :
    (∃ p, stepUpAlone db identityId sessionId now level = .ok p) ↔ now ≠ Time.zero ∧
      ∃ r, Sessions.sessionAt db sessionId = some r ∧ r.session.identityId = identityId ∧
        r.session.status = .active ∧ level.atLeast r.session.provenAAL = true := by
  rw [stepUpAlone]
  cases hg : Sessions.getSession db identityId sessionId with
  | none =>
    constructor
    · rintro ⟨p, hp⟩
      cases hp
    · rintro ⟨-, r, hr, hid, -, -⟩
      have hsome : Sessions.getSession db identityId sessionId = some r.session := by
        rw [Sessions.getSession, hr, Option.filter_some, if_pos (decide_eq_true hid), Option.map_some]
      rw [hg] at hsome
      cases hsome
  | some s =>
    obtain ⟨r, hr, rfl⟩ := Option.map_eq_some_iff.mp hg
    obtain ⟨hat, hidb⟩ := Option.filter_eq_some_iff.mp hr
    have hid : r.session.identityId = identityId := of_decide_eq_true hidb
    obtain ⟨v, hv, rfl⟩ := Option.map_eq_some_iff.mp hat
    rcases beginStepUp_webAuthn identityId now v.1.session level with
      ⟨heq, hst, hlevel, hnow, -⟩ | ⟨⟨err, heq⟩, hno⟩
    · dsimp only
      rw [heq]
      dsimp only
      obtain ⟨row, hrow⟩ := v
      obtain rfl : row.session.id = sessionId := hrow
      rw [hv]
      dsimp only
      -- the update asks for an active session; the pending one it refuses only here
      have hmatches : stepUpMatches { row.session with
          provenAAL := level, authTime := now, authMethods := [.webAuthn] } row = true ↔
          row.session.status = .active := by
        simp [stepUpMatches]
      constructor
      · rintro ⟨p, hp⟩
        split_ifs at hp with hmatch
        exact ⟨hnow, row, hat, hid, hmatches.mp hmatch, hlevel⟩
      · rintro ⟨-, r', hr', -, hactive, -⟩
        obtain rfl := Option.some.inj (hat.symm.trans hr')
        rw [if_pos (hmatches.mpr hactive)]
        exact ⟨_, rfl⟩
    · dsimp only
      rw [heq]
      constructor
      · rintro ⟨p, hp⟩
        cases hp
      · rintro ⟨hnow, r', hr', -, hactive, hlevel⟩
        obtain rfl := Option.some.inj (hat.symm.trans hr')
        refine absurd ⟨?_, hlevel, hnow, hid⟩ hno
        rw [hactive]
        decide

theorem finishWebAuthn_isOk (lib : Library S) (s : Server S) (identityId sessionId : Uuid)
    (assertion : Bytes) (now : Time) :
    (∃ aal, (finishWebAuthn lib s identityId sessionId assertion now).1 = .ok aal) ↔
      ∃ v, verified lib s (.finish identityId sessionId assertion now) = some v ∧
        raisable s v.level (.finish identityId sessionId assertion now) = true := by
  rw [finishWebAuthn, verified]
  rcases htake : s.take sessionId now with ⟨_ | sessionData, s₁⟩
  · simp
  have hs₁ : s₁ = (s.take sessionId now).2 := by rw [htake]
  have huser : userAndCreds lib s₁ identityId = userAndCreds lib s identityId := by
    rw [hs₁, userAndCreds_take]
  have hsessions : s₁.sessions = s.sessions := by rw [hs₁, take_sessions]
  dsimp only
  rw [huser]
  cases hu : userAndCreds lib s identityId with
  | error err => simp
  | ok p =>
    obtain ⟨u, creds⟩ := p
    dsimp only [finishLogin]
    cases hparse : lib.parse assertion with
    | error err => simp
    | ok a =>
      dsimp only
      cases hlogin : lib.validateLogin u sessionData a with
      | error err => simp
      | ok wc =>
        -- from here on only the session decides, and no counter is read
        dsimp only
        rw [hsessions]
        have halone := stepUpAlone_isOk s.sessions identityId sessionId now (levelOf creds wc.id)
        have hraisable : raisable s (levelOf creds wc.id)
            (.finish identityId sessionId assertion now) = true ↔ identityId ≠ Uuid.nil ∧
              ∃ p, stepUpAlone s.sessions identityId sessionId now (levelOf creds wc.id) = .ok p := by
          rw [halone]
          simp only [raisable, Bool.and_eq_true, decide_eq_true_eq, Option.any_eq_true, and_assoc]
        simp only [Option.some.injEq, exists_eq_left', hraisable]
        by_cases hnil : identityId = Uuid.nil
        · rw [if_pos hnil]
          simp [hnil]
        · rw [if_neg hnil]
          cases stepUpAlone s.sessions identityId sessionId now (levelOf creds wc.id) with
          | error err => simp
          | ok p => simp [hnil]

theorem accepted_eq_raising (s : Server S) (call : Call) :
    accepted lib s call = raising lib s call := by
  cases call with
  | begin identityId sessionId now => rfl
  | finish identityId sessionId assertion now =>
    have hok := finishWebAuthn_isOk lib s identityId sessionId assertion now
    rw [accepted, raising]
    split
    · rename_i aal haal
      obtain ⟨v, hv, hraise⟩ := hok.mp ⟨aal, haal⟩
      rw [hv, Option.filter_some, if_pos hraise]
    · rename_i err herr
      cases hv : verified lib s (.finish identityId sessionId assertion now) with
      | none => rfl
      | some v =>
        cases hraise : raisable s v.level (.finish identityId sessionId assertion now) with
        | false => rw [Option.filter_some, hraise, if_neg (by decide)]
        | true =>
          obtain ⟨aal, haal⟩ := hok.mpr ⟨v, hv, hraise⟩
          rw [haal] at herr
          cases herr

end Spec

/-- The calls, one after the other. -/
def step (s : Server S) (call : Call) : Option (Server S) := some (serve lib s call)

/-- No accepted assertion presents a counter that an accepted assertion of its credential has
reached before. -/
def ClonesRefused (s : Server S) (calls : List Call) : Prop :=
  (trace (step lib) (accepted lib) s calls).Pairwise fun a b =>
    a.credentialId = b.credentialId → b.counter ≠ 0 → a.counter < b.counter

/-- The highest counter of each credential. -/
abbrev Marks := Bytes → ℕ

def Marks.note (marks : Marks) (v : Verified) : Marks :=
  Function.update marks v.credentialId (max (marks v.credentialId) v.counter)

/-- The calls beside the highest counters of the assertions that raised a session. -/
def markedStep (p : Marks × Server S) (call : Call) : Option (Marks × Server S) :=
  some (((raising lib p.2 call).elim p.1 p.1.note), serve lib p.2 call)

/-- A verified assertion for a session that it can raise presents a counter above those before it,
unless it presents none. -/
def CounterClimbs (p : Marks × Server S) (call : Call) : Prop :=
  ∀ v, raising lib p.2 call = some v → v.counter ≠ 0 → p.1 v.credentialId < v.counter

/-- Each counter of a list is above the marks that are left by those before it. -/
def Ascends : Marks → List Verified → Prop
  | _, [] => True
  | marks, v :: vs => (v.counter ≠ 0 → marks v.credentialId < v.counter) ∧ Ascends (marks.note v) vs

theorem Marks.note_lt {marks : Marks} {v w : Verified} : marks.note v w.credentialId < w.counter ↔
    marks w.credentialId < w.counter ∧ (v.credentialId = w.credentialId → v.counter < w.counter) := by
  rw [note]
  by_cases h : w.credentialId = v.credentialId
  · rw [h, Function.update_self, max_lt_iff]
    simp
  · rw [Function.update_of_ne h]
    constructor
    · exact fun hlt => ⟨hlt, fun heq => absurd heq.symm h⟩
    · exact fun hlt => hlt.1

/-- Against the marks is against every one before, and against the marks at the start. -/
theorem ascends_iff {marks : Marks} {vs : List Verified} : Ascends marks vs ↔
    vs.Pairwise (fun a b => a.credentialId = b.credentialId → b.counter ≠ 0 → a.counter < b.counter) ∧
      ∀ v ∈ vs, v.counter ≠ 0 → marks v.credentialId < v.counter := by
  induction vs generalizing marks with
  | nil => simp [Ascends]
  | cons v vs ih =>
    simp only [Ascends, ih, List.pairwise_cons, List.forall_mem_cons, Marks.note_lt]
    constructor
    · rintro ⟨hv, hpair, hmarks⟩
      refine ⟨⟨?_, hpair⟩, hv, fun w hw hne => (hmarks w hw hne).1⟩
      exact fun w hw heq hne => (hmarks w hw hne).2 heq
    · rintro ⟨⟨hfirst, hpair⟩, hv, hmarks⟩
      refine ⟨hv, hpair, fun w hw hne => ⟨hmarks w hw hne, ?_⟩⟩
      exact fun heq => hfirst w hw heq hne

section Runs

variable {lib}

theorem trace_accepted (s : Server S) (calls : List Call) :
    trace (step lib) (accepted lib) s calls = trace (step lib) (raising lib) s calls := by
  have hout : accepted lib = raising lib := funext fun s => funext (accepted_eq_raising s)
  rw [hout]

theorem along_climbs_iff {marks : Marks} {s : Server S} {calls : List Call} :
    Along (markedStep lib) (CounterClimbs lib) (marks, s) calls ↔
      Ascends marks (trace (step lib) (raising lib) s calls) := by
  induction calls generalizing marks s with
  | nil => exact Iff.rfl
  | cons call calls ih =>
    have halong : Along (markedStep lib) (CounterClimbs lib) (marks, s) (call :: calls) ↔
        CounterClimbs lib (marks, s) call ∧
          Ascends ((raising lib s call).elim marks marks.note)
            (trace (step lib) (raising lib) (serve lib s call) calls) := by
      rw [← ih]
      constructor
      · exact fun h => ⟨h.1, h.2 _ rfl⟩
      · rintro ⟨hclimbs, hrest⟩
        refine ⟨hclimbs, fun p hp => ?_⟩
        obtain rfl := Option.some.inj hp
        exact hrest
    rw [halong]
    simp only [trace, step]
    cases hv : raising lib s call with
    | none => simp [CounterClimbs, hv]
    | some v => simp [CounterClimbs, hv, Ascends]

/-- The clones are refused in the runs in which the counters of the assertions climb, and in no
other. -/
theorem clonesRefused_iff_climbs (lib : Library S) (s : Server S) (calls : List Call) :
    ClonesRefused lib s calls ↔
      Along (markedStep lib) (CounterClimbs lib) (fun _ => 0, s) calls := by
  rw [along_climbs_iff, ascends_iff, ClonesRefused, trace_accepted]
  have hstart : ∀ v ∈ trace (step lib) (raising lib) s calls, v.counter ≠ 0 → 0 < v.counter :=
    fun v _ hne => Nat.pos_of_ne_zero hne
  exact (and_iff_left hstart).symm

end Runs

namespace Sample

/-- A library whose credentials are two bytes, an id and a counter, and whose signatures are the
challenge. -/
def library : Library ℕ where
  unmarshal
    | [id, n] => .ok ⟨[id], n.toNat, false⟩
    | _ => .error "unexpected end of JSON input"
  beginLogin _ drawn := .ok drawn
  parse
    | [id, n, signature] => .ok ⟨[id], n.toNat, [signature]⟩
    | _ => .error "Parse error for Assertion"
  validateLogin u challenge a :=
    match u.creds.find? fun c => c.id = a.credentialId with
    | none => .error "Unable to find the credential for the returned credential ID"
    | some c =>
      if a.signature.map UInt8.toNat ≠ [challenge] then .error "Error validating challenge"
      else if a.signCount ≤ c.signCount ∧ (a.signCount ≠ 0 ∨ c.signCount ≠ 0) then
        .ok { c with cloneWarning := true }
      else .ok { c with signCount := a.signCount }

theorem library_warns : library.Warns := by
  intro u challenge a c h
  simp only [library] at h
  split at h
  · cases h
  rename_i stored hfind
  have hid : stored.id = a.credentialId := by
    simpa using List.find?_some hfind
  refine ⟨stored, List.mem_of_find?_eq_some hfind, hid, ?_⟩
  split_ifs at h with hsig hwarn
  · obtain rfl := Except.ok.inj h
    exact ⟨hid, fun _ _ => rfl⟩
  · obtain rfl := Except.ok.inj h
    exact ⟨hid, fun hne hle => absurd ⟨hle, Or.inl hne⟩ hwarn⟩

/-- One identity with a hardware key of counter 4, and two sessions. -/
def server : Server ℕ where
  credentials := [⟨40, 1, .webAuthn, .aal3, [], [], [7, 4], [("credential_id", "Bw")], "WebAuthn"⟩]
  identities id := if id = 1 then some ⟨1, "sub", .human, .active, []⟩ else none
  sessions := (Store.empty.set (.session 9) (some ⟨⟨⟨9, 1, some 20, some 30, .active, .aal1, 1, 5,
    [.password]⟩, none⟩, rfl⟩)).set (.session 8) (some ⟨⟨⟨8, 1, some 20, some 30, .active, .aal1, 1,
    5, [.password]⟩, none⟩, rfl⟩)
  challenges _ := none
  drawn := 0

/-- The key raises one session with its counter at 5, and a copy of it the other one with the same
counter. -/
def cloned : List Call :=
  [.begin 1 9 10, .finish 1 9 [7, 5, 0] 11, .begin 1 8 12, .finish 1 8 [7, 5, 1] 13]

end Sample

/-- A library that warns is of no avail: the clone raises a session. -/
theorem clone_accepted : Sample.library.Warns ∧
    ¬ClonesRefused Sample.library Sample.server Sample.cloned := by
  refine ⟨Sample.library_warns, fun h => ?_⟩
  have htrace : trace (step Sample.library) (accepted Sample.library) Sample.server Sample.cloned =
      [⟨[7], 5, .aal3⟩, ⟨[7], 5, .aal3⟩] := by
    decide +kernel
  rw [ClonesRefused, htrace] at h
  exact absurd (List.rel_of_pairwise_cons h List.mem_cons_self rfl (by decide)) (by decide)

end ArchGuard.WebAuthn
