import ArchGuard.GrantMachine
import ArchGuard.SessionOps

/-! The state machine of an authenticated session, over every run of its methods. -/
namespace ArchGuard

def FactorType.parse (t : String) : Option FactorType :=
  if t = "password" then some .password
  else if t = "totp" then some .totp
  else if t = "webauthn" then some .webAuthn
  else if t = "recovery_code" then some .recoveryCode
  else none

/-- The factor types that the texts name, or the first text that names none. -/
def FactorType.parseAll : List String → Except String (List FactorType)
  | [] => .ok []
  | t :: ts =>
    match parse t with
    | none => .error t
    | some m =>
      match parseAll ts with
      | .error t => .error t
      | .ok ms => .ok (m :: ms)

end ArchGuard

namespace ArchGuard.Tenancy
open GoMethod

/-- `NewAuthSession` with the level as it comes. -/
def openSession (id identityId : Uuid) (provenAAL : String) (memberships : List Membership) :
    Except SessionError AuthSession :=
  if identityId = Uuid.nil then .error (.invalidSession "identidade nula")
  else match Aal.parse provenAAL with
    | none => .error (.invalidSession ("AAL " ++ quoted provenAAL ++ " indefinido"))
    | some aal => newAuthSession id identityId aal memberships

/-- What a session method returns where it dereferences a missing tenant. -/
def SessionError.nilDereference : SessionError :=
  .other "runtime error: invalid memory address or nil pointer dereference"

abbrev SessionMethod (α : Type) := Method AuthSession SessionError α

namespace SessionMethod
open Method

def setAuthContext (now : Time) (methods : List String) : SessionMethod Unit := do
  let s ← get
  refuseIf (now = Time.zero) (.invalidSession "auth_time ausente")
  refuseIf (methods = []) (.invalidSession "nenhum método de autenticação")
  match FactorType.parseAll methods with
  | .error m => throw (.invalidSession ("método de autenticação " ++ quoted m ++ " inválido"))
  | .ok methods =>
    refuseIf (!(strongestCeiling methods).any (·.atLeast s.provenAAL))
      (.invalidSession ("AAL comprovado " ++ s.provenAAL.text ++ " excede o teto dos métodos usados"))
    modify fun s => { s with authTime := now, authMethods := methods }

def selectTenant (m : Membership) : SessionMethod Unit := do
  let s ← get
  refuseIf (s.status = .revoked) .sessionRevoked
  refuseIf (s.status = .active) .sessionTransition
  refuseIf (m.identityId ≠ s.identityId) (.foreignMembership m.id m.identityId)
  refuseIf (m.status ≠ .active) (.membershipNotSelectable m.status)
  modify fun s => s.setTenant m

def switchTenant (dest : Membership) (required : String) : SessionMethod TenantSwitchEvent := do
  let s ← get
  refuseIf (s.status = .revoked) .sessionRevoked
  refuseIf (s.status = .pendingSelection) .tenantSelectionRequired
  refuseIf (dest.identityId ≠ s.identityId) (.foreignMembership dest.id dest.identityId)
  refuseIf (dest.status ≠ .active) (.membershipNotSelectable dest.status)
  match s.membershipId with
  | none => throw .nilDereference
  | some fromMembershipId =>
    refuseIf (fromMembershipId = dest.id) .sameTenant
    match Aal.parse required with
    | none => throw (.other ("session: política do tenant de destino indisponível — " ++
        "troca negada: AAL exigido " ++ quoted required ++ " indefinido"))
    | some level =>
      refuseIf (!s.provenAAL.atLeast level) (.stepUpRequired s.provenAAL level)
      match s.organizationId with
      | none => throw .nilDereference
      | some fromOrganizationId =>
        modify fun s => s.setTenant dest
        modify fun s => { s with tokenGeneration := s.tokenGeneration+1 }
        let s' ← get
        pure ⟨s.id, s.identityId, fromMembershipId, fromOrganizationId, dest.id,
          dest.organizationId, s.provenAAL, s'.tokenGeneration⟩

/-- The level is raised first, and put back where the methods cannot attest it. -/
def stepUp (now : Time) (aal : String) (methods : List String) : SessionMethod Unit := do
  let s ← get
  refuseIf (s.status = .revoked) .sessionRevoked
  match Aal.parse aal with
  | none => throw (.invalidSession ("AAL " ++ quoted aal ++ " indefinido"))
  | some level =>
    refuseIf (!level.atLeast s.provenAAL) (.other ("session: step-up não pode reduzir a garantia " ++
      "comprovada: de " ++ s.provenAAL.text ++ " para " ++ level.text))
    modify fun s => { s with provenAAL := level }
    tryCatch (setAuthContext now methods) fun err => do
      modify fun s' => { s' with provenAAL := s.provenAAL }
      throw err

def revoke : SessionMethod Unit := modify fun s => { s with status := .revoked }

end SessionMethod

inductive SessionCall
  | setAuthContext (now : Time) (methods : List String)
  | selectTenant (m : Membership)
  | switchTenant (dest : Membership) (required : String)
  | stepUp (now : Time) (aal : String) (methods : List String)
  | revoke
  deriving DecidableEq, Repr

def SessionCall.method : SessionCall → SessionMethod Unit
  | .setAuthContext now methods => .setAuthContext now methods
  | .selectTenant m => .selectTenant m
  | .switchTenant dest required => do
    let _event ← SessionMethod.switchTenant dest required
  | .stepUp now aal methods => .stepUp now aal methods
  | .revoke => .revoke

def SessionCall.isSwitch : SessionCall → Bool
  | .switchTenant _ _ => true
  | _ => false

def Attested (methods : List FactorType) (level : Aal) : Prop :=
  (strongestCeiling methods).any (·.atLeast level) = true

inductive SessionEdge (s : AuthSession) : SessionCall → AuthSession → Prop
  | setAuthContext {now : Time} {texts : List String} {methods : List FactorType}
    (hm : FactorType.parseAll texts = .ok methods) (hne : texts ≠ [])
    (hceil : Attested methods s.provenAAL) :
    SessionEdge s (.setAuthContext now texts) { s with authTime := now, authMethods := methods }
  | selectTenant {m : Membership} (hs : s.status = .pendingSelection)
    (hid : m.identityId = s.identityId) (ha : m.status = .active) :
    SessionEdge s (.selectTenant m) (s.setTenant m)
  | switchTenant {dest : Membership} {required : String} (hs : s.status = .active)
    (hid : dest.identityId = s.identityId) (ha : dest.status = .active) :
    SessionEdge s (.switchTenant dest required)
      { s.setTenant dest with tokenGeneration := s.tokenGeneration+1 }
  | stepUp {now : Time} {aal : String} {level : Aal} {texts : List String}
    {methods : List FactorType} (hs : s.status ≠ .revoked)
    (hm : FactorType.parseAll texts = .ok methods) (hne : texts ≠ [])
    (hlevel : s.provenAAL.rank ≤ level.rank) (hceil : Attested methods level) :
    SessionEdge s (.stepUp now aal texts)
      { s with provenAAL := level, authTime := now, authMethods := methods }
  | revoke : SessionEdge s .revoke { s with status := .revoked }

open Method

theorem setAuthContext_cases (now : Time) (texts : List String) (s : AuthSession) :
    (∃ err, (SessionMethod.setAuthContext now texts).call s = (.error err, s)) ∨
      ∃ methods, FactorType.parseAll texts = .ok methods ∧ texts ≠ [] ∧
        Attested methods s.provenAAL ∧ (SessionMethod.setAuthContext now texts).call s =
          (.ok (), { s with authTime := now, authMethods := methods }) := by
  simp only [SessionMethod.setAuthContext, call_get_bind, call_refuseIf_bind]
  split_ifs with hnow hne
  · exact Or.inl ⟨_, rfl⟩
  · exact Or.inl ⟨_, rfl⟩
  cases hm : FactorType.parseAll texts with
  | error m => exact Or.inl ⟨_, rfl⟩
  | ok methods =>
    simp only [call_refuseIf_bind, call_modify]
    split_ifs with hceil
    · exact Or.inl ⟨_, rfl⟩
    · exact Or.inr ⟨methods, rfl, hne, by simpa [Attested] using hceil, rfl⟩

/-- A switch returns its event, with the tenants it moves between and the generation it reaches. -/
theorem switchTenant_cases (dest : Membership) (required : String) (s : AuthSession) :
    (∃ err, (SessionMethod.switchTenant dest required).call s = (.error err, s)) ∨
      ∃ ev : TenantSwitchEvent, s.status = .active ∧ dest.identityId = s.identityId ∧
        dest.status = .active ∧ (s.membershipId = some ev.fromMembershipId ∧
          s.organizationId = some ev.fromOrganizationId ∧ ev.sessionId = s.id ∧
          ev.toMembershipId = dest.id ∧ ev.toOrganizationId = dest.organizationId ∧
          ev.tokenGeneration = s.tokenGeneration+1) ∧
        (SessionMethod.switchTenant dest required).call s =
          (.ok ev, { s.setTenant dest with tokenGeneration := s.tokenGeneration+1 }) := by
  simp only [SessionMethod.switchTenant, call_get_bind, call_refuseIf_bind]
  split_ifs with hr hp hid hact
  · exact Or.inl ⟨_, rfl⟩
  · exact Or.inl ⟨_, rfl⟩
  · exact Or.inl ⟨_, rfl⟩
  · exact Or.inl ⟨_, rfl⟩
  have hs : s.status = .active := by
    cases hs : s.status with
    | pendingSelection => exact absurd hs hp
    | active => rfl
    | revoked => exact absurd hs hr
  cases hm : s.membershipId with
  | none => exact Or.inl ⟨_, rfl⟩
  | some fromMembership =>
    simp only [call_refuseIf_bind]
    split_ifs with hsame
    · exact Or.inl ⟨_, rfl⟩
    cases hreq : Aal.parse required with
    | none => exact Or.inl ⟨_, rfl⟩
    | some level =>
      simp only [call_refuseIf_bind]
      split_ifs with hl
      · exact Or.inl ⟨_, rfl⟩
      cases ho : s.organizationId with
      | none => exact Or.inl ⟨_, rfl⟩
      | some fromOrganization =>
        simp only [call_modify_bind, call_get_bind, call_pure]
        exact Or.inr ⟨⟨s.id, s.identityId, fromMembership, fromOrganization, dest.id,
          dest.organizationId, s.provenAAL, s.tokenGeneration+1⟩, hs, not_not.mp hid,
          not_not.mp hact, ⟨rfl, rfl, rfl, rfl, rfl, rfl⟩, rfl⟩

theorem sessionCall_cases (i : SessionCall) (s : AuthSession) :
    (∃ err, i.method.call s = (.error err, s)) ∨
      ∃ s', i.method.call s = (.ok (), s') ∧ SessionEdge s i s' := by
  cases i with
  | setAuthContext now texts =>
    rcases setAuthContext_cases now texts s with herr | ⟨methods, hm, hne, hceil, hcall⟩
    · exact Or.inl herr
    · exact Or.inr ⟨_, hcall, .setAuthContext hm hne hceil⟩
  | selectTenant m =>
    simp only [SessionCall.method, SessionMethod.selectTenant, call_get_bind, call_refuseIf_bind,
      call_modify]
    split_ifs with hr ha hid hact
    · exact Or.inl ⟨_, rfl⟩
    · exact Or.inl ⟨_, rfl⟩
    · exact Or.inl ⟨_, rfl⟩
    · exact Or.inl ⟨_, rfl⟩
    · refine Or.inr ⟨_, rfl, .selectTenant ?_ (not_not.mp hid) (not_not.mp hact)⟩
      cases hs : s.status with
      | pendingSelection => rfl
      | active => exact absurd hs ha
      | revoked => exact absurd hs hr
  | switchTenant dest required =>
    rcases switchTenant_cases dest required s with ⟨err, herr⟩ | ⟨ev, hs, hid, ha, -, hcall⟩
    · exact Or.inl ⟨err, by rw [SessionCall.method, call_bind, herr]⟩
    · exact Or.inr ⟨_, by rw [SessionCall.method, call_bind, hcall]; rfl,
        .switchTenant hs hid ha⟩
  | stepUp now aal texts =>
    simp only [SessionCall.method, SessionMethod.stepUp, call_get_bind, call_refuseIf_bind]
    split_ifs with hr
    · exact Or.inl ⟨_, rfl⟩
    cases hp : Aal.parse aal with
    | none => exact Or.inl ⟨_, rfl⟩
    | some level =>
      simp only [call_refuseIf_bind, call_modify_bind, call_tryCatch]
      split_ifs with hl
      · exact Or.inl ⟨_, rfl⟩
      have hlevel : s.provenAAL.rank ≤ level.rank := by
        simpa [Aal.atLeast] using hl
      rcases setAuthContext_cases now texts { s with provenAAL := level } with
        ⟨err, hcall⟩ | ⟨methods, hm, hne, hceil, hcall⟩
      -- the honesty check fails on the raised level, which goes back to what it was
      · rw [hcall]
        exact Or.inl ⟨err, rfl⟩
      · rw [hcall]
        exact Or.inr ⟨_, rfl, .stepUp hr hm hne hlevel hceil⟩
  | revoke => exact Or.inr ⟨_, rfl, .revoke⟩

theorem sessionCall_atomic (i : SessionCall) : i.method.Atomic :=
  Method.atomic_of_cases (sessionCall_cases i)

theorem sessionCall_edge {i : SessionCall} {s s' : AuthSession}
    (h : i.method.call s = (.ok (), s')) : SessionEdge s i s' :=
  Method.edge_of_cases (sessionCall_cases i) h

/-- The memberships that a run was offered: at the login, or by a call that took one. -/
def Offered (ms : List Membership) (done : List SessionCall) (m : Membership) : Prop :=
  m ∈ ms ∨ SessionCall.selectTenant m ∈ done ∨
    ∃ required, SessionCall.switchTenant m required ∈ done

/-- What the successful calls of a run say about the session they leave. -/
structure SessionMachine (identityId : Uuid) (ms : List Membership) (done : List SessionCall)
    (s : AuthSession) : Prop where
  identity : s.identityId = identityId
  tenant : s.status = .active → ∃ m, Offered ms done m ∧ m.identityId = identityId ∧
    m.status = .active ∧ s.membershipId = some m.id ∧ s.organizationId = some m.organizationId
  attested : s.authMethods ≠ [] → Attested s.authMethods s.provenAAL
  generation : s.tokenGeneration = 1+done.countP SessionCall.isSwitch

variable {identityId : Uuid} {ms : List Membership} {done : List SessionCall} {i : SessionCall}
  {s s' : AuthSession}

theorem Offered.append {m : Membership} (h : Offered ms done m) : Offered ms (done ++ [i]) m := by
  rcases h with h | h | ⟨required, h⟩
  · exact Or.inl h
  · exact Or.inr (Or.inl (List.mem_append_left _ h))
  · exact Or.inr (Or.inr ⟨required, List.mem_append_left _ h⟩)

theorem SessionMachine.step (h : SessionMachine identityId ms done s) (hedge : SessionEdge s i s') :
    SessionMachine identityId ms (done ++ [i]) s' := by
  have htenant (hs : s.status = .active) : ∃ m, Offered ms (done ++ [i]) m ∧
      m.identityId = identityId ∧ m.status = .active ∧ s.membershipId = some m.id ∧
      s.organizationId = some m.organizationId := by
    obtain ⟨m, hm, hrest⟩ := h.tenant hs
    exact ⟨m, hm.append, hrest⟩
  have hcount : (done ++ [i]).countP SessionCall.isSwitch =
      done.countP SessionCall.isSwitch+(if i.isSwitch then 1 else 0) := by
    rw [List.countP_append, List.countP_singleton]
  cases hedge with
  | setAuthContext hm hne hceil =>
    exact ⟨h.identity, htenant, fun _ => hceil, by rw [hcount]; exact h.generation⟩
  | @selectTenant m hs hid ha =>
    refine ⟨h.identity, fun _ => ?_, h.attested, by rw [hcount]; exact h.generation⟩
    exact ⟨m, Or.inr (Or.inl (by simp)), hid.trans h.identity, ha, rfl, rfl⟩
  | @switchTenant dest required hs hid ha =>
    refine ⟨h.identity, fun _ => ?_, h.attested, ?_⟩
    · exact ⟨dest, Or.inr (Or.inr ⟨required, by simp⟩), hid.trans h.identity, ha, rfl, rfl⟩
    · rw [hcount, h.generation]
      rfl
  | stepUp hs hm hne hlevel hceil =>
    exact ⟨h.identity, htenant, fun _ => hceil, by rw [hcount]; exact h.generation⟩
  | revoke =>
    refine ⟨h.identity, fun hs => ?_, h.attested, by rw [hcount]; exact h.generation⟩
    cases hs

theorem SessionEdge.rank_le (hedge : SessionEdge s i s') :
    s.provenAAL.rank ≤ s'.provenAAL.rank := by
  cases hedge with
  | stepUp _ _ _ hlevel => exact hlevel
  | _ => exact le_refl _

/-- What a session keeps once it is revoked: all but the record of an authentication. -/
def SameBinding (s s' : AuthSession) : Prop :=
  s' = { s with authTime := s'.authTime, authMethods := s'.authMethods }

def SessionCall.isAuthContext : SessionCall → Bool
  | .setAuthContext _ _ => true
  | _ => false

theorem SessionEdge.revoked (hs : s.status = .revoked) (hedge : SessionEdge s i s') :
    SameBinding s s' ∧ (i.isAuthContext = false → s' = s) := by
  cases hedge with
  | setAuthContext => exact ⟨rfl, fun h => Bool.noConfusion h⟩
  | selectTenant h => rw [hs] at h; cases h
  | switchTenant h => rw [hs] at h; cases h
  | stepUp h => exact absurd hs h
  | revoke =>
    have hsame : { s with status := .revoked } = s := by rw [← hs]
    exact ⟨by rw [SameBinding, ← hs], fun _ => hsame⟩

theorem call_revoked (hs : s.status = .revoked) (i : SessionCall) :
    SameBinding s (i.method.call s).2 ∧ (i.isAuthContext = false → (i.method.call s).2 = s) := by
  rcases sessionCall_cases i s with ⟨err, h⟩ | ⟨s', h, hedge⟩
  · rw [h]
    exact ⟨rfl, fun _ => rfl⟩
  · rw [h]
    exact hedge.revoked hs

theorem after_revoked (hs : s.status = .revoked) (is : List SessionCall) :
    SameBinding s (after SessionCall.method s is) ∧
      ((∀ i ∈ is, i.isAuthContext = false) → after SessionCall.method s is = s) := by
  induction is generalizing s with
  | nil => exact ⟨rfl, fun _ => rfl⟩
  | cons i is ih =>
    obtain ⟨hbind, hsame⟩ := call_revoked hs i
    have hs' : (i.method.call s).2.status = .revoked := by
      rw [hbind]
      exact hs
    obtain ⟨hbind', hsame'⟩ := ih hs'
    refine ⟨?_, fun hctx => ?_⟩
    · calc after SessionCall.method s (i :: is)
          = { (i.method.call s).2 with
              authTime := (after SessionCall.method s (i :: is)).authTime
              authMethods := (after SessionCall.method s (i :: is)).authMethods } := hbind'
        _ = _ := by rw [hbind]
    · have hrest := hsame' fun j hj => hctx j (List.mem_cons_of_mem i hj)
      exact hrest.trans (hsame (hctx i List.mem_cons_self))

theorem newAuthSession_fresh {id : Uuid} {aal : Aal} (h : newAuthSession id identityId aal ms = .ok s) :
    s.authMethods = [] ∧ s.tokenGeneration = 1 := by
  unfold newAuthSession at h
  split_ifs at h
  split at h
  · cases h
  dsimp only at h
  split at h
  · cases h
  · obtain rfl := Except.ok.inj h
    exact ⟨rfl, rfl⟩
  · obtain rfl := Except.ok.inj h
    exact ⟨rfl, rfl⟩

theorem SessionMachine.opened {id : Uuid} {aal : String}
    (h : openSession id identityId aal ms = .ok s) : SessionMachine identityId ms [] s := by
  simp only [openSession, ite_error_eq_ok] at h
  obtain ⟨-, h⟩ := h
  cases hp : Aal.parse aal with
  | none =>
    rw [hp] at h
    cases h
  | some level =>
    rw [hp] at h
    obtain ⟨-, hid, -, hstatus⟩ := newAuthSession_ok h
    obtain ⟨hmethods, hgen⟩ := newAuthSession_fresh h
    refine ⟨hid, fun ha => ?_, fun hne => absurd hmethods hne, hgen⟩
    rcases hstatus with ⟨hs, -⟩ | ⟨m, hm, hact, hown, -, hmid, horg⟩
    · rw [ha] at hs
      cases hs
    · exact ⟨m, Or.inl hm, hown, hact, hmid, horg⟩

/-- Every run of calls from a login: an active session is bound to an offered membership, active
when it was chosen; the level never falls, and once methods are on record it stays within their
reach; each successful switch counts one generation; a revoked session keeps all but the record
of an authentication, and a failed call changes nothing. -/
theorem session_machine (id identityId : Uuid) (aal : String) (ms : List Membership)
    (s₀ : AuthSession) (hopen : openSession id identityId aal ms = .ok s₀)
    (calls : List SessionCall) :
    ((after SessionCall.method s₀ calls).status = .active →
      ∃ m, Offered ms (succeeded SessionCall.method s₀ calls) m ∧ m.identityId = identityId ∧
        m.status = .active ∧ (after SessionCall.method s₀ calls).membershipId = some m.id ∧
        (after SessionCall.method s₀ calls).organizationId = some m.organizationId) ∧
    (∀ pre post, calls = pre ++ post → (after SessionCall.method s₀ pre).provenAAL.rank ≤
      (after SessionCall.method s₀ calls).provenAAL.rank) ∧
    ((after SessionCall.method s₀ calls).authMethods ≠ [] →
      Attested (after SessionCall.method s₀ calls).authMethods
        (after SessionCall.method s₀ calls).provenAAL) ∧
    (after SessionCall.method s₀ calls).tokenGeneration =
      1+(succeeded SessionCall.method s₀ calls).countP SessionCall.isSwitch ∧
    (∀ pre post, calls = pre ++ post → (after SessionCall.method s₀ pre).status = .revoked →
      SameBinding (after SessionCall.method s₀ pre) (after SessionCall.method s₀ calls) ∧
      ((∀ i ∈ post, i.isAuthContext = false) →
        after SessionCall.method s₀ calls = after SessionCall.method s₀ pre)) ∧
    ∀ pre i post err, calls = pre ++ i :: post →
      (i.method.call (after SessionCall.method s₀ pre)).1 = .error err →
      after SessionCall.method s₀ (pre ++ [i]) = after SessionCall.method s₀ pre := by
  have hmachine : SessionMachine identityId ms (succeeded SessionCall.method s₀ calls)
      (after SessionCall.method s₀ calls) :=
    calls_invariant sessionCall_atomic (fun _ _ _ _ hI hc => hI.step (sessionCall_edge hc))
      (SessionMachine.opened hopen) calls
  refine ⟨hmachine.tenant, ?_, hmachine.attested, hmachine.generation, ?_, ?_⟩
  · rintro pre post rfl
    rw [after_append]
    apply calls_keep (P := fun s : AuthSession =>
      (after SessionCall.method s₀ pre).provenAAL.rank ≤ s.provenAAL.rank) ?_ (le_refl _) post
    intro s i hs
    rcases sessionCall_cases i s with ⟨err, h⟩ | ⟨s', h, hedge⟩
    · rw [h]
      exact hs
    · rw [h]
      exact hs.trans hedge.rank_le
  · rintro pre post rfl hr
    rw [after_append]
    exact after_revoked hr post
  · rintro pre i post err rfl herr
    rw [after_append]
    exact sessionCall_atomic i _ _ err (Prod.ext herr rfl)

namespace Sample

def joined : Membership := ⟨3, 2, 1, .active, none⟩

def elsewhere : Membership := ⟨4, 2, 5, .active, none⟩

def loggedIn : AuthSession := ⟨7, 2, none, none, .pendingSelection, .aal1, 1, Time.zero, []⟩

/-- A selection, a step-up whose methods do not reach its level, a switch that asks for a level
that was not proven, a step-up and the switch. -/
def dayAtWork : List SessionCall :=
  [.setAuthContext 5 ["password"], .selectTenant joined, .stepUp 6 "aal3" ["totp"],
    .switchTenant elsewhere "aal2", .stepUp 6 "aal2" ["password", "totp"],
    .switchTenant elsewhere "aal2", .revoke, .selectTenant joined]

end Sample

theorem session_machine_day :
    (after SessionCall.method Sample.loggedIn Sample.dayAtWork).tokenGeneration = 2 ∧
    (after SessionCall.method Sample.loggedIn Sample.dayAtWork).membershipId = some 4 ∧
    Attested [.password, .totp]
      (after SessionCall.method Sample.loggedIn Sample.dayAtWork).provenAAL ∧
    (after SessionCall.method Sample.loggedIn Sample.dayAtWork).tokenGeneration =
      1+(succeeded SessionCall.method Sample.loggedIn Sample.dayAtWork).countP
        SessionCall.isSwitch := by
  have hopen : openSession 7 2 "aal1" [Sample.joined, Sample.elsewhere] = .ok Sample.loggedIn := by
    decide
  obtain ⟨-, -, hattested, hgen, -⟩ := session_machine 7 2 "aal1" _ _ hopen Sample.dayAtWork
  have hmethods : (after SessionCall.method Sample.loggedIn Sample.dayAtWork).authMethods =
      [.password, .totp] := by
    decide
  rw [hmethods] at hattested
  exact ⟨by decide, by decide, hattested (by decide), hgen⟩

/-- A login has a level before it has methods, and an authentication can be put on record in a
session that was revoked. -/
theorem session_machine_unguarded :
    openSession 7 2 "aal1" [Sample.joined, Sample.elsewhere] = .ok Sample.loggedIn ∧
    ¬Attested (after SessionCall.method Sample.loggedIn []).authMethods
      (after SessionCall.method Sample.loggedIn []).provenAAL ∧
    (after SessionCall.method Sample.loggedIn [.revoke]).status = .revoked ∧
    after SessionCall.method Sample.loggedIn ([.revoke] ++ [.setAuthContext 5 ["password"]]) ≠
      after SessionCall.method Sample.loggedIn [.revoke] := by
  refine ⟨by decide, ?_, by decide, by decide⟩
  rw [Attested]
  decide

end ArchGuard.Tenancy
