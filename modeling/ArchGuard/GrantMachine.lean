import ArchGuard.AuthzProjection
import ArchGuard.GoMethod
import Mathlib.Data.List.Sort

/-! The state machine of a privileged grant, over every run of its methods. -/
namespace ArchGuard

/-- An assurance level, where the text names one (`AAL.Valid`). -/
def Aal.parse (a : String) : Option Aal :=
  if a = "aal1" then some .aal1
  else if a = "aal2" then some .aal2
  else if a = "aal3" then some .aal3
  else none

theorem Aal.parse_text (a : Aal) : Aal.parse a.text = some a := by
  cases a <;> rfl

/-- `AAL.AtLeast` on the texts: an undefined level on either side satisfies nothing. -/
def Aal.textAtLeast (a min : String) : Bool :=
  match Aal.parse a, Aal.parse min with
  | some ra, some rm => ra.atLeast rm
  | _, _ => false

end ArchGuard

namespace ArchGuard.Tenancy
open GoMethod

def GrantOrigin.parse (origin : String) : Option GrantOrigin :=
  if origin = "normal" then some .normal
  else if origin = "breakglass" then some .breakglass
  else none

/-- The arguments of the two constructors of a grant, with the drawn id. -/
inductive Opening
  | privileged (id organizationId subjectMembershipId : Uuid) (target : GrantTarget)
    (origin : String) (requiredApprovals : ℤ) (notBefore expiresAt : Time)
  | breakglass (id organizationId subjectMembershipId : Uuid) (target : GrantTarget)
    (requiredApprovals : ℤ) (justification incidentRef : String) (notBefore expiresAt : Time)

/-- `NewPrivilegedGrant` with the arguments as they come: the checks that the types of
`newPrivilegedGrant` already make, in their place among the others. -/
def checkedGrant (id organizationId subjectMembershipId : Uuid) (target : GrantTarget)
    (origin : String) (requiredApprovals : ℤ) (notBefore expiresAt : Time) :
    Except GrantError PrivilegedGrant :=
  if organizationId = Uuid.nil ∨ subjectMembershipId = Uuid.nil then
    .error (.invalidGrant "organização/subject")
  else if !target.valid then .error (.invalidGrant "alvo incompleto")
  else match GrantOrigin.parse origin with
    | none => .error (.invalidGrant ("origem " ++ quoted origin))
    | some o =>
      if requiredApprovals < 0 then .error (.invalidGrant "aprovações exigidas negativas")
      else newPrivilegedGrant id organizationId subjectMembershipId target o
        requiredApprovals.toNat notBefore expiresAt

def Opening.build : Opening → Except GrantError PrivilegedGrant
  | .privileged id organizationId subjectMembershipId target origin requiredApprovals notBefore
      expiresAt => checkedGrant id organizationId subjectMembershipId target origin
        requiredApprovals notBefore expiresAt
  | .breakglass id organizationId subjectMembershipId target requiredApprovals justification
      incidentRef notBefore expiresAt =>
    if justification = "" then .error (.invalidGrant "justificativa obrigatória no break-glass")
    else if incidentRef = "" then
      .error (.invalidGrant "referência de incidente obrigatória no break-glass")
    else match checkedGrant id organizationId subjectMembershipId target "breakglass"
        requiredApprovals notBefore expiresAt with
      | .error err => .error err
      | .ok g => .ok { g with justification := justification, incidentRef := incidentRef }

inductive GrantCall
  | passStepUp (provenAAL : String) (phishingResistant : Bool)
  | deny
  | approve (approverMembershipId : Uuid)
  | reject
  | expire (now : Time)
  | revoke
  deriving DecidableEq, Repr

/-- A grant method: it changes the receiver in place. -/
abbrev GrantMethod := Method PrivilegedGrant GrantError Unit

namespace GrantMethod
open Method

def passStepUp (provenAAL : String) (phishingResistant : Bool) : GrantMethod := do
  let g ← get
  refuseIf (g.status ≠ .requested)
    (.grantTransition ("step-up exige status requested, está " ++ g.status.text))
  refuseIf (!phishingResistant || !Aal.textAtLeast provenAAL "aal2") .stepUpNotPhishingResistant
  if g.requiredApprovals = 0 then
    modify fun g => { g with status := .active }
  else
    modify fun g => { g with status := .awaitingApproval }

def deny : GrantMethod := do
  let g ← get
  refuseIf (g.status ≠ .requested)
    (.grantTransition ("negação exige status requested, está " ++ g.status.text))
  modify fun g => { g with status := .denied }

def approve (approverMembershipId : Uuid) : GrantMethod := do
  let g ← get
  refuseIf (g.status ≠ .awaitingApproval)
    (.grantTransition ("aprovação exige status awaiting_approval, está " ++ g.status.text))
  refuseIf (approverMembershipId = Uuid.nil) (.invalidGrant "aprovador nulo")
  refuseIf (approverMembershipId = g.subjectMembershipId) .selfApproval
  refuseIf (approverMembershipId ∈ g.approvals) .grantDuplicateApproval
  modify fun g => { g with approvals := g.approvals ++ [approverMembershipId] }
  let g ← get
  if g.requiredApprovals ≤ g.approvals.length then
    modify fun g => { g with status := .active }

def reject : GrantMethod := do
  let g ← get
  refuseIf (g.status ≠ .awaitingApproval)
    (.grantTransition ("rejeição exige status awaiting_approval, está " ++ g.status.text))
  modify fun g => { g with status := .rejected }

def expire (now : Time) : GrantMethod := do
  let g ← get
  refuseIf (g.status ≠ .awaitingApproval ∧ g.status ≠ .active)
    (.grantTransition ("expiração exige awaiting_approval ou active, está " ++ g.status.text))
  refuseIf (!g.expired now) (.grantTransition "janela ainda não expirou")
  modify fun g => { g with status := .expired }

def revoke : GrantMethod := do
  let g ← get
  refuseIf (g.status ≠ .active)
    (.grantTransition ("revogação exige status active, está " ++ g.status.text))
  modify fun g => { g with status := .revoked }

end GrantMethod

def GrantCall.method : GrantCall → GrantMethod
  | .passStepUp provenAAL phishingResistant => .passStepUp provenAAL phishingResistant
  | .deny => .deny
  | .approve approverMembershipId => .approve approverMembershipId
  | .reject => .reject
  | .expire now => .expire now
  | .revoke => .revoke

/-- What a call can do to the grant: nothing, with an error, or one edge of the machine. -/
inductive GrantEdge (g : PrivilegedGrant) : GrantCall → PrivilegedGrant → Prop
  | passStepUp {provenAAL : String} (hs : g.status = .requested)
    (hl : Aal.textAtLeast provenAAL "aal2" = true) : GrantEdge g (.passStepUp provenAAL true)
      { g with status := if g.requiredApprovals = 0 then .active else .awaitingApproval }
  | deny (hs : g.status = .requested) : GrantEdge g .deny { g with status := .denied }
  | approve {approver : Uuid} (hs : g.status = .awaitingApproval) (hnil : approver ≠ Uuid.nil)
    (hsubject : approver ≠ g.subjectMembershipId) (hnew : approver ∉ g.approvals) :
    GrantEdge g (.approve approver) { g with
      approvals := g.approvals ++ [approver]
      status := if g.requiredApprovals ≤ g.approvals.length+1 then .active else g.status }
  | reject (hs : g.status = .awaitingApproval) : GrantEdge g .reject { g with status := .rejected }
  | expire {now : Time} (hs : g.status = .awaitingApproval ∨ g.status = .active)
    (hnow : g.expired now = true) : GrantEdge g (.expire now) { g with status := .expired }
  | revoke (hs : g.status = .active) : GrantEdge g .revoke { g with status := .revoked }

open Method in
theorem grantCall_cases (i : GrantCall) (g : PrivilegedGrant) :
    (∃ err, i.method.call g = (.error err, g)) ∨
      ∃ g', i.method.call g = (.ok (), g') ∧ GrantEdge g i g' := by
  cases i with
  | passStepUp aal pr =>
    simp only [GrantCall.method, GrantMethod.passStepUp, call_get_bind, call_refuseIf_bind,
      call_ite, call_modify]
    split_ifs with hs hl hzero
    · exact Or.inl ⟨_, rfl⟩
    · exact Or.inl ⟨_, rfl⟩
    all_goals
      simp only [Bool.or_eq_true, Bool.not_eq_eq_eq_not, Bool.not_true, not_or, Bool.not_eq_false] at hl
      obtain ⟨rfl, hl⟩ := hl
      refine Or.inr ⟨_, rfl, ?_⟩
      simpa only [hzero, ↓reduceIte] using GrantEdge.passStepUp (not_not.mp hs) hl
  | deny =>
    simp only [GrantCall.method, GrantMethod.deny, call_get_bind, call_refuseIf_bind,
      call_modify]
    split_ifs with hs
    · exact Or.inl ⟨_, rfl⟩
    · exact Or.inr ⟨_, rfl, .deny (not_not.mp hs)⟩
  | approve a =>
    simp only [GrantCall.method, GrantMethod.approve, call_get_bind, call_refuseIf_bind,
      call_modify_bind, call_ite, call_modify, call_pure]
    split_ifs with hs hnil hsubject hdup hlen
    · exact Or.inl ⟨_, rfl⟩
    · exact Or.inl ⟨_, rfl⟩
    · exact Or.inl ⟨_, rfl⟩
    · exact Or.inl ⟨_, rfl⟩
    all_goals
      refine Or.inr ⟨_, rfl, ?_⟩
      rw [List.length_append, List.length_singleton] at hlen
      simpa only [hlen, ↓reduceIte] using GrantEdge.approve (not_not.mp hs) hnil hsubject hdup
  | reject =>
    simp only [GrantCall.method, GrantMethod.reject, call_get_bind, call_refuseIf_bind,
      call_modify]
    split_ifs with hs
    · exact Or.inl ⟨_, rfl⟩
    · exact Or.inr ⟨_, rfl, .reject (not_not.mp hs)⟩
  | expire now =>
    simp only [GrantCall.method, GrantMethod.expire, call_get_bind, call_refuseIf_bind,
      call_modify]
    split_ifs with hs hnow
    · exact Or.inl ⟨_, rfl⟩
    · exact Or.inl ⟨_, rfl⟩
    · refine Or.inr ⟨_, rfl, .expire ?_ (by simpa using hnow)⟩
      rw [not_and_or, not_not, not_not] at hs
      exact hs
  | revoke =>
    simp only [GrantCall.method, GrantMethod.revoke, call_get_bind, call_refuseIf_bind,
      call_modify]
    split_ifs with hs
    · exact Or.inl ⟨_, rfl⟩
    · exact Or.inr ⟨_, rfl, .revoke (not_not.mp hs)⟩

theorem grantCall_atomic (i : GrantCall) : i.method.Atomic :=
  Method.atomic_of_cases (grantCall_cases i)

theorem grantCall_edge {i : GrantCall} {g g' : PrivilegedGrant}
    (h : i.method.call g = (.ok (), g')) : GrantEdge g i g' :=
  Method.edge_of_cases (grantCall_cases i) h

/-- What the successful calls of a run say about the grant they leave. -/
structure GrantMachine (g₀ : PrivilegedGrant) (done : List GrantCall) (g : PrivilegedGrant) :
    Prop where
  subject : g.subjectMembershipId = g₀.subjectMembershipId
  required : g.requiredApprovals = g₀.requiredApprovals
  nodup : g.approvals.Nodup
  peers : ∀ a ∈ g.approvals, a ≠ g₀.subjectMembershipId ∧ GrantCall.approve a ∈ done
  passed : g.status = .awaitingApproval ∨ g.status = .active →
    ∃ aal, Aal.textAtLeast aal "aal2" = true ∧ GrantCall.passStepUp aal true ∈ done
  enough : g.status = .active → g₀.requiredApprovals ≤ g.approvals.length

variable {g₀ g g' : PrivilegedGrant} {done : List GrantCall} {i : GrantCall}

theorem GrantMachine.settle (h : GrantMachine g₀ done g) {status : GrantStatus}
    (hw : status ≠ .awaitingApproval) (ha : status ≠ .active) :
    GrantMachine g₀ (done ++ [i]) { g with status := status } where
  subject := h.subject
  required := h.required
  nodup := h.nodup
  peers a hm := ⟨(h.peers a hm).1, List.mem_append_left _ (h.peers a hm).2⟩
  passed hs := absurd hs (not_or.mpr ⟨hw, ha⟩)
  enough hs := absurd hs ha

theorem GrantMachine.step (h : GrantMachine g₀ done g) (hedge : GrantEdge g i g') :
    GrantMachine g₀ (done ++ [i]) g' := by
  have hpeers (a : Uuid) (hm : a ∈ g.approvals) :
      a ≠ g₀.subjectMembershipId ∧ GrantCall.approve a ∈ done ++ [i] :=
    ⟨(h.peers a hm).1, List.mem_append_left _ (h.peers a hm).2⟩
  cases hedge with
  | @passStepUp aal hs hl =>
    refine ⟨h.subject, h.required, h.nodup, hpeers, fun _ => ⟨aal, hl, by simp⟩, fun hs => ?_⟩
    -- without approvals to wait for, the grant is active at once
    by_cases hz : g.requiredApprovals = 0
    · rw [← h.required, hz]
      exact Nat.zero_le _
    · simp only [hz, ↓reduceIte] at hs
      cases hs
  | deny => exact h.settle (by decide) (by decide)
  | @approve a hs hnil hsubject hnew =>
    refine ⟨h.subject, h.required, ?_, ?_, ?_, ?_⟩
    · exact List.nodup_append.mpr ⟨h.nodup, List.nodup_singleton a, fun b hb c hc he =>
        hnew (List.mem_singleton.mp hc ▸ he ▸ hb)⟩
    · intro b hb
      rcases List.mem_append.mp hb with hb | hb
      · exact hpeers b hb
      · obtain rfl := List.mem_singleton.mp hb
        exact ⟨h.subject ▸ hsubject, by simp⟩
    · intro _
      obtain ⟨aal, hl, hm⟩ := h.passed (Or.inl hs)
      exact ⟨aal, hl, List.mem_append_left _ hm⟩
    · intro hact
      by_cases hlen : g.requiredApprovals ≤ g.approvals.length+1
      · rw [← h.required]
        simpa only [List.length_append, List.length_singleton] using hlen
      · simp only [hlen, ↓reduceIte, hs] at hact
        cases hact
  | reject => exact h.settle (by decide) (by decide)
  | expire => exact h.settle (by decide) (by decide)
  | revoke => exact h.settle (by decide) (by decide)

theorem GrantEdge.source (hedge : GrantEdge g i g') : g.status.terminal = false := by
  cases hedge with
  | passStepUp hs => rw [hs]; rfl
  | deny hs => rw [hs]; rfl
  | approve hs => rw [hs]; rfl
  | reject hs => rw [hs]; rfl
  | expire hs => rcases hs with hs | hs <;> rw [hs] <;> rfl
  | revoke hs => rw [hs]; rfl

theorem grantCall_terminal (ht : g.status.terminal = true) (i : GrantCall) :
    (i.method.call g).2 = g := by
  rcases grantCall_cases i g with ⟨err, h⟩ | ⟨g', h, hedge⟩
  · rw [h]
  · rw [hedge.source] at ht
    cases ht

theorem checkedGrant_ok {id org subject : Uuid} {target : GrantTarget} {origin : String}
    {required : ℤ} {notBefore expiresAt : Time}
    (h : checkedGrant id org subject target origin required notBefore expiresAt = .ok g) :
    g.status = .requested ∧ g.approvals = [] := by
  simp only [checkedGrant, ite_error_eq_ok] at h
  obtain ⟨-, -, h⟩ := h
  cases hp : GrantOrigin.parse origin with
  | none =>
    rw [hp] at h
    cases h
  | some o =>
    rw [hp] at h
    simp only [newPrivilegedGrant, ite_error_eq_ok] at h
    obtain ⟨-, -, -, -, h⟩ := h
    obtain rfl := Except.ok.inj h
    exact ⟨rfl, rfl⟩

theorem Opening.build_ok {o : Opening} (h : o.build = .ok g) :
    g.status = .requested ∧ g.approvals = [] := by
  cases o with
  | privileged => exact checkedGrant_ok h
  | breakglass =>
    simp only [build, ite_error_eq_ok] at h
    obtain ⟨-, -, h⟩ := h
    split at h
    · cases h
    · rename_i g' hg
      obtain ⟨hs, ha⟩ := checkedGrant_ok hg
      obtain rfl := Except.ok.inj h
      exact ⟨hs, ha⟩

theorem GrantMachine.opened {o : Opening} (h : o.build = .ok g) : GrantMachine g [] g := by
  obtain ⟨hs, ha⟩ := Opening.build_ok h
  refine ⟨rfl, rfl, ?_, ?_, ?_, ?_⟩
  · rw [ha]
    exact List.nodup_nil
  · intro a hm
    rw [ha] at hm
    cases hm
  · rw [hs]
    rintro (hs | hs) <;> cases hs
  · rw [hs]
    intro hs
    cases hs

theorem authorizes_iff (now : Time) :
    g.authorizes now = true ↔ g.status = .active ∧ g.notBefore ≤ now ∧ now < g.expiresAt := by
  have hexpired : g.expired now = true ↔ ¬now < g.expiresAt := by
    rw [PrivilegedGrant.expired, Bool.not_eq_true', decide_eq_false_iff_not]
  rw [PrivilegedGrant.authorizes]
  by_cases hs : g.status = .active
  · rw [if_neg (not_not.mpr hs)]
    simp only [hexpired]
    by_cases hw : now < g.notBefore ∨ ¬now < g.expiresAt
    · rw [if_pos hw]
      rw [← not_le, ← not_and_or] at hw
      exact ⟨fun h => Bool.noConfusion h, fun h => absurd h.2 hw⟩
    · rw [if_neg hw]
      rw [not_or, not_lt, not_not] at hw
      exact ⟨fun _ => ⟨hs, hw⟩, fun _ => rfl⟩
  · rw [if_pos hs]
    exact ⟨fun h => Bool.noConfusion h, fun h => absurd h.1 hs⟩

/-- Every run of calls from a built grant: an active grant has its step-up and its approvals
behind it, a final status stays, a failed call changes nothing, and access is given inside
the window of an active grant only. -/
theorem grant_machine (o : Opening) (hbuild : o.build = .ok g₀) (calls : List GrantCall) :
    ((after GrantCall.method g₀ calls).status = .active →
      (∃ aal, Aal.textAtLeast aal "aal2" = true ∧
        GrantCall.passStepUp aal true ∈ succeeded GrantCall.method g₀ calls) ∧
      ∃ approvers : List Uuid, approvers.Nodup ∧ g₀.requiredApprovals ≤ approvers.length ∧
        ∀ a ∈ approvers, a ≠ g₀.subjectMembershipId ∧
          GrantCall.approve a ∈ succeeded GrantCall.method g₀ calls) ∧
    (∀ pre post, calls = pre ++ post →
      (after GrantCall.method g₀ pre).status.terminal = true →
      (after GrantCall.method g₀ calls).status = (after GrantCall.method g₀ pre).status) ∧
    (∀ pre i post err, calls = pre ++ i :: post →
      (i.method.call (after GrantCall.method g₀ pre)).1 = .error err →
      after GrantCall.method g₀ (pre ++ [i]) = after GrantCall.method g₀ pre) ∧
    ∀ now, (after GrantCall.method g₀ calls).authorizes now = true →
      (after GrantCall.method g₀ calls).status = .active ∧
        (after GrantCall.method g₀ calls).notBefore ≤ now ∧
        now < (after GrantCall.method g₀ calls).expiresAt := by
  have hmachine : GrantMachine g₀ (succeeded GrantCall.method g₀ calls)
      (after GrantCall.method g₀ calls) :=
    calls_invariant grantCall_atomic (fun _ _ _ _ hI hc => hI.step (grantCall_edge hc))
      (GrantMachine.opened hbuild) calls
  refine ⟨fun hact => ?_, ?_, ?_, fun now h => (authorizes_iff now).mp h⟩
  · exact ⟨hmachine.passed (Or.inr hact), _, hmachine.nodup, hmachine.enough hact, hmachine.peers⟩
  · rintro pre post rfl ht
    rw [after_append]
    have hstay : after GrantCall.method (after GrantCall.method g₀ pre) post =
        after GrantCall.method g₀ pre :=
      calls_keep (P := (· = after GrantCall.method g₀ pre))
        (fun s i hs => by rw [hs]; exact grantCall_terminal ht i) rfl post
    rw [hstay]
  · rintro pre i post err rfl herr
    rw [after_append]
    exact grantCall_atomic i _ _ err (Prod.ext herr rfl)

/-- An emergency grant that needs two approvals; its requester and a peer who approves twice
are refused on the way. -/
theorem grant_machine_emergency : ∃ g₀,
    (Opening.breakglass 5 1 3 ⟨"asset", "a", "admin"⟩ 2 "outage" "INC-1" 1000 9000).build = .ok g₀ ∧
    (after GrantCall.method g₀ [.approve 8, .passStepUp "aal2" false, .passStepUp "aal3" true,
      .approve 3, .approve 8, .approve 8, .approve 9]).status = .active ∧
    ∃ approvers : List Uuid, approvers.Nodup ∧ g₀.requiredApprovals ≤ approvers.length ∧
      ∀ a ∈ approvers, a ≠ g₀.subjectMembershipId ∧
        GrantCall.approve a ∈ succeeded GrantCall.method g₀ [.approve 8, .passStepUp "aal2" false,
          .passStepUp "aal3" true, .approve 3, .approve 8, .approve 8, .approve 9] := by
  have hbuild : (Opening.breakglass 5 1 3 ⟨"asset", "a", "admin"⟩ 2 "outage" "INC-1" 1000
      9000).build = .ok ⟨5, 1, 3, ⟨"asset", "a", "admin"⟩, .breakglass, .requested, 2, [], 1000, 9000,
        "outage", "INC-1"⟩ := by
    decide
  refine ⟨_, hbuild, by decide, ?_⟩
  exact ((grant_machine _ hbuild _).1 (by decide)).2

-- The review after use: what a grant demands it by, and the history that it stands for.

def PrivilegedGrant.needsReview (g : PrivilegedGrant) : Bool :=
  if g.origin ≠ .breakglass then false else g.status = .expired ∨ g.status = .revoked

structure PostUseReview where
  id : Uuid
  grantId : Uuid
  organizationId : Uuid
  reviewerMembershipId : Uuid
  notes : String
  deriving DecidableEq, Repr

structure InvalidReview where
  detail : String
  deriving DecidableEq, Repr

def InvalidReview.text (err : InvalidReview) : String :=
  "post_use_review: dados obrigatórios ausentes: " ++ err.detail

/-- `NewPostUseReview`, with the drawn id. -/
def newPostUseReview (id : Uuid) (grant : PrivilegedGrant) (reviewerMembershipId : Uuid)
    (notes : String) : Except InvalidReview PostUseReview :=
  if !grant.needsReview then .error ⟨"a concessão não requer revisão pós-uso"⟩
  else if reviewerMembershipId = Uuid.nil then .error ⟨"revisor ausente"⟩
  else if notes = "" then .error ⟨"a revisão exige um parecer"⟩
  else .ok ⟨id, grant.id, grant.organizationId, reviewerMembershipId, notes⟩

def WasActive (g₀ : PrivilegedGrant) (calls : List GrantCall) : Prop :=
  ∃ pre post, calls = pre ++ post ∧ (after GrantCall.method g₀ pre).status = .active

def Used (g₀ : PrivilegedGrant) (calls : List GrantCall) : Prop :=
  WasActive g₀ calls ∧ ((after GrantCall.method g₀ calls).status = .expired ∨
    (after GrantCall.method g₀ calls).status = .revoked)

/-- The window closes on a grant that still waits for approvals, and it is expired then. -/
def ExpiresWaiting (g₀ : PrivilegedGrant) (calls : List GrantCall) : Prop :=
  ∃ pre now post, calls = pre ++ .expire now :: post ∧
    (after GrantCall.method g₀ pre).status = .awaitingApproval ∧
    (after GrantCall.method g₀ pre).expired now = true

theorem wasActive_snoc (calls : List GrantCall) (i : GrantCall) :
    WasActive g₀ (calls ++ [i]) ↔
      WasActive g₀ calls ∨ (after GrantCall.method g₀ (calls ++ [i])).status = .active := by
  constructor
  · rintro ⟨pre, post, he, hs⟩
    rcases List.eq_nil_or_concat' post with rfl | ⟨post, j, rfl⟩
    · rw [List.append_nil] at he
      exact Or.inr (he ▸ hs)
    · rw [← List.append_assoc] at he
      exact Or.inl ⟨pre, post, (List.append_inj' he rfl).1, hs⟩
  · rintro (⟨pre, post, rfl, hs⟩ | hs)
    · exact ⟨pre, post ++ [i], List.append_assoc .., hs⟩
    · exact ⟨calls ++ [i], [], (List.append_nil _).symm, hs⟩

theorem expiresWaiting_snoc (calls : List GrantCall) (i : GrantCall) :
    ExpiresWaiting g₀ (calls ++ [i]) ↔ ExpiresWaiting g₀ calls ∨ ∃ now, i = .expire now ∧
      (after GrantCall.method g₀ calls).status = .awaitingApproval ∧
      (after GrantCall.method g₀ calls).expired now = true := by
  constructor
  · rintro ⟨pre, now, post, he, hs, hnow⟩
    rcases List.eq_nil_or_concat' post with rfl | ⟨post, j, rfl⟩
    · obtain ⟨rfl, hi⟩ := List.append_inj' he rfl
      exact Or.inr ⟨now, List.singleton_inj.mp hi, hs, hnow⟩
    · rw [← List.cons_append, ← List.append_assoc] at he
      exact Or.inl ⟨pre, now, post, (List.append_inj' he rfl).1, hs, hnow⟩
  · rintro (⟨pre, now, post, rfl, hs, hnow⟩ | ⟨now, rfl, hs, hnow⟩)
    · exact ⟨pre, now, post ++ [i], by simp, hs, hnow⟩
    · exact ⟨calls, now, [], rfl, hs, hnow⟩

/-- What the status says about the history. -/
structure ReviewTrack (g₀ : PrivilegedGrant) (calls : List GrantCall) : Prop where
  origin : (after GrantCall.method g₀ calls).origin = g₀.origin
  active : WasActive g₀ calls → (after GrantCall.method g₀ calls).status = .active ∨
    (after GrantCall.method g₀ calls).status = .expired ∨
    (after GrantCall.method g₀ calls).status = .revoked
  used : (after GrantCall.method g₀ calls).status = .active ∨
    (after GrantCall.method g₀ calls).status = .revoked → WasActive g₀ calls
  expired : (after GrantCall.method g₀ calls).status = .expired →
    WasActive g₀ calls ∨ ExpiresWaiting g₀ calls
  waited : ExpiresWaiting g₀ calls →
    (after GrantCall.method g₀ calls).status = .expired ∧ ¬WasActive g₀ calls

/-- An edge leaves no use behind it, ends a use, or lets the window close on a waiting grant. -/
theorem GrantEdge.status_cases (hedge : GrantEdge g i g') :
    (g.status ≠ .active ∧ g'.status ≠ .expired ∧ g'.status ≠ .revoked) ∨
      (g.status = .active ∧ (g'.status = .expired ∨ g'.status = .revoked)) ∨
      ∃ now, i = .expire now ∧ g.status = .awaitingApproval ∧ g.expired now = true ∧
        g'.status = .expired := by
  cases hedge with
  | passStepUp hs =>
    left
    rw [hs]
    dsimp only
    split <;> decide
  | approve hs =>
    left
    rw [hs]
    dsimp only
    split <;> decide
  | deny hs =>
    left
    rw [hs]
    dsimp only
    decide
  | reject hs =>
    left
    rw [hs]
    dsimp only
    decide
  | @expire now hs hnow =>
    rcases hs with hs | hs
    · exact Or.inr (Or.inr ⟨now, rfl, hs, hnow, rfl⟩)
    · exact Or.inr (Or.inl ⟨hs, Or.inl rfl⟩)
  | revoke hs => exact Or.inr (Or.inl ⟨hs, Or.inr rfl⟩)

theorem GrantEdge.origin (hedge : GrantEdge g i g') : g'.origin = g.origin := by
  cases hedge <;> rfl

open Method in
theorem expire_call {now : Time} (hs : g.status = .awaitingApproval) (hnow : g.expired now = true) :
    (GrantCall.expire now).method.call g = (.ok (), { g with status := .expired }) := by
  simp [GrantCall.method, GrantMethod.expire, call_get_bind, call_refuseIf_bind, call_modify, hs, hnow]

theorem after_snoc (calls : List GrantCall) (i : GrantCall) :
    after GrantCall.method g₀ (calls ++ [i]) =
      (i.method.call (after GrantCall.method g₀ calls)).2 := after_append _ _ _

theorem ReviewTrack.failed {calls : List GrantCall} (h : ReviewTrack g₀ calls) {err : GrantError}
    (hc : i.method.call (after GrantCall.method g₀ calls) =
      (.error err, after GrantCall.method g₀ calls)) : ReviewTrack g₀ (calls ++ [i]) := by
  have hafter : after GrantCall.method g₀ (calls ++ [i]) = after GrantCall.method g₀ calls := by
    rw [after_snoc, hc]
  have hactive : WasActive g₀ (calls ++ [i]) ↔ WasActive g₀ calls := by
    rw [wasActive_snoc, hafter]
    exact or_iff_left_of_imp fun hs => h.used (Or.inl hs)
  have hwaiting : ExpiresWaiting g₀ (calls ++ [i]) ↔ ExpiresWaiting g₀ calls := by
    rw [expiresWaiting_snoc]
    refine or_iff_left_of_imp ?_
    rintro ⟨now, rfl, hs, hnow⟩
    rw [expire_call hs hnow] at hc
    cases (Prod.mk.inj hc).1
  constructor
  · rw [hafter]
    exact h.origin
  · rw [hafter, hactive]
    exact h.active
  · rw [hafter, hactive]
    exact h.used
  · rw [hafter, hactive, hwaiting]
    exact h.expired
  · rw [hafter, hactive, hwaiting]
    exact h.waited

theorem ReviewTrack.moved {calls : List GrantCall} (h : ReviewTrack g₀ calls)
    (hedge : GrantEdge (after GrantCall.method g₀ calls) i g')
    (hc : i.method.call (after GrantCall.method g₀ calls) = (.ok (), g')) :
    ReviewTrack g₀ (calls ++ [i]) := by
  have hafter : after GrantCall.method g₀ (calls ++ [i]) = g' := by
    rw [after_snoc, hc]
  have hactive : WasActive g₀ (calls ++ [i]) ↔ _ := wasActive_snoc calls i
  have hwaiting : ExpiresWaiting g₀ (calls ++ [i]) ↔ _ := expiresWaiting_snoc calls i
  rw [hafter] at hactive
  -- no edge leaves a final status, so nothing expired while it waited before
  have hopen : ¬ExpiresWaiting g₀ calls := by
    intro hw
    have hsource := hedge.source
    rw [(h.waited hw).1] at hsource
    cases hsource
  rw [or_iff_right hopen] at hwaiting
  have hbefore : WasActive g₀ calls ↔ (after GrantCall.method g₀ calls).status = .active := by
    constructor
    · intro hw
      rcases h.active hw with hs | hs | hs
      · exact hs
      all_goals
        have hsource := hedge.source
        rw [hs] at hsource
        cases hsource
    · exact fun hs => h.used (Or.inl hs)
  rw [hbefore] at hactive
  refine ⟨?_, ?_, ?_, ?_, ?_⟩ <;> rw [hafter]
  · exact hedge.origin.trans h.origin
  · rw [hactive]
    rintro (hs | hs)
    · rcases hedge.status_cases with ⟨hne, -⟩ | ⟨-, hend⟩ | ⟨_, -, hwait, -⟩
      · exact absurd hs hne
      · exact Or.inr hend
      · rw [hwait] at hs
        cases hs
    · exact Or.inl hs
  · rw [hactive]
    rintro (hs | hs)
    · exact Or.inr hs
    · rcases hedge.status_cases with ⟨-, -, hne⟩ | ⟨hact, -⟩ | ⟨_, -, -, -, hexp⟩
      · exact absurd hs hne
      · exact Or.inl hact
      · rw [hexp] at hs
        cases hs
  · rw [hactive, hwaiting]
    intro hs
    rcases hedge.status_cases with ⟨-, hne, -⟩ | ⟨hact, -⟩ | ⟨now, hi, hwait, hnow, -⟩
    · exact absurd hs hne
    · exact Or.inl (Or.inl hact)
    · exact Or.inr ⟨now, hi, hwait, hnow⟩
  · rw [hactive, hwaiting]
    rintro ⟨now, rfl, hs, hnow⟩
    cases hedge
    simp [hs]

theorem ReviewTrack.run (hs : g₀.status = .requested) (calls : List GrantCall) :
    ReviewTrack g₀ calls := by
  induction calls using List.reverseRecOn with
  | nil =>
    have hactive : ¬WasActive g₀ [] := by
      rintro ⟨pre, post, he, hact⟩
      obtain ⟨rfl, -⟩ := List.append_eq_nil_iff.mp he.symm
      exact absurd (hs.symm.trans hact) (by decide)
    have hwaiting : ¬ExpiresWaiting g₀ [] := by
      rintro ⟨pre, now, post, he, -⟩
      exact absurd he.symm (by simp)
    have hstatus : (after GrantCall.method g₀ []).status = .requested := hs
    refine ⟨rfl, fun h => absurd h hactive, ?_, ?_, fun h => absurd h hwaiting⟩
    · rw [hstatus]
      rintro (h | h) <;> cases h
    · rw [hstatus]
      intro h
      cases h
  | append_singleton calls i ih =>
    rcases grantCall_cases i (after GrantCall.method g₀ calls) with ⟨err, hc⟩ | ⟨g', hc, hedge⟩
    · exact ih.failed hc
    · exact ih.moved hedge hc

theorem needsReview_iff (g : PrivilegedGrant) : g.needsReview = true ↔
    g.origin = .breakglass ∧ (g.status = .expired ∨ g.status = .revoked) := by
  rw [PrivilegedGrant.needsReview]
  by_cases ho : g.origin = .breakglass
  · rw [if_neg (not_not.mpr ho), decide_eq_true_iff]
    exact (and_iff_right ho).symm
  · rw [if_pos ho]
    exact iff_of_false Bool.noConfusion fun h => ho h.1

-- The reviews that are pending in the table of an organization.

/-- A grant as it was opened, and the calls that were made on it. -/
structure Access where
  opening : Opening
  opened : PrivilegedGrant
  built : opening.build = .ok opened
  calls : List GrantCall
  updatedAt : Time

def Access.grant (a : Access) : PrivilegedGrant := after GrantCall.method a.opened a.calls

structure ReviewTables where
  accesses : List Access
  distinct : (accesses.map (·.grant.id)).Nodup
  reviews : List PostUseReview

/-- The condition of `ListPendingReviews`: the grant joins no review. -/
def ReviewTables.pending (t : ReviewTables) (organizationId : Uuid) (a : Access) : Bool :=
  a.grant.organizationId = organizationId && a.grant.origin = .breakglass &&
    (a.grant.status = .expired || a.grant.status = .revoked) &&
    !t.reviews.any (·.grantId = a.grant.id)

def ReviewTables.listPendingReviews (t : ReviewTables) (organizationId : Uuid) : List Uuid :=
  ((t.accesses.filter (t.pending organizationId)).insertionSort (·.updatedAt ≤ ·.updatedAt)).map
    (·.grant.id)

theorem mem_listPendingReviews (t : ReviewTables) (organizationId : Uuid) {a : Access}
    (ha : a ∈ t.accesses) :
    a.grant.id ∈ t.listPendingReviews organizationId ↔ t.pending organizationId a = true := by
  rw [ReviewTables.listPendingReviews, List.mem_map]
  simp only [List.mem_insertionSort, List.mem_filter]
  constructor
  · rintro ⟨b, ⟨hb, hpending⟩, hid⟩
    rwa [← List.inj_on_of_nodup_map t.distinct hb ha hid]
  · exact fun h => ⟨a, ⟨ha, h⟩, rfl⟩

/-- In the organization's table the access waits for nobody's review yet. -/
def ReviewTables.Unreviewed (t : ReviewTables) (organizationId : Uuid) (a : Access) : Prop :=
  a.grant.organizationId = organizationId ∧ a.opened.origin = .breakglass ∧
    ∀ r ∈ t.reviews, r.grantId ≠ a.grant.id

theorem pending_iff (t : ReviewTables) (organizationId : Uuid) (a : Access) :
    t.pending organizationId a = true ↔
      t.Unreviewed organizationId a ∧ a.grant.needsReview = true := by
  have horigin : a.grant.origin = a.opened.origin :=
    (ReviewTrack.run (Opening.build_ok a.built).1 a.calls).origin
  rw [needsReview_iff, ReviewTables.pending, ReviewTables.Unreviewed, ← horigin]
  simp only [Bool.and_eq_true, Bool.or_eq_true, decide_eq_true_eq, Bool.not_eq_true',
    List.any_eq_false]
  tauto

theorem needsReview_iff_ended (hs : g₀.status = .requested) (ho : g₀.origin = .breakglass)
    (calls : List GrantCall) : (after GrantCall.method g₀ calls).needsReview = true ↔
      (after GrantCall.method g₀ calls).status = .expired ∨
        (after GrantCall.method g₀ calls).status = .revoked := by
  rw [needsReview_iff, (ReviewTrack.run hs calls).origin]
  exact and_iff_right ho

/-- An emergency access that is over was used, unless its window closed while it waited. -/
theorem wasActive_iff (hs : g₀.status = .requested) {calls : List GrantCall}
    (hended : (after GrantCall.method g₀ calls).status = .expired ∨
      (after GrantCall.method g₀ calls).status = .revoked) :
    WasActive g₀ calls ↔ ¬ExpiresWaiting g₀ calls := by
  have htrack := ReviewTrack.run hs calls
  constructor
  · exact fun hactive hwaiting => (htrack.waited hwaiting).2 hactive
  · intro hwaiting
    rcases hended with he | he
    · exact (htrack.expired he).resolve_right hwaiting
    · exact htrack.used (Or.inr he)

theorem breakglass_origin {id org subject : Uuid} {target : GrantTarget} {required : ℤ}
    {justification incidentRef : String} {notBefore expiresAt : Time}
    (h : (Opening.breakglass id org subject target required justification incidentRef notBefore
      expiresAt).build = .ok g) : g.origin = .breakglass := by
  have hparse : GrantOrigin.parse "breakglass" = some .breakglass := rfl
  simp only [Opening.build, ite_error_eq_ok] at h
  obtain ⟨-, -, h⟩ := h
  split at h
  · cases h
  · next g' hg =>
    obtain rfl := Except.ok.inj h
    simp only [checkedGrant, ite_error_eq_ok, hparse, newPrivilegedGrant] at hg
    obtain ⟨-, -, -, -, -, -, hg⟩ := hg
    rw [← Except.ok.inj hg]

/-- A review is demanded exactly for an access that was used unless the access expired while it
waited, and what is listed as pending was active unless such an access is among it. -/
theorem review_demanded_iff {id org subject : Uuid} {target : GrantTarget} {required : ℤ}
    {justification incidentRef : String} {notBefore expiresAt : Time}
    (hbuild : (Opening.breakglass id org subject target required justification incidentRef notBefore
      expiresAt).build = .ok g₀) (calls : List GrantCall) (t : ReviewTables) (organizationId : Uuid) :
    (((after GrantCall.method g₀ calls).needsReview = true ↔ Used g₀ calls) ↔
        ¬ExpiresWaiting g₀ calls) ∧
      ((∀ a ∈ t.accesses, a.grant.id ∈ t.listPendingReviews organizationId →
          WasActive a.opened a.calls) ↔
        ∀ a ∈ t.accesses, t.Unreviewed organizationId a → ¬ExpiresWaiting a.opened a.calls) := by
  have hs := (Opening.build_ok hbuild).1
  constructor
  · rw [needsReview_iff_ended hs (breakglass_origin hbuild), Used]
    constructor
    · intro h hwaiting
      have htrack := (ReviewTrack.run hs calls).waited hwaiting
      exact htrack.2 (h.mp (Or.inl htrack.1)).1
    · intro hwaiting
      rw [iff_and_self]
      exact fun hended => (wasActive_iff hs hended).mpr hwaiting
  · constructor
    · intro h a ha hunreviewed hwaiting
      have hsa := (Opening.build_ok a.built).1
      have htrack := (ReviewTrack.run hsa a.calls).waited hwaiting
      have hneeds : a.grant.needsReview = true :=
        (needsReview_iff_ended hsa hunreviewed.2.1 a.calls).mpr (Or.inl htrack.1)
      have hpending := (pending_iff t organizationId a).mpr ⟨hunreviewed, hneeds⟩
      exact htrack.2 (h a ha ((mem_listPendingReviews t organizationId ha).mpr hpending))
    · intro h a ha hlisted
      have hpending := (mem_listPendingReviews t organizationId ha).mp hlisted
      obtain ⟨hunreviewed, hneeds⟩ := (pending_iff t organizationId a).mp hpending
      exact (wasActive_iff (Opening.build_ok a.built).1 ((needsReview_iff a.grant).mp hneeds).2).mpr
        (h a ha hunreviewed)

namespace Sample

def emergency : PrivilegedGrant :=
  ⟨5, 1, 3, ⟨"asset", "a", "admin"⟩, .breakglass, .requested, 1, [], 1000, 9000, "outage", "INC-1"⟩

theorem emergency_built : (Opening.breakglass 5 1 3 ⟨"asset", "a", "admin"⟩ 1 "outage" "INC-1" 1000
    9000).build = .ok emergency := by decide

/-- The table of an organization with that grant, after the calls. -/
def reviewTables (calls : List GrantCall) : ReviewTables :=
  ⟨[⟨_, emergency, emergency_built, calls, 2000⟩], List.nodup_singleton _, []⟩

end Sample

open Sample

/-- A used emergency access is to be reviewed, and is listed. -/
theorem review_demanded_used :
    (after GrantCall.method emergency [.passStepUp "aal2" true, .approve 8, .revoke]).needsReview =
        true ∧
      Used emergency [.passStepUp "aal2" true, .approve 8, .revoke] ∧
      (reviewTables [.passStepUp "aal2" true, .approve 8, .revoke]).listPendingReviews 1 = [5] := by
  have hneeds : (after GrantCall.method emergency
      [.passStepUp "aal2" true, .approve 8, .revoke]).needsReview = true := by decide
  have hwaiting : ¬ExpiresWaiting emergency [.passStepUp "aal2" true, .approve 8, .revoke] := by
    rintro ⟨pre, now, post, he, -⟩
    have hmem : GrantCall.expire now ∈ [.passStepUp "aal2" true, .approve 8, .revoke] := by
      rw [he]
      exact List.mem_append_right pre List.mem_cons_self
    simp at hmem
  exact ⟨hneeds, ((review_demanded_iff emergency_built _ (reviewTables []) 1).1.mpr hwaiting).mp hneeds,
    by decide⟩

/-- A request that nobody approved runs out: it was never active, and a review of its use is
demanded and listed as pending. -/
theorem expired_request_demands_review :
    (after GrantCall.method emergency [.passStepUp "aal2" true, .expire 9000]).needsReview = true ∧
      ¬WasActive emergency [.passStepUp "aal2" true, .expire 9000] ∧
      (reviewTables [.passStepUp "aal2" true, .expire 9000]).listPendingReviews 1 = [5] := by
  refine ⟨by decide, ?_, by decide⟩
  have hwaiting : ExpiresWaiting emergency [.passStepUp "aal2" true, .expire 9000] :=
    ⟨[.passStepUp "aal2" true], 9000, [], rfl, by decide, by decide⟩
  exact ((ReviewTrack.run rfl _).waited hwaiting).2

end ArchGuard.Tenancy
