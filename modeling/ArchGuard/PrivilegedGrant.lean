import ArchGuard.Assurance

/-! A privileged grant and its state machine. -/
namespace ArchGuard.Tenancy

inductive GrantOrigin
  | normal | breakglass
  deriving DecidableEq, Repr

inductive GrantStatus
  | requested | awaitingApproval | active | expired | revoked | denied | rejected
  deriving DecidableEq, Repr

def GrantStatus.text : GrantStatus → String
  | .requested => "requested"
  | .awaitingApproval => "awaiting_approval"
  | .active => "active"
  | .expired => "expired"
  | .revoked => "revoked"
  | .denied => "denied"
  | .rejected => "rejected"

def GrantStatus.terminal : GrantStatus → Bool
  | .expired => true
  | .revoked => true
  | .denied => true
  | .rejected => true
  | _ => false

structure GrantTarget where
  type : String
  id : String
  scope : String
  deriving DecidableEq, Repr

def GrantTarget.valid (t : GrantTarget) : Bool := t.type ≠ "" && t.id ≠ "" && t.scope ≠ ""

structure PrivilegedGrant where
  id : Uuid
  organizationId : Uuid
  subjectMembershipId : Uuid
  target : GrantTarget
  origin : GrantOrigin
  status : GrantStatus
  requiredApprovals : ℕ
  approvals : List Uuid
  notBefore : Time
  expiresAt : Time
  justification : String
  incidentRef : String
  deriving DecidableEq, Repr

inductive GrantError
  | invalidGrant (detail : String)
  | invalidGrantWindow
  | grantTransition (detail : String)
  | grantDuplicateApproval
  | stepUpNotPhishingResistant
  | selfApproval
  | grantNotFound
  | crossTenantGrant (target scope : Uuid)
  | grantCreate
  deriving DecidableEq, Repr

def GrantError.text : GrantError → String
  | .invalidGrant detail => "privileged_grant: dados obrigatórios ausentes: " ++ detail
  | .invalidGrantWindow => "privileged_grant: janela temporal inválida"
  | .grantTransition detail => "privileged_grant: transição de estado inválida: " ++ detail
  | .grantDuplicateApproval => "privileged_grant: aprovação duplicada do mesmo par"
  | .stepUpNotPhishingResistant => "privileged_grant: break-glass exige step-up com fator " ++
      "resistente a phishing (WebAuthn)"
  | .selfApproval => "privileged_grant: o solicitante não pode aprovar a própria solicitação"
  | .grantNotFound => "postgres: concessão privilegiada não encontrada"
  | .crossTenantGrant target scope => "postgres: concessão de outra organização recusada: alvo " ++
      target.text ++ ", escopo " ++ scope.text
  | .grantCreate => "postgres: criação de concessão falhou"

/-- `NewPrivilegedGrant`, with the drawn id. -/
def newPrivilegedGrant (id organizationId subjectMembershipId : Uuid) (target : GrantTarget)
    (origin : GrantOrigin) (requiredApprovals : ℕ) (notBefore expiresAt : Time) :
    Except GrantError PrivilegedGrant :=
  if organizationId = Uuid.nil ∨ subjectMembershipId = Uuid.nil then
    .error (.invalidGrant "organização/subject")
  else if !target.valid then .error (.invalidGrant "alvo incompleto")
  else if notBefore = Time.zero ∨ expiresAt = Time.zero ∨ ¬notBefore < expiresAt then
    .error .invalidGrantWindow
  else .ok ⟨id, organizationId, subjectMembershipId, target, origin, .requested,
    requiredApprovals, [], notBefore, expiresAt, "", ""⟩

def newBreakglassRequest (id organizationId subjectMembershipId : Uuid) (target : GrantTarget)
    (requiredApprovals : ℕ) (justification incidentRef : String) (notBefore expiresAt : Time) :
    Except GrantError PrivilegedGrant :=
  if justification = "" then .error (.invalidGrant "justificativa obrigatória no break-glass")
  else if incidentRef = "" then
    .error (.invalidGrant "referência de incidente obrigatória no break-glass")
  else match newPrivilegedGrant id organizationId subjectMembershipId target .breakglass
      requiredApprovals notBefore expiresAt with
    | .error err => .error err
    | .ok g => .ok { g with justification := justification, incidentRef := incidentRef }

theorem newBreakglassRequest_status {id organizationId subjectMembershipId : Uuid}
    {target : GrantTarget} {requiredApprovals : ℕ} {justification incidentRef : String}
    {notBefore expiresAt : Time} {g : PrivilegedGrant}
    (h : newBreakglassRequest id organizationId subjectMembershipId target requiredApprovals
      justification incidentRef notBefore expiresAt = .ok g) : g.status = .requested := by
  unfold newBreakglassRequest newPrivilegedGrant at h
  split_ifs at h
  cases h
  rfl

namespace PrivilegedGrant

variable (g : PrivilegedGrant)

def passStepUp (provenAAL : Aal) (phishingResistant : Bool) : Except GrantError PrivilegedGrant :=
  if g.status ≠ .requested then .error (.grantTransition
    ("step-up exige status requested, está " ++ g.status.text))
  else if !phishingResistant || !provenAAL.atLeast .aal2 then .error .stepUpNotPhishingResistant
  else .ok { g with status := if g.requiredApprovals = 0 then .active else .awaitingApproval }

/-- One more peer approval; the last one required activates the grant. -/
def approve (approverMembershipId : Uuid) : Except GrantError PrivilegedGrant :=
  if g.status ≠ .awaitingApproval then .error (.grantTransition
    ("aprovação exige status awaiting_approval, está " ++ g.status.text))
  else if approverMembershipId = Uuid.nil then .error (.invalidGrant "aprovador nulo")
  else if approverMembershipId = g.subjectMembershipId then .error .selfApproval
  else if approverMembershipId ∈ g.approvals then .error .grantDuplicateApproval
  else
    let approvals := g.approvals ++ [approverMembershipId]
    .ok { g with
      approvals := approvals
      status := if g.requiredApprovals ≤ approvals.length then .active else g.status }

def expired (now : Time) : Bool := !(now < g.expiresAt : Bool)

def expire (now : Time) : Except GrantError PrivilegedGrant :=
  if g.status ≠ .awaitingApproval ∧ g.status ≠ .active then .error (.grantTransition
    ("expiração exige awaiting_approval ou active, está " ++ g.status.text))
  else if !g.expired now then .error (.grantTransition "janela ainda não expirou")
  else .ok { g with status := .expired }

def revoke : Except GrantError PrivilegedGrant :=
  if g.status ≠ .active then .error (.grantTransition
    ("revogação exige status active, está " ++ g.status.text))
  else .ok { g with status := .revoked }

variable {g} {g' : PrivilegedGrant}

theorem passStepUp_ok {aal : Aal} {phishingResistant : Bool}
    (h : g.passStepUp aal phishingResistant = .ok g') : g.status = .requested ∧
      g' = { g with status := if g.requiredApprovals = 0 then .active else .awaitingApproval } := by
  unfold passStepUp at h
  split at h
  · cases h
  rename_i hs
  split at h
  · cases h
  exact ⟨not_not.mp hs, (Except.ok.inj h).symm⟩

theorem approve_ok {approver : Uuid} (h : g.approve approver = .ok g') :
    g.status = .awaitingApproval ∧ g' = { g with
      approvals := g.approvals ++ [approver]
      status := if g.requiredApprovals ≤ (g.approvals ++ [approver]).length then .active
        else g.status } := by
  unfold approve at h
  split at h
  · cases h
  rename_i hs
  split at h
  · cases h
  split at h
  · cases h
  split at h
  · cases h
  exact ⟨not_not.mp hs, (Except.ok.inj h).symm⟩

theorem expire_ok {now : Time} (h : g.expire now = .ok g') : g' = { g with status := .expired } := by
  unfold expire at h
  split_ifs at h
  exact (Except.ok.inj h).symm

theorem revoke_ok (h : g.revoke = .ok g') : g' = { g with status := .revoked } := by
  unfold revoke at h
  split_ifs at h
  exact (Except.ok.inj h).symm

end PrivilegedGrant

end ArchGuard.Tenancy
