import ArchGuard.Primitives
import ArchGuard.ReadCommittedVersions

/-! The recovery of an identity that its peers approve, and the transactions on a request. -/
namespace ArchGuard.Recovery
open ReadCommitted

inductive RecoveryStatus
  | pending | approved | rejected | consumed
  deriving DecidableEq, Repr

def RecoveryStatus.text : RecoveryStatus → String
  | .pending => "pending"
  | .approved => "approved"
  | .rejected => "rejected"
  | .consumed => "consumed"

inductive RecoveryError
  | invalidRecoveryRequest (detail : String)
  | recoveryNotPending (status : RecoveryStatus)
  | approverIsTarget
  | approverIsRequester
  | duplicateApproval
  | recoveryNotApproved (status : RecoveryStatus)
  deriving DecidableEq, Repr

def RecoveryError.text : RecoveryError → String
  | .invalidRecoveryRequest detail => "recovery: dados obrigatórios ausentes" ++ detail
  | .recoveryNotPending status =>
    "recovery: solicitação não está mais pendente: status " ++ status.text
  | .approverIsTarget => "recovery: o alvo da recuperação não pode aprovar a própria recuperação"
  | .approverIsRequester => "recovery: quem solicita a recuperação não pode aprová-la"
  | .duplicateApproval => "recovery: aprovação duplicada do mesmo par"
  | .recoveryNotApproved status =>
    "recovery: reset exige solicitação aprovada: status " ++ status.text

structure RecoveryRequest where
  id : Uuid
  targetIdentityId : Uuid
  organizationId : Uuid
  requestedBy : Uuid
  justification : String
  status : RecoveryStatus
  requiredApprovals : ℤ
  approvals : List Uuid
  deriving DecidableEq, Repr

def defaultRecoveryApprovals : ℤ := 2

/-- `NewRecoveryRequest`, with the drawn id. -/
def newRecoveryRequest (id target organizationId requestedBy : Uuid) (justification : String)
    (requiredApprovals : ℤ) : Except RecoveryError RecoveryRequest :=
  if target = Uuid.nil ∨ organizationId = Uuid.nil ∨ requestedBy = Uuid.nil then
    .error (.invalidRecoveryRequest ": identidades/organização")
  else if justification = "" then .error (.invalidRecoveryRequest ": justificativa obrigatória")
  else
    let required := if requiredApprovals = 0 then defaultRecoveryApprovals else requiredApprovals
    if required < 1 then .error (.invalidRecoveryRequest
      (": aprovações exigidas inválidas: " ++ toString required))
    else .ok ⟨id, target, organizationId, requestedBy, justification, .pending, required, []⟩

theorem newRecoveryRequest_pending {id target org requestedBy : Uuid} {justification : String}
    {required : ℤ} {r : RecoveryRequest}
    (h : newRecoveryRequest id target org requestedBy justification required = .ok r) :
    r.status = .pending := by
  rw [newRecoveryRequest, ite_error_eq_ok, ite_error_eq_ok] at h
  obtain ⟨-, -, h⟩ := h
  dsimp only at h
  rw [ite_error_eq_ok] at h
  obtain rfl := Except.ok.inj h.2
  rfl

namespace RecoveryRequest

variable (r : RecoveryRequest)

/-- One more peer approval; the last one required approves the request. -/
def approve (approver : Uuid) : Except RecoveryError RecoveryRequest :=
  if r.status ≠ .pending then .error (.recoveryNotPending r.status)
  else if approver = Uuid.nil then .error (.invalidRecoveryRequest ": aprovador nulo")
  else if approver = r.targetIdentityId then .error .approverIsTarget
  else if approver = r.requestedBy then .error .approverIsRequester
  else if approver ∈ r.approvals then .error .duplicateApproval
  else
    let approvals := r.approvals ++ [approver]
    .ok { r with
      approvals := approvals
      status := if r.requiredApprovals ≤ approvals.length then .approved else r.status }

def reject : Except RecoveryError RecoveryRequest :=
  if r.status ≠ .pending then .error (.recoveryNotPending r.status)
  else .ok { r with status := .rejected }

def markConsumed : Except RecoveryError RecoveryRequest :=
  if r.status ≠ .approved then .error (.recoveryNotApproved r.status)
  else .ok { r with status := .consumed }

/-- Neither the identity that is recovered nor whoever asked for it. -/
def Peer (a : Uuid) : Prop := a ≠ r.targetIdentityId ∧ a ≠ r.requestedBy

/-- The request was approved, whether it is consumed or not. -/
def Granted : Prop := r.status = .approved ∨ r.status = .consumed

end RecoveryRequest

/-- The decisions on a request. -/
inductive Decision
  | approve (approver : Uuid)
  | reject
  | consume
  deriving DecidableEq, Repr

def RecoveryRequest.apply (r : RecoveryRequest) : Decision → Except RecoveryError RecoveryRequest
  | .approve approver => r.approve approver
  | .reject => r.reject
  | .consume => r.markConsumed

/-- What a decision leaves of the request: the approvals grow by a peer at most, and the status
is one that the decision gives. -/
structure Decided (r r' : RecoveryRequest) (d : Decision) : Prop where
  id : r'.id = r.id
  target : r'.targetIdentityId = r.targetIdentityId
  organization : r'.organizationId = r.organizationId
  requestedBy : r'.requestedBy = r.requestedBy
  required : r'.requiredApprovals = r.requiredApprovals
  approvals : r'.approvals = r.approvals ∨
    ∃ a, r.Peer a ∧ a ∉ r.approvals ∧ r'.approvals = r.approvals ++ [a]
  enough : r'.status = .approved → r'.requiredApprovals ≤ r'.approvals.length
  consumed : r'.status = .consumed ↔ d = .consume
  before : r'.status = .consumed → r.status = .approved

theorem decided_of_approve {r r' : RecoveryRequest} {approver : Uuid}
    (h : r.approve approver = .ok r') : Decided r r' (.approve approver) := by
  rw [RecoveryRequest.approve, ite_error_eq_ok, ite_error_eq_ok, ite_error_eq_ok, ite_error_eq_ok,
    ite_error_eq_ok] at h
  obtain ⟨hst, -, htarget, hrequester, hdup, h⟩ := h
  obtain rfl := Except.ok.inj h
  have hpending : r.status = .pending := not_not.mp hst
  refine ⟨rfl, rfl, rfl, rfl, rfl, Or.inr ⟨approver, ⟨htarget, hrequester⟩, hdup, rfl⟩, ?_, ?_, ?_⟩
  · intro happroved
    dsimp only at happroved ⊢
    split_ifs at happroved with hle
    · exact hle
    · rw [hpending] at happroved
      cases happroved
  · dsimp only
    rw [hpending]
    split_ifs <;> simp
  · dsimp only
    rw [hpending]
    split_ifs <;> simp

theorem decided_of_apply {r r' : RecoveryRequest} {d : Decision} (h : r.apply d = .ok r') :
    Decided r r' d := by
  cases d with
  | approve approver => exact decided_of_approve h
  | reject =>
    rw [RecoveryRequest.apply, RecoveryRequest.reject, ite_error_eq_ok] at h
    obtain rfl := Except.ok.inj h.2
    exact ⟨rfl, rfl, rfl, rfl, rfl, Or.inl rfl, by simp, by simp, by simp⟩
  | consume =>
    rw [RecoveryRequest.apply, RecoveryRequest.markConsumed, ite_error_eq_ok] at h
    obtain ⟨hst, h⟩ := h
    obtain rfl := Except.ok.inj h
    exact ⟨rfl, rfl, rfl, rfl, rfl, Or.inl rfl, by simp, by simp, fun _ => not_not.mp hst⟩

inductive Key
  | request (id : Uuid)
  | approval (request approver : Uuid)
  deriving DecidableEq, Repr

/-- Approvals are rows of their own, with their organization. -/
abbrev Row : Key → Type
  | .request id => {r : RecoveryRequest // r.id = id ∧ r.approvals = []}
  | .approval _ _ => Uuid

abbrev Db := Store Row

def requestAt (db : Db) (id : Uuid) : Option RecoveryRequest :=
  (db.row (.request id)).map Subtype.val

def loadApprovals (db : Db) (request org : Uuid) : List Uuid :=
  db.scan fun
    | .approval r approver, o => if r = request ∧ o = org then some approver else none
    | _, _ => none

inductive Req
  | create (id target org requestedBy : Uuid) (justification : String) (requiredApprovals : ℤ)
  | decide (org requestId : Uuid) (d : Decision)

inductive Pc
  | createRequest (r : RecoveryRequest)
  | getRequest (org requestId : Uuid) (d : Decision)
  | loadApprovals (org : Uuid) (r : RecoveryRequest) (d : Decision)
  | saveDecision (r : RecoveryRequest) (approvals : List Uuid) (d : Decision)
  | commit (requestId : Uuid) (d : Option Decision)
  | fail

theorem stored_row (r : RecoveryRequest) : ({ r with approvals := [] } : RecoveryRequest).id = r.id ∧
    ({ r with approvals := [] } : RecoveryRequest).approvals = [] := ⟨rfl, rfl⟩

/-- What follows the read of a request: the transition, and its save in the organization. -/
def applyDecision (org : Uuid) (r : RecoveryRequest) (d : Decision) : Pc :=
  match r.apply d with
  | .error _ => .fail
  | .ok r => if r.organizationId ≠ org then .fail else .saveDecision r r.approvals d

/-- The row of a saved decision: its status moves, in its organization. -/
def saved (r : RecoveryRequest) (row : Row (.request r.id)) : Row (.request r.id) :=
  ⟨{ row.1 with status := r.status }, row.2⟩

/-- A transaction reads the request, applies the transition and saves it. -/
def recoveryProgram : Program Row Req Pc where
  entry
    | .create id target org requestedBy justification requiredApprovals =>
      match newRecoveryRequest id target org requestedBy justification requiredApprovals with
      | .error _ => .fail
      | .ok r => .createRequest r
    | .decide org requestId d => .getRequest org requestId d
  next
    | .createRequest r =>
      .insert (.request r.id) ⟨{ r with approvals := [] }, stored_row r⟩ (.commit r.id none) .fail
    | .getRequest org requestId d => .read fun db =>
      match (requestAt db requestId).filter fun r => r.organizationId = org with
      | none => .fail
      | some r => .loadApprovals org r d
    | .loadApprovals org r d => .read fun db =>
      applyDecision org { r with approvals := loadApprovals db r.id org } d
    -- ON CONFLICT DO NOTHING: an approval that is there already is skipped
    | .saveDecision r (approver :: approvals) d =>
      .insert (.approval r.id approver) r.organizationId (.saveDecision r approvals d)
        (.saveDecision r approvals d)
    -- the status that the decision departed from is not in the WHERE clause
    | .saveDecision r [] d => .update (.request r.id) .fail fun row =>
      if row.1.organizationId = r.organizationId then (some (saved r row), .commit r.id (some d))
      else (some row, .fail)
    | .commit _ _ => .commit none
    | .fail => .abort

abbrev RecoveryCfg := Cfg Row Pc

end ArchGuard.Recovery
