import ArchGuard.Assurance
import ArchGuard.Membership

/-! An authenticated session and its tenant context. -/
namespace ArchGuard.Tenancy

inductive SessionStatus
  | pendingSelection | active | revoked
  deriving DecidableEq, Repr

/-- Membership and organization are set together, when the tenant is resolved. -/
structure AuthSession where
  id : Uuid
  identityId : Uuid
  membershipId : Option Uuid
  organizationId : Option Uuid
  status : SessionStatus
  provenAAL : Aal
  tokenGeneration : ℕ
  authTime : Time
  authMethods : List FactorType
  deriving DecidableEq, Repr

inductive SessionError
  | invalidSession (detail : String)
  | noActiveMembership
  | tenantSelectionRequired
  | sessionRevoked
  | sessionTransition
  | foreignMembership (membership identity : Uuid)
  | membershipNotSelectable (status : MembershipStatus)
  | sameTenant
  | stepUpRequired (proven required : Aal)
  | sessionNotFound
  | sessionNotPending
  | switchConflict
  | crossIdentityWrite (target scope : Uuid)
  | other (text : String)
  deriving DecidableEq, Repr

def SessionError.text : SessionError → String
  | .invalidSession detail => "session: identidade e AAL comprovado são obrigatórios: " ++ detail
  | .noActiveMembership => "session: identidade sem membership ativo — autenticação negada"
  | .tenantSelectionRequired =>
    "session: seleção explícita de tenant é obrigatória antes da emissão de token"
  | .sessionRevoked => "session: revogada é estado terminal"
  | .sessionTransition =>
    "session: transição de estado inválida: sessão já tem tenant ativo (troca é T-012)"
  | .foreignMembership membership identity => "session: membership não pertence à identidade da " ++
      "sessão: membership " ++ membership.text ++ " é de " ++ identity.text
  | .membershipNotSelectable status =>
    "session: apenas membership ativo pode ser tenant ativo: status " ++ status.text
  | .sameTenant => "session: o destino já é o tenant ativo — nada a trocar"
  | .stepUpRequired proven required => "session: o tenant de destino exige fator mais forte — " ++
      "step-up necessário: comprovado " ++ proven.text ++ ", destino exige " ++ required.text
  | .sessionNotFound => "postgres: sessão não encontrada"
  | .sessionNotPending => "postgres: sessão não está pendente de seleção de tenant"
  | .switchConflict => "postgres: troca de tenant em conflito — a sessão ou o membership de " ++
      "destino mudou concorrentemente"
  | .crossIdentityWrite target scope => "postgres: escrita de sessão de outra identidade " ++
      "recusada: alvo " ++ target.text ++ ", escopo " ++ scope.text
  | .other text => text

def AuthSession.setTenant (s : AuthSession) (m : Membership) : AuthSession :=
  { s with membershipId := some m.id, organizationId := some m.organizationId, status := .active }

/-- `NewAuthSession`: one active membership is selected at once, several leave the
choice open. -/
def newAuthSession (id identityId : Uuid) (provenAAL : Aal) (memberships : List Membership) :
    Except SessionError AuthSession :=
  if identityId = Uuid.nil then .error (.invalidSession "identidade nula")
  else match memberships.find? fun m => m.identityId ≠ identityId with
    | some m => .error (.foreignMembership m.id m.identityId)
    | none =>
      let s : AuthSession := ⟨id, identityId, none, none, .pendingSelection, provenAAL, 1, Time.zero, []⟩
      match memberships.filter fun m => m.status = .active with
      | [] => .error .noActiveMembership
      | [m] => .ok (s.setTenant m)
      | _ => .ok s

def AuthSession.setAuthContext (s : AuthSession) (now : Time) (methods : List FactorType) :
    Except SessionError AuthSession :=
  if now = Time.zero then .error (.invalidSession "auth_time ausente")
  else if methods = [] then .error (.invalidSession "nenhum método de autenticação")
  else if !(strongestCeiling methods).any (·.atLeast s.provenAAL) then .error (.invalidSession
    ("AAL comprovado " ++ s.provenAAL.text ++ " excede o teto dos métodos usados"))
  else .ok { s with authTime := now, authMethods := methods }

def AuthSession.selectTenant (s : AuthSession) (m : Membership) :
    Except SessionError AuthSession :=
  if s.status = .revoked then .error .sessionRevoked
  else if s.status = .active then .error .sessionTransition
  else if m.identityId ≠ s.identityId then .error (.foreignMembership m.id m.identityId)
  else if m.status ≠ .active then .error (.membershipNotSelectable m.status)
  else .ok (s.setTenant m)

/-- The move of an active session to another tenant, under a new token generation. -/
def AuthSession.switchTenant (s : AuthSession) (dest : Membership) (required : Aal) :
    Except SessionError AuthSession :=
  if s.status = .revoked then .error .sessionRevoked
  else if s.status = .pendingSelection then .error .tenantSelectionRequired
  else if dest.identityId ≠ s.identityId then .error (.foreignMembership dest.id dest.identityId)
  else if dest.status ≠ .active then .error (.membershipNotSelectable dest.status)
  else if s.membershipId = some dest.id then .error .sameTenant
  else if !s.provenAAL.atLeast required then .error (.stepUpRequired s.provenAAL required)
  else .ok { s.setTenant dest with tokenGeneration := s.tokenGeneration+1 }

theorem newAuthSession_ok {id identityId : Uuid} {aal : Aal} {ms : List Membership}
    {s : AuthSession} (h : newAuthSession id identityId aal ms = .ok s) :
    s.id = id ∧ s.identityId = identityId ∧ (∃ m ∈ ms, m.status = .active) ∧
      ((s.status = .pendingSelection ∧ s.membershipId = none) ∨
        ∃ m ∈ ms, m.status = .active ∧ m.identityId = identityId ∧ s.status = .active ∧
          s.membershipId = some m.id ∧ s.organizationId = some m.organizationId) := by
  unfold newAuthSession at h
  split_ifs at h
  split at h
  · cases h
  rename_i hown
  have hmem (m : Membership) (hm : m ∈ ms.filter fun m => m.status = .active) :
      m ∈ ms ∧ m.status = .active ∧ m.identityId = identityId := by
    obtain ⟨hm, ha⟩ := List.mem_filter.mp hm
    refine ⟨hm, of_decide_eq_true ha, ?_⟩
    simpa using List.find?_eq_none.mp hown m hm
  dsimp only at h
  split at h
  · cases h
  · rename_i m hfilter
    obtain rfl := Except.ok.inj h
    have hm := hmem m (hfilter ▸ List.mem_singleton_self m)
    exact ⟨rfl, rfl, ⟨m, hm.1, hm.2.1⟩, Or.inr ⟨m, hm.1, hm.2.1, hm.2.2, rfl, rfl, rfl⟩⟩
  · rename_i hnil hone
    obtain rfl := Except.ok.inj h
    obtain ⟨m, hm⟩ := List.exists_mem_of_ne_nil _ hnil
    exact ⟨rfl, rfl, ⟨m, (hmem m hm).1, (hmem m hm).2.1⟩, Or.inl ⟨rfl, rfl⟩⟩

theorem AuthSession.setAuthContext_ok {s s' : AuthSession} {now : Time} {methods : List FactorType}
    (h : s.setAuthContext now methods = .ok s') :
    s' = { s with authTime := now, authMethods := methods } := by
  unfold setAuthContext at h
  split_ifs at h
  exact (Except.ok.inj h).symm

end ArchGuard.Tenancy
