import ArchGuard.Primitives

/-! The identity, global to a deployment, and its membership in one organization. -/
namespace ArchGuard.Tenancy

inductive IdentityType
  | human | service
  deriving DecidableEq, Repr

inductive IdentityStatus
  | active | suspended | deprovisioned
  deriving DecidableEq, Repr

def IdentityStatus.text : IdentityStatus → String
  | .active => "active"
  | .suspended => "suspended"
  | .deprovisioned => "deprovisioned"

structure Identity where
  id : Uuid
  subject : String
  type : IdentityType
  status : IdentityStatus
  emailHash : Bytes
  deriving DecidableEq, Repr

inductive MembershipStatus
  | invited | active | suspended | revoked
  deriving DecidableEq, Repr

def MembershipStatus.text : MembershipStatus → String
  | .invited => "invited"
  | .active => "active"
  | .suspended => "suspended"
  | .revoked => "revoked"

structure Membership where
  id : Uuid
  identityId : Uuid
  organizationId : Uuid
  status : MembershipStatus
  invitedBy : Option Uuid
  deriving DecidableEq, Repr

inductive DirectoryError
  | identityDeprovisioned
  | identityNotFound
  | invalidMembership (detail : String)
  | membershipRevoked
  | membershipTransition (source target : MembershipStatus)
  | membershipNotFound
  | alreadyMember
  | previouslyRevoked
  | notInvited
  | crossTenantWrite (target scope : Uuid)
  | unknownInviteEmail
  | identityNotInvitable (status : IdentityStatus)
  | notInviteOwner (membership : Uuid)
  | emailMissing
  | federatedEmailRequired
  | noTenant
  | other (text : String)
  deriving DecidableEq, Repr

def DirectoryError.text : DirectoryError → String
  | .identityDeprovisioned => "identity: identidade deprovisionada é estado terminal"
  | .identityNotFound => "postgres: identidade não encontrada"
  | .invalidMembership detail => "membership: identidade e organização são obrigatórias" ++ detail
  | .membershipRevoked => "membership: revogado é estado terminal"
  | .membershipTransition f t =>
    "membership: transição de estado inválida: " ++ f.text ++ " → " ++ t.text
  | .membershipNotFound => "postgres: membership não encontrado"
  | .alreadyMember => "postgres: identidade já possui membership nesta organização"
  | .previouslyRevoked => "postgres: par identidade/organização tem membership revogado — " ++
      "readmissão exige emenda da R3 (RFC-0002)"
  | .notInvited => "postgres: membership não está pendente de aceite"
  | .crossTenantWrite target scope => "postgres: escrita cross-tenant recusada (Barreira 1): " ++
      "alvo " ++ target.text ++ ", escopo " ++ scope.text
  | .unknownInviteEmail => "postgres: e-mail convidado não corresponde a identidade existente — " ++
      "criação de identidade está fora do escopo do convite"
  | .identityNotInvitable status =>
    "postgres: identidade não está ativa — convite recusado: status " ++ status.text
  | .notInviteOwner membership => "postgres: aceite recusado — o membership não pertence à " ++
      "identidade: membership " ++ membership.text
  | .emailMissing => "directory_provisioner: e-mail ausente (chave de deduplicação)"
  | .federatedEmailRequired => "federation: assertion sem e-mail (chave de deduplicação)"
  | .noTenant => "tenant: contexto de tenant é obrigatório"
  | .other text => text

/-- `Identity.Suspend`: refuses only the terminal state. -/
def Identity.suspend (i : Identity) : Except DirectoryError Identity :=
  if i.status = .deprovisioned then .error .identityDeprovisioned
  else .ok { i with status := .suspended }

def Identity.deprovision (i : Identity) : Identity := { i with status := .deprovisioned }

theorem Identity.suspend_id {i i' : Identity} (h : i.suspend = .ok i') : i'.id = i.id := by
  unfold suspend at h
  split_ifs at h
  obtain rfl := Except.ok.inj h
  rfl

/-- `newMembership`, with the id that `uuid.NewV7` draws and the initial status. -/
def newMembershipWith (id identityId organizationId : Uuid) (status : MembershipStatus)
    (invitedBy : Option Uuid) : Except DirectoryError Membership :=
  if identityId = Uuid.nil ∨ organizationId = Uuid.nil then .error (.invalidMembership "")
  else .ok ⟨id, identityId, organizationId, status, invitedBy⟩

def newMembership (id identityId organizationId : Uuid) : Except DirectoryError Membership :=
  newMembershipWith id identityId organizationId .active none

def newInvitedMembership (id identityId organizationId invitedBy : Uuid) :
    Except DirectoryError Membership :=
  match newMembershipWith id identityId organizationId .invited (some invitedBy) with
  | .error err => .error err
  | .ok m => if invitedBy = Uuid.nil then .error (.invalidMembership ": invitedBy nulo") else .ok m

/-- A transition from `source` to `target`; a revoked membership rejects every one. -/
def Membership.transition (m : Membership) (target source : MembershipStatus) :
    Except DirectoryError Membership :=
  if m.status = .revoked then .error .membershipRevoked
  else if m.status = source then .ok { m with status := target }
  else .error (.membershipTransition m.status target)

def Membership.activate (m : Membership) : Except DirectoryError Membership :=
  m.transition .active .invited

def Membership.suspend (m : Membership) : Except DirectoryError Membership :=
  m.transition .suspended .active

def Membership.resume (m : Membership) : Except DirectoryError Membership :=
  m.transition .active .suspended

def Membership.revoke (m : Membership) : Membership := { m with status := .revoked }

theorem Membership.transition_ok {m m' : Membership} {target source : MembershipStatus}
    (h : m.transition target source = .ok m') : m.status = source ∧ m' = { m with status := target } := by
  unfold transition at h
  split_ifs at h with hr hs
  exact ⟨hs, (Except.ok.inj h).symm⟩

end ArchGuard.Tenancy
