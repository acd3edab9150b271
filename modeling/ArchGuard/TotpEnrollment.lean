import ArchGuard.Credential
import ArchGuard.SharedCalls

/-! The enrollment of a TOTP factor and the removal of factors, statement by statement over the
pending table, the vault and the table of credentials. -/
namespace ArchGuard
open GoMethod GoText SharedCalls

/-- An enrollment in progress; `number` is its address, which sets it apart from every other. -/
structure Enrollment where
  number : ℕ
  identityId : Uuid
  secret : GoString
  deriving DecidableEq, Repr

/-- What the calls share. -/
structure FactorSite where
  begun : ℕ
  pending : Uuid → Option Enrollment
  vault : GoString → Option GoString
  rows : List Credential
  /-- The references that the vault has given out; no code reads it. -/
  issued : List GoString
  /-- The credentials made, each with its enrollment; no code reads it. -/
  made : List (Enrollment × Uuid)

inductive FactorRequest
  | begin (identityId : Uuid)
  | finish (identityId : Uuid) (code : GoString)
  | remove (targetIdentity credId : Uuid)

inductive FactorError
  | nilIdentity | generate | noPendingEnrollment | invalidEnrollment | invalidCode | custody
  | credential (err : CredentialError)
  | malformed | insert | notFound | removal
  deriving DecidableEq, Repr

/-- The text of an error; what it wraps is the text of the cause. -/
def FactorError.text (cause : String) : FactorError → String
  | .nilIdentity => "totp: identidade nula"
  | .generate => "totp: geração de semente falhou: " ++ cause
  | .noPendingEnrollment => "nenhuma inscrição TOTP pendente"
  | .invalidEnrollment => "totp: enrollment inválido"
  | .invalidCode => "totp: código de confirmação inválido"
  | .custody => "totp: custódia da semente falhou: " ++ cause
  | .credential err => err.text
  | .malformed => "postgres: credencial malformada (INV-7)"
  | .insert => "postgres: criação de credencial falhou: " ++ cause
  | .notFound => "postgres: credencial não encontrada"
  | .removal => cause

/-- Where a call stands. -/
inductive FactorPc
  | generate (identityId : Uuid)
  | hold (identityId : Uuid) (enr : Enrollment)
  | lookup (identityId : Uuid) (code : GoString)
  | confirm (identityId : Uuid) (enr : Enrollment) (code : GoString)
  | put (identityId : Uuid) (enr : Enrollment)
  | mint (identityId : Uuid) (enr : Enrollment) (ref : GoString)
  | create (identityId : Uuid) (enr : Enrollment) (cred : Credential)
  | compensate (ref : GoString) (err : FactorError)
  | forget (identityId : Uuid)
  | remove (targetIdentity credId : Uuid)
  | returned (err : Option FactorError)

/-- What the world outside answers a statement: the seed that is generated, the clock, the reference
of the vault, the UUID, whether an INSERT is accepted and whether a transaction commits. -/
structure Answer where
  secret : Option GoString
  now : Time
  ref : Option GoString
  newV7 : Option Uuid
  stored : Bool
  committed : Bool

section Program

/-- `NewTOTPCredential` asks for a UUID only. -/
def Answer.outside (w : Answer) : Outside where
  newV7 _ := w.newV7
  newSubject _ := none
  put _ _ := none
  byOrg _ orgs := orgs
  byOrg_perm _ := List.Perm.refl

/-- `NewTOTPCredential`, with its label. -/
def totpCredential (w : Answer) (enr : Enrollment) (ref : GoString) : Except CredentialError Credential :=
  ((newTotpCredential w.outside enr.identityId ref).call ⟨0, 0, 0⟩).1.map fun cred =>
    { cred with label := utf8 "TOTP" }

def FactorSite.holds (s : FactorSite) (targetIdentity credId : Uuid) : Bool :=
  s.rows.any fun c => c.id = credId && c.identityId = targetIdentity

/- Outside the repository: the comparison of a code with a seed at an instant. -/
variable (valid : GoString → GoString → Time → Bool)

def factorProgram : Program FactorSite FactorRequest FactorPc Answer where
  entry
    | .begin identityId => .generate identityId
    | .finish identityId code => .lookup identityId code
    | .remove targetIdentity credId => .remove targetIdentity credId
  next
    | .generate identityId, w, s =>
      if identityId = Uuid.nil then some (.returned (some .nilIdentity), s)
      else match w.secret with
        | none => some (.returned (some .generate), s)
        | some secret =>
          some (.hold identityId ⟨s.begun, identityId, secret⟩, { s with begun := s.begun+1 })
    | .hold identityId enr, _, s =>
      some (.returned none, { s with pending := Function.update s.pending identityId (some enr) })
    | .lookup identityId code, _, s =>
      match s.pending identityId with
      | none => some (.returned (some .noPendingEnrollment), s)
      | some enr => some (.confirm identityId enr code, s)
    | .confirm identityId enr code, w, s =>
      if enr.secret = [] then some (.returned (some .invalidEnrollment), s)
      else if !valid code enr.secret w.now then some (.returned (some .invalidCode), s)
      else some (.put identityId enr, s)
    | .put identityId enr, w, s =>
      match w.ref with
      | none => some (.returned (some .custody), s)
      | some ref =>
        -- the vault gives out no reference twice
        if ref ∈ s.issued then none
        else some (.mint identityId enr ref, { s with
          vault := Function.update s.vault ref (some enr.secret)
          issued := ref :: s.issued })
    | .mint identityId enr ref, w, s =>
      match totpCredential w enr ref with
      | .error err => some (.compensate ref (.credential err), s)
      | .ok cred => some (.create identityId enr cred, s)
    | .create identityId enr cred, w, s =>
      if !cred.wellFormed then some (.compensate cred.secretRef .malformed, s)
      else if !w.stored || !acceptsCredential s.rows cred then
        some (.compensate cred.secretRef .insert, s)
      else some (.forget identityId, { s with
        rows := s.rows ++ [cred]
        made := s.made ++ [(enr, cred.id)] })
    | .compensate ref err, _, s =>
      some (.returned (some err), { s with vault := Function.update s.vault ref none })
    | .forget identityId, _, s =>
      some (.returned none, { s with pending := Function.update s.pending identityId none })
    -- the removal and its audit event are one transaction, which takes effect when it commits
    | .remove targetIdentity credId, w, s =>
      if !s.holds targetIdentity credId then some (.returned (some .notFound), s)
      else if !w.committed then some (.returned (some .removal), s)
      else some (.returned none, { s with
        rows := s.rows.filter fun c => !(c.id = credId && c.identityId = targetIdentity) })
    | .returned _, _, _ => none

end Program

theorem totpCredential_ok {w : Answer} {enr : Enrollment} {ref : GoString} {cred : Credential}
    (h : totpCredential w enr ref = .ok cred) :
    cred.type = .totp ∧ cred.secretRef = ref ∧ cred.identityId = enr.identityId := by
  rw [totpCredential] at h
  cases hcall : (newTotpCredential w.outside enr.identityId ref).call ⟨0, 0, 0⟩ with
  | mk result c' =>
    rw [hcall] at h
    cases result with
    | error err => cases h
    | ok made =>
      obtain rfl := Except.ok.inj h
      obtain ⟨minted, hminted, rfl⟩ := filled_ok hcall
      exact ⟨hminted.type, rfl, hminted.identity⟩

end ArchGuard
