import ArchGuard.Credential
import ArchGuard.OidcAuthCode
import ArchGuard.SessionProgram

/-! The step-up of a session by a WebAuthn assertion: the pending challenges, the login of the
library, and the level of the authenticator that was used. -/
namespace ArchGuard.WebAuthn
open ReadCommitted Tenancy Sessions

/-- A credential as the library keeps and returns it. -/
structure LibCredential where
  id : Bytes
  signCount : ℕ
  cloneWarning : Bool
  deriving DecidableEq, Repr

structure User where
  subject : String
  displayName : String
  creds : List LibCredential
  deriving DecidableEq, Repr

/-- A parsed assertion: the authenticator's credential and counter, and what it signs them with. -/
structure Assertion where
  credentialId : Bytes
  signCount : ℕ
  signature : Bytes
  deriving DecidableEq, Repr

/-- The WebAuthn library, with session data of type `S`. A login draws its challenge. -/
structure Library (S : Type) where
  unmarshal : Bytes → Except String LibCredential
  beginLogin : User → ℕ → Except String S
  parse : Bytes → Except String Assertion
  validateLogin : User → S → Assertion → Except String LibCredential

/-- What is assumed of a login: it is of a stored credential, and it warns of a clone where the
counter does not exceed the stored one. -/
def Library.Warns {S : Type} (lib : Library S) : Prop :=
  ∀ u sessionData a c, lib.validateLogin u sessionData a = .ok c →
    ∃ stored ∈ u.creds, stored.id = a.credentialId ∧ c.id = a.credentialId ∧
      (a.signCount ≠ 0 → a.signCount ≤ stored.signCount → c.cloneWarning = true)

/-- The outcome of a completed ceremony. -/
structure LoginResult where
  credentialId : Bytes
  signCount : ℕ
  cloneWarning : Bool
  deriving DecidableEq, Repr

inductive StepUpError
  | noStrongFactor
  | stepUpDenied
  | identityNotFound
  | noIdentity
  | session (err : SessionError)
  | library (detail : String)
  deriving DecidableEq, Repr

/-- The stored factors and sessions, and the challenges in memory. -/
structure Server (S : Type) where
  credentials : List Credential
  identities : Uuid → Option Identity
  sessions : Sessions.Db
  challenges : Uuid → Option (S × Time)
  drawn : ℕ

def challengeTTL : Duration := 5*60*10^9

variable {S : Type}

def Server.put (s : Server S) (sessionId : Uuid) (sessionData : S) (now : Time) : Server S :=
  { s with challenges := Function.update s.challenges sessionId (some (sessionData, now+challengeTTL)) }

/-- A challenge is taken once, and not after it has expired. -/
def Server.take (s : Server S) (sessionId : Uuid) (now : Time) : Option S × Server S :=
  match s.challenges sessionId with
  | none => (none, s)
  | some (sessionData, expires) =>
    let s := { s with challenges := Function.update s.challenges sessionId none }
    if expires < now then (none, s) else (some sessionData, s)

variable (lib : Library S)

/-- The credentials of `UserFromIdentity`. -/
def loadCredentials : List Credential → Except StepUpError (List LibCredential)
  | [] => .ok []
  | c :: cs =>
    if c.type ≠ .webAuthn then loadCredentials cs
    else match lib.unmarshal c.publicMaterial with
      | .error err => .error (.library
          ("webauthn: material da credencial " ++ c.id.text ++ " inválido: " ++ err))
      | .ok wc =>
        match loadCredentials cs with
        | .error err => .error err
        | .ok wcs => .ok (wc :: wcs)

def userFromIdentity (subject displayName : String) (creds : List Credential) :
    Except StepUpError User :=
  match loadCredentials lib creds with
  | .error err => .error err
  | .ok wcs => .ok ⟨subject, displayName, wcs⟩

def listByIdentity (s : Server S) (identityId : Uuid) : List Credential :=
  s.credentials.filter fun c => c.identityId = identityId

def userAndCreds (s : Server S) (identityId : Uuid) :
    Except StepUpError (User × List Credential) :=
  let creds := listByIdentity s identityId
  if !creds.any (fun c => c.type = .webAuthn) then .error .noStrongFactor
  else match s.identities identityId with
    | none => .error .identityNotFound
    | some idn =>
      match userFromIdentity lib idn.subject "ArchGuard" creds with
      | .error err => .error err
      | .ok u => .ok (u, creds)

def beginWebAuthn (s : Server S) (identityId sessionId : Uuid) (now : Time) :
    Except StepUpError S × Server S :=
  match userAndCreds lib s identityId with
  | .error err => (.error err, s)
  | .ok (u, _) =>
    match lib.beginLogin u s.drawn with
    | .error err => (.error (.library err), { s with drawn := s.drawn+1 })
    | .ok sessionData =>
      (.ok sessionData, { s with drawn := s.drawn+1 }.put sessionId sessionData now)

def finishLogin (u : User) (sessionData : S) (response : Bytes) : Except String LoginResult :=
  match lib.parse response with
  | .error err => .error ("webauthn: resposta de autenticação inválida: " ++ err)
  | .ok a =>
    match lib.validateLogin u sessionData a with
    | .error err => .error ("webauthn: autenticação recusada: " ++ err)
    | .ok wc => .ok ⟨wc.id, wc.signCount, wc.cloneWarning⟩

/-- The level of the authenticator that was used; of an unknown one, the floor. -/
def levelOf (creds : List Credential) (credentialId : Bytes) : Aal :=
  let usedId : GoText.GoString := String.ofList (Oidc.base64RawURL credentialId)
  match creds.find? fun c =>
    c.type = .webAuthn && (c.params.lookup "credential_id").getD [] = usedId with
  | some c => c.aal
  | none => .aal2

theorem setStepUp_key (s : AuthSession) (r : Sessions.Row (.session s.id)) :
    (setStepUp s r.1).session.id = s.id := (setStepUp_id s r.1).trans r.2

/-- The transaction of a step-up where no other runs beside it. -/
def stepUpAlone (db : Sessions.Db) (identityId sessionId : Uuid) (now : Time) (aal : Aal) :
    Except SessionError (Aal × Sessions.Db) :=
  match Sessions.getSession db identityId sessionId with
  | none => .error .sessionNotFound
  | some s =>
    match beginStepUp identityId s now aal.text ["webauthn"] with
    | .saveStepUp s =>
      match db.row (.session s.id) with
      | none => .error .sessionNotFound
      | some r =>
        if stepUpMatches s r.1 then
          .ok (s.provenAAL,
            db.set (.session s.id) (some ⟨setStepUp s r.1, setStepUp_key s r⟩))
        else .error .sessionNotFound
    | .fail err => .error err
    | _ => .error .sessionNotFound

/-- `FinishWebAuthn`: neither the counter nor the warning of the login is looked at, and the stored
credential stays as it is. -/
def finishWebAuthn (s : Server S) (identityId sessionId : Uuid) (assertion : Bytes) (now : Time) :
    Except StepUpError Aal × Server S :=
  match s.take sessionId now with
  | (none, s) => (.error .stepUpDenied, s)
  | (some sessionData, s) =>
    match userAndCreds lib s identityId with
    | .error err => (.error err, s)
    | .ok (u, creds) =>
      match finishLogin lib u sessionData assertion with
      | .error _ => (.error .stepUpDenied, s)
      | .ok result =>
        if identityId = Uuid.nil then (.error .noIdentity, s)
        else match stepUpAlone s.sessions identityId sessionId now
            (levelOf creds result.credentialId) with
          | .error err => (.error (.session err), s)
          | .ok (aal, db) => (.ok aal, { s with sessions := db })

inductive Call
  | begin (identityId sessionId : Uuid) (now : Time)
  | finish (identityId sessionId : Uuid) (assertion : Bytes) (now : Time)
  deriving DecidableEq, Repr

def serve (s : Server S) : Call → Server S
  | .begin identityId sessionId now => (beginWebAuthn lib s identityId sessionId now).2
  | .finish identityId sessionId assertion now =>
    (finishWebAuthn lib s identityId sessionId assertion now).2

end ArchGuard.WebAuthn
