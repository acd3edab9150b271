import ArchGuard.GoJson
import ArchGuard.Primitives

/-! The content of an audit event, its construction and its canonical bytes. -/
namespace ArchGuard.Audit
open GoJson GoText

inductive AssuranceLevel
  | l1 | l2 | l3
  deriving DecidableEq, Repr

/-- A verb of the trail; only those of `actionCatalog` are accepted. -/
abbrev Action := String

def actionTenantSwitch : Action := "tenant.switch"

/-- `actionCatalog`: the closed set of actions and the level each requires. -/
def actionCatalog : List (Action × AssuranceLevel) := [
  ("auth.login", .l1), ("auth.login.denied", .l1), ("auth.logout", .l1), ("tenant.select", .l1),
  (actionTenantSwitch, .l2), ("membership.invite", .l2), ("membership.accept", .l1),
  ("membership.revoke", .l2), ("membership.suspend", .l2), ("identity.suspend", .l2),
  ("identity.deprovision", .l3), ("privileged.session.open", .l3), ("breakglass.request", .l3),
  ("breakglass.approve", .l3), ("admin.mutation", .l2), ("key.rotate", .l3),
  ("audit.export", .l3), ("audit.verify", .l3), ("factor.enroll", .l2), ("factor.remove", .l3),
  ("auth.stepup", .l1), ("auth.lockout", .l1), ("auth.stuffing_alert", .l1),
  ("recovery.request", .l2), ("recovery.approve", .l3), ("recovery.reset", .l3),
  ("privileged.grant.expire", .l1), ("privileged.grant.use", .l3),
  ("privileged.grant.revoke", .l3), ("privileged.review", .l2), ("delegation.start", .l3),
  ("delegation.revoke", .l2), ("delegation.escalation_denied", .l1),
  ("token.refresh.reuse", .l1), ("directory.sync", .l1), ("auth.federated", .l1),
  ("legacy.channel.access", .l1), ("subject.erasure", .l3), ("subject.export", .l2)]

def Action.valid (a : Action) : Bool := (actionCatalog.lookup a).isSome

def Action.requirePrivileged (a : Action) : Bool := actionCatalog.lookup a = some .l3

inductive Outcome
  | allowed | denied | failed
  deriving DecidableEq, Repr

def Outcome.serialized : Outcome → String
  | .allowed => "success"
  | .denied => "denied"
  | .failed => "error"

/-- Who acted; `act` names the real actor of a delegation. -/
inductive AuditActor
  | mk (identitySubject : GoString) (membershipId sessionId : Option Uuid) (act : Option AuditActor)

def AuditActor.identitySubject : AuditActor → GoString
  | .mk s _ _ _ => s

structure AuditTarget where
  type : GoString
  id : GoString
  label : GoString

/-- Where the action came from; `none` is the nil slice of methods. -/
structure AuditContext where
  ip : GoString
  userAgent : GoString
  authContextClass : GoString
  authMethods : Option (List GoString)
  traceId : GoString
  privilegedCorrelationId : GoString

structure AuditEvent where
  schemaVersion : ℤ
  eventId : Uuid
  organizationId : Uuid
  action : Action
  actor : AuditActor
  target : AuditTarget
  outcome : Outcome
  reason : GoString
  context : AuditContext
  occurredAt : Time

structure AuditEventInput where
  organizationId : Uuid
  action : Action
  actor : AuditActor
  outcome : Outcome
  target : AuditTarget
  reason : GoString
  context : AuditContext

inductive AuditError
  | unknownAction (action : Action)
  | invalidAuditEvent (detail : String)
  | invalidPrevHash
  | invalidGenesisNonce
  | invalidSeq
  | invalidSeal (detail : String)
  deriving DecidableEq, Repr

def AuditError.text : AuditError → String
  | .unknownAction action => "audit: ação não está no catálogo canônico: " ++ quote action
  | .invalidAuditEvent detail => "audit: evento inválido: " ++ detail
  | .invalidPrevHash => "audit: prev_hash inválido (tamanho incorreto)"
  | .invalidGenesisNonce => "audit: genesis_nonce inválido (tamanho incorreto)"
  | .invalidSeq => "audit: seq inválido (deve ser ≥ 1)"
  | .invalidSeal detail => "audit: selo inválido: " ++ detail

def auditSchemaVersion : ℤ := 1

/-- `NewAuditEvent`, stamped with the clock reading `now`; `id` is the drawn event id. -/
def newAuditEvent (i : AuditEventInput) (id : Uuid) (now : Time) : Except AuditError AuditEvent :=
  if !Action.valid i.action then .error (.unknownAction i.action)
  else if i.organizationId = Uuid.nil then
    .error (.invalidAuditEvent "organização obrigatória (cadeia por tenant)")
  else if i.actor.identitySubject = [] then .error (.invalidAuditEvent "ator sem subject")
  else .ok ⟨auditSchemaVersion, id, i.organizationId, i.action, i.actor, i.target, i.outcome,
    i.reason, i.context, now⟩

/-- What the columns of a row keep of an event: the time to the microsecond, and no nil slice. -/
def AuditEvent.stored (e : AuditEvent) : AuditEvent :=
  { e with
    occurredAt := e.occurredAt.stored
    context := { e.context with authMethods := some (e.context.authMethods.getD []) } }

section Canonical

-- `nfc` is Unicode normalization form C.
variable (nfc : GoString → GoString)

def normalize (s : GoString) : GoString := if s = [] then [] else nfc s

def actorFields (subject : GoString) (membershipId sessionId : Option Uuid) : List (String × Json) :=
  ("identity_subject", .str (normalize nfc subject)) ::
    (membershipId.map fun u => ("membership_id", Json.str u.text)).toList ++
    (sessionId.map fun u => ("session_id", Json.str u.text)).toList

def canonicalActor : AuditActor → Json
  | .mk subject membershipId sessionId none => .obj (actorFields nfc subject membershipId sessionId)
  | .mk subject membershipId sessionId (some act) =>
    .obj (actorFields nfc subject membershipId sessionId ++ [("act", canonicalActor act)])

def canonicalJson (e : AuditEvent) : Json := .obj [
  ("schema_version", .int e.schemaVersion),
  ("event_id", .str e.eventId.text),
  ("organization_id", .str e.organizationId.text),
  ("action", .str (normalize nfc e.action)),
  ("outcome", .str e.outcome.serialized),
  ("occurred_at_us", .int e.occurredAt.unixMicro),
  ("reason", .str (normalize nfc e.reason)),
  ("actor", canonicalActor nfc e.actor),
  ("target", .obj [
    ("type", .str (normalize nfc e.target.type)),
    ("id", .str (normalize nfc e.target.id)),
    ("label", .str (normalize nfc e.target.label))]),
  ("context", .obj [
    ("ip", .str (normalize nfc e.context.ip)),
    ("user_agent", .str (normalize nfc e.context.userAgent)),
    ("acr", .str (normalize nfc e.context.authContextClass)),
    ("amr", .arr ((e.context.authMethods.getD []).map fun m => .str (normalize nfc m))),
    ("trace_id", .str (normalize nfc e.context.traceId)),
    ("pcid", .str (normalize nfc e.context.privilegedCorrelationId))])]

/-- `Canonical`: the bytes of an event that enter the chain. -/
def canonical (e : AuditEvent) : Bytes := Bytes.ofString (canonicalJson nfc e).render

theorem canonical_stored (e : AuditEvent) : canonical nfc e.stored = canonical nfc e := by
  simp only [canonical, canonicalJson, AuditEvent.stored, Time.stored_unixMicro, Option.getD_some]

end Canonical

end ArchGuard.Audit
