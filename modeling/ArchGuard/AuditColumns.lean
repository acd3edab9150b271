import ArchGuard.AuditChain
import ArchGuard.GoTime
import ArchGuard.GoValue
import ArchGuard.UuidText

/-! The columns an event is stored in and the queue's payload: what they are written from and how
an event is read back from them. -/
namespace ArchGuard.Audit
open GoJson GoText

/-- A row of `audit_event`; times are in microseconds. -/
structure AuditRow where
  organizationId : Uuid
  seq : ℕ
  occurredAt : ℤ
  eventId : Uuid
  schemaVersion : ℤ
  action : String
  outcome : String
  actorSubject : String
  actorMembershipId : Option Uuid
  actorSessionId : Option Uuid
  actorAct : Option Value
  targetType : String
  targetId : String
  targetLabel : String
  reason : String
  contextIp : String
  contextUserAgent : String
  contextAcr : String
  contextAmr : List String
  contextTraceId : String
  contextPcid : String
  prevHash : Bytes
  hash : Bytes

/-- Writing a string into a text column, which refuses malformed UTF-8 and U+0000. -/
def text (s : GoString) : Option String :=
  if validString s && !(toValid s).toList.contains '\x00' then some (toValid s) else none

def AuditActor.act : AuditActor → Option AuditActor
  | .mk _ _ _ act => act

def AuditActor.membershipId : AuditActor → Option Uuid
  | .mk _ membershipId _ _ => membershipId

def AuditActor.sessionId : AuditActor → Option Uuid
  | .mk _ _ sessionId _ => sessionId

section Marshal

def marshalUuid : Option Uuid → Value
  | none => .null
  | some u => .str u.text

/-- `json.Marshal` of an actor: a struct's fields under their own names. -/
def marshalActor : AuditActor → Value
  | .mk subject membershipId sessionId none => .obj [
      ("IdentitySubject", marshalString subject),
      ("MembershipID", marshalUuid membershipId),
      ("SessionID", marshalUuid sessionId),
      ("Act", .null)]
  | .mk subject membershipId sessionId (some act) => .obj [
      ("IdentitySubject", marshalString subject),
      ("MembershipID", marshalUuid membershipId),
      ("SessionID", marshalUuid sessionId),
      ("Act", marshalActor act)]

def Outcome.toInt : Outcome → ℤ
  | .allowed => 0
  | .denied => 1
  | .failed => 2

/-- `json.Marshal` of an event, which fails on a time that RFC 3339 does not express. -/
def marshalEvent (e : AuditEvent) : Option Value := do
  let occurredAt ← GoTime.rfc3339Nano e.occurredAt
  some (.obj [
    ("SchemaVersion", .num e.schemaVersion),
    ("EventID", .str e.eventId.text),
    ("OrganizationID", .str e.organizationId.text),
    ("Action", marshalString e.action),
    ("Actor", marshalActor e.actor),
    ("Target", .obj [
      ("Type", marshalString e.target.type),
      ("ID", marshalString e.target.id),
      ("Label", marshalString e.target.label)]),
    ("Outcome", .num e.outcome.toInt),
    ("Reason", marshalString e.reason),
    ("Context", .obj [
      ("IP", marshalString e.context.ip),
      ("UserAgent", marshalString e.context.userAgent),
      ("AuthContextClass", marshalString e.context.authContextClass),
      ("AuthMethods", marshalStrings e.context.authMethods),
      ("TraceID", marshalString e.context.traceId),
      ("PrivilegedCorrelationID", marshalString e.context.privilegedCorrelationId)]),
    ("OccurredAt", .str occurredAt)])

end Marshal

section Unmarshal

def readUuid : Value → Option Uuid
  | .null => some Uuid.nil
  | .str s => Uuid.ofText s
  | _ => none

/-- A pointer to a UUID: null leaves it nil. -/
def readUuidPointer : Value → Option (Option Uuid)
  | .null => some none
  | v => (readUuid v).map some

/-- The fields of an actor; `depth` bounds how deep its objects nest. -/
def unmarshalActor : (depth : ℕ) → Value → Option AuditActor
  | _, .null => some (.mk [] none none none)
  | depth+1, .obj fields => do
    let v := Value.obj fields
    let subject ← readString (v.field "IdentitySubject")
    let membershipId ← readUuidPointer (v.field "MembershipID")
    let sessionId ← readUuidPointer (v.field "SessionID")
    match v.field "Act" with
    | .null => some (.mk subject membershipId sessionId none)
    | act => (unmarshalActor depth act).map fun a => .mk subject membershipId sessionId (some a)
  | _, _ => none

def readOutcome : Value → Option Outcome
  | .null => some .allowed
  | .num 0 => some .allowed
  | .num 1 => some .denied
  | .num 2 => some .failed
  | _ => none

def readTime : Value → Option Time
  | .null => some Time.zero
  | .str s => GoTime.parseRfc3339 s
  | _ => none

def readTarget (v : Value) : Option AuditTarget := do
  let type ← readString (v.field "Type")
  let id ← readString (v.field "ID")
  let label ← readString (v.field "Label")
  some ⟨type, id, label⟩

def readContext (v : Value) : Option AuditContext := do
  let ip ← readString (v.field "IP")
  let userAgent ← readString (v.field "UserAgent")
  let authContextClass ← readString (v.field "AuthContextClass")
  let authMethods ← readStrings (v.field "AuthMethods")
  let traceId ← readString (v.field "TraceID")
  let privilegedCorrelationId ← readString (v.field "PrivilegedCorrelationID")
  some ⟨ip, userAgent, authContextClass, authMethods, traceId, privilegedCorrelationId⟩

/-- What the decoder puts into an event. -/
def readEvent (v : Value) : Option AuditEvent := do
  let schemaVersion ← readInt (v.field "SchemaVersion")
  let eventId ← readUuid (v.field "EventID")
  let organizationId ← readUuid (v.field "OrganizationID")
  let action ← readString (v.field "Action")
  let actor ← unmarshalActor v.depth (v.field "Actor")
  let target ← readTarget (v.field "Target")
  let outcome ← readOutcome (v.field "Outcome")
  let reason ← readString (v.field "Reason")
  let context ← readContext (v.field "Context")
  let occurredAt ← readTime (v.field "OccurredAt")
  some ⟨schemaVersion, eventId, organizationId, toValid action, actor, target, outcome, reason,
    context, occurredAt⟩

/-- `json.Unmarshal` into an event: the text is scanned first, for its nesting too. -/
def unmarshalEvent (v : Value) : Option AuditEvent := if checkValid v then readEvent v else none

end Unmarshal

/-- `Enqueue`: the payload of an event in the queue's jsonb column. -/
def queuePayload (e : AuditEvent) : Option Value := do jsonb (← marshalEvent e)

def actColumn : Option AuditActor → Option (Option Value)
  | none => some none
  | some act => (jsonb (marshalActor act)).map some

/-- The columns of a sealed event, unless PostgreSQL refuses one. -/
def insertAuditEvent (s : SealedEvent) : Option AuditRow := do
  let e := s.event
  let actorAct ← actColumn e.actor.act
  let action ← text e.action
  let actorSubject ← text e.actor.identitySubject
  let targetType ← text e.target.type
  let targetId ← text e.target.id
  let targetLabel ← text e.target.label
  let reason ← text e.reason
  let contextIp ← text e.context.ip
  let contextUserAgent ← text e.context.userAgent
  let contextAcr ← text e.context.authContextClass
  let contextAmr ← (e.context.authMethods.getD []).mapM text
  let contextTraceId ← text e.context.traceId
  let contextPcid ← text e.context.privilegedCorrelationId
  some {
    organizationId := e.organizationId, seq := s.seq, occurredAt := e.occurredAt.unixMicro
    eventId := e.eventId, schemaVersion := e.schemaVersion, action := action
    outcome := e.outcome.serialized, actorSubject := actorSubject
    actorMembershipId := e.actor.membershipId, actorSessionId := e.actor.sessionId
    actorAct := actorAct, targetType := targetType, targetId := targetId
    targetLabel := targetLabel, reason := reason, contextIp := contextIp
    contextUserAgent := contextUserAgent, contextAcr := contextAcr, contextAmr := contextAmr
    contextTraceId := contextTraceId, contextPcid := contextPcid
    prevHash := s.prevHash, hash := s.hash }

abbrev StoredEvent := {s : SealedEvent // (insertAuditEvent s).isSome = true}

def StoredEvent.row (s : StoredEvent) : AuditRow := (insertAuditEvent s.1).get s.2

abbrev QueuedEvent := {e : AuditEvent // (queuePayload e).isSome = true}

def QueuedEvent.payload (e : QueuedEvent) : Value := (queuePayload e.1).get e.2

inductive ScanError
  | invalidEventId (text : String)
  | invalidOutcome (serialized : String)
  | invalidUuid (col text : String)
  | invalidActorAct
  deriving DecidableEq, Repr

/-- The messages, each up to what the library adds. -/
def ScanError.text : ScanError → String
  | .invalidEventId text => "audit: event_id inválido " ++ quoted text
  | .invalidOutcome serialized => "audit: evento inválido: outcome serializado " ++ quoted serialized
  | .invalidUuid col text => "postgres: " ++ col ++ " inválido " ++ quoted text
  | .invalidActorAct => "audit: actor_act inválido"

def parseOutcome (s : String) : Except ScanError Outcome :=
  match s with
  | "success" => .ok .allowed
  | "denied" => .ok .denied
  | "error" => .ok .failed
  | s => .error (.invalidOutcome s)

def parseOptionalUuid (col : String) : Option String → Except ScanError (Option Uuid)
  | none => .ok none
  | some t =>
    match Uuid.ofText t with
    | none => .error (.invalidUuid col t)
    | some u => .ok (some u)

def parseEventId (t : String) : Except ScanError Uuid :=
  match Uuid.ofText t with
  | none => .error (.invalidEventId t)
  | some u => .ok u

/-- `json.Unmarshal` of the column of the delegated actor. -/
def unmarshalAct (v : Value) : Option AuditActor :=
  if checkValid v then unmarshalActor v.depth v else none

def scanAct : Option Value → Except ScanError (Option AuditActor)
  | none => .ok none
  | some v =>
    match unmarshalAct v with
    | none => .error .invalidActorAct
    | some act => .ok (some act)

/-- `scanSealedEvent`: the event of a row, each UUID through its text. -/
def scanSealedEvent (row : AuditRow) (org : Uuid) : Except ScanError SealedEvent := do
  let eventId ← parseEventId row.eventId.text
  let outcome ← parseOutcome row.outcome
  let membershipId ←
    parseOptionalUuid "actor_membership_id" (row.actorMembershipId.map Uuid.text)
  let sessionId ← parseOptionalUuid "actor_session_id" (row.actorSessionId.map Uuid.text)
  let act ← scanAct row.actorAct
  .ok {
    event := {
      schemaVersion := row.schemaVersion, eventId := eventId, organizationId := org
      action := row.action, actor := .mk row.actorSubject membershipId sessionId act
      target := ⟨row.targetType, row.targetId, row.targetLabel⟩
      outcome := outcome, reason := row.reason
      context := ⟨row.contextIp, row.contextUserAgent, row.contextAcr,
        some (row.contextAmr.map utf8), row.contextTraceId, row.contextPcid⟩
      occurredAt := row.occurredAt*1000 }
    seq := row.seq, prevHash := row.prevHash, hash := row.hash }

end ArchGuard.Audit
