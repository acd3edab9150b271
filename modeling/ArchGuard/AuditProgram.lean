import ArchGuard.Assurance
import ArchGuard.AuditStorage
import ArchGuard.ReadCommittedFrame

/-! The transactions that write the trail, statement by statement: appends, the two
drains and the sealer. -/
namespace ArchGuard.Audit
open ReadCommitted GoJson

def aalToACR : Aal → String
  | .aal3 => "L3"
  | .aal2 => "L2"
  | .aal1 => "L1"

structure ChainHead where
  lastSeq : ℕ
  headHash : Bytes
  genesisNonce : Bytes
  deriving DecidableEq, Repr

/-- A `tenant_switch` row of the session outbox. -/
structure SwitchOutboxRow where
  sessionId : Uuid
  identityId : Uuid
  fromOrgId : Uuid
  toMemId : Uuid
  toOrgId : Uuid
  provenAAL : Aal
  tokenGen : ℕ
  occurredAt : Time
  published : Bool

structure SealRow where
  seqStart : ℕ
  seqEnd : ℕ
  headHash : Bytes
  sealedAt : Time
  keyId : String
  signature : Bytes
  deriving DecidableEq, Repr

/-- `audit_event` is keyed by tenant, time (in microseconds) and sequence. -/
inductive Key
  | head (org : Uuid)
  | event (org : Uuid) (occurredAt : ℤ) (seq : ℕ)
  | queue (id : Uuid)
  | outbox (id : Uuid)
  | identity (id : Uuid)
  | sealed (org : Uuid) (seqEnd : ℕ)
  deriving DecidableEq, Repr

abbrev Row : Key → Type
  | .head _ => ChainHead
  | .event org occurredAt seq => {s : StoredEvent // s.1.event.organizationId = org ∧
      s.1.event.occurredAt.unixMicro = occurredAt ∧ s.1.seq = seq}
  | .queue _ => QueuedEvent
  | .outbox _ => SwitchOutboxRow
  | .identity _ => String
  | .sealed _ seqEnd => {s : SealRow // s.seqEnd = seqEnd}

abbrev Db := Store Row

/-- The random material of a chain's genesis. -/
abbrev Nonce := {b : Bytes // b.length = auditGenesisNonceSize}

/-- Unicode normalization, and the custodied key that signs seals. -/
structure Env where
  nfc : GoText.GoString → GoText.GoString
  sign : Bytes → Option (Bytes × String)

/-- One `AppendTx`: its input, the clock reading and the draws. -/
structure AppendItem where
  input : AuditEventInput
  now : Time
  eventId : Uuid
  nonce : Nonce

inductive Req
  | append (items : List AppendItem)
  | enqueue (input : AuditEventInput) (now : Time) (eventId id : Uuid)
  | drainQueue (batch : ℕ) (nonce : Uuid → Nonce)
  | drainOutbox (batch : ℕ) (eventId : Uuid → Uuid) (nonce : Uuid → Nonce)
  | sealOrganization (org : Uuid) (sealedAt : Time)
  | enqueueTenantSwitch (id : Uuid) (row : SwitchOutboxRow)

/-- What a transaction does with an event once it is in the chain. -/
inductive After
  | appends (items : List AppendItem)
  | dequeue (id : Uuid) (rest : List (Uuid × QueuedEvent)) (nonce : Uuid → Nonce)
  | publish (id : Uuid) (rest : List (Uuid × SwitchOutboxRow)) (eventId : Uuid → Uuid)
      (nonce : Uuid → Nonce)

inductive Pc
  | createHead (event : AuditEvent) (genesis : Bytes) (nonce : Nonce) (after : After)
  | lockHead (event : AuditEvent) (after : After)
  | insertEvent (x : StoredEvent) (after : After)
  | advanceHead (x : SealedEvent) (after : After)
  | dequeue (id : Uuid) (rest : List (Uuid × QueuedEvent)) (nonce : Uuid → Nonce)
  | publish (id : Uuid) (rest : List (Uuid × SwitchOutboxRow)) (eventId : Uuid → Uuid)
      (nonce : Uuid → Nonce)
  | enqueue (event : QueuedEvent) (id : Uuid)
  | readQueue (batch : ℕ) (nonce : Uuid → Nonce)
  | readOutbox (batch : ℕ) (eventId : Uuid → Uuid) (nonce : Uuid → Nonce)
  | lookupSubject (id : Uuid) (row : SwitchOutboxRow) (rest : List (Uuid × SwitchOutboxRow))
      (eventId : Uuid → Uuid) (nonce : Uuid → Nonce)
  | readHead (org : Uuid) (sealedAt : Time)
  | lastSealedSeq (org : Uuid) (sealedAt : Time) (head : ChainHead)
  | insertSeal (org : Uuid) (row : SealRow)
  | enqueueTenantSwitch (id : Uuid) (row : SwitchOutboxRow)
  | commit (next : Option Pc)
  | fail

/-- The first statement of `sealEventInTx`. -/
def startSeal (event : AuditEvent) (nonce : Nonce) (after : After) : Pc :=
  match genesisHash event.organizationId nonce.1 with
  | .error _ => .fail
  | .ok genesis => .createHead event genesis nonce after

def startAppends : List AppendItem → Pc
  | [] => .commit none
  | item :: items =>
    match newAuditEvent item.input item.eventId item.now with
    | .error _ => .fail
    | .ok event => startSeal event item.nonce (.appends items)

/-- The next item of the queue drain, in a transaction of its own. A payload that the decoder
refuses ends the drain. -/
def nextQueued (nonce : Uuid → Nonce) : List (Uuid × QueuedEvent) → Option Pc
  | [] => none
  | (id, row) :: rest =>
    (unmarshalEvent row.payload).map fun event =>
      startSeal event (nonce id) (.dequeue id rest nonce)

def nextSwitch (eventId : Uuid → Uuid) (nonce : Uuid → Nonce) :
    List (Uuid × SwitchOutboxRow) → Option Pc
  | [] => none
  | (id, row) :: rest => some (.lookupSubject id row rest eventId nonce)

def resume : After → Pc
  | .appends items => startAppends items
  | .dequeue id rest nonce => .dequeue id rest nonce
  | .publish id rest eventId nonce => .publish id rest eventId nonce

/-- `buildEvent`: the audit event of an outbox row. -/
def buildEvent (row : SwitchOutboxRow) (subject : String) (id : Uuid) :
    Except AuditError AuditEvent :=
  newAuditEvent
    { organizationId := row.toOrgId
      action := actionTenantSwitch
      actor := .mk subject (some row.toMemId) (some row.sessionId) none
      outcome := .allowed
      target := ⟨"organization", row.toOrgId.text, "tenant ativo"⟩
      reason := "troca de tenant " ++ row.fromOrgId.text ++ " → " ++ row.toOrgId.text ++
        " (geração de token " ++ toString row.tokenGen ++ ")"
      context := ⟨"", "", aalToACR row.provenAAL, none, "", ""⟩ }
    id row.occurredAt

def hexBytes (b : Bytes) : String :=
  String.ofList (b.flatMap fun x => [hexDigit (x.toNat/16), hexDigit (x.toNat%16)])

/-- `SealContent`: the bytes a seal signs. -/
def sealContent (org : Uuid) (seqStart seqEnd : ℕ) (headHash : Bytes) (sealedAtMicros : ℤ) :
    Except AuditError Bytes :=
  if org = Uuid.nil then .error (.invalidSeal "organização obrigatória")
  else if seqStart < 1 ∨ seqEnd < seqStart then .error (.invalidSeal
    ("intervalo de seq inválido [" ++ toString seqStart ++ "," ++ toString seqEnd ++ "]"))
  else if headHash.length ≠ auditHashSize then
    .error (.invalidSeal "head_hash com tamanho incorreto")
  else .ok (Bytes.ofString (Json.obj [
    ("organization_id", .str org.text),
    ("seq_start", .int seqStart),
    ("seq_end", .int seqEnd),
    ("head_hash", .str (hexBytes headHash)),
    ("sealed_at_us", .int sealedAtMicros)]).render)

def queueItem (db : Db) : Key → Option (Uuid × QueuedEvent)
  | .queue id => (db.row (.queue id)).map fun e => (id, e)
  | _ => none

/-- The queue in the order of its drain: by tenant, then by id. -/
def queued (db : Db) (batch : ℕ) : List (Uuid × QueuedEvent) :=
  ((db.keys.filterMap (queueItem db)).insertionSort fun a b =>
    a.2.1.organizationId.toNat < b.2.1.organizationId.toNat ∨
      (a.2.1.organizationId = b.2.1.organizationId ∧ a.1.toNat ≤ b.1.toNat)).take batch

def outboxItem (db : Db) : Key → Option (Uuid × SwitchOutboxRow)
  | .outbox id => (db.row (.outbox id)).map fun r => (id, r)
  | _ => none

def unpublished (db : Db) (batch : ℕ) : List (Uuid × SwitchOutboxRow) :=
  (((db.keys.filterMap (outboxItem db)).filter fun r => !r.2.published).insertionSort fun a b =>
    a.2.occurredAt < b.2.occurredAt ∨
      (a.2.occurredAt = b.2.occurredAt ∧ a.1.toNat ≤ b.1.toNat)).take batch

def sealRow (db : Db) (org : Uuid) : Key → Option SealRow
  | .sealed o seqEnd => if o = org then (db.row (.sealed o seqEnd)).map Subtype.val else none
  | _ => none

def seals (db : Db) (org : Uuid) : List SealRow := db.keys.filterMap (sealRow db org)

/-- The highest sealed `seq_end`, or 0. -/
def maxSealed (db : Db) (org : Uuid) : ℕ := ((seals db org).map SealRow.seqEnd).foldr max 0

/-- The decision of `SealOrganization` on the head it read. -/
def sealPending (env : Env) (org : Uuid) (sealedAt : Time) (head : ChainHead) (lastEnd : ℕ) : Pc :=
  if head.lastSeq ≤ lastEnd then .commit none
  else match sealContent org (lastEnd+1) head.lastSeq head.headHash sealedAt.unixMicro with
    | .error _ => .fail
    | .ok content =>
      match env.sign content with
      | none => .fail
      | some (signature, keyId) => .insertSeal org
          ⟨lastEnd+1, head.lastSeq, head.headHash, sealedAt.stored, keyId, signature⟩

/-- `Enqueue` of an event, unless its payload cannot be written. -/
def startEnqueue (event : AuditEvent) (id : Uuid) : Pc :=
  if h : (queuePayload event).isSome = true then .enqueue ⟨event, h⟩ id else .fail

/-- `SealEvent` on the locked head; where a column refuses its value, the INSERT fails. -/
def sealAfter (env : Env) (event : AuditEvent) (head : ChainHead) (after : After) : Pc :=
  match sealEvent env.nfc event head.headHash (head.lastSeq+1) with
  | .error _ => .fail
  | .ok x => if h : (insertAuditEvent x).isSome = true then .insertEvent ⟨x, h⟩ after else .fail

theorem startEnqueue_cases (event : AuditEvent) (id : Uuid) :
    startEnqueue event id = .fail ∨ ∃ row : QueuedEvent, startEnqueue event id = .enqueue row id := by
  unfold startEnqueue
  split_ifs with h
  · exact Or.inr ⟨⟨event, h⟩, rfl⟩
  · exact Or.inl rfl

theorem sealAfter_cases (env : Env) (event : AuditEvent) (head : ChainHead) (after : After) :
    sealAfter env event head after = .fail ∨
      ∃ x : StoredEvent, sealAfter env event head after = .insertEvent x after ∧
        x.1 = ⟨event, head.lastSeq+1, head.headHash, linkHash env.nfc head.headHash event⟩ := by
  unfold sealAfter
  cases hx : sealEvent env.nfc event head.headHash (head.lastSeq+1) with
  | error err => exact Or.inl rfl
  | ok x =>
    dsimp only
    split_ifs with h
    · exact Or.inr ⟨⟨x, h⟩, rfl, sealEvent_ok hx⟩
    · exact Or.inl rfl

def auditProgram (env : Env) : Program Row Req Pc where
  entry
    | .append items => startAppends items
    | .enqueue i now eventId id =>
      if Action.requirePrivileged i.action then .fail
      else match newAuditEvent i eventId now with
        | .error _ => .fail
        | .ok event => startEnqueue event id
    | .drainQueue batch nonce => .readQueue batch nonce
    | .drainOutbox batch eventId nonce => .readOutbox batch eventId nonce
    | .sealOrganization org sealedAt => .readHead org sealedAt
    | .enqueueTenantSwitch id row => .enqueueTenantSwitch id { row with published := false }
  next
    -- ON CONFLICT DO NOTHING, then FOR UPDATE on whichever head row is there
    | .createHead e genesis nonce after =>
      .insert (.head e.organizationId) ⟨0, genesis, nonce.1⟩ (.lockHead e after) (.lockHead e after)
    | .lockHead e after => .update (.head e.organizationId) .fail fun h =>
      (some h, sealAfter env e h after)
    | .insertEvent x after =>
      .insert (.event x.1.event.organizationId x.1.event.occurredAt.unixMicro x.1.seq)
        ⟨x.kept, x.kept_key⟩ (.advanceHead x.1 after) .fail
    -- the number of updated rows is not looked at: a missing head is no error
    | .advanceHead x after => .update (.head x.event.organizationId) (resume after) fun h =>
      (some { h with lastSeq := x.seq, headHash := x.hash }, resume after)
    | .dequeue id rest nonce => .update (.queue id) .fail fun _ =>
      (none, .commit (nextQueued nonce rest))
    | .publish id rest eventId nonce => .update (.outbox id) .fail fun r =>
      if r.published then (some r, .fail)
      else (some { r with published := true }, .commit (nextSwitch eventId nonce rest))
    | .enqueue e id => .insert (.queue id) e (.commit none) .fail
    -- the drains read their batch in one transaction and append each item in another
    | .readQueue batch nonce => .read fun db => .commit (nextQueued nonce (queued db batch))
    | .readOutbox batch eventId nonce => .read fun db =>
      .commit (nextSwitch eventId nonce (unpublished db batch))
    | .lookupSubject id row rest eventId nonce => .read fun db =>
      match db.row (.identity row.identityId) with
      | none => .fail
      | some subject =>
        match buildEvent row subject (eventId id) with
        | .error _ => .fail
        | .ok event => .commit (some (startSeal event (nonce id) (.publish id rest eventId nonce)))
    -- the sealer reads the head without a lock
    | .readHead org sealedAt => .read fun db =>
      match db.row (.head org) with
      | none => .commit none
      | some head => .lastSealedSeq org sealedAt head
    | .lastSealedSeq org sealedAt head => .read fun db =>
      sealPending env org sealedAt head (maxSealed db org)
    -- ON CONFLICT DO NOTHING: a concurrent sealer was first
    | .insertSeal org row => .insert (.sealed org row.seqEnd) ⟨row, rfl⟩ (.commit none) (.commit none)
    | .enqueueTenantSwitch id row => .insert (.outbox id) row (.commit none) .fail
    | .commit next => .commit next
    | .fail => .abort

end ArchGuard.Audit
