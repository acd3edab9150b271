import ArchGuard.AuditColumns

/-! Storage keeps an event's canonical bytes, except for what JSON cannot carry of the actors of a
delegation. -/
namespace ArchGuard.Audit
open GoJson GoText

def AuditActor.nesting : AuditActor → ℕ
  | .mk _ _ _ none => 1
  | .mk _ _ _ (some act) => act.nesting+1

/-- The malformed bytes of the subjects of an actor and the actors behind it. -/
def AuditActor.malformedBytes : AuditActor → ℕ
  | .mk subject _ _ none => malformed subject
  | .mk subject _ _ (some act) => malformed subject + act.malformedBytes

/-- An actor after it travelled through a JSON text. -/
def AuditActor.coerced : AuditActor → AuditActor
  | .mk subject membershipId sessionId none =>
    .mk (GoJson.coerced subject) membershipId sessionId none
  | .mk subject membershipId sessionId (some act) =>
    .mk (GoJson.coerced subject) membershipId sessionId (some act.coerced)

/-- The decoder reads an actor back: its objects do not nest too deep, and each of its subjects is
valid UTF-8. -/
def AuditActor.Readable (a : AuditActor) : Prop :=
  a.malformedBytes = 0 ∧ a.nesting ≤ maxNestingDepth

section Actor

theorem readUuidPointer_marshalUuid (u : Option Uuid) :
    readUuidPointer (marshalUuid u) = some u := by
  cases u with
  | none => rfl
  | some u => rw [marshalUuid, readUuidPointer, readUuid, Uuid.ofText_text, Option.map_some]; simp

theorem depth_marshalUuid (u : Option Uuid) : (marshalUuid u).depth = 0 := by
  cases u with
  | none => rw [marshalUuid, Value.depth]
  | some u => rw [marshalUuid, Value.depth]

theorem depth_marshalActor (a : AuditActor) : (marshalActor a).depth = a.nesting := by
  match a with
  | .mk subject membershipId sessionId none =>
    simp only [marshalActor, Value.depth, depthFields, depth_marshalString, depth_marshalUuid,
      AuditActor.nesting, Nat.max_self, Nat.zero_add]
  | .mk subject membershipId sessionId (some act) =>
    simp only [marshalActor, Value.depth, depthFields, depth_marshalString, depth_marshalUuid,
      depth_marshalActor act, AuditActor.nesting, Nat.max_zero, Nat.zero_max]

theorem marshalActor_eq_obj (a : AuditActor) : ∃ fields, marshalActor a = .obj fields := by
  match a with
  | .mk _ _ _ none => exact ⟨_, rfl⟩
  | .mk _ _ _ (some _) => exact ⟨_, rfl⟩

theorem unmarshalActor_marshalActor (a : AuditActor) (depth : ℕ) (h : a.nesting ≤ depth) :
    unmarshalActor depth (marshalActor a) = some a.coerced := by
  match a, depth with
  | .mk subject membershipId sessionId none, 0 => exact absurd h (by simp [AuditActor.nesting])
  | .mk subject membershipId sessionId (some act), 0 =>
    exact absurd h (by simp [AuditActor.nesting])
  | .mk subject membershipId sessionId none, depth+1 =>
    simp only [marshalActor, unmarshalActor, Value.field, List.lookup_cons, List.lookup_nil, AuditActor.coerced]
    simp [readUuidPointer_marshalUuid]
  | .mk subject membershipId sessionId (some act), depth+1 =>
    rw [AuditActor.nesting] at h
    have ih := unmarshalActor_marshalActor act depth (by omega)
    obtain ⟨fields, hfields⟩ := marshalActor_eq_obj act
    rw [hfields] at ih
    simp only [marshalActor, unmarshalActor, Value.field, List.lookup_cons, List.lookup_nil, AuditActor.coerced, hfields]
    simp [readUuidPointer_marshalUuid, ih]

theorem unmarshalAct_marshalActor (a : AuditActor) :
    unmarshalAct (marshalActor a) =
      if a.nesting ≤ maxNestingDepth then some a.coerced else none := by
  rw [unmarshalAct, checkValid, depth_marshalActor,
    unmarshalActor_marshalActor a a.nesting (Nat.le_refl _)]
  simp only [decide_eq_true_eq]

theorem coerced_of_wellFormed {a : AuditActor} (h : a.malformedBytes = 0) : a.coerced = a := by
  match a with
  | .mk subject _ _ none => rw [AuditActor.coerced, coerced_of_valid h]
  | .mk subject _ _ (some act) =>
    rw [AuditActor.malformedBytes] at h
    have hact : act.coerced = act := coerced_of_wellFormed (by omega)
    rw [AuditActor.coerced, coerced_of_valid (by omega), hact]

theorem malformedBytes_coerced (a : AuditActor) : a.coerced.malformedBytes = 0 := by
  match a with
  | .mk subject _ _ none => exact malformed_coerced subject
  | .mk subject _ _ (some act) =>
    rw [AuditActor.coerced, AuditActor.malformedBytes, malformed_coerced,
      malformedBytes_coerced act]

theorem nesting_coerced (a : AuditActor) : a.coerced.nesting = a.nesting := by
  match a with
  | .mk _ _ _ none => rfl
  | .mk _ _ _ (some act) =>
    rw [AuditActor.coerced, AuditActor.nesting, AuditActor.nesting, nesting_coerced act]

end Actor

section Columns

theorem text_eq_some {s : GoString} {t : String} (h : text s = some t) : utf8 t = s := by
  unfold text at h
  split_ifs at h with hvalid
  rw [Bool.and_eq_true, validString, decide_eq_true_eq] at hvalid
  rw [← Option.some.inj h, utf8_toValid hvalid.1]

theorem mapM_text_eq_some {ss : List GoString} {ts : List String} (h : ss.mapM text = some ts) :
    ts.map utf8 = ss := by
  induction ss generalizing ts with
  | nil =>
    rw [List.mapM_nil] at h
    rw [← Option.some.inj h]
    rfl
  | cons s ss ih =>
    rw [List.mapM_cons] at h
    simp only [Option.bind_eq_bind, Option.bind_eq_some_iff] at h
    obtain ⟨t, ht, ts', hts, h⟩ := h
    rw [← Option.some.inj h, List.map_cons, text_eq_some ht, ih hts]

theorem jsonb_eq_some {v w : Value} (h : jsonb v = some w) : w = v := by
  unfold jsonb at h
  split_ifs at h
  exact (Option.some.inj h).symm

theorem parseOutcome_serialized (o : Outcome) : parseOutcome o.serialized = .ok o := by
  cases o <;> rfl

theorem parseOptionalUuid_text (col : String) (u : Option Uuid) :
    parseOptionalUuid col (u.map Uuid.text) = .ok u := by
  cases u with
  | none => rfl
  | some u => rw [Option.map_some, parseOptionalUuid, Uuid.ofText_text]

/-- What the row of a sealed event is read back as: only the delegated actor may differ from what
the columns keep. -/
def SealedEvent.readBack (s : SealedEvent) : SealedEvent :=
  { s.stored with
    event := { s.stored.event with
      actor := .mk s.event.actor.identitySubject s.event.actor.membershipId
        s.event.actor.sessionId (s.event.actor.act.map AuditActor.coerced) } }

theorem scanAct_marshalActor (act : AuditActor) :
    scanAct (some (marshalActor act)) =
      if act.nesting ≤ maxNestingDepth then .ok (some act.coerced)
      else .error .invalidActorAct := by
  rw [scanAct, unmarshalAct_marshalActor]
  split_ifs with h
  · rfl
  · rfl

theorem parseEventId_text (u : Uuid) : parseEventId u.text = .ok u := by
  rw [parseEventId, Uuid.ofText_text]

theorem actColumn_eq_some {act : Option AuditActor} {v : Option Value}
    (h : actColumn act = some v) : v = act.map marshalActor := by
  cases act with
  | none => exact (Option.some.inj h).symm
  | some act =>
    obtain ⟨w, hw, hv⟩ := Option.map_eq_some_iff.mp h
    rw [← hv, jsonb_eq_some hw]
    rfl

theorem insertAuditEvent_eq_some {s : SealedEvent} {row : AuditRow}
    (h : insertAuditEvent s = some row) :
    row.actorAct = s.event.actor.act.map marshalActor ∧
      ∀ act, scanAct row.actorAct = .ok act →
        scanSealedEvent row s.event.organizationId = .ok { s.stored with
          event := { s.stored.event with
            actor := .mk s.event.actor.identitySubject s.event.actor.membershipId
              s.event.actor.sessionId act } } := by
  unfold insertAuditEvent at h
  obtain ⟨actorAct, hact, h⟩ := Option.bind_eq_some_iff.mp h
  obtain ⟨action, haction, h⟩ := Option.bind_eq_some_iff.mp h
  obtain ⟨subject, hsubject, h⟩ := Option.bind_eq_some_iff.mp h
  obtain ⟨targetType, htype, h⟩ := Option.bind_eq_some_iff.mp h
  obtain ⟨targetId, hid, h⟩ := Option.bind_eq_some_iff.mp h
  obtain ⟨targetLabel, hlabel, h⟩ := Option.bind_eq_some_iff.mp h
  obtain ⟨reason, hreason, h⟩ := Option.bind_eq_some_iff.mp h
  obtain ⟨ip, hip, h⟩ := Option.bind_eq_some_iff.mp h
  obtain ⟨userAgent, huserAgent, h⟩ := Option.bind_eq_some_iff.mp h
  obtain ⟨acr, hacr, h⟩ := Option.bind_eq_some_iff.mp h
  obtain ⟨amr, hamr, h⟩ := Option.bind_eq_some_iff.mp h
  obtain ⟨traceId, htraceId, h⟩ := Option.bind_eq_some_iff.mp h
  obtain ⟨pcid, hpcid, h⟩ := Option.bind_eq_some_iff.mp h
  have haction : action = s.event.action := utf8_injective (text_eq_some haction)
  have hrow := Option.some.inj h
  refine ⟨?_, fun act hscan => ?_⟩
  · rw [← hrow]
    exact actColumn_eq_some hact
  · unfold scanSealedEvent
    rw [hscan, ← hrow]
    dsimp only
    rw [parseEventId_text, parseOutcome_serialized, parseOptionalUuid_text, parseOptionalUuid_text,
      haction, text_eq_some hsubject, text_eq_some htype, text_eq_some hid, text_eq_some hlabel,
      text_eq_some hreason, text_eq_some hip, text_eq_some huserAgent, text_eq_some hacr,
      mapM_text_eq_some hamr, text_eq_some htraceId, text_eq_some hpcid]
    rfl

theorem scanAct_map_marshalActor (act : Option AuditActor) :
    scanAct (act.map marshalActor) =
      if ∀ a ∈ act, a.nesting ≤ maxNestingDepth then .ok (act.map AuditActor.coerced)
      else .error .invalidActorAct := by
  cases act with
  | none =>
    rw [if_pos fun a ha => absurd ha (Option.not_mem_none a)]
    rfl
  | some act =>
    rw [Option.map_some, scanAct_marshalActor]
    simp only [Option.mem_def, Option.some.injEq, forall_eq', Option.map_some]

theorem scanSealedEvent_of_shallow {s : SealedEvent} {row : AuditRow}
    (h : insertAuditEvent s = some row)
    (hact : ∀ act ∈ s.event.actor.act, act.nesting ≤ maxNestingDepth) :
    scanSealedEvent row s.event.organizationId = .ok s.readBack := by
  obtain ⟨hcol, hscan⟩ := insertAuditEvent_eq_some h
  apply hscan
  rw [hcol, scanAct_map_marshalActor, if_pos hact]

theorem shallow_of_scanSealedEvent {s r : SealedEvent} {row : AuditRow}
    (h : insertAuditEvent s = some row)
    (hr : scanSealedEvent row s.event.organizationId = .ok r) :
    ∀ act ∈ s.event.actor.act, act.nesting ≤ maxNestingDepth := by
  have hcol := (insertAuditEvent_eq_some h).1
  unfold scanSealedEvent at hr
  obtain ⟨_, _, hr⟩ := bind_eq_ok.mp hr
  obtain ⟨_, _, hr⟩ := bind_eq_ok.mp hr
  obtain ⟨_, _, hr⟩ := bind_eq_ok.mp hr
  obtain ⟨_, _, hr⟩ := bind_eq_ok.mp hr
  obtain ⟨act, hact, _⟩ := bind_eq_ok.mp hr
  rw [hcol, scanAct_map_marshalActor] at hact
  by_contra hdeep
  rw [if_neg hdeep] at hact
  cases hact

end Columns

section Canonical

variable {nfc : GoString → GoString}

/-- Normalization neither adds nor drops U+FFFD, which composes with nothing. -/
def KeepsReplacement (nfc : GoString → GoString) : Prop :=
  ∀ s, (runes (nfc s)).count (.char replacement) = (runes s).count (.char replacement)

theorem count_normalize (hnfc : KeepsReplacement nfc) (s : GoString) :
    (runes (normalize nfc s)).count (.char replacement) =
      (runes s).count (.char replacement) := by
  unfold normalize
  split_ifs with h
  · rw [h]
  · exact hnfc s

theorem replacements_coerced (hnfc : KeepsReplacement nfc) (s : GoString) :
    replacements (quoteString (normalize nfc (GoJson.coerced s))) =
      replacements (quoteString (normalize nfc s)) + malformed s := by
  rw [replacements_quoteString, replacements_quoteString, count_normalize hnfc,
    count_normalize hnfc, GoJson.coerced, runes_utf8, ← count_toValid]
  exact List.count_map_of_injective _ _ (fun _ _ h => Rune.char.inj h) _

/-- The U+FFFD of the fields of an actor but its own actor. -/
def fieldReplacements (fields : List (String × Json)) : ℕ :=
  (fields.map fun f => replacements (quote f.1) + replacements f.2.render).sum

theorem fieldReplacements_actorFields (hnfc : KeepsReplacement nfc) (s : GoString)
    (membershipId sessionId : Option Uuid) :
    fieldReplacements (actorFields nfc (GoJson.coerced s) membershipId sessionId) =
      fieldReplacements (actorFields nfc s membershipId sessionId) + malformed s := by
  simp only [fieldReplacements, actorFields, List.cons_append, List.map_cons, List.sum_cons,
    Json.render, replacements_coerced hnfc]
  omega

theorem replacements_canonicalActor (hnfc : KeepsReplacement nfc) (a : AuditActor) :
    replacements (canonicalActor nfc a.coerced).render =
      replacements (canonicalActor nfc a).render + a.malformedBytes := by
  match a with
  | .mk subject membershipId sessionId none =>
    rw [AuditActor.coerced, canonicalActor, canonicalActor, replacements_obj, replacements_obj,
      AuditActor.malformedBytes]
    exact fieldReplacements_actorFields hnfc subject membershipId sessionId
  | .mk subject membershipId sessionId (some act) =>
    have ih := replacements_canonicalActor hnfc act
    have hfields := fieldReplacements_actorFields hnfc subject membershipId sessionId
    rw [fieldReplacements, fieldReplacements] at hfields
    rw [AuditActor.coerced, canonicalActor, canonicalActor, replacements_obj, replacements_obj,
      AuditActor.malformedBytes, List.map_append, List.map_append, List.sum_append,
      List.sum_append, hfields, List.map_singleton, List.map_singleton, List.sum_singleton,
      List.sum_singleton, ih]
    dsimp only
    omega

/-- Behind the acting subject itself, which the columns keep as it is. -/
theorem replacements_readBack (hnfc : KeepsReplacement nfc) (a : AuditActor) :
    replacements (canonicalActor nfc (.mk a.identitySubject a.membershipId a.sessionId
        (a.act.map AuditActor.coerced))).render =
      replacements (canonicalActor nfc a).render + (a.act.map AuditActor.malformedBytes).getD 0 := by
  match a with
  | .mk subject membershipId sessionId none => rfl
  | .mk subject membershipId sessionId (some act) =>
    have hact := replacements_canonicalActor hnfc act
    simp only [AuditActor.identitySubject, AuditActor.membershipId, AuditActor.sessionId,
      AuditActor.act, Option.map_some, Option.getD_some, canonicalActor, replacements_obj,
      List.map_append, List.sum_append, List.map_singleton, List.sum_singleton, hact]
    omega

theorem canonical_injective {e f : AuditEvent} (h : canonical nfc e = canonical nfc f) :
    (canonicalJson nfc e).render = (canonicalJson nfc f).render := utf8_injective h

theorem replacements_actor_of_canonical_eq {e : AuditEvent} {a : AuditActor}
    (h : canonical nfc { e with actor := a } = canonical nfc e) :
    replacements (canonicalActor nfc a).render =
      replacements (canonicalActor nfc e.actor).render := by
  have hr := congrArg replacements (canonical_injective h)
  rw [canonicalJson, canonicalJson, replacements_obj, replacements_obj] at hr
  simp only [List.map_cons, List.sum_cons] at hr
  omega

end Canonical

/-- The row of an event reads back as an event with the canonical bytes that were hashed. -/
def ReadsBack (nfc : GoString → GoString) (s : SealedEvent) (row : AuditRow) : Prop :=
  ∃ r, scanSealedEvent row s.event.organizationId = .ok r ∧
    canonical nfc r.event = canonical nfc s.event

theorem canonical_readBack (nfc : GoString → GoString) (s : SealedEvent) :
    canonical nfc s.readBack.event = canonical nfc { s.event with
      actor := .mk s.event.actor.identitySubject s.event.actor.membershipId
        s.event.actor.sessionId (s.event.actor.act.map AuditActor.coerced) } := by
  have hstored : s.readBack.event = AuditEvent.stored { s.event with
      actor := .mk s.event.actor.identitySubject s.event.actor.membershipId
        s.event.actor.sessionId (s.event.actor.act.map AuditActor.coerced) } := rfl
  rw [hstored, canonical_stored]

/-- Where no byte is malformed, the row is read back as what the columns keep of the event. -/
theorem readBack_eq_stored {s : SealedEvent}
    (h : ∀ act ∈ s.event.actor.act, act.malformedBytes = 0) : s.readBack = s.stored := by
  obtain ⟨event, seq, prevHash, hash⟩ := s
  obtain ⟨version, id, org, action, ⟨subject, membershipId, sessionId, act⟩, target, outcome,
    reason, context, occurredAt⟩ := event
  have hact : act.map AuditActor.coerced = act := by
    cases act with
    | none => rfl
    | some act => rw [Option.map_some, coerced_of_wellFormed (h act rfl)]
  simp only [SealedEvent.readBack, SealedEvent.stored, AuditEvent.stored,
    AuditActor.identitySubject, AuditActor.membershipId, AuditActor.sessionId, AuditActor.act, hact]

theorem canonical_readBack_iff {nfc : GoString → GoString} (hnfc : KeepsReplacement nfc)
    {s : SealedEvent} : canonical nfc s.readBack.event = canonical nfc s.event ↔
      ∀ act ∈ s.event.actor.act, act.malformedBytes = 0 := by
  constructor
  · intro h act hact
    rw [canonical_readBack] at h
    have heq := replacements_actor_of_canonical_eq h
    -- the coerced bytes would show in the text that was hashed
    rw [replacements_readBack hnfc, Option.mem_def.mp hact, Option.map_some, Option.getD_some] at heq
    omega
  · intro h
    rw [readBack_eq_stored h]
    exact canonical_stored nfc s.event

theorem readsBack_iff {nfc : GoString → GoString} (hnfc : KeepsReplacement nfc) {s : SealedEvent}
    {row : AuditRow} (h : insertAuditEvent s = some row) :
    ReadsBack nfc s row ↔ ∀ act ∈ s.event.actor.act, act.Readable := by
  constructor
  · rintro ⟨r, hr, hcanonical⟩ act hact
    have hshallow := shallow_of_scanSealedEvent h hr
    have hback : r = s.readBack := by
      rw [scanSealedEvent_of_shallow h hshallow] at hr
      exact (Except.ok.inj hr).symm
    rw [hback, canonical_readBack_iff hnfc] at hcanonical
    exact ⟨hcanonical act hact, hshallow act hact⟩
  · intro hreadable
    refine ⟨s.readBack, scanSealedEvent_of_shallow h fun act hact => (hreadable act hact).2, ?_⟩
    exact (canonical_readBack_iff hnfc).mpr fun act hact => (hreadable act hact).1

/-- The columns give the actors behind the acting subject back. -/
def AuditEvent.Readable (e : AuditEvent) : Prop := ∀ act ∈ e.actor.act, act.Readable

theorem insertAuditEvent_stored (s : SealedEvent) :
    insertAuditEvent s.stored = insertAuditEvent s := by
  simp only [insertAuditEvent, SealedEvent.stored, AuditEvent.stored, Option.getD_some,
    Time.stored_unixMicro]

theorem isSome_insertAuditEvent_stored {s : SealedEvent}
    (h : (insertAuditEvent s).isSome = true) : (insertAuditEvent s.stored).isSome = true := by
  rw [insertAuditEvent_stored, h]

/-- The event as the columns keep it. -/
def StoredEvent.kept (s : StoredEvent) : StoredEvent :=
  ⟨s.1.stored, isSome_insertAuditEvent_stored s.2⟩

theorem StoredEvent.kept_key (s : StoredEvent) :
    s.kept.1.event.organizationId = s.1.event.organizationId ∧
      s.kept.1.event.occurredAt.unixMicro = s.1.event.occurredAt.unixMicro ∧ s.kept.1.seq = s.1.seq :=
  s.1.stored_key

theorem StoredEvent.row_eq (s : StoredEvent) : insertAuditEvent s.1 = some s.row :=
  (Option.some_get s.2).symm

theorem QueuedEvent.payload_eq (e : QueuedEvent) : queuePayload e.1 = some e.payload :=
  (Option.some_get e.2).symm

section Queue

def AuditTarget.coerced (t : AuditTarget) : AuditTarget :=
  ⟨GoJson.coerced t.type, GoJson.coerced t.id, GoJson.coerced t.label⟩

def AuditContext.coerced (c : AuditContext) : AuditContext :=
  { ip := GoJson.coerced c.ip
    userAgent := GoJson.coerced c.userAgent
    authContextClass := GoJson.coerced c.authContextClass
    authMethods := c.authMethods.map (List.map GoJson.coerced)
    traceId := GoJson.coerced c.traceId
    privilegedCorrelationId := GoJson.coerced c.privilegedCorrelationId }

/-- An event after it travelled through a JSON text. -/
def AuditEvent.coerced (e : AuditEvent) : AuditEvent :=
  { e with
    actor := e.actor.coerced
    target := e.target.coerced
    reason := GoJson.coerced e.reason
    context := e.context.coerced }

/-- All strings of an event are valid UTF-8. -/
structure AuditEvent.WellFormed (e : AuditEvent) : Prop where
  actor : e.actor.malformedBytes = 0
  type : malformed e.target.type = 0
  id : malformed e.target.id = 0
  label : malformed e.target.label = 0
  reason : malformed e.reason = 0
  ip : malformed e.context.ip = 0
  userAgent : malformed e.context.userAgent = 0
  authContextClass : malformed e.context.authContextClass = 0
  authMethods : ∀ m ∈ e.context.authMethods.getD [], malformed m = 0
  traceId : malformed e.context.traceId = 0
  privilegedCorrelationId : malformed e.context.privilegedCorrelationId = 0

theorem AuditEvent.WellFormed.coerced {e : AuditEvent} (h : e.WellFormed) : e.coerced = e := by
  have hmethods : e.context.authMethods.map (List.map GoJson.coerced) = e.context.authMethods := by
    have hvalid := h.authMethods
    cases hm : e.context.authMethods with
    | none => rfl
    | some methods =>
      rw [hm, Option.getD_some] at hvalid
      have hmap : methods.map GoJson.coerced = methods.map fun m => m := by
        apply List.map_congr_left
        exact fun m hm => coerced_of_valid (hvalid m hm)
      rw [Option.map_some, hmap, List.map_id']
  rw [AuditEvent.coerced, AuditTarget.coerced, AuditContext.coerced, hmethods,
    coerced_of_wellFormed h.actor, coerced_of_valid h.type, coerced_of_valid h.id,
    coerced_of_valid h.label, coerced_of_valid h.reason, coerced_of_valid h.ip,
    coerced_of_valid h.userAgent, coerced_of_valid h.authContextClass, coerced_of_valid h.traceId,
    coerced_of_valid h.privilegedCorrelationId]

theorem readOutcome_toInt (o : Outcome) : readOutcome (.num o.toInt) = some o := by
  cases o <;> rfl

theorem readUuid_text (u : Uuid) : readUuid (.str u.text) = some u := Uuid.ofText_text u

theorem readEvent_marshalEvent {e : AuditEvent} {v : Value} (h : marshalEvent e = some v) :
    readEvent v = some e.coerced := by
  obtain ⟨t, ht, hobj⟩ := Option.bind_eq_some_iff.mp h
  have hobj := Option.some.inj hobj
  have htime : readTime (.str t) = some e.occurredAt := GoTime.parseRfc3339_rfc3339Nano ht
  have hdepth : e.actor.nesting ≤ v.depth := by
    rw [← hobj]
    simp only [Value.depth, depthFields, depth_marshalActor]
    omega
  have hactor := unmarshalActor_marshalActor e.actor v.depth hdepth
  unfold readEvent
  generalize v.depth = depth at hactor
  rw [← hobj]
  simp [Value.field, List.lookup_cons, readInt, readUuid_text, hactor, readTarget, readContext,
    readOutcome_toInt, htime, AuditEvent.coerced, AuditTarget.coerced, AuditContext.coerced]
  rw [GoJson.coerced, toValid_utf8, toValid_utf8]

/-- So does the payload, where it does not nest too deep. -/
theorem unmarshalEvent_marshalEvent {e : AuditEvent} {v : Value} (h : marshalEvent e = some v)
    (hv : checkValid v = true) : unmarshalEvent v = some e.coerced := by
  rw [unmarshalEvent, if_pos hv, readEvent_marshalEvent h]

theorem unmarshalEvent_of_checkValid {e : AuditEvent} {v : Value} (h : queuePayload e = some v)
    (hv : checkValid v = true) : unmarshalEvent v = some e.coerced := by
  obtain ⟨w, hw, hjsonb⟩ := Option.bind_eq_some_iff.mp h
  rw [jsonb_eq_some hjsonb] at hv ⊢
  exact unmarshalEvent_marshalEvent hw hv

/-- What the drain reads from the queue is the event that was enqueued, each string coerced, and
its objects nest no deeper than the decoder goes. -/
theorem unmarshalEvent_queuePayload {e d : AuditEvent} {v : Value} (h : queuePayload e = some v)
    (hd : unmarshalEvent v = some d) : d = e.coerced ∧ e.actor.nesting+1 ≤ maxNestingDepth := by
  have hvalid : checkValid v = true := by
    by_contra hbad
    rw [Bool.not_eq_true] at hbad
    rw [unmarshalEvent, hbad] at hd
    cases hd
  rw [unmarshalEvent_of_checkValid h hvalid] at hd
  refine ⟨(Option.some.inj hd).symm, ?_⟩
  obtain ⟨w, hw, hjsonb⟩ := Option.bind_eq_some_iff.mp h
  obtain ⟨t, -, hobj⟩ := Option.bind_eq_some_iff.mp hw
  rw [jsonb_eq_some hjsonb] at hvalid
  rw [checkValid, decide_eq_true_eq, ← Option.some.inj hobj] at hvalid
  simp only [Value.depth, depthFields, depth_marshalActor] at hvalid
  omega

theorem readable_of_coerced {a act : AuditActor} (h : a.nesting+1 ≤ maxNestingDepth)
    (hact : act ∈ a.coerced.act) : act.Readable := by
  match a with
  | .mk _ _ _ none => exact absurd hact (Option.not_mem_none act)
  | .mk _ _ _ (some b) =>
    rw [AuditActor.nesting] at h
    have heq : act = b.coerced := (Option.some.inj hact).symm
    rw [heq]
    refine ⟨malformedBytes_coerced b, ?_⟩
    rw [nesting_coerced]
    omega

end Queue

/-- The row of an event reads back with the canonical bytes that were hashed exactly if the actors
behind the acting subject are readable; what the drain reads from the queue always does. -/
theorem storage_keeps_canonical_iff {nfc : GoString → GoString} (hnfc : KeepsReplacement nfc) :
    (∀ s row, insertAuditEvent s = some row →
      (ReadsBack nfc s row ↔ ∀ act ∈ s.event.actor.act, act.Readable)) ∧
    ∀ e v s row, queuePayload e = some v → unmarshalEvent v = some s.event →
      insertAuditEvent s = some row → ReadsBack nfc s row := by
  refine ⟨fun s row hrow => readsBack_iff hnfc hrow, fun e v s row hv hd hrow => ?_⟩
  obtain ⟨hcoerced, hdepth⟩ := unmarshalEvent_queuePayload hv hd
  rw [readsBack_iff hnfc hrow]
  intro act hact
  apply readable_of_coerced hdepth
  rw [hcoerced] at hact
  exact hact

namespace Sample

/-- An action on behalf of another: `real` is the subject that acts. -/
def delegated (real : GoString) : AuditEventInput :=
  { organizationId := 2, action := "auth.login",
    actor := .mk "alice" none none (some (.mk real none none none)), outcome := .allowed,
    target := ⟨"session", "7", ""⟩, reason := "", context := ⟨"", "", "", none, "", ""⟩ }

def delegatedEvent (real : GoString) : AuditEvent :=
  { schemaVersion := auditSchemaVersion, eventId := 1, organizationId := 2, action := "auth.login",
    actor := (delegated real).actor, target := (delegated real).target, outcome := .allowed,
    reason := "", context := (delegated real).context, occurredAt := 1500 }

def sealedDelegated (real : GoString) : SealedEvent :=
  let prev := List.replicate auditHashSize 0
  ⟨delegatedEvent real, 1, prev, linkHash id prev (delegatedEvent real)⟩

theorem keepsReplacement_id : KeepsReplacement id := fun _ => rfl

theorem coerced_delegatedEvent : (delegatedEvent "bob").coerced = delegatedEvent "bob" := by
  simp only [AuditEvent.coerced, delegatedEvent, delegated, AuditActor.coerced,
    AuditTarget.coerced, AuditContext.coerced, Option.map_none, GoJson.coerced, toValid_utf8]

theorem row_sealedDelegated : ∃ row, insertAuditEvent (sealedDelegated "bob") = some row :=
  Option.isSome_iff_exists.mp (by decide)

end Sample

/-- A delegated action of `bob` reads back, and so does whatever the queue carried of it. -/
theorem storage_keeps_delegated :
    (∃ row, insertAuditEvent (Sample.sealedDelegated "bob") = some row ∧
      ReadsBack id (Sample.sealedDelegated "bob") row) ∧
    ∃ v row, queuePayload (Sample.delegatedEvent "bob") = some v ∧
      unmarshalEvent v = some (Sample.delegatedEvent "bob") ∧
      insertAuditEvent (Sample.sealedDelegated "bob") = some row ∧
      ReadsBack id (Sample.sealedDelegated "bob") row := by
  obtain ⟨row, hrow⟩ := Sample.row_sealedDelegated
  obtain ⟨v, hv, hvalid⟩ := (Option.any_eq_true _ _).mp
    (by decide +kernel : (queuePayload (Sample.delegatedEvent "bob")).any checkValid = true)
  have hd : unmarshalEvent v = some (Sample.delegatedEvent "bob") := by
    rw [unmarshalEvent_of_checkValid hv hvalid, Sample.coerced_delegatedEvent]
  have hreadable : ∀ act ∈ (Sample.sealedDelegated "bob").event.actor.act, act.Readable := by
    intro act hact
    rw [← Option.some.inj hact]
    exact ⟨malformed_utf8 "bob", by decide⟩
  exact ⟨⟨row, hrow, ((storage_keeps_canonical_iff Sample.keepsReplacement_id).1 _ row hrow).mpr
    hreadable⟩, v, row, hv, hd, hrow,
    (storage_keeps_canonical_iff Sample.keepsReplacement_id).2 _ v _ row hv hd hrow⟩

/-- A malformed byte in the subject of the real actor is stored as U+FFFD, which the canonical
bytes write otherwise: the trail reads back as altered. -/
theorem malformed_subject_reads_back_altered :
    ∃ row, newAuditEvent (Sample.delegated [0xff]) 1 1500 =
        .ok (Sample.sealedDelegated [0xff]).event ∧
      insertAuditEvent (Sample.sealedDelegated [0xff]) = some row ∧
      ¬ReadsBack id (Sample.sealedDelegated [0xff]) row := by
  obtain ⟨row, hrow⟩ := Option.isSome_iff_exists.mp
    (by decide +kernel : (insertAuditEvent (Sample.sealedDelegated [0xff])).isSome = true)
  refine ⟨row, ?_, hrow, ?_⟩
  · rfl
  · rw [readsBack_iff Sample.keepsReplacement_id hrow]
    intro hreadable
    have hmalformed := (hreadable (.mk [0xff] none none none) rfl).1
    exact absurd hmalformed (by decide +kernel)

end ArchGuard.Audit
