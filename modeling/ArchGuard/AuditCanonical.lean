import ArchGuard.AuditStorage
import ArchGuard.JsonText

/-! What the canonical bytes of an event determine of it. -/
namespace ArchGuard.Audit
open GoJson GoText JsonText

variable {nfc : GoString → GoString}

/-- Actors that agree up to the normal form of their subjects, and so do those behind them. -/
inductive AuditActor.Agree (nfc : GoString → GoString) : AuditActor → AuditActor → Prop
  | plain {s t : GoString} (m i : Option Uuid) (h : nfc s = nfc t) :
    Agree nfc (.mk s m i none) (.mk t m i none)
  | delegated {s t : GoString} (m i : Option Uuid) {a b : AuditActor} (h : nfc s = nfc t)
    (hact : Agree nfc a b) : Agree nfc (.mk s m i (some a)) (.mk t m i (some b))

/-- Contexts that agree up to the normal form of their strings; no methods are as good as an empty
list of them. -/
structure AuditContext.Agree (nfc : GoString → GoString) (c d : AuditContext) : Prop where
  ip : nfc c.ip = nfc d.ip
  userAgent : nfc c.userAgent = nfc d.userAgent
  authContextClass : nfc c.authContextClass = nfc d.authContextClass
  authMethods : (c.authMethods.getD []).map nfc = (d.authMethods.getD []).map nfc
  traceId : nfc c.traceId = nfc d.traceId
  privilegedCorrelationId : nfc c.privilegedCorrelationId = nfc d.privilegedCorrelationId

/-- Events that agree up to the normal form of their strings and the microsecond. -/
structure AuditEvent.Agree (nfc : GoString → GoString) (e f : AuditEvent) : Prop where
  schemaVersion : e.schemaVersion = f.schemaVersion
  eventId : e.eventId = f.eventId
  organizationId : e.organizationId = f.organizationId
  action : nfc e.action = nfc f.action
  actor : e.actor.Agree nfc f.actor
  type : nfc e.target.type = nfc f.target.type
  id : nfc e.target.id = nfc f.target.id
  label : nfc e.target.label = nfc f.target.label
  outcome : e.outcome = f.outcome
  reason : nfc e.reason = nfc f.reason
  context : e.context.Agree nfc f.context
  occurredAt : e.occurredAt.stored = f.occurredAt.stored

section Normal

-- What the package of the normal form promises.
variable (hidem : ∀ s, nfc (nfc s) = nfc s) (hvalid : ∀ s, malformed s = 0 → malformed (nfc s) = 0)

include hvalid in
theorem malformed_normalize {s : GoString} (hs : malformed s = 0) :
    malformed (normalize nfc s) = 0 := by
  unfold normalize
  split_ifs
  · rfl
  · exact hvalid s hs

include hidem in
theorem nfc_normalize (s : GoString) : nfc (normalize nfc s) = nfc s := by
  unfold normalize
  split_ifs with hempty
  · rw [hempty]
  · exact hidem s

include hidem hvalid in
theorem nfc_eq {s t : GoString} (hs : malformed s = 0) (ht : malformed t = 0)
    (h : denoted (.str (normalize nfc s)) = denoted (.str (normalize nfc t))) : nfc s = nfc t := by
  have hnormal := str_eq h (malformed_normalize hvalid hs) (malformed_normalize hvalid ht)
  rw [← nfc_normalize hidem s, ← nfc_normalize hidem t, hnormal]

include hidem hvalid in
theorem methods_eq {ms ns : List GoString} (hms : ∀ m ∈ ms, malformed m = 0)
    (hns : ∀ m ∈ ns, malformed m = 0)
    (h : denoted (.arr (ms.map fun m => .str (normalize nfc m))) =
      denoted (.arr (ns.map fun m => .str (normalize nfc m)))) : ms.map nfc = ns.map nfc := by
  rw [denoted_arr, denoted_arr, List.map_map, List.map_map] at h
  replace h := Value.arr.inj h
  induction ms generalizing ns with
  | nil =>
    rw [List.map_nil] at h
    rw [List.map_eq_nil_iff.mp h.symm]
  | cons m ms ih =>
    cases ns with
    | nil => cases h
    | cons n ns =>
      obtain ⟨hhead, htail⟩ := List.cons.inj h
      have hm : nfc m = nfc n := nfc_eq hidem hvalid (hms m List.mem_cons_self)
        (hns n List.mem_cons_self) hhead
      rw [List.map_cons, List.map_cons, hm,
        ih (fun x hx => hms x (List.mem_cons_of_mem m hx))
          (fun x hx => hns x (List.mem_cons_of_mem n hx)) htail]

end Normal

section Actor

variable (nfc) in
/-- The member of the actor behind, where there is one. -/
def actMember (act : Option AuditActor) : List (String × Json) :=
  (act.map fun a => ("act", canonicalActor nfc a)).toList

theorem canonicalActor_eq (s : GoString) (m i : Option Uuid) (act : Option AuditActor) :
    canonicalActor nfc (.mk s m i act) = .obj (actorFields nfc s m i ++ actMember nfc act) := by
  cases act with
  | none =>
    rw [canonicalActor]
    exact congrArg Json.obj (List.append_nil _).symm
  | some a => exact canonicalActor.eq_2 nfc s m i a

theorem keys_actor (s : GoString) (m i : Option Uuid) (act : Option AuditActor) :
    ((actorFields nfc s m i ++ actMember nfc act).map Prod.fst).Nodup := by
  have hsub : ((actorFields nfc s m i ++ actMember nfc act).map Prod.fst).Sublist
      ["identity_subject", "membership_id", "session_id", "act"] := by
    cases m <;> cases i <;> cases act <;> simp [actorFields, actMember]
  exact hsub.nodup (by decide)

variable (nfc) in
theorem lookup_actor (s : GoString) (m i : Option Uuid) (act : Option AuditActor) :
    let fields := actorFields nfc s m i ++ actMember nfc act
    fields.lookup "identity_subject" = some (.str (normalize nfc s)) ∧
      fields.lookup "membership_id" = m.map (fun u => .str u.text) ∧
      fields.lookup "session_id" = i.map (fun u => .str u.text) ∧
      fields.lookup "act" = act.map (canonicalActor nfc) := by
  cases m <;> cases i <;> cases act <;> simp [actorFields, actMember, List.lookup_cons]

theorem uuid_eq {u v : Option Uuid} (h : ((u.map fun u => Json.str u.text).map denoted).getD .null =
    ((v.map fun u => Json.str u.text).map denoted).getD .null) : u = v := by
  cases u with
  | none =>
    cases v with
    | none => rfl
    | some v =>
      rw [Option.map_some, Option.map_some, Option.getD_some, denoted_str] at h
      cases h
  | some u =>
    cases v with
    | none =>
      rw [Option.map_some, Option.map_some, Option.getD_some, denoted_str] at h
      cases h
    | some v => exact congrArg some (Uuid.text_injective (text_eq h))

theorem actor_agree (hidem : ∀ s, nfc (nfc s) = nfc s)
    (hvalid : ∀ s, malformed s = 0 → malformed (nfc s) = 0) :
    ∀ a b : AuditActor, a.malformedBytes = 0 → b.malformedBytes = 0 →
      denoted (canonicalActor nfc a) = denoted (canonicalActor nfc b) → a.Agree nfc b
  | .mk s m i act, .mk t m' i' act', ha, hb, h => by
    have hs : malformed s = 0 := by
      cases act <;> rw [AuditActor.malformedBytes] at ha <;> omega
    have ht : malformed t = 0 := by
      cases act' <;> rw [AuditActor.malformedBytes] at hb <;> omega
    rw [canonicalActor_eq, canonicalActor_eq] at h
    have hmember := member_eq h (keys_actor s m i act) (keys_actor t m' i' act')
    obtain ⟨hsubject, hmembership, hsession, hbehind⟩ := lookup_actor nfc s m i act
    obtain ⟨hsubject', hmembership', hsession', hbehind'⟩ := lookup_actor nfc t m' i' act'
    have heqsubject : nfc s = nfc t := by
      apply nfc_eq hidem hvalid hs ht
      have heq := hmember "identity_subject"
      rwa [hsubject, hsubject'] at heq
    have heqmembership : m = m' := by
      apply uuid_eq
      rw [← hmembership, ← hmembership', hmember]
    have heqsession : i = i' := by
      apply uuid_eq
      rw [← hsession, ← hsession', hmember]
    have heqact := hmember "act"
    rw [hbehind, hbehind'] at heqact
    subst heqmembership heqsession
    rcases act with _ | a
    · rcases act' with _ | ⟨_, _, _, _⟩
      · exact .plain m i heqsubject
      · rw [Option.map_some, Option.map_some, Option.getD_some, canonicalActor_eq, denoted_obj] at heqact
        cases heqact
    · rcases act' with _ | b
      · obtain ⟨_, _, _, _⟩ := a
        rw [Option.map_some, Option.map_some, Option.getD_some, canonicalActor_eq, denoted_obj] at heqact
        cases heqact
      · rw [AuditActor.malformedBytes] at ha hb
        exact .delegated m i heqsubject
          (actor_agree hidem hvalid a b (by omega) (by omega) heqact)

end Actor

theorem Outcome.serialized_injective : Function.Injective Outcome.serialized := by
  intro o p h
  cases o <;> cases p <;> first | rfl | exact absurd h (by decide)

/-- Events of equal canonical bytes agree. -/
theorem agree_of_canonical_eq (hidem : ∀ s, nfc (nfc s) = nfc s)
    (hvalid : ∀ s, malformed s = 0 → malformed (nfc s) = 0) {e f : AuditEvent} (he : e.WellFormed)
    (hf : f.WellFormed) (h : canonical nfc e = canonical nfc f) : e.Agree nfc f := by
  have hdenoted := denoted_of_render_eq (canonical_injective h)
  rw [canonicalJson, canonicalJson] at hdenoted
  have hmember := member_eq hdenoted (by simp) (by simp)
  have htarget := member_eq (hmember "target") (by simp) (by simp)
  have hcontext := member_eq (hmember "context") (by simp) (by simp)
  exact {
    schemaVersion := int_eq (hmember "schema_version")
    eventId := Uuid.text_injective (text_eq (hmember "event_id"))
    organizationId := Uuid.text_injective (text_eq (hmember "organization_id"))
    action := nfc_eq hidem hvalid (malformed_utf8 _) (malformed_utf8 _) (hmember "action")
    actor := actor_agree hidem hvalid _ _ he.actor hf.actor (hmember "actor")
    type := nfc_eq hidem hvalid he.type hf.type (htarget "type")
    id := nfc_eq hidem hvalid he.id hf.id (htarget "id")
    label := nfc_eq hidem hvalid he.label hf.label (htarget "label")
    outcome := Outcome.serialized_injective (text_eq (hmember "outcome"))
    reason := nfc_eq hidem hvalid he.reason hf.reason (hmember "reason")
    context := {
      ip := nfc_eq hidem hvalid he.ip hf.ip (hcontext "ip")
      userAgent := nfc_eq hidem hvalid he.userAgent hf.userAgent (hcontext "user_agent")
      authContextClass :=
        nfc_eq hidem hvalid he.authContextClass hf.authContextClass (hcontext "acr")
      authMethods := methods_eq hidem hvalid he.authMethods hf.authMethods (hcontext "amr")
      traceId := nfc_eq hidem hvalid he.traceId hf.traceId (hcontext "trace_id")
      privilegedCorrelationId := nfc_eq hidem hvalid he.privilegedCorrelationId
        hf.privilegedCorrelationId (hcontext "pcid") }
    occurredAt := congrArg (· * 1000) (int_eq (hmember "occurred_at_us")) }

/-- A login on behalf of someone else, with no authentication methods. -/
def delegatedLogin : AuditEvent :=
  ⟨1, 7#128, 8#128, "auth.login", .mk (utf8 "ana") (some 9#128) none (some (.mk (utf8 "rui") none none none)),
    ⟨utf8 "session", utf8 "s1", []⟩, .allowed, utf8 "a \"quoted\" reason",
    ⟨utf8 "10.0.0.1", [], [], none, [], []⟩, 1234567⟩

theorem delegatedLogin_wellFormed : delegatedLogin.WellFormed := by
  constructor <;> decide

theorem delegatedLogin_stored_wellFormed : delegatedLogin.stored.WellFormed := by
  constructor <;> decide

theorem agree_of_canonical_eq_delegatedLogin : delegatedLogin.Agree id delegatedLogin.stored :=
  agree_of_canonical_eq (fun _ => rfl) (fun _ h => h) delegatedLogin_wellFormed
    delegatedLogin_stored_wellFormed (canonical_stored id delegatedLogin).symm

/-- The bytes do not tell a nil slice of methods from an empty one. -/
theorem canonical_nil_methods : delegatedLogin.WellFormed ∧ delegatedLogin.stored.WellFormed ∧
    canonical id delegatedLogin = canonical id delegatedLogin.stored ∧
    delegatedLogin.context.authMethods = none ∧
    delegatedLogin.stored.context.authMethods = some [] :=
  ⟨delegatedLogin_wellFormed, delegatedLogin_stored_wellFormed,
    (canonical_stored id delegatedLogin).symm, rfl, rfl⟩

end ArchGuard.Audit
