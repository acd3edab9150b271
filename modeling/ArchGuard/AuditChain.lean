import ArchGuard.AuditEvent
import ArchGuard.Digests

/-! The hash chain of an organization's events and its verification. -/
namespace ArchGuard.Audit
open Sha256

def auditHashSize := 32
def auditGenesisNonceSize := 32

def uuidBytes (u : Uuid) : Bytes := bigEndian u.toNat 16

def genesisHash (organizationId : Uuid) (genesisNonce : Bytes) : Except AuditError Bytes :=
  if organizationId = Uuid.nil then .error (.invalidAuditEvent "organização obrigatória")
  else if genesisNonce.length ≠ auditGenesisNonceSize then .error .invalidGenesisNonce
  else .ok (sha256 (uuidBytes organizationId ++ genesisNonce))

structure SealedEvent where
  event : AuditEvent
  seq : ℕ
  prevHash : Bytes
  hash : Bytes

def SealedEvent.stored (s : SealedEvent) : SealedEvent := { s with event := s.event.stored }

theorem SealedEvent.stored_key (s : SealedEvent) :
    s.stored.event.organizationId = s.event.organizationId ∧
      s.stored.event.occurredAt.unixMicro = s.event.occurredAt.unixMicro ∧ s.stored.seq = s.seq :=
  ⟨rfl, Time.stored_unixMicro _, rfl⟩

inductive DivergenceKind
  | none | removed | brokenChain | altered | sealInvalid
  deriving DecidableEq, Repr

def DivergenceKind.text : DivergenceKind → String
  | .none => ""
  | .removed => "removed"
  | .brokenChain => "broken_chain"
  | .altered => "altered"
  | .sealInvalid => "seal_invalid"

structure VerifyReport where
  ok : Bool
  eventsChecked : ℕ := 0
  sealsChecked : ℕ := 0
  firstDivergence : ℕ := 0
  kind : DivergenceKind := .none
  detail : String := ""
  sealSignaturesChecked : Bool := false
  deriving DecidableEq, Repr

def okReport (events seals : ℕ) : VerifyReport :=
  { ok := true, eventsChecked := events, sealsChecked := seals }

def diverged (seq : ℕ) (kind : DivergenceKind) (detail : String) : VerifyReport :=
  { ok := false, firstDivergence := seq, kind := kind, detail := detail }

variable (nfc : GoText.GoString → GoText.GoString)

def linkHash (prevHash : Bytes) (e : AuditEvent) : Bytes := sha256 (prevHash ++ canonical nfc e)

def sealEvent (event : AuditEvent) (prevHash : Bytes) (seq : ℕ) : Except AuditError SealedEvent :=
  if prevHash.length ≠ auditHashSize then .error .invalidPrevHash
  else if seq < 1 then .error .invalidSeq
  else .ok ⟨event, seq, prevHash, linkHash nfc prevHash event⟩

/-- The first divergence of the events from position `i` on, if there is one. -/
def firstDivergence : (prev : Bytes) → (i : ℕ) → List SealedEvent → Option VerifyReport
  | _, _, [] => none
  | prev, i, e :: events =>
    if e.seq ≠ i+1 then some (diverged (i+1) .removed
      ("seq não consecutivo: esperado " ++ toString (i+1) ++ ", veio " ++ toString e.seq))
    else if e.prevHash ≠ prev then some (diverged e.seq .brokenChain
      ("prev_hash do evento " ++ toString e.seq ++ " não encadeia com o hash anterior"))
    else match sealEvent nfc e.event e.prevHash e.seq with
      | .error err => some (diverged e.seq .altered
          ("recomputação do evento " ++ toString e.seq ++ " falhou: " ++ err.text))
      | .ok recomputed =>
        if recomputed.hash ≠ e.hash then some (diverged e.seq .altered
          ("conteúdo do evento " ++ toString e.seq ++ " não corresponde ao hash armazenado"))
        else firstDivergence e.hash (i+1) events

def verifyChain (genesis : Bytes) (events : List SealedEvent) : VerifyReport :=
  (firstDivergence nfc genesis 0 events).getD (okReport events.length 0)

/-- The events continue a chain of `i` events whose last hash is `prev`. -/
def Linked : (prev : Bytes) → (i : ℕ) → List SealedEvent → Prop
  | _, _, [] => True
  | prev, i, e :: events => e.seq = i+1 ∧ e.prevHash = prev ∧ e.hash = linkHash nfc prev e.event ∧
      Linked e.hash (i+1) events

/-- The hash of the last event, or the one the chain starts from. -/
def headHash (genesis : Bytes) : List SealedEvent → Bytes
  | [] => genesis
  | e :: events => headHash e.hash events

variable {nfc}

theorem length_linkHash (prevHash : Bytes) (e : AuditEvent) :
    (linkHash nfc prevHash e).length = auditHashSize := length_sha256 _

theorem sealEvent_ok {event : AuditEvent} {prevHash : Bytes} {seq : ℕ} {s : SealedEvent}
    (h : sealEvent nfc event prevHash seq = .ok s) :
    s = ⟨event, seq, prevHash, linkHash nfc prevHash event⟩ := by
  unfold sealEvent at h
  split_ifs at h
  exact (Except.ok.inj h).symm

/-- The walk passes an event that links to its predecessor, whatever follows. -/
theorem firstDivergence_cons {prev : Bytes} {i : ℕ} {e : SealedEvent} (events : List SealedEvent)
    (hp : prev.length = auditHashSize) (hseq : e.seq = i+1) (hprev : e.prevHash = prev)
    (hhash : e.hash = linkHash nfc prev e.event) :
    firstDivergence nfc prev i (e :: events) = firstDivergence nfc e.hash (i+1) events := by
  have hs : sealEvent nfc e.event prev (i+1) = .ok ⟨e.event, i+1, prev, e.hash⟩ := by
    unfold sealEvent
    rw [if_neg (by rw [hp]; decide), if_neg (by omega), hhash]
  simp only [firstDivergence, hseq, hprev, hs, ne_eq, not_true_eq_false, ↓reduceIte]

theorem firstDivergence_of_linked {prev : Bytes} {i : ℕ} {events : List SealedEvent}
    (hp : prev.length = auditHashSize) (h : Linked nfc prev i events) :
    firstDivergence nfc prev i events = none := by
  induction events generalizing prev i with
  | nil => rfl
  | cons e events ih =>
    obtain ⟨hseq, hprev, hhash, hrest⟩ := h
    rw [firstDivergence_cons events hp hseq hprev hhash]
    exact ih (hhash ▸ length_linkHash prev e.event) hrest

theorem not_ok_of_firstDivergence {prev : Bytes} {i : ℕ} {events : List SealedEvent}
    {rep : VerifyReport} (h : firstDivergence nfc prev i events = some rep) : rep.ok = false := by
  induction events generalizing prev i with
  | nil => cases h
  | cons e events ih =>
    simp only [firstDivergence] at h
    split_ifs at h
    · exact Option.some.inj h ▸ rfl
    · exact Option.some.inj h ▸ rfl
    split at h
    · exact Option.some.inj h ▸ rfl
    split_ifs at h
    · exact Option.some.inj h ▸ rfl
    · exact ih h

theorem verifyChain_ok_iff {prev : Bytes} {events : List SealedEvent} :
    (verifyChain nfc prev events).ok = true ↔ firstDivergence nfc prev 0 events = none := by
  unfold verifyChain
  cases hd : firstDivergence nfc prev 0 events with
  | none => exact iff_of_true rfl rfl
  | some rep =>
    refine iff_of_false ?_ (Option.some_ne_none _)
    rw [Option.getD_some, not_ok_of_firstDivergence hd]
    exact Bool.false_ne_true

theorem linked_append {prev : Bytes} {i : ℕ} {es fs : List SealedEvent} :
    Linked nfc prev i (es ++ fs) ↔
      Linked nfc prev i es ∧ Linked nfc (headHash prev es) (i+es.length) fs := by
  induction es generalizing prev i with
  | nil => simp only [List.nil_append, Linked, headHash, List.length_nil, add_zero, true_and]
  | cons e es ih =>
    simp only [List.cons_append, Linked, headHash, List.length_cons, ih]
    rw [show i+1+es.length = i+(es.length+1) by omega]
    tauto

theorem headHash_append (prev : Bytes) (es fs : List SealedEvent) :
    headHash prev (es ++ fs) = headHash (headHash prev es) fs := by
  induction es generalizing prev with
  | nil => rfl
  | cons e es ih => exact ih e.hash

theorem seq_of_linked {prev : Bytes} {i : ℕ} {es : List SealedEvent} (h : Linked nfc prev i es) :
    es.map SealedEvent.seq = List.range' (i+1) es.length := by
  induction es generalizing prev i with
  | nil => rfl
  | cons e es ih =>
    obtain ⟨hseq, -, -, hrest⟩ := h
    rw [List.map_cons, List.length_cons, List.range'_succ, hseq, ih hrest]

theorem length_genesisHash {org : Uuid} {nonce h : Bytes} (hg : genesisHash org nonce = .ok h) :
    h.length = auditHashSize := by
  unfold genesisHash at hg
  split_ifs at hg
  exact Except.ok.inj hg ▸ length_sha256 _

end ArchGuard.Audit
