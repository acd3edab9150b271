import ArchGuard.AuditStorage
import ArchGuard.AuditTamper

/-! What a reader finds in the rows of a chain: each event as its columns give it back. -/
namespace ArchGuard.Audit
open GoJson GoText Sha256

/-- The decoder takes the actors behind the acting subject. -/
def SealedEvent.Shallow (s : SealedEvent) : Prop :=
  ∀ act ∈ s.event.actor.act, act.nesting ≤ maxNestingDepth

/-- The row reads back, and the bytes that it then has hash to the stored hash. -/
def SealedEvent.Rehashes (nfc : GoString → GoString) (s : SealedEvent) : Prop :=
  s.Shallow ∧ linkHash nfc s.prevHash s.readBack.event = s.hash

/-- The hash does not collide on the bytes of an event and those that its row reads back as. -/
def SealedEvent.HashedApart (nfc : GoString → GoString) (s : SealedEvent) : Prop :=
  sha256 (hashed nfc s.readBack) = sha256 (hashed nfc s) → hashed nfc s.readBack = hashed nfc s

@[simp] theorem readBack_seq (s : SealedEvent) : s.readBack.seq = s.seq := rfl

@[simp] theorem readBack_prevHash (s : SealedEvent) : s.readBack.prevHash = s.prevHash := rfl

@[simp] theorem readBack_hash (s : SealedEvent) : s.readBack.hash = s.hash := rfl

section Rows

theorem scanSealedEvent_row_iff {s : StoredEvent} {r : SealedEvent} :
    scanSealedEvent s.row s.1.event.organizationId = .ok r ↔ s.1.Shallow ∧ r = s.1.readBack := by
  constructor
  · intro h
    have hshallow : s.1.Shallow := shallow_of_scanSealedEvent s.row_eq h
    rw [scanSealedEvent_of_shallow s.row_eq hshallow] at h
    exact ⟨hshallow, (Except.ok.inj h).symm⟩
  · rintro ⟨hshallow, rfl⟩
    exact scanSealedEvent_of_shallow s.row_eq hshallow

/-- Rows are read if each of them is; one that nests too deep fails the reading. -/
theorem mapM_scanSealedEvent_iff {org : Uuid} {rows : List StoredEvent} {events : List SealedEvent}
    (horg : ∀ s ∈ rows, s.1.event.organizationId = org) :
    rows.mapM (fun s => scanSealedEvent s.row org) = .ok events ↔
      (∀ s ∈ rows, s.1.Shallow) ∧ events = (rows.map Subtype.val).map SealedEvent.readBack := by
  induction rows generalizing events with
  | nil =>
    rw [List.mapM_nil]
    constructor
    · intro h
      exact ⟨fun _ hs => absurd hs List.not_mem_nil, (Except.ok.inj h).symm⟩
    · rintro ⟨-, rfl⟩
      rfl
  | cons s rows ih =>
    obtain ⟨hs, hrows⟩ := List.forall_mem_cons.mp horg
    subst hs
    rw [List.mapM_cons, bind_eq_ok, List.forall_mem_cons]
    constructor
    · rintro ⟨r, hr, h⟩
      obtain ⟨rest, hrest, h⟩ := bind_eq_ok.mp h
      obtain ⟨hshallow, rfl⟩ := scanSealedEvent_row_iff.mp hr
      obtain ⟨hall, rfl⟩ := (ih hrows).mp hrest
      exact ⟨⟨hshallow, hall⟩, (Except.ok.inj h).symm⟩
    · rintro ⟨⟨hshallow, hall⟩, rfl⟩
      refine ⟨_, scanSealedEvent_row_iff.mpr ⟨hshallow, rfl⟩, ?_⟩
      exact bind_eq_ok.mpr ⟨_, (ih hrows).mpr ⟨hall, rfl⟩, rfl⟩

theorem wellFormed_of_scanSealedEvent {row : AuditRow} {org : Uuid} {r : SealedEvent}
    (h : scanSealedEvent row org = .ok r)
    (hact : ∀ act ∈ r.event.actor.act, act.malformedBytes = 0) : r.event.WellFormed := by
  unfold scanSealedEvent at h
  obtain ⟨eventId, -, h⟩ := bind_eq_ok.mp h
  obtain ⟨outcome, -, h⟩ := bind_eq_ok.mp h
  obtain ⟨membershipId, -, h⟩ := bind_eq_ok.mp h
  obtain ⟨sessionId, -, h⟩ := bind_eq_ok.mp h
  obtain ⟨act, -, h⟩ := bind_eq_ok.mp h
  have hr := Except.ok.inj h
  have hkept : ∀ a, act = some a → a.malformedBytes = 0 := by
    intro a ha
    apply hact
    rw [← hr]
    exact ha
  rw [← hr]
  refine ⟨?_, malformed_utf8 _, malformed_utf8 _, malformed_utf8 _, malformed_utf8 _,
    malformed_utf8 _, malformed_utf8 _, malformed_utf8 _, ?_, malformed_utf8 _, malformed_utf8 _⟩
  · cases act with
    | none => exact malformed_utf8 _
    | some act =>
      simp only [AuditActor.malformedBytes, malformed_utf8, hkept act rfl]
  · intro m hm
    obtain ⟨s, -, rfl⟩ := List.mem_map.mp hm
    exact malformed_utf8 s

theorem wellFormed_readBack {s : StoredEvent} (h : s.1.Shallow) :
    s.1.readBack.event.WellFormed := by
  apply wellFormed_of_scanSealedEvent (scanSealedEvent_row_iff.mpr ⟨h, rfl⟩)
  intro act hact
  obtain ⟨a, -, rfl⟩ := Option.map_eq_some_iff.mp hact
  exact malformedBytes_coerced a

end Rows

section Chain

variable {nfc : GoString → GoString} {g : Bytes} {i : ℕ} {es : List SealedEvent} {e : SealedEvent}

theorem hash_of_linked (h : Linked nfc g i es) :
    ∀ e ∈ es, e.hash = linkHash nfc e.prevHash e.event := by
  induction es generalizing g i with
  | nil => exact fun _ he => absurd he List.not_mem_nil
  | cons e es ih =>
    obtain ⟨-, hprev, hhash, hrest⟩ := h
    exact List.forall_mem_cons.mpr ⟨hprev ▸ hhash, ih hrest⟩

theorem hashed_readBack (h : e.event.Readable) : hashed nfc e.readBack = hashed nfc e := by
  have hback : e.readBack = e.stored := readBack_eq_stored fun act hact => (h act hact).1
  rw [hback, hashed, hashed, SealedEvent.stored, canonical_stored]

theorem hashedApart_of_readable (h : e.event.Readable) : e.HashedApart nfc :=
  fun _ => hashed_readBack h

theorem rehashes_of_readable (hhash : e.hash = linkHash nfc e.prevHash e.event)
    (h : e.event.Readable) : e.Rehashes nfc := by
  refine ⟨fun act hact => (h act hact).2, ?_⟩
  rw [hhash]
  exact congrArg sha256 (hashed_readBack h)

theorem readable_of_rehashes (hnfc : KeepsReplacement nfc) (hfree : e.HashedApart nfc)
    (hhash : e.hash = linkHash nfc e.prevHash e.event) (h : e.Rehashes nfc) : e.event.Readable := by
  have hbytes : hashed nfc e.readBack = hashed nfc e := hfree (h.2.trans hhash)
  have hcanonical : canonical nfc e.readBack.event = canonical nfc e.event :=
    List.append_cancel_left hbytes
  have hvalid := (canonical_readBack_iff hnfc).mp hcanonical
  exact fun act hact => ⟨hvalid act hact, h.1 act hact⟩

/-- The events as they read back are linked like the events that were written, as far as each of
them hashes to its stored hash. -/
theorem linked_map_readBack (hown : ∀ e ∈ es, e.hash = linkHash nfc e.prevHash e.event) :
    Linked nfc g i (es.map SealedEvent.readBack) ↔ Linked nfc g i es ∧
      ∀ e ∈ es, linkHash nfc e.prevHash e.readBack.event = e.hash := by
  induction es generalizing g i with
  | nil => exact iff_of_true trivial ⟨trivial, fun _ he => absurd he List.not_mem_nil⟩
  | cons e es ih =>
    obtain ⟨he, hes⟩ := List.forall_mem_cons.mp hown
    simp only [List.map_cons, Linked, readBack_seq, readBack_prevHash, readBack_hash, ih hes,
      List.forall_mem_cons]
    constructor
    · rintro ⟨hseq, hprev, hhash, hrest, hall⟩
      exact ⟨⟨hseq, hprev, hprev ▸ he, hrest⟩, hprev ▸ hhash.symm, hall⟩
    · rintro ⟨⟨hseq, hprev, -, hrest⟩, hhash, hall⟩
      exact ⟨hseq, hprev, hprev ▸ hhash.symm, hrest, hall⟩

theorem firstDivergence_iff_linked (hp : g.length = auditHashSize) :
    firstDivergence nfc g i es = none ↔ Linked nfc g i es :=
  ⟨linked_of_firstDivergence, firstDivergence_of_linked hp⟩

/-- The walk over the rows of chained events finds what it would find in the events as they were
written, and each row that does not hash to its stored hash. -/
theorem firstDivergence_map_readBack (hp : g.length = auditHashSize)
    (hown : ∀ e ∈ es, e.hash = linkHash nfc e.prevHash e.event) :
    firstDivergence nfc g i (es.map SealedEvent.readBack) = none ↔
      firstDivergence nfc g i es = none ∧
        ∀ e ∈ es, linkHash nfc e.prevHash e.readBack.event = e.hash := by
  rw [firstDivergence_iff_linked hp, firstDivergence_iff_linked hp, linked_map_readBack hown]

end Chain

end ArchGuard.Audit
