import ArchGuard.AuditChain
import ArchGuard.JsonText

/-! What the last hash of an accepted chain pins down: every event before it. -/
namespace ArchGuard.Audit
open Sha256

variable (nfc : GoText.GoString → GoText.GoString)

/-- The bytes that are hashed to link a sealed event to its predecessor. -/
def hashed (e : SealedEvent) : Bytes := e.prevHash ++ canonical nfc e.event

/-- What the trail says of one event: its canonical bytes, its number and its hash. -/
def recorded (e : SealedEvent) : Bytes × ℕ × Bytes := (canonical nfc e.event, e.seq, e.hash)

def CollisionFree (es fs : List SealedEvent) : Prop :=
  ∀ x ∈ (es ++ fs).map (hashed nfc), ∀ y ∈ (es ++ fs).map (hashed nfc), sha256 x = sha256 y → x = y

/-- The canonical bytes, put together character by character. -/
def encodedBytes (e : AuditEvent) : Bytes :=
  (JsonText.encode GoJson.escape (JsonText.sorted (canonicalJson nfc e))).flatMap String.utf8EncodeChar

theorem canonical_eq_encodedBytes (e : AuditEvent) : canonical nfc e = encodedBytes nfc e := by
  rw [encodedBytes, ← JsonText.toList_render]
  rfl

variable {nfc}

theorem linked_of_firstDivergence {prev : Bytes} {i : ℕ} {events : List SealedEvent}
    (h : firstDivergence nfc prev i events = none) : Linked nfc prev i events := by
  induction events generalizing prev i with
  | nil => exact trivial
  | cons e events ih =>
    simp only [firstDivergence] at h
    split_ifs at h with hseq hprev
    split at h
    · exact absurd h (Option.some_ne_none _)
    · next recomputed hok =>
      split_ifs at h with hhash
      have heq := sealEvent_ok hok
      have hlink : e.hash = linkHash nfc prev e.event := by
        rw [← not_not.mp hprev, ← not_not.mp hhash, heq]
      exact ⟨not_not.mp hseq, not_not.mp hprev, hlink, ih h⟩

theorem length_of_firstDivergence {prev : Bytes} {i : ℕ} {e : SealedEvent}
    {events : List SealedEvent} (h : firstDivergence nfc prev i (e :: events) = none) :
    prev.length = auditHashSize := by
  simp only [firstDivergence] at h
  split_ifs at h with hseq hprev
  split at h
  · exact absurd h (Option.some_ne_none _)
  · next recomputed hok =>
    unfold sealEvent at hok
    split_ifs at hok with hlen hpos
    rw [← not_not.mp hprev]
    exact not_not.mp hlen

theorem headHash_eq_getLast (genesis : Bytes) (es : List SealedEvent) :
    headHash genesis es = (es.getLast?.map SealedEvent.hash).getD genesis := by
  induction es generalizing genesis with
  | nil => rfl
  | cons e es ih =>
    rw [headHash, ih e.hash, List.getLast?_cons]
    cases es.getLast? with
    | none => rfl
    | some l => rfl

/-- One link is unambiguous: where the concatenations agree, so do the previous hashes and the
canonical bytes, since both previous hashes have the size of a hash. -/
theorem link_injective {p q c d : Bytes} (hp : p.length = auditHashSize)
    (hq : q.length = auditHashSize) (h : p ++ c = q ++ d) : p = q ∧ c = d := by
  apply List.append_inj h
  rw [hp, hq]

theorem recorded_eq_of_headHash {p q : Bytes} {i : ℕ} {es fs : List SealedEvent}
    (hp : p.length = auditHashSize) (hq : q.length = auditHashSize)
    (hes : Linked nfc p i es) (hfs : Linked nfc q i fs) (hlen : es.length = fs.length)
    (hhead : headHash p es = headHash q fs) (hfree : CollisionFree nfc es fs) :
    p = q ∧ es.map (recorded nfc) = fs.map (recorded nfc) := by
  -- The head pins the chain from its end: the induction hands back the hash the rest starts from.
  induction es generalizing p q i fs with
  | nil =>
    have hnil : fs = [] := List.length_eq_zero_iff.mp hlen.symm
    subst hnil
    exact ⟨hhead, rfl⟩
  | cons e es ih =>
    match fs with
    | [] => exact absurd hlen (Nat.succ_ne_zero _)
    | f :: fs =>
      obtain ⟨heseq, hep, hehash, herest⟩ := hes
      obtain ⟨hfseq, hfq, hfhash, hfrest⟩ := hfs
      have helen : e.hash.length = auditHashSize := hehash ▸ length_linkHash p e.event
      have hflen : f.hash.length = auditHashSize := hfhash ▸ length_linkHash q f.event
      have hsub : CollisionFree nfc es fs := by
        intro x hx y hy
        apply hfree x _ y
        · simp only [List.cons_append, List.map_cons, List.map_append, List.mem_cons,
            List.mem_append] at hy ⊢
          tauto
        · simp only [List.cons_append, List.map_cons, List.map_append, List.mem_cons,
            List.mem_append] at hx ⊢
          tauto
      obtain ⟨hhash, hrest⟩ :=
        ih helen hflen herest hfrest (Nat.succ_injective hlen) hhead hsub
      -- The two links hash the same bytes, for their hashes agree.
      have hin : hashed nfc e = hashed nfc f := by
        apply hfree _ (by simp) _ (by simp)
        calc sha256 (hashed nfc e) = e.hash := by rw [hehash, linkHash, hashed, hep]
          _ = f.hash := hhash
          _ = sha256 (hashed nfc f) := by rw [hfhash, linkHash, hashed, hfq]
      rw [hashed, hashed, hep, hfq] at hin
      obtain ⟨hpq, hcanonical⟩ := link_injective hp hq hin
      have hrec : recorded nfc e = recorded nfc f := by
        rw [recorded, recorded, hcanonical, heseq, hfseq, hhash]
      exact ⟨hpq, by rw [List.map_cons, List.map_cons, hrec, hrest]⟩

/-- Tamper evidence: two chains that are accepted from one genesis, have one length and end in one
hash record the same canonical bytes, numbers and hashes, position by position. -/
theorem verifyChain_pins_events (genesis : Bytes) (es fs : List SealedEvent)
    (hfree : CollisionFree nfc es fs) (hlen : es.length = fs.length)
    (hes : (verifyChain nfc genesis es).ok = true) (hfs : (verifyChain nfc genesis fs).ok = true)
    (hlast : es.getLast?.map SealedEvent.hash = fs.getLast?.map SealedEvent.hash) :
    es.map (recorded nfc) = fs.map (recorded nfc) := by
  rw [verifyChain_ok_iff] at hes hfs
  have hhead : headHash genesis es = headHash genesis fs := by
    rw [headHash_eq_getLast, headHash_eq_getLast, hlast]
  match es, fs with
  | [], [] => rfl
  | [], f :: fs => exact absurd hlen.symm (Nat.succ_ne_zero _)
  | e :: es, fs =>
    have hg : genesis.length = auditHashSize := length_of_firstDivergence hes
    exact (recorded_eq_of_headHash hg hg (linked_of_firstDivergence hes)
      (linked_of_firstDivergence hfs) hlen hhead hfree).2

namespace Sample

def zeroGenesis : Bytes := List.replicate 32 0

def loginEvent (eventId : Uuid) (occurredAt : Time) : AuditEvent :=
  { schemaVersion := auditSchemaVersion, eventId, organizationId := 2, action := "auth.login",
    actor := .mk "alice" none none none, target := ⟨"session", "7", ""⟩, outcome := .allowed,
    reason := "", context := ⟨"", "", "", some ["pwd"], "", ""⟩, occurredAt }

def firstLogin : SealedEvent :=
  ⟨loginEvent 1 1500, 1, zeroGenesis, linkHash id zeroGenesis (loginEvent 1 1500)⟩

def secondLogin : SealedEvent :=
  ⟨loginEvent 3 2500, 2, firstLogin.hash, linkHash id firstLogin.hash (loginEvent 3 2500)⟩

theorem hashes_apart : sha256 (hashed id firstLogin) ≠ sha256 (hashed id secondLogin) := by
  simp only [hashed, firstLogin, secondLogin, linkHash, canonical_eq_encodedBytes]
  decide +kernel

theorem logins_linked : Linked id zeroGenesis 0 [firstLogin, secondLogin] := by
  rw [Linked, Linked, Linked]
  refine ⟨?_, ?_, ?_, ?_, ?_, ?_, trivial⟩
  · rw [firstLogin]
  · rw [firstLogin]
  · rw [firstLogin]
  · rw [secondLogin]
  · rw [secondLogin]
  · rw [secondLogin]

end Sample

theorem hashed_stored (e : SealedEvent) : hashed nfc e.stored = hashed nfc e := by
  simp only [hashed, SealedEvent.stored, canonical_stored]

theorem collisionFree_stored {es : List SealedEvent} (h : ∀ x ∈ es.map (hashed nfc),
    ∀ y ∈ es.map (hashed nfc), sha256 x = sha256 y → x = y) :
    CollisionFree nfc es (es.map SealedEvent.stored) := by
  have hmap : (es ++ es.map SealedEvent.stored).map (hashed nfc) =
      es.map (hashed nfc) ++ es.map (hashed nfc) := by
    simp only [List.map_append, List.map_map, Function.comp_def, hashed_stored]
  intro x hx y hy
  rw [hmap, List.mem_append, or_self] at hx hy
  exact h x hx y hy

theorem linked_stored {prev : Bytes} {i : ℕ} {events : List SealedEvent}
    (h : Linked nfc prev i events) : Linked nfc prev i (events.map SealedEvent.stored) := by
  induction events generalizing prev i with
  | nil => trivial
  | cons e events ih =>
    obtain ⟨hseq, hprev, hhash, hrest⟩ := h
    refine ⟨hseq, hprev, ?_, ih hrest⟩
    simpa only [SealedEvent.stored, linkHash, canonical_stored] using hhash

/-- Two linked events and what the columns keep of them, which differ in the fraction of a
microsecond. -/
theorem verifyChain_pins_login :
    Sample.firstLogin.event.occurredAt ≠ Sample.firstLogin.stored.event.occurredAt ∧
      [Sample.firstLogin, Sample.secondLogin].map (recorded id) =
        [Sample.firstLogin.stored, Sample.secondLogin.stored].map (recorded id) := by
  refine ⟨by decide, ?_⟩
  have hfree : CollisionFree id [Sample.firstLogin, Sample.secondLogin]
      ([Sample.firstLogin, Sample.secondLogin].map SealedEvent.stored) := by
    apply collisionFree_stored
    intro x hx y hy hxy
    simp only [List.map_cons, List.map_nil, List.mem_cons, List.not_mem_nil, or_false] at hx hy
    rcases hx with rfl | rfl
    · rcases hy with rfl | rfl
      · rfl
      · exact absurd hxy Sample.hashes_apart
    · rcases hy with rfl | rfl
      · exact absurd hxy.symm Sample.hashes_apart
      · rfl
  have hg : Sample.zeroGenesis.length = auditHashSize := List.length_replicate
  have hok : (verifyChain id Sample.zeroGenesis [Sample.firstLogin, Sample.secondLogin]).ok = true :=
    verifyChain_ok_iff.mpr (firstDivergence_of_linked hg Sample.logins_linked)
  have hstored : (verifyChain id Sample.zeroGenesis
      [Sample.firstLogin.stored, Sample.secondLogin.stored]).ok = true :=
    verifyChain_ok_iff.mpr (firstDivergence_of_linked hg (linked_stored Sample.logins_linked))
  have hlast : [Sample.firstLogin, Sample.secondLogin].getLast?.map SealedEvent.hash =
      [Sample.firstLogin.stored, Sample.secondLogin.stored].getLast?.map SealedEvent.hash := by
    simp only [List.getLast?_cons_cons, List.getLast?_singleton, Option.map_some,
      SealedEvent.stored]
  exact verifyChain_pins_events Sample.zeroGenesis _ _ hfree rfl hok hstored hlast

end ArchGuard.Audit
