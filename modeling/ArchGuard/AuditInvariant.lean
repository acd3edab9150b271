import ArchGuard.AuditProgram

/-! The chain of every organization, in the committed rows and in what each open
transaction sees. -/
namespace ArchGuard.Audit
open ReadCommitted Sha256

abbrev AuditCfg := Cfg Row Pc

def eventAt (s : Db) (org : Uuid) (occurredAt : ℤ) (seq : ℕ) : Option SealedEvent :=
  (s.row (.event org occurredAt seq)).map fun v => v.1.1

def rowKey (e : SealedEvent) : Key :=
  .event e.event.organizationId e.event.occurredAt.unixMicro e.seq

def HasEvent (s : Db) (e : SealedEvent) : Prop :=
  eventAt s e.event.organizationId e.event.occurredAt.unixMicro e.seq = some e

def Trail (s : Db) (org : Uuid) (es : List SealedEvent) : Prop :=
  ∀ e, e ∈ es ↔ HasEvent s e ∧ e.event.organizationId = org

variable (nfc : GoText.GoString → GoText.GoString)

/-- Head row and event rows of one organization agree. -/
structure ChainOf (s : Db) (org : Uuid) (h : ChainHead) (g : Bytes) (es : List SealedEvent) :
    Prop where
  head : s.row (.head org) = some h
  genesis : genesisHash org h.genesisNonce = .ok g
  linked : Linked nfc g 0 es
  lastSeq : es.length = h.lastSeq
  headHash : Audit.headHash g es = h.headHash

/-- An organization without a head has no events; otherwise its events are the chain
from its genesis to its head. -/
def ChainOk (s : Db) (org : Uuid) : Prop :=
  (s.row (.head org) = none ∧ Trail s org []) ∨
    ∃ h g es, ChainOf nfc s org h g es ∧ Trail s org es

/-- `x` is the next event of its organization's chain. -/
structure Next (s : Db) (h : ChainHead) (x : SealedEvent) : Prop where
  head : s.row (.head x.event.organizationId) = some h
  seq : x.seq = h.lastSeq+1
  prevHash : x.prevHash = h.headHash
  hash : x.hash = linkHash nfc h.headHash x.event

/-- The event is written and the head not yet moved to it. -/
def MidAppend (s : Db) (x : SealedEvent) : Prop :=
  ∃ h g es, ChainOf nfc s x.event.organizationId h g es ∧ Next nfc s h x ∧
    Trail s x.event.organizationId (es ++ [x.stored])

/-- A statement that may open a transaction. -/
def Starts : Pc → Prop
  | .createHead e genesis nonce _ => genesisHash e.organizationId nonce.1 = .ok genesis
  | .lookupSubject .. | .fail => True
  | _ => False

/-- What a transaction sees at each of its statements. -/
def ViewOk (s : Db) : Pc → Prop
  | .createHead e genesis nonce _ => (∀ org, ChainOk nfc s org) ∧
      genesisHash e.organizationId nonce.1 = .ok genesis
  | .insertEvent x _ => (∀ org, ChainOk nfc s org) ∧ ∃ h, Next nfc s h x.1
  | .advanceHead x _ => (∀ org, org ≠ x.event.organizationId → ChainOk nfc s org) ∧
      MidAppend nfc s x
  | .commit next => (∀ org, ChainOk nfc s org) ∧ ∀ l, next = some l → Starts l
  | .fail => True
  | _ => ∀ org, ChainOk nfc s org

def needsHead : Pc → Option Uuid
  | .insertEvent x _ => some x.1.event.organizationId
  | .advanceHead x _ => some x.event.organizationId
  | _ => none

def HoldsHead (c : AuditCfg) (i : ℕ) (org : Uuid) : Prop := ∃ v, c.lock (.head org) = some (i, v)

structure Inv (c : AuditCfg) : Prop where
  live : OwnersLive c
  base : ∀ org, ChainOk nfc c.db org
  guard : ∀ org occurredAt seq i v, c.lock (.event org occurredAt seq) = some (i, v) →
    HoldsHead c i org
  pcs : ∀ i l, c.proc i = some l → ViewOk nfc (c.view i) l
  heads : ∀ i l org, c.proc i = some l → needsHead l = some org → HoldsHead c i org

variable {nfc}

/-- Two states with the same head row and event rows of an organization. -/
structure SameOrg (s s' : Db) (org : Uuid) : Prop where
  head : s'.row (.head org) = s.row (.head org)
  event : ∀ occurredAt seq, s'.row (.event org occurredAt seq) = s.row (.event org occurredAt seq)

section Congr

variable {s s' : Db} {org : Uuid}

theorem SameOrg.hasEvent (h : SameOrg s s' org) {e : SealedEvent}
    (he : e.event.organizationId = org) : HasEvent s' e ↔ HasEvent s e := by
  subst he
  simp only [HasEvent, eventAt, h.event]

theorem SameOrg.trail (h : SameOrg s s' org) {es : List SealedEvent} (ht : Trail s org es) :
    Trail s' org es := by
  intro e
  rw [ht e]
  exact ⟨fun ⟨hs, he⟩ => ⟨(h.hasEvent he).mpr hs, he⟩, fun ⟨hs, he⟩ => ⟨(h.hasEvent he).mp hs, he⟩⟩

theorem SameOrg.chainOf (h : SameOrg s s' org) {hd : ChainHead} {g : Bytes} {es : List SealedEvent}
    (hc : ChainOf nfc s org hd g es) : ChainOf nfc s' org hd g es :=
  ⟨h.head.trans hc.head, hc.genesis, hc.linked, hc.lastSeq, hc.headHash⟩

theorem SameOrg.chainOk (h : SameOrg s s' org) (hc : ChainOk nfc s org) : ChainOk nfc s' org := by
  rcases hc with ⟨hn, ht⟩ | ⟨hd, g, es, hc, ht⟩
  · exact Or.inl ⟨h.head.trans hn, h.trail ht⟩
  · exact Or.inr ⟨hd, g, es, h.chainOf hc, h.trail ht⟩

theorem SameOrg.next {x : SealedEvent} (h : SameOrg s s' x.event.organizationId) {hd : ChainHead}
    (hx : Next nfc s hd x) : Next nfc s' hd x :=
  ⟨h.head.trans hx.head, hx.seq, hx.prevHash, hx.hash⟩

theorem SameOrg.midAppend {x : SealedEvent} (h : SameOrg s s' x.event.organizationId)
    (hm : MidAppend nfc s x) : MidAppend nfc s' x := by
  obtain ⟨hd, g, es, hc, hx, ht⟩ := hm
  exact ⟨hd, g, es, h.chainOf hc, h.next hx, h.trail ht⟩

/-- What holds at a statement depends on the chains, and moves to a state in which each
chain is the same, or is in order and not the one in progress. -/
theorem ViewOk.renew {l : Pc}
    (hpart : ∀ org, SameOrg s s' org ∨ (needsHead l ≠ some org ∧ ChainOk nfc s' org))
    (h : ViewOk nfc s l) : ViewOk nfc s' l := by
  have hchain (hc : ∀ org, ChainOk nfc s org) (org : Uuid) : ChainOk nfc s' org :=
    (hpart org).elim (fun hs => hs.chainOk (hc org)) And.right
  -- the chain the statement is working on can only have stayed the same
  have hown (org : Uuid) (hl : needsHead l = some org) : SameOrg s s' org :=
    (hpart org).resolve_right fun hn => hn.1 hl
  cases l with
  | createHead e g n after => exact ⟨hchain h.1, h.2⟩
  | insertEvent x after => exact ⟨hchain h.1, h.2.imp fun hd hx => (hown _ rfl).next hx⟩
  | advanceHead x after =>
    refine ⟨fun org hne => (hpart org).elim (fun hs => hs.chainOk (h.1 org hne)) And.right, ?_⟩
    exact (hown _ rfl).midAppend h.2
  | commit next => exact ⟨hchain h.1, h.2⟩
  | fail => trivial
  | _ => exact hchain h

theorem viewOk_of_starts {l : Pc} (hc : ∀ org, ChainOk nfc s org) (hl : Starts l) :
    ViewOk nfc s l := by
  cases l with
  | createHead e g n after => exact ⟨hc, hl⟩
  | lookupSubject id row rest eventId nonce => exact hc
  | fail => trivial
  | _ => exact hl.elim

theorem starts_startSeal (e : AuditEvent) (nonce : Nonce) (after : After) :
    Starts (startSeal e nonce after) := by
  unfold startSeal
  split
  · trivial
  · rename_i g hg
    exact hg

theorem viewOk_commit_none (hc : ∀ org, ChainOk nfc s org) : ViewOk nfc s (.commit none) :=
  ⟨hc, fun l hl => by cases hl⟩

theorem viewOk_startAppends (hc : ∀ org, ChainOk nfc s org) (items : List AppendItem) :
    ViewOk nfc s (startAppends items) := by
  cases items with
  | nil => exact viewOk_commit_none hc
  | cons item items =>
    simp only [startAppends]
    cases newAuditEvent item.input item.eventId item.now with
    | error err => trivial
    | ok event => exact viewOk_of_starts hc (starts_startSeal event item.nonce (.appends items))

theorem viewOk_resume (hc : ∀ org, ChainOk nfc s org) (after : After) :
    ViewOk nfc s (resume after) := by
  cases after with
  | appends items => exact viewOk_startAppends hc items
  | dequeue id rest nonce => exact hc
  | publish id rest eventId nonce => exact hc

theorem viewOk_entry {env : Env} (hc : ∀ org, ChainOk nfc s org) (r : Req) :
    ViewOk nfc s ((auditProgram env).entry r) := by
  cases r with
  | append items => exact viewOk_startAppends hc items
  | enqueue input now eventId id =>
    simp only [auditProgram]
    split_ifs
    · trivial
    split
    · trivial
    · rcases startEnqueue_cases _ id with h | ⟨row, h⟩
      · rw [h]
        trivial
      · rw [h]
        exact hc
  | drainQueue batch nonce => exact hc
  | drainOutbox batch eventId nonce => exact hc
  | sealOrganization org sealedAt => exact hc
  | enqueueTenantSwitch id row => exact hc

theorem needsHead_of_starts {l : Pc} (hl : Starts l) : needsHead l = none := by
  cases l with
  | createHead e g n after => rfl
  | lookupSubject id row rest eventId nonce => rfl
  | fail => rfl
  | _ => exact hl.elim

theorem needsHead_startAppends (items : List AppendItem) : needsHead (startAppends items) = none := by
  cases items with
  | nil => rfl
  | cons item items =>
    simp only [startAppends]
    cases newAuditEvent item.input item.eventId item.now with
    | error err => rfl
    | ok event => exact needsHead_of_starts (starts_startSeal event item.nonce (.appends items))

theorem needsHead_resume (after : After) : needsHead (resume after) = none := by
  cases after with
  | appends items => exact needsHead_startAppends items
  | dequeue id rest nonce => rfl
  | publish id rest eventId nonce => rfl

theorem needsHead_entry {env : Env} (r : Req) : needsHead ((auditProgram env).entry r) = none := by
  cases r with
  | append items => exact needsHead_startAppends items
  | enqueue input now eventId id =>
    simp only [auditProgram]
    split_ifs
    · rfl
    split
    · rfl
    · rcases startEnqueue_cases _ id with h | ⟨row, h⟩ <;> rw [h] <;> rfl
  | drainQueue batch nonce => rfl
  | drainOutbox batch eventId nonce => rfl
  | sealOrganization org sealedAt => rfl
  | enqueueTenantSwitch id row => rfl

theorem starts_nextQueued {nonce : Uuid → Nonce} {items : List (Uuid × QueuedEvent)} {l : Pc}
    (h : nextQueued nonce items = some l) : Starts l := by
  cases items with
  | nil => cases h
  | cons item items =>
    obtain ⟨event, -, rfl⟩ := Option.map_eq_some_iff.mp h
    exact starts_startSeal ..

theorem starts_nextSwitch {eventId : Uuid → Uuid} {nonce : Uuid → Nonce}
    {items : List (Uuid × SwitchOutboxRow)} {l : Pc}
    (h : nextSwitch eventId nonce items = some l) : Starts l := by
  cases items with
  | nil => cases h
  | cons item items =>
    obtain rfl := Option.some.inj h
    trivial

end Congr

section Append

variable {s s' : Db} {h : ChainHead} {x : SealedEvent}

theorem chainOk_createHead {org : Uuid} {g : Bytes} {nonce : Nonce}
    (hg : genesisHash org nonce.1 = .ok g) (hc : ChainOk nfc s org)
    (hn : s.row (.head org) = none)
    (hhead : s'.row (.head org) = some ⟨0, g, nonce.1⟩)
    (hev : ∀ o t n, s'.row (.event o t n) = s.row (.event o t n)) : ChainOk nfc s' org := by
  rcases hc with ⟨-, ht⟩ | ⟨hd, g', es, hc, -⟩
  · refine Or.inr ⟨_, g, [], ⟨hhead, hg, trivial, rfl, rfl⟩, fun e => ?_⟩
    rw [ht e]
    simp only [HasEvent, eventAt, hev]
  -- a chain has its head row already
  · rw [hc.head] at hn
    cases hn

theorem midAppend_insertEvent (hc : ChainOk nfc s x.event.organizationId) (hx : Next nfc s h x)
    (hhead : s'.row (.head x.event.organizationId) = s.row (.head x.event.organizationId))
    (hold : eventAt s x.event.organizationId x.event.occurredAt.unixMicro x.seq = none)
    (hnew : eventAt s' x.event.organizationId x.event.occurredAt.unixMicro x.seq = some x.stored)
    (hrest : ∀ t n, (t, n) ≠ (x.event.occurredAt.unixMicro, x.seq) →
      eventAt s' x.event.organizationId t n = eventAt s x.event.organizationId t n) :
    MidAppend nfc s' x := by
  rcases hc with ⟨hn, -⟩ | ⟨hd, g, es, hc, ht⟩
  · rw [hx.head] at hn
    cases hn
  refine ⟨hd, g, es, ⟨hhead.trans hc.head, hc.genesis, hc.linked, hc.lastSeq, hc.headHash⟩, ?_, ?_⟩
  · obtain rfl : h = hd := Option.some.inj (hx.head.symm.trans hc.head)
    exact ⟨hhead.trans hx.head, hx.seq, hx.prevHash, hx.hash⟩
  · intro e
    rw [List.mem_append, List.mem_singleton, ht e]
    by_cases hk : e.event.organizationId = x.event.organizationId
    swap
    · constructor
      · rintro (⟨-, he⟩ | rfl)
        · exact absurd he hk
        · exact absurd rfl hk
      · exact fun he => absurd he.2 hk
    -- within the organization, the row under the key of `x` is the new one
    by_cases hkey : (e.event.occurredAt.unixMicro, e.seq) = (x.event.occurredAt.unixMicro, x.seq)
    · obtain ⟨ht', hs'⟩ := Prod.mk.inj hkey
      simp only [HasEvent, hk, ht', hs', hold, hnew, reduceCtorEq, false_or,
        Option.some.injEq, and_true]
      exact eq_comm
    · have hne : e ≠ x.stored := by
        rintro rfl
        exact hkey (Prod.ext (Time.stored_unixMicro _) rfl)
      simp only [HasEvent, hk, hrest _ _ hkey, hne, or_false]

theorem chainOk_advanceHead (hm : MidAppend nfc s x)
    (hhead : ∀ hd, s.row (.head x.event.organizationId) = some hd →
      s'.row (.head x.event.organizationId) = some { hd with lastSeq := x.seq, headHash := x.hash })
    (hev : ∀ t n, s'.row (.event x.event.organizationId t n) =
      s.row (.event x.event.organizationId t n)) : ChainOk nfc s' x.event.organizationId := by
  obtain ⟨hd, g, es, hc, hx, ht⟩ := hm
  refine Or.inr ⟨_, g, es ++ [x.stored], ⟨hhead hd hc.head, hc.genesis, ?_, ?_, ?_⟩, fun e => ?_⟩
  · refine linked_append.mpr ⟨hc.linked, ?_, ?_, ?_, trivial⟩
    · change x.seq = 0+es.length+1
      rw [hx.seq, hc.lastSeq, Nat.zero_add]
    · exact hx.prevHash.trans hc.headHash.symm
    -- the link was computed before the time was cut to microseconds; the bytes are the same
    · change x.hash = sha256 _
      rw [hx.hash, hc.headHash, linkHash, SealedEvent.stored, canonical_stored]
  · rw [List.length_append, hc.lastSeq, List.length_singleton]
    exact hx.seq.symm
  · rw [headHash_append]
    rfl
  · rw [ht e]
    apply and_congr_left
    intro he
    have hrow := hev e.event.occurredAt.unixMicro e.seq
    rw [← he] at hrow
    simp only [HasEvent, eventAt, hrow]

end Append

end ArchGuard.Audit
