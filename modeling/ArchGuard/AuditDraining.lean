import ArchGuard.AuditVerifier
import ArchGuard.ReadCommittedLedger

/-! The events that wait for a drain, and where the drains put them: each is pending, or in the
chain of its organization exactly once. -/
namespace ArchGuard.Audit
open ReadCommitted TransitionRun

/-- What waits: an event in the queue, or a switch in the outbox. -/
inductive Item
  | event (id : Uuid) (row : QueuedEvent)
  | switch (id : Uuid) (row : SwitchOutboxRow)

/-- What the transaction that chains an event was about. -/
inductive Source
  | append
  | queue (id : Uuid)
  | outbox (id : Uuid)
  deriving DecidableEq, Repr

namespace Item

@[reducible] def key : Item → Key
  | event id _ => .queue id
  | switch id _ => .outbox id

def source : Item → Source
  | event id _ => .queue id
  | switch id _ => .outbox id

def organizationId : Item → Uuid
  | event _ row => row.1.organizationId
  | switch _ row => row.toOrgId

/-- Its row until a drain has chained it, and afterwards. -/
def pendingRow : (item : Item) → Option (Row item.key)
  | event _ row => some row
  | switch _ row => some { row with published := false }

def drainedRow : (item : Item) → Option (Row item.key)
  | event _ _ => none
  | switch _ row => some { row with published := true }

def Pending (db : Db) (item : Item) : Prop := db.row item.key = item.pendingRow

def Drained (db : Db) (item : Item) : Prop := db.row item.key = item.drainedRow

/-- A switch enters the outbox unpublished. -/
def Waiting : Item → Prop
  | event _ _ => True
  | switch _ row => row.published = false

/-- The event is the item's: the one that the queued payload decodes to, or one that `buildEvent`
makes of the switch. -/
def Carries : Item → AuditEvent → Prop
  | event _ row, e' => unmarshalEvent row.payload = some e'
  | switch _ row, e' => ∃ subject eventId, buildEvent row subject eventId = .ok e'

end Item

/-- What a transaction does to the items and to the chains. -/
inductive Entry
  | enqueued (item : Item)
  | chained (source : Source) (x : StoredEvent)

def After.source : After → Source
  | .appends _ => .append
  | .dequeue id _ _ => .queue id
  | .publish id _ _ _ => .outbox id

def noted : Pc → List Entry
  | .insertEvent x after => [.chained after.source x]
  | .enqueue row id => [.enqueued (.event id row)]
  | .enqueueTenantSwitch id row => [.enqueued (.switch id row)]
  | _ => []

/-- What the transactions of a run have committed, in the order of their commits. -/
def committedEntries (env : Env) (db : Db) (es : List (Event Req)) : List Entry :=
  (ledger (auditProgram env) noted (Cfg.idle db) Ledger.blank es).done

def Entry.chainedFrom (s : Source) : Entry → Option StoredEvent
  | .chained s' x => if s' = s then some x else none
  | .enqueued _ => none

def chainedFrom (entries : List Entry) (s : Source) : List StoredEvent :=
  entries.filterMap (Entry.chainedFrom s)

def Entry.position : Entry → Option Key
  | .chained _ x => some (rowKey x.1)
  | .enqueued _ => none

/-- The rows of the events that were chained. -/
def positions (entries : List Entry) : List Key := entries.filterMap Entry.position

def drawnId : Event Req → Option Uuid
  | .start _ (.enqueue _ _ _ id) => some id
  | _ => none

def trailRow (x : StoredEvent) : Row (rowKey x.1) := ⟨x.kept, x.kept_key⟩

section Statements

/-- Each entry is of an event that was appended for no item. -/
def Appending (w : List Entry) : Prop := ∀ entry ∈ w, ∃ x, entry = .chained .append x

def After.rest : After → List Item
  | .appends _ => []
  | .dequeue _ rest _ => rest.map fun r => .event r.1 r.2
  | .publish _ rest _ _ => rest.map fun r => .switch r.1 r.2

variable (done w : List Entry)

/-- The transaction is about to chain the event: one more append, or that of a committed item. -/
def Chaining (after : After) (e : AuditEvent) : Prop :=
  (after.source = .append ∧ Appending w) ∨
    ∃ item, item.source = after.source ∧ w = [] ∧ .enqueued item ∈ done ∧ item.Carries e

/-- The event is chained, and the transaction has still to move the item. -/
def Moving (after : After) (x : SealedEvent) : Prop :=
  (after.source = .append ∧ Appending w) ∨
    ∃ item, item.source = after.source ∧ (∃ y, w = [.chained item.source y] ∧ y.1 = x) ∧
      .enqueued item ∈ done ∧ item.Carries x.event

def Committed (items : List Item) : Prop := ∀ item ∈ items, .enqueued item ∈ done

/-- A statement that may open a transaction. -/
def Opens : Pc → Prop
  | .createHead e _ _ after => Chaining done [] after e ∧ Committed done after.rest
  | .lookupSubject id row rest eventId nonce =>
    .enqueued (.switch id row) ∈ done ∧ Committed done (After.publish id rest eventId nonce).rest
  | .fail => True
  | _ => False

/-- What a transaction has noted at each of its statements, and what it has still to do. -/
def NotedOk : Pc → Prop
  | .createHead e _ _ after => Chaining done w after e ∧ Committed done after.rest
  | .lockHead e after => Chaining done w after e ∧ Committed done after.rest
  | .insertEvent x after => Chaining done w after x.1.event ∧ Committed done after.rest
  | .advanceHead x after => Moving done w after x ∧ Committed done after.rest
  | .dequeue id rest nonce =>
    (∃ x, Moving done w (.dequeue id rest nonce) x) ∧
      Committed done (After.dequeue id rest nonce).rest
  | .publish id rest eventId nonce =>
    (∃ x, Moving done w (.publish id rest eventId nonce) x) ∧
      Committed done (After.publish id rest eventId nonce).rest
  | .lookupSubject id row rest eventId nonce => w = [] ∧ .enqueued (.switch id row) ∈ done ∧
      Committed done (After.publish id rest eventId nonce).rest
  | .enqueueTenantSwitch _ row => w = [] ∧ row.published = false
  | .commit next => ∀ p, next = some p → Opens done p
  | .fail => True
  | _ => w = []

variable {done w} {done' : List Entry} {p : Pc}

theorem Chaining.mono (hsub : ∀ x ∈ done, x ∈ done') {after : After} {e : AuditEvent}
    (h : Chaining done w after e) : Chaining done' w after e := by
  apply h.imp_right
  rintro ⟨item, hs, hw, hin, hc⟩
  exact ⟨item, hs, hw, hsub _ hin, hc⟩

theorem Moving.mono (hsub : ∀ x ∈ done, x ∈ done') {after : After} {x : SealedEvent}
    (h : Moving done w after x) : Moving done' w after x := by
  apply h.imp_right
  rintro ⟨item, hs, hw, hin, hc⟩
  exact ⟨item, hs, hw, hsub _ hin, hc⟩

theorem Committed.mono (hsub : ∀ x ∈ done, x ∈ done') {items : List Item}
    (h : Committed done items) : Committed done' items :=
  fun item hitem => hsub _ (h item hitem)

theorem Opens.mono (hsub : ∀ x ∈ done, x ∈ done') (h : Opens done p) : Opens done' p := by
  cases p with
  | createHead e g nonce after => exact ⟨h.1.mono hsub, h.2.mono hsub⟩
  | lookupSubject id row rest eventId nonce => exact ⟨hsub _ h.1, h.2.mono hsub⟩
  | fail => trivial
  | _ => exact h.elim

theorem NotedOk.mono (hsub : ∀ x ∈ done, x ∈ done') (h : NotedOk done w p) :
    NotedOk done' w p := by
  cases p with
  | createHead e g nonce after => exact ⟨h.1.mono hsub, h.2.mono hsub⟩
  | lockHead e after => exact ⟨h.1.mono hsub, h.2.mono hsub⟩
  | insertEvent x after => exact ⟨h.1.mono hsub, h.2.mono hsub⟩
  | advanceHead x after => exact ⟨h.1.mono hsub, h.2.mono hsub⟩
  | dequeue id rest nonce => exact ⟨h.1.imp fun x hx => hx.mono hsub, h.2.mono hsub⟩
  | publish id rest eventId nonce => exact ⟨h.1.imp fun x hx => hx.mono hsub, h.2.mono hsub⟩
  | lookupSubject id row rest eventId nonce => exact ⟨h.1, hsub _ h.2.1, h.2.2.mono hsub⟩
  | commit next => exact fun q hq => (h q hq).mono hsub
  | _ => exact h

theorem notedOk_of_opens (h : Opens done p) : NotedOk done [] p := by
  cases p with
  | createHead e g nonce after => exact h
  | lookupSubject id row rest eventId nonce => exact ⟨rfl, h⟩
  | fail => trivial
  | _ => exact h.elim

theorem notedOk_startSeal {e : AuditEvent} {nonce : Nonce} (after : After)
    (h : Chaining done w after e) (hrest : Committed done after.rest) :
    NotedOk done w (startSeal e nonce after) := by
  unfold startSeal
  split
  · trivial
  · exact ⟨h, hrest⟩

theorem notedOk_startAppends (hw : Appending w) (items : List AppendItem) :
    NotedOk done w (startAppends items) := by
  cases items with
  | nil => exact fun p hp => by cases hp
  | cons item items =>
    simp only [startAppends]
    cases newAuditEvent item.input item.eventId item.now with
    | error err => trivial
    | ok e =>
      apply notedOk_startSeal (.appends items) (Or.inl ⟨rfl, hw⟩)
      exact fun _ h => absurd h List.not_mem_nil

theorem opens_startSeal (item : Item) {e : AuditEvent} {nonce : Nonce} {after : After}
    (hs : item.source = after.source) (hin : .enqueued item ∈ done) (hc : item.Carries e)
    (hrest : Committed done after.rest) : Opens done (startSeal e nonce after) := by
  unfold startSeal
  split
  · trivial
  · exact ⟨Or.inr ⟨item, hs, rfl, hin, hc⟩, hrest⟩

theorem opens_nextQueued {nonce : Uuid → Nonce} {rest : List (Uuid × QueuedEvent)}
    (h : ∀ r ∈ rest, .enqueued (.event r.1 r.2) ∈ done)
    (hp : nextQueued nonce rest = some p) : Opens done p := by
  cases rest with
  | nil => cases hp
  | cons r rest =>
    -- a payload that the decoder refuses ends the drain
    obtain ⟨e, he, hp⟩ := Option.map_eq_some_iff.mp hp
    rw [← hp]
    apply opens_startSeal (.event r.1 r.2) rfl (h r List.mem_cons_self) he
    intro item hitem
    obtain ⟨q, hq, hqi⟩ := List.mem_map.mp hitem
    rw [← hqi]
    exact h q (List.mem_cons_of_mem r hq)

theorem opens_nextSwitch {eventId : Uuid → Uuid} {nonce : Uuid → Nonce}
    {rest : List (Uuid × SwitchOutboxRow)}
    (h : ∀ r ∈ rest, .enqueued (.switch r.1 r.2) ∈ done)
    (hp : nextSwitch eventId nonce rest = some p) : Opens done p := by
  cases rest with
  | nil => cases hp
  | cons r rest =>
    rw [← Option.some.inj hp]
    refine ⟨h r List.mem_cons_self, fun item hitem => ?_⟩
    obtain ⟨q, hq, hqi⟩ := List.mem_map.mp hitem
    rw [← hqi]
    exact h q (List.mem_cons_of_mem r hq)

theorem mem_of_rest_dequeue {id : Uuid} {rest : List (Uuid × QueuedEvent)} {nonce : Uuid → Nonce}
    (h : Committed done (After.dequeue id rest nonce).rest) :
    ∀ r ∈ rest, .enqueued (.event r.1 r.2) ∈ done :=
  fun _ hr => h _ (List.mem_map_of_mem hr)

theorem mem_of_rest_publish {id : Uuid} {rest : List (Uuid × SwitchOutboxRow)}
    {eventId : Uuid → Uuid} {nonce : Uuid → Nonce}
    (h : Committed done (After.publish id rest eventId nonce).rest) :
    ∀ r ∈ rest, .enqueued (.switch r.1 r.2) ∈ done :=
  fun _ hr => h _ (List.mem_map_of_mem hr)

theorem row_of_queued {db : Db} {batch : ℕ} {r : Uuid × QueuedEvent} (h : r ∈ queued db batch) :
    db.row (.queue r.1) = some r.2 := by
  rw [queued] at h
  have hmem := (List.mem_insertionSort _).mp (List.mem_of_mem_take h)
  obtain ⟨k, -, hk⟩ := List.mem_filterMap.mp hmem
  cases k with
  | queue id =>
    obtain ⟨e, he, hr⟩ := Option.map_eq_some_iff.mp hk
    rw [← hr]
    exact he
  | _ => cases hk

theorem row_of_unpublished {db : Db} {batch : ℕ} {r : Uuid × SwitchOutboxRow}
    (h : r ∈ unpublished db batch) : db.row (.outbox r.1) = some r.2 ∧ r.2.published = false := by
  rw [unpublished] at h
  have hmem := (List.mem_insertionSort _).mp (List.mem_of_mem_take h)
  obtain ⟨hmem, hpub⟩ := List.mem_filter.mp hmem
  refine ⟨?_, Bool.not_eq_true' _ |>.mp hpub⟩
  obtain ⟨k, -, hk⟩ := List.mem_filterMap.mp hmem
  cases k with
  | outbox id =>
    obtain ⟨row, hrow, hr⟩ := Option.map_eq_some_iff.mp hk
    rw [← hr]
    exact hrow
  | _ => cases hk

/-- The waiting rows that are seen are of committed items. -/
def SeesItems (done : List Entry) (view : Db) : Prop :=
  (∀ id e, view.row (.queue id) = some e → .enqueued (.event id e) ∈ done) ∧
    ∀ id row, view.row (.outbox id) = some row →
      .enqueued (.switch id { row with published := false }) ∈ done

/-- Each statement notes what the next one relies on. -/
theorem NotedOk.step {env : Env} {c : AuditCfg} {i : ℕ} {q : Pc} (h : NotedOk done w p)
    (hsees : SeesItems done (c.view i)) (hr : Reaches c i ((auditProgram env).next p) q)
    (hn : ∀ n, p ≠ .commit n) : NotedOk done (w ++ noted p) q := by
  have happ (p : Pc) (hp : noted p = []) : w ++ noted p = w := by
    rw [hp, List.append_nil]
  cases p with
  | createHead e g nonce after =>
    rw [happ (.createHead e g nonce after) rfl]
    cases hr <;> exact h
  | lockHead e after =>
    cases hr with
    | absent hk => trivial
    | present hv =>
      rename_i v
      dsimp only
      rcases sealAfter_cases env e v after with hseal | ⟨x, hseal, hx⟩ <;> rw [hseal]
      · trivial
      · -- sealing an event does not change it
        have hx : x.1.event = e := by rw [hx]
        refine ⟨?_, h.2⟩
        rw [hx, happ (.lockHead e after) rfl]
        exact h.1
  | insertEvent x after =>
    -- the only statement that is noted: the event is now in the chain
    cases hr with
    | conflict hk => trivial
    | inserted hk =>
      refine ⟨?_, h.2⟩
      rcases h.1 with ⟨hs, hw⟩ | ⟨item, hs, hw, hin, hc⟩
      · refine Or.inl ⟨hs, fun entry hentry => ?_⟩
        rcases List.mem_append.mp hentry with hold | hnew
        · exact hw entry hold
        · rw [List.mem_singleton.mp hnew, hs]
          exact ⟨x, rfl⟩
      · refine Or.inr ⟨item, hs, ⟨x, ?_, rfl⟩, hin, hc⟩
        rw [hw, hs]
        rfl
  | advanceHead x after =>
    have hq : q = resume after := by cases hr <;> rfl
    rw [hq, happ (.advanceHead x after) rfl]
    cases after with
    | appends items =>
      rcases h.1 with ⟨-, hw⟩ | ⟨item, hs, -⟩
      · exact notedOk_startAppends hw items
      · cases item <;> cases hs
    | dequeue id rest nonce => exact ⟨⟨x, h.1⟩, h.2⟩
    | publish id rest eventId nonce => exact ⟨⟨x, h.1⟩, h.2⟩
  | dequeue id rest nonce =>
    cases hr with
    | absent hk => trivial
    | present hv => exact fun _ hp => opens_nextQueued (mem_of_rest_dequeue h.2) hp
  | publish id rest eventId nonce =>
    cases hr with
    | absent hk => trivial
    | present hv =>
      dsimp only
      split_ifs
      · trivial
      · exact fun _ hp => opens_nextSwitch (mem_of_rest_publish h.2) hp
  | enqueue e id => cases hr <;> first | trivial | exact fun _ hp => by cases hp
  | readQueue batch nonce =>
    cases hr
    -- the rows that are read wait, so they are of items that were committed
    exact fun _ hp => opens_nextQueued (fun r hr => hsees.1 _ _ (row_of_queued hr)) hp
  | readOutbox batch eventId nonce =>
    cases hr
    refine fun _ hp => opens_nextSwitch (fun r hr => ?_) hp
    obtain ⟨hrow, hpub⟩ := row_of_unpublished hr
    have hmem := hsees.2 _ _ hrow
    rwa [← hpub] at hmem
  | lookupSubject id row rest eventId nonce =>
    cases hr
    dsimp only
    cases (c.view i).row (.identity row.identityId) with
    | none => trivial
    | some subject =>
      dsimp only
      cases hbuild : buildEvent row subject (eventId id) with
      | error err => trivial
      | ok event =>
        intro p hp
        rw [← Option.some.inj hp]
        exact opens_startSeal (.switch id row) rfl h.2.1 ⟨subject, eventId id, hbuild⟩ h.2.2
  | readHead org sealedAt =>
    cases hr
    dsimp only
    cases (c.view i).row (.head org) with
    | none => exact fun _ hp => by cases hp
    | some head => exact (List.append_nil w).trans h
  | lastSealedSeq org sealedAt head =>
    cases hr
    simp only [sealPending]
    split_ifs
    · exact fun _ hp => by cases hp
    split
    · trivial
    split
    · trivial
    · exact (List.append_nil w).trans h
  | insertSeal org row => cases hr <;> exact fun _ hp => by cases hp
  | enqueueTenantSwitch id row => cases hr <;> first | trivial | exact fun _ hp => by cases hp
  | commit next => exact absurd rfl (hn next)
  | fail => cases hr

end Statements

section Moves

variable {env : Env} {c c' : AuditCfg} {l : Ledger Entry} {i : ℕ} {p : Pc}

/-- The statements that write the row of an item. -/
def Pc.onItem : Pc → Bool
  | .dequeue .. | .publish .. | .enqueue .. | .enqueueTenantSwitch .. => true
  | _ => false

theorem onItem_of_writes {item : Item} {r : Option (Row item.key)}
    (h : Writes c i ((auditProgram env).next p) item.key r) : p.onItem = true := by
  cases item with
  | event id e =>
    cases p with
    | dequeue id' rest nonce => rfl
    | enqueue e' id' => rfl
    | _ => cases h
  | switch id row =>
    cases p with
    | publish id' rest eventId nonce => rfl
    | enqueueTenantSwitch id' row' => rfl
    | _ => cases h

def HoldsNone (c : AuditCfg) (i : ℕ) : Prop :=
  ∀ (item : Item) (r : Option (Row item.key)), c.lock item.key ≠ some (i, r)

def HoldsOnly (c : AuditCfg) (i : ℕ) (k : Key) : Prop :=
  ∀ (item : Item) (r : Option (Row item.key)), c.lock item.key = some (i, r) → item.key = k

/-- What a transaction that is about to commit does to the items. -/
inductive Moves (c : AuditCfg) (l : Ledger Entry) (i : ℕ) : Prop
  | appended (hw : Appending (l.work i)) (hnone : HoldsNone c i)
  | enqueued (item : Item) (hw : l.work i = [.enqueued item]) (hwait : item.Waiting)
      (hlock : c.lock item.key = some (i, item.pendingRow)) (hold : c.db.row item.key = none)
      (honly : HoldsOnly c i item.key)
  | drained (item : Item) (x : StoredEvent) (hw : l.work i = [.chained item.source x])
      (hin : .enqueued item ∈ l.done) (hc : item.Carries x.1.event)
      (hlock : c.lock item.key = some (i, item.drainedRow)) (hold : item.Pending c.db)
      (honly : HoldsOnly c i item.key)

/-- The state of one open transaction, and what it has noted. -/
structure Proceeds (c : AuditCfg) (l : Ledger Entry) (i : ℕ) (p : Pc) : Prop where
  noted : NotedOk l.done (l.work i) p
  free : (∀ n, p ≠ .commit n) → p ≠ .fail → HoldsNone c i
  moves : ∀ n, p = .commit n → Moves c l i

theorem Proceeds.frame {l' : Ledger Entry} (h : Proceeds c l i p) (hf : Frame c c' i)
    (hwork : l'.work i = l.work i) (hsub : ∀ x ∈ l.done, x ∈ l'.done) : Proceeds c' l' i p := by
  have honly (k : Key) (ho : HoldsOnly c i k) : HoldsOnly c' i k :=
    fun item r hl => ho item r ((hf.lock _ _).mp hl)
  have hnone (ho : HoldsNone c i) : HoldsNone c' i :=
    fun item r hl => ho item r ((hf.lock _ _).mp hl)
  refine ⟨hwork ▸ h.noted.mono hsub, fun hn hfail => hnone (h.free hn hfail), fun n hp => ?_⟩
  rcases h.moves n hp with ⟨hw, ho⟩ | ⟨item, hw, hwait, hl, hold, ho⟩ |
    ⟨item, x, hw, hin, hc, hl, hold, ho⟩
  · exact .appended (hwork ▸ hw) (hnone ho)
  · exact .enqueued item (hwork ▸ hw) hwait ((hf.lock _ _).mpr hl) ((hf.row _ _ hl).trans hold)
      (honly _ ho)
  · exact .drained item x (hwork ▸ hw) (hsub _ hin) hc ((hf.lock _ _).mpr hl)
      ((hf.row _ _ hl).trans hold) (honly _ ho)

theorem holdsNone_of_live (hlive : OwnersLive c) (hp : c.proc i = none) : HoldsNone c i :=
  fun _ r hl => hlive _ i r hl hp

theorem HoldsNone.step (h : HoldsNone c i) (hp : p.onItem = false)
    (ha : c.act i ((auditProgram env).next p) = some c') : HoldsNone c' i := by
  intro item r hl
  rcases lock_of_act ha hl with hold | ⟨-, hw⟩
  · exact h item r hold
  · rw [onItem_of_writes hw] at hp
    cases hp

theorem HoldsNone.write {k : Key} {r : Option (Row k)} (h : HoldsNone c i) {q : Pc} :
    HoldsOnly ((c.write i k r).goto i q) i k := by
  intro item r' hl
  rcases lock_write hl with hold | ⟨-, hk, -⟩
  · exact absurd hold (h item r')
  · exact hk.symm

theorem appending_nil : Appending [] := fun _ h => absurd h List.not_mem_nil

theorem appending_of_commit {done w : List Entry} {n : Option Pc} (h : NotedOk done w p)
    (hr : Reaches c i ((auditProgram env).next p) (.commit n)) (hp : p.onItem = false)
    (hn : ∀ m, p ≠ .commit m) : Appending (w ++ noted p) := by
  have hnil (hw : w = []) (hnoted : noted p = []) : Appending (w ++ noted p) := by
    rw [hw, hnoted]
    exact appending_nil
  generalize hq : Pc.commit n = q at hr
  cases p with
  | createHead e g nonce after => cases hr <;> cases hq
  | lockHead e after =>
    cases hr with
    | absent hk => cases hq
    | present hv =>
      dsimp only at hq
      rcases sealAfter_cases env e _ after with hseal | ⟨x, hseal, -⟩ <;> rw [hseal] at hq <;>
        cases hq
  | insertEvent x after => cases hr <;> cases hq
  | advanceHead x after =>
    have hresume : q = resume after := by cases hr <;> rfl
    rw [hresume] at hq
    cases after with
    | appends items =>
      rcases h.1 with ⟨-, hw⟩ | ⟨item, hs, -⟩
      · change Appending (w ++ [])
        rwa [List.append_nil]
      · cases item <;> cases hs
    | dequeue id rest nonce => cases hq
    | publish id rest eventId nonce => cases hq
  | dequeue id rest nonce => cases hp
  | publish id rest eventId nonce => cases hp
  | enqueue e id => cases hp
  | enqueueTenantSwitch id row => cases hp
  | readQueue batch nonce => exact hnil h rfl
  | readOutbox batch eventId nonce => exact hnil h rfl
  | lookupSubject id row rest eventId nonce => exact hnil h.1 rfl
  | readHead org sealedAt => exact hnil h rfl
  | lastSealedSeq org sealedAt head => exact hnil h rfl
  | insertSeal org row => exact hnil h rfl
  | commit m => exact absurd rfl (hn m)
  | fail => cases hr

theorem seesItems_view {done : List Entry} (h : SeesItems done c.db) (hnone : HoldsNone c i) :
    SeesItems done (c.view i) := by
  constructor
  · intro id e he
    have hrow : c.viewRow i (.queue id) = c.db.row (.queue id) :=
      Cfg.viewRow_other (hnone (.event id e))
    exact h.1 id e (hrow ▸ he)
  · intro id row hrow'
    have hrow : c.viewRow i (.outbox id) = c.db.row (.outbox id) :=
      Cfg.viewRow_other (hnone (.switch id row))
    exact h.2 id row (hrow ▸ hrow')

def SingleItems (done : List Entry) : Prop :=
  ∀ item item', .enqueued item ∈ done → .enqueued item' ∈ done → item.source = item'.source →
    item = item'

theorem moves_dequeue {id : Uuid} {rest : List (Uuid × QueuedEvent)} {nonce : Uuid → Nonce}
    {q : Pc} {e : QueuedEvent} (h : NotedOk l.done (l.work i) (.dequeue id rest nonce))
    (hsees : SeesItems l.done c.db) (hsingle : SingleItems l.done) (hnone : HoldsNone c i)
    (hrow : c.viewRow i (.queue id) = some e) :
    Moves ((c.write i (.queue id) none).goto i q) (l.note i []) i := by
  obtain ⟨x, hmoving⟩ := h.1
  rcases hmoving with ⟨hs, -⟩ | ⟨item, hs, ⟨y, hw, rfl⟩, hin, hc⟩
  · cases hs
  · rw [Cfg.viewRow_other (hnone (.event id e))] at hrow
    have hitem : item = .event id e := hsingle _ _ hin (hsees.1 id e hrow) hs
    rw [hitem] at hw hin hc
    refine .drained (.event id e) y ?_ hin hc ?_ hrow hnone.write
    · rw [Ledger.note_work_self, hw]
      rfl
    · exact Function.update_self ..

theorem moves_publish {id : Uuid} {rest : List (Uuid × SwitchOutboxRow)} {eventId : Uuid → Uuid}
    {nonce : Uuid → Nonce} {q : Pc} {row : SwitchOutboxRow}
    (h : NotedOk l.done (l.work i) (.publish id rest eventId nonce))
    (hsees : SeesItems l.done c.db) (hsingle : SingleItems l.done) (hnone : HoldsNone c i)
    (hrow : c.viewRow i (.outbox id) = some row) (hpub : row.published = false) :
    Moves ((c.write i (.outbox id) (some { row with published := true })).goto i q)
      (l.note i []) i := by
  obtain ⟨x, hmoving⟩ := h.1
  rcases hmoving with ⟨hs, -⟩ | ⟨item, hs, ⟨y, hw, rfl⟩, hin, hc⟩
  · cases hs
  · rw [Cfg.viewRow_other (hnone (.switch id row))] at hrow
    have hmem := hsees.2 id row hrow
    have hsame : { row with published := false } = row := by rw [← hpub]
    rw [hsame] at hmem
    have hitem : item = .switch id row := hsingle _ _ hin hmem hs
    rw [hitem] at hw hin hc
    refine .drained (.switch id row) y ?_ hin hc ?_ ?_ hnone.write
    · rw [Ledger.note_work_self, hw]
      rfl
    · exact Function.update_self ..
    · rw [Item.Pending, Item.pendingRow, hsame]
      exact hrow

theorem moves_enqueued (item : Item) (q : Pc) (hwait : item.Waiting) (hw : l.work i = [])
    (hnone : HoldsNone c i) (hrow : c.viewRow i item.key = none) :
    Moves ((c.write i item.key item.pendingRow).goto i q) (l.note i [.enqueued item]) i := by
  refine .enqueued item ?_ hwait ?_ ?_ hnone.write
  · rw [Ledger.note_work_self, hw]
    rfl
  · exact Function.update_self ..
  · rw [Cfg.viewRow_other (hnone item)] at hrow
    exact hrow

theorem end_of_onItem {q : Pc} (hp : p.onItem = true)
    (hr : Reaches c i ((auditProgram env).next p) q) : q = .fail ∨ ∃ n, q = .commit n := by
  cases p with
  | dequeue id rest nonce =>
    cases hr with
    | absent hk => exact Or.inl rfl
    | present hv => exact Or.inr ⟨_, rfl⟩
  | publish id rest eventId nonce =>
    cases hr with
    | absent hk => exact Or.inl rfl
    | present hv =>
      dsimp only
      split_ifs
      · exact Or.inl rfl
      · exact Or.inr ⟨_, rfl⟩
  | enqueue e id =>
    cases hr with
    | inserted hk => exact Or.inr ⟨_, rfl⟩
    | conflict hk => exact Or.inl rfl
  | enqueueTenantSwitch id row =>
    cases hr with
    | inserted hk => exact Or.inr ⟨_, rfl⟩
    | conflict hk => exact Or.inl rfl
  | _ => cases hp

theorem fail_ne_commit {q : Pc} {n : Option Pc} (hq : (c.goto i .fail).proc i = some q)
    (hqn : q = .commit n) : False := by
  rw [Cfg.goto_proc, Function.update_self, hqn] at hq
  cases hq

/-- What a statement of the transaction makes of its state. -/
theorem Proceeds.step {q : Pc} (h : Proceeds c l i p) (hsees : SeesItems l.done c.db)
    (hsingle : SingleItems l.done) (hn : ∀ n, p ≠ .commit n)
    (ha : c.act i ((auditProgram env).next p) = some c') (hq : c'.proc i = some q) :
    Proceeds c' (l.note i (ArchGuard.Audit.noted p)) i q := by
  have hr : Reaches c i ((auditProgram env).next p) q := proc_of_act ha hq
  have hfail : p ≠ .fail := by
    intro hp
    rw [hp] at hr
    cases hr
  have hnone : HoldsNone c i := h.free hn hfail
  have hnoted : NotedOk (l.note i (ArchGuard.Audit.noted p)).done
      ((l.note i (ArchGuard.Audit.noted p)).work i) q := by
    rw [Ledger.note_work_self]
    exact h.noted.step (seesItems_view hsees hnone) hr hn
  refine ⟨hnoted, ?_, ?_⟩
  -- from a statement on an item the transaction goes to its end
  · intro hnq hfq
    apply hnone.step ?_ ha
    rw [← Bool.not_eq_true]
    intro hp
    rcases end_of_onItem hp hr with hqf | ⟨n, hqn⟩
    · exact hfq hqf
    · exact hnq n hqn
  · intro n hqn
    rw [hqn] at hr
    cases hp : p.onItem with
    | false =>
      -- no row of an item was touched on the way to this commit
      refine .appended ?_ (hnone.step hp ha)
      rw [Ledger.note_work_self]
      exact appending_of_commit h.noted hr hp hn
    | true =>
      cases p with
      | dequeue id rest nonce =>
        rcases act_update ha with ⟨-, rfl⟩ | ⟨e, hrow, -, rfl⟩
        · exact (fail_ne_commit hq hqn).elim
        · exact moves_dequeue h.noted hsees hsingle hnone hrow
      | publish id rest eventId nonce =>
        rcases act_update ha with ⟨-, rfl⟩ | ⟨row, hrow, -, rfl⟩
        · exact (fail_ne_commit hq hqn).elim
        · cases hpub : row.published with
          | true =>
            simp only [hpub, ↓reduceIte, Cfg.goto_proc, Function.update_self, hqn] at hq
            cases hq
          | false =>
            simp only [Bool.false_eq_true, ↓reduceIte]
            exact moves_publish h.noted hsees hsingle hnone hrow hpub
      | enqueue e id =>
        rcases act_insert ha with ⟨hrow, -, rfl⟩ | ⟨-, rfl⟩
        · exact moves_enqueued (.event id e) _ trivial h.noted hnone hrow
        · exact (fail_ne_commit hq hqn).elim
      | enqueueTenantSwitch id row =>
        rcases act_insert ha with ⟨hrow, -, rfl⟩ | ⟨-, rfl⟩
        · have hmoves := moves_enqueued (.switch id row) (.commit none) h.noted.2
            h.noted.1 hnone hrow
          have hsame : { row with published := false } = row := by rw [← h.noted.2]
          rw [Item.pendingRow, hsame] at hmoves
          exact hmoves
        · exact (fail_ne_commit hq hqn).elim
      | _ => cases hp

end Moves

section Entry

variable {env : Env} {c c' : AuditCfg} {l : Ledger Entry} {i : ℕ} {p q : Pc}

theorem notedOk_entry (done : List Entry) (r : Req) :
    NotedOk done [] ((auditProgram env).entry r) := by
  cases r with
  | append items => exact notedOk_startAppends appending_nil items
  | enqueue input now eventId id =>
    simp only [auditProgram]
    split_ifs
    · trivial
    split
    · trivial
    · rename_i event _
      rcases startEnqueue_cases event id with hstart | ⟨row, hstart⟩ <;> rw [hstart]
      · trivial
      · rfl
  | drainQueue batch nonce => rfl
  | drainOutbox batch eventId nonce => rfl
  | sealOrganization org sealedAt => rfl
  | enqueueTenantSwitch id row => exact ⟨rfl, rfl⟩

theorem proceeds_start (hlive : OwnersLive c) (hp : c.proc i = none) (r : Req) :
    Proceeds (c.goto i ((auditProgram env).entry r)) (l.drop i) i
      ((auditProgram env).entry r) := by
  have hnone : HoldsNone c i := holdsNone_of_live hlive hp
  refine ⟨?_, fun _ _ => hnone, fun n _ => .appended ?_ hnone⟩
  · rw [Ledger.drop_work_self]
    exact notedOk_entry _ r
  · rw [Ledger.drop_work_self]
    exact appending_nil

theorem ne_commit_of_opens {done : List Entry} (h : Opens done q) (n : Option Pc) :
    q ≠ .commit n := by
  intro hq
  rw [hq] at h
  exact h

theorem proceeds_commit {n : Option Pc} (h : Proceeds c l i (.commit n)) (hq : n = some q) :
    Proceeds (c.commit i n) (l.settle i) i q := by
  have hopens : Opens (l.settle i).done q :=
    (h.noted q hq).mono fun x hx => List.mem_append_left _ hx
  refine ⟨?_, fun _ _ item r hl => ?_, fun m hm => ?_⟩
  · rw [Ledger.settle_work_self]
    exact notedOk_of_opens hopens
  · exact (Cfg.releaseLock_eq_some.mp hl).2 rfl
  · exact absurd hm (ne_commit_of_opens hopens m)

end Entry

end ArchGuard.Audit
