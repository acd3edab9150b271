import ArchGuard.AuditDraining
import ArchGuard.AuditTrail

/-! Draining exactly once: at every moment each committed item is pending, or in the chain of its
organization exactly once. -/
namespace ArchGuard.Audit
open ReadCommitted TransitionRun

section Items

variable {c : AuditCfg} {l : Ledger Entry} {i : ℕ} {db : Db} {done w : List Entry} {item item' : Item}

theorem key_eq_iff : item.key = item'.key ↔ item.source = item'.source := by
  cases item <;> cases item' <;> simp [Item.key, Item.source]

theorem source_ne_append (item : Item) : item.source ≠ .append := by
  cases item <;> simp [Item.source]

theorem not_pending_of_drained (h : item.Drained db) : ¬item.Pending db := by
  intro hp
  rw [Item.Pending, h] at hp
  cases item with
  | event id e => cases hp
  | switch id row =>
    have hflag := congrArg SwitchOutboxRow.published (Option.some.inj hp)
    cases hflag

theorem chainedFrom_append (es fs : List Entry) (s : Source) :
    chainedFrom (es ++ fs) s = chainedFrom es s ++ chainedFrom fs s := List.filterMap_append ..

theorem chainedFrom_appending (hw : Appending w) {s : Source} (hs : s ≠ .append) :
    chainedFrom w s = [] := by
  rw [chainedFrom, List.filterMap_eq_nil_iff]
  intro entry hentry
  obtain ⟨x, rfl⟩ := hw entry hentry
  exact if_neg hs.symm

/-- Each committed item is pending with no event chained for it, or drained with one. -/
structure ItemsOk (db : Db) (done : List Entry) : Prop where
  once : ∀ item, .enqueued item ∈ done →
    (item.Pending db ∧ chainedFrom done item.source = []) ∨
      (item.Drained db ∧ ∃ x, chainedFrom done item.source = [x] ∧ item.Carries x.1.event)
  single : SingleItems done
  sees : SeesItems done db
  origin : ∀ s x, .chained s x ∈ done → s = .append ∨
    ∃ item, .enqueued item ∈ done ∧ item.source = s

theorem ItemsOk.chainedFrom_new (h : ItemsOk db done)
    (hnew : ∀ item', .enqueued item' ∈ done → item'.source ≠ item.source) :
    chainedFrom done item.source = [] := by
  rw [chainedFrom, List.filterMap_eq_nil_iff]
  intro entry hentry
  cases entry with
  | enqueued item' => rfl
  | chained s x =>
    apply if_neg
    intro hs
    rcases h.origin s x hentry with happend | ⟨item', hin, hsource⟩
    · exact source_ne_append item (hs ▸ happend)
    · exact hnew item' hin (hsource.trans hs)

theorem ItemsOk.congr {db' : Db} (h : ItemsOk db done)
    (hrow : ∀ item : Item, db'.row item.key = db.row item.key) (hw : Appending w) :
    ItemsOk db' (done ++ w) := by
  have hin (item : Item) : .enqueued item ∈ done ++ w ↔ .enqueued item ∈ done := by
    rw [List.mem_append, or_iff_left]
    intro hmem
    obtain ⟨x, hx⟩ := hw _ hmem
    cases hx
  refine ⟨fun item hitem => ?_, fun item item' hitem hitem' => ?_,
    ⟨fun id e he => ?_, fun id row hr => ?_⟩, ?_⟩
  · rw [hin] at hitem
    rw [chainedFrom_append, chainedFrom_appending hw (source_ne_append item), List.append_nil,
      Item.Pending, Item.Drained, hrow]
    exact h.once item hitem
  · rw [hin] at hitem hitem'
    exact h.single item item' hitem hitem'
  · rw [hin]
    exact h.sees.1 id e ((hrow (.event id e)).symm.trans he)
  · rw [hin]
    exact h.sees.2 id row ((hrow (.switch id row)).symm.trans hr)
  · intro s x hx
    rcases List.mem_append.mp hx with hx | hx
    · apply (h.origin s x hx).imp_right
      rintro ⟨item, hmem, hs⟩
      exact ⟨item, List.mem_append_left _ hmem, hs⟩
    · obtain ⟨y, hy⟩ := hw _ hx
      cases hy
      exact Or.inl rfl

theorem ItemsOk.enqueue {db' : Db} (h : ItemsOk db done) (hwait : item.Waiting)
    (hnew : ∀ item', .enqueued item' ∈ done → item'.source ≠ item.source)
    (hself : item.Pending db')
    (hrow : ∀ item' : Item, item'.key ≠ item.key → db'.row item'.key = db.row item'.key) :
    ItemsOk db' (done ++ [.enqueued item]) := by
  have hfrom (s : Source) : chainedFrom (done ++ [.enqueued item]) s = chainedFrom done s := by
    rw [chainedFrom_append]
    exact List.append_nil _
  have hin {item' : Item} (hitem : .enqueued item' ∈ done ++ [Entry.enqueued item]) :
      .enqueued item' ∈ done ∨ item' = item := by
    apply (List.mem_append.mp hitem).imp_right
    intro hmem
    exact Entry.enqueued.inj (List.mem_singleton.mp hmem)
  have hother {item' : Item} (hitem : .enqueued item' ∈ done) :
      db'.row item'.key = db.row item'.key := hrow item' fun hk => hnew item' hitem (key_eq_iff.mp hk)
  refine ⟨fun item' hitem => ?_, fun a b ha hb hs => ?_,
    ⟨fun id e he => ?_, fun id row hr => ?_⟩, ?_⟩
  -- the new item waits, and nothing is chained for it yet
  · rw [hfrom]
    rcases hin hitem with hold | rfl
    · rw [Item.Pending, Item.Drained, hother hold]
      exact h.once item' hold
    · exact Or.inl ⟨hself, h.chainedFrom_new hnew⟩
  · rcases hin ha with hola | rfl
    · rcases hin hb with holb | rfl
      · exact h.single a b hola holb hs
      · exact absurd hs (hnew a hola)
    · rcases hin hb with holb | rfl
      · exact absurd hs.symm (hnew b holb)
      · rfl
  -- a row that waits is the new one, or one that waited before
  · by_cases hk : (Item.event id e).key = item.key
    · apply List.mem_append_right
      cases item with
      | event id' e' =>
        obtain rfl : id = id' := Key.queue.inj hk
        rw [Option.some.inj (he.symm.trans hself)]
        exact List.mem_singleton_self _
      | switch id' row => cases hk
    · exact List.mem_append_left _ (h.sees.1 id e ((hrow _ hk).symm.trans he))
  · by_cases hk : (Item.switch id row).key = item.key
    · apply List.mem_append_right
      cases item with
      | event id' e' => cases hk
      | switch id' row' =>
        obtain rfl : id = id' := Key.outbox.inj hk
        have hsame : { row' with published := false } = row' := by rw [← hwait]
        rw [Option.some.inj (hr.symm.trans hself), hsame]
        exact List.mem_singleton_self _
    · exact List.mem_append_left _ (h.sees.2 id row ((hrow _ hk).symm.trans hr))
  · intro s x hx
    rcases List.mem_append.mp hx with hx | hx
    · apply (h.origin s x hx).imp_right
      rintro ⟨item', hmem, hs⟩
      exact ⟨item', List.mem_append_left _ hmem, hs⟩
    · cases List.mem_singleton.mp hx

theorem ItemsOk.drain {db' : Db} {x : StoredEvent} (h : ItemsOk db done)
    (hin : .enqueued item ∈ done) (hc : item.Carries x.1.event) (hold : item.Pending db)
    (hself : item.Drained db')
    (hrow : ∀ item' : Item, item'.key ≠ item.key → db'.row item'.key = db.row item'.key) :
    ItemsOk db' (done ++ [.chained item.source x]) := by
  have hmem {item' : Item} : .enqueued item' ∈ done ++ [Entry.chained item.source x] ↔
      .enqueued item' ∈ done := by
    rw [List.mem_append, List.mem_singleton, or_iff_left (by simp)]
  have hfrom (s : Source) : chainedFrom (done ++ [.chained item.source x]) s =
      chainedFrom done s ++ if item.source = s then [x] else [] := by
    rw [chainedFrom_append]
    by_cases hs : item.source = s <;>
      simp only [chainedFrom, List.filterMap_cons, Entry.chainedFrom, hs, ↓reduceIte,
        List.filterMap_nil]
  refine ⟨fun item' hitem => ?_, fun a b ha hb hs => ?_,
    ⟨fun id e he => ?_, fun id row hr => ?_⟩, ?_⟩
  · rw [hmem] at hitem
    rw [hfrom]
    by_cases hs : item.source = item'.source
    · obtain rfl : item = item' := h.single item item' hin hitem hs
      right
      refine ⟨hself, x, ?_, hc⟩
      -- the row was pending, so nothing had been chained for it
      rcases h.once item hin with ⟨-, hnil⟩ | ⟨hdrained, -⟩
      · rw [hnil, if_pos rfl, List.nil_append]
      · exact absurd hold (not_pending_of_drained hdrained)
    · rw [if_neg hs, List.append_nil, Item.Pending, Item.Drained,
        hrow item' fun hk => hs (key_eq_iff.mp hk).symm]
      exact h.once item' hitem
  · rw [hmem] at ha hb
    exact h.single a b ha hb hs
  · rw [hmem]
    by_cases hk : (Item.event id e).key = item.key
    · cases item with
      | event id' e' =>
        obtain rfl : id = id' := Key.queue.inj hk
        cases he.symm.trans hself
      | switch id' row => cases hk
    · exact h.sees.1 id e ((hrow _ hk).symm.trans he)
  · rw [hmem]
    by_cases hk : (Item.switch id row).key = item.key
    · cases item with
      | event id' e' => cases hk
      | switch id' row' =>
        obtain rfl : id = id' := Key.outbox.inj hk
        rw [Option.some.inj (hr.symm.trans hself)]
        exact h.sees.2 id { row' with published := false } hold
    · exact h.sees.2 id row ((hrow _ hk).symm.trans hr)
  · intro s y hy
    rcases List.mem_append.mp hy with hy | hy
    · apply (h.origin s y hy).imp_right
      rintro ⟨item', hin', hs⟩
      exact ⟨item', List.mem_append_left _ hin', hs⟩
    · cases List.mem_singleton.mp hy
      exact Or.inr ⟨item, List.mem_append_left _ hin, rfl⟩

theorem ItemsOk.commit {n : Option Pc} (h : ItemsOk c.db l.done) (hm : Moves c l i)
    (hnew : ∀ id e, l.work i = [.enqueued (.event id e)] →
      ∀ e', .enqueued (.event id e') ∉ l.done) :
    ItemsOk (c.commit i n).db (l.settle i).done := by
  rw [Ledger.settle_done]
  rcases hm with ⟨hw, hnone⟩ | ⟨item, hw, hwait, hl, hold, honly⟩ |
    ⟨item, x, hw, hin, hc, hl, hold, honly⟩
  · exact h.congr (fun item => Cfg.commit_row_of_not_own (hnone item)) hw
  · rw [hw]
    refine h.enqueue hwait (fun item' hin hs => ?_) (Cfg.viewRow_own hl) fun item' hne => ?_
    -- the id of the queue was drawn for this row; a switch of that id would still have its row
    · cases item with
      | event id e =>
        cases item' with
        | event id' e' =>
          cases hs
          exact hnew id e hw e' hin
        | switch id' row' => cases hs
      | switch id row =>
        cases item' with
        | event id' e' => cases hs
        | switch id' row' =>
          cases hs
          rcases h.once _ hin with ⟨hrow, -⟩ | ⟨hrow, -⟩
          · cases hrow.symm.trans hold
          · cases hrow.symm.trans hold
    · exact Cfg.commit_row_of_not_own fun r hr => hne (honly item' r hr)
  · rw [hw]
    refine h.drain hin hc hold (Cfg.viewRow_own hl) fun item' hne => ?_
    exact Cfg.commit_row_of_not_own fun r hr => hne (honly item' r hr)

end Items

section Ids

variable {env : Env} {c c' : AuditCfg} {l : Ledger Entry} {e : Event Req} {id : Uuid}

/-- Where an id of the queue is in use: in an open transaction, or among what is committed. -/
inductive Uses (c : AuditCfg) (l : Ledger Entry) (id : Uuid) : Option ℕ → Prop
  | entering {i : ℕ} {ev : QueuedEvent} (h : c.proc i = some (.enqueue ev id)) : Uses c l id (some i)
  | working {i : ℕ} {ev : QueuedEvent} (h : .enqueued (.event id ev) ∈ l.work i) :
      Uses c l id (some i)
  | committed {ev : QueuedEvent} (h : .enqueued (.event id ev) ∈ l.done) : Uses c l id none

def Pc.isEnqueue : Pc → Bool
  | .enqueue .. => true
  | _ => false

theorem isEnqueue_startSeal (ev : AuditEvent) (nonce : Nonce) (after : After) :
    (startSeal ev nonce after).isEnqueue = false := by
  unfold startSeal
  split <;> rfl

theorem isEnqueue_startAppends (items : List AppendItem) :
    (startAppends items).isEnqueue = false := by
  cases items with
  | nil => rfl
  | cons item items =>
    simp only [startAppends]
    cases newAuditEvent item.input item.eventId item.now with
    | error err => rfl
    | ok ev => exact isEnqueue_startSeal ..

theorem isEnqueue_of_opens {done : List Entry} {q : Pc} (h : Opens done q) :
    q.isEnqueue = false := by
  cases q with
  | enqueue ev id => exact h.elim
  | _ => rfl

theorem isEnqueue_of_reaches {done w : List Entry} {i : ℕ} {p q : Pc} (h : NotedOk done w p)
    (hr : Reaches c i ((auditProgram env).next p) q) : q.isEnqueue = false := by
  cases p with
  | createHead e g nonce after => cases hr <;> rfl
  | lockHead e after =>
    cases hr with
    | absent hk => rfl
    | present hv =>
      dsimp only
      rcases sealAfter_cases env e _ after with hseal | ⟨x, hseal, -⟩ <;> rw [hseal] <;> rfl
  | insertEvent x after => cases hr <;> rfl
  | advanceHead x after =>
    have hq : q = resume after := by cases hr <;> rfl
    rw [hq]
    cases after with
    | appends items => exact isEnqueue_startAppends items
    | dequeue id rest nonce => rfl
    | publish id rest eventId nonce => rfl
  | dequeue id rest nonce => cases hr <;> rfl
  | publish id rest eventId nonce =>
    cases hr with
    | absent hk => rfl
    | present hv =>
      dsimp only
      split_ifs <;> rfl
  | enqueue e id => cases hr <;> rfl
  | readQueue batch nonce =>
    cases hr
    rfl
  | readOutbox batch eventId nonce =>
    cases hr
    rfl
  | lookupSubject id row rest eventId nonce =>
    cases hr
    dsimp only
    split
    · rfl
    split <;> rfl
  | readHead org sealedAt =>
    cases hr
    dsimp only
    split <;> rfl
  | lastSealedSeq org sealedAt head =>
    cases hr
    simp only [sealPending]
    split_ifs
    · rfl
    split
    · rfl
    split <;> rfl
  | insertSeal org row => cases hr <;> rfl
  | enqueueTenantSwitch id row => cases hr <;> rfl
  | commit next =>
    -- what follows a commit was noted when the transaction began
    cases hr
    exact isEnqueue_of_opens (h q rfl)
  | fail => cases hr

theorem entry_enqueue {i : ℕ} {r : Req} {ev : QueuedEvent}
    (h : (auditProgram env).entry r = .enqueue ev id) :
    drawnId (.start i r) = some id := by
  cases r with
  | append items =>
    have hne := isEnqueue_startAppends items
    rw [show startAppends items = .enqueue ev id from h] at hne
    cases hne
  | enqueue input now eventId id' =>
    simp only [auditProgram] at h
    split_ifs at h
    split at h
    · cases h
    · rename_i event _
      rcases startEnqueue_cases event id' with hstart | ⟨row, hstart⟩ <;> rw [hstart] at h <;> cases h
      rfl
  | _ => cases h

theorem mem_noted {p : Pc} {ev : QueuedEvent} (h : .enqueued (.event id ev) ∈ noted p) :
    p = .enqueue ev id := by
  cases p with
  | enqueue ev' id' =>
    cases List.mem_singleton.mp h
    rfl
  | insertEvent x after => cases List.mem_singleton.mp h
  | enqueueTenantSwitch id' row => cases List.mem_singleton.mp h
  | _ => cases h

theorem Uses.of_exec {a : Option ℕ} (hprocs : ∀ i p, c.proc i = some p → Proceeds c l i p)
    (h : exec (auditProgram env) c e = some c')
    (hdone : (track (auditProgram env) Audit.noted c l e).done = l.done)
    (hu : Uses c' (track (auditProgram env) Audit.noted c l e) id a) :
    Uses c l id a ∨ drawnId e = some id ∧ a = some e.actor := by
  cases hu with
  | entering hp =>
    rcases proc_of_exec h hp with ⟨hold, -⟩ | ⟨r, rfl, -, hentry⟩ | ⟨p, rfl, hp', hr⟩
    · exact Or.inl (.entering hold)
    · exact Or.inr ⟨entry_enqueue hentry.symm, rfl⟩
    · have hne := isEnqueue_of_reaches (hprocs _ _ hp').noted hr
      cases hne
  | working hmem =>
    rcases mem_track_work h hmem with hold | ⟨p, rfl, hp, hnew⟩
    · exact Or.inl (.working hold)
    · rw [mem_noted hnew] at hp
      exact Or.inl (.entering hp)
  | committed hmem =>
    rw [hdone] at hmem
    exact Or.inl (.committed hmem)

theorem Uses.of_commit {a : Option ℕ} {i : ℕ} {n : Option Pc} (hp : Proceeds c l i (.commit n))
    (hu : Uses (c.commit i n) (l.settle i) id a) :
    (Uses c l id a ∧ a ≠ some i) ∨ a = none ∧ Uses c l id (some i) := by
  cases hu with
  | entering hproc =>
    rename_i j ev
    rw [Cfg.commit_proc] at hproc
    by_cases hj : j = i
    · subst hj
      rw [Function.update_self] at hproc
      have hne := isEnqueue_of_opens (hp.noted _ hproc)
      cases hne
    · rw [Function.update_of_ne hj] at hproc
      exact Or.inl ⟨.entering hproc, fun hji => hj (Option.some.inj hji)⟩
  | working hmem =>
    rename_i j ev
    by_cases hj : j = i
    · subst hj
      rw [Ledger.settle_work_self] at hmem
      exact absurd hmem List.not_mem_nil
    · rw [l.settle_work_of_ne hj] at hmem
      exact Or.inl ⟨.working hmem, fun hji => hj (Option.some.inj hji)⟩
  | committed hmem =>
    rw [Ledger.settle_done] at hmem
    rcases List.mem_append.mp hmem with hold | hnew
    · exact Or.inl ⟨.committed hold, by simp⟩
    · exact Or.inr ⟨rfl, .working hnew⟩

/-- The ids that enqueues have drawn and will draw are all different. -/
structure IdsOk (c : AuditCfg) (l : Ledger Entry) (es : List (Event Req)) : Prop where
  nodup : (es.filterMap drawnId).Nodup
  fresh : ∀ id ∈ es.filterMap drawnId, ∀ a, ¬Uses c l id a
  single : ∀ id a b, Uses c l id a → Uses c l id b → a = b

theorem IdsOk.tail {es : List (Event Req)} (hi : IdsOk c l (e :: es)) :
    (es.filterMap drawnId).Nodup ∧ (∀ id ∈ es.filterMap drawnId, drawnId e ≠ some id) ∧
      (∀ id ∈ es.filterMap drawnId, ∀ a, ¬Uses c l id a) := by
  have hnodup := hi.nodup
  have hfresh := hi.fresh
  cases hd : drawnId e with
  | none =>
    rw [List.filterMap_cons_none hd] at hnodup hfresh
    exact ⟨hnodup, ⟨fun _ _ => by simp, hfresh⟩⟩
  | some id =>
    rw [List.filterMap_cons_some hd] at hnodup hfresh
    obtain ⟨hnot, hnodup⟩ := List.nodup_cons.mp hnodup
    refine ⟨hnodup, fun id' hid' heq => ?_, fun id' hid' => hfresh id' (List.mem_cons_of_mem _ hid')⟩
    rw [Option.some.inj heq] at hnot
    exact hnot hid'

theorem IdsOk.step {es : List (Event Req)} (hi : IdsOk c l (e :: es))
    (hprocs : ∀ i p, c.proc i = some p → Proceeds c l i p)
    (h : exec (auditProgram env) c e = some c') :
    IdsOk c' (track (auditProgram env) noted c l e) es := by
  obtain ⟨hnodup, hdrawn, hfresh⟩ := hi.tail
  have hnew (id : Uuid) (hd : drawnId e = some id) (a : Option ℕ) : ¬Uses c l id a :=
    hi.fresh id (List.mem_filterMap.mpr ⟨e, List.mem_cons_self, hd⟩) a
  rcases track_cases noted l h with ⟨hdone, -⟩ | ⟨i, p, n, -, hp, hn, rfl, htrack⟩
  · refine ⟨hnodup, fun id hid a hu => ?_, fun id a b ha hb => ?_⟩
    · rcases hu.of_exec hprocs h hdone with hold | ⟨hd, -⟩
      · exact hfresh id hid a hold
      · exact hdrawn id hid hd
    · rcases ha.of_exec hprocs h hdone with hola | ⟨hd, rfl⟩
      · rcases hb.of_exec hprocs h hdone with holb | ⟨hd, -⟩
        · exact hi.single id a b hola holb
        · exact absurd hola (hnew id hd a)
      · rcases hb.of_exec hprocs h hdone with holb | ⟨-, rfl⟩
        · exact absurd holb (hnew id hd b)
        · rfl
  · have hcommit : p = .commit n := eq_commit_of_next hn
    have hproc : Proceeds c l i (.commit n) := hcommit ▸ hprocs i p hp
    rw [htrack]
    refine ⟨hnodup, fun id hid a hu => ?_, fun id a b ha hb => ?_⟩
    · rcases hu.of_commit hproc with ⟨hold, -⟩ | ⟨-, hold⟩
      · exact hfresh id hid a hold
      · exact hfresh id hid _ hold
    · rcases ha.of_commit hproc with ⟨hola, hai⟩ | ⟨rfl, hola⟩
      · rcases hb.of_commit hproc with ⟨holb, -⟩ | ⟨rfl, holb⟩
        · exact hi.single id a b hola holb
        · exact absurd (hi.single id a _ hola holb) hai
      · rcases hb.of_commit hproc with ⟨holb, hbi⟩ | ⟨rfl, -⟩
        · exact absurd (hi.single id b _ holb hola) hbi
        · rfl

end Ids

section Rows

variable {env : Env} {c c' : AuditCfg} {l : Ledger Entry} {e : Event Req} {i : ℕ}

theorem mem_positions {entries : List Entry} {k : Key} :
    k ∈ positions entries ↔ ∃ s x, .chained s x ∈ entries ∧ rowKey x.1 = k := by
  rw [positions, List.mem_filterMap]
  constructor
  · rintro ⟨entry, hmem, hk⟩
    cases entry with
    | enqueued item => cases hk
    | chained s x => exact ⟨s, x, hmem, Option.some.inj hk⟩
  · rintro ⟨s, x, hmem, hk⟩
    exact ⟨.chained s x, hmem, congrArg some hk⟩

theorem positions_append (es fs : List Entry) : positions (es ++ fs) = positions es ++ positions fs :=
  List.filterMap_append ..

theorem writes_event {p : Pc} {o : Uuid} {t : ℤ} {n : ℕ} {v : Option (Row (.event o t n))}
    (h : Writes c i ((auditProgram env).next p) (.event o t n) v) :
    ∃ x after, p = .insertEvent x after := by
  cases p with
  | insertEvent x after => exact ⟨x, after, rfl⟩
  | _ => cases h

/-- What transaction `i` has inserted: the rows it holds, at positions of their own. -/
structure Inserts (c : AuditCfg) (l : Ledger Entry) (i : ℕ) : Prop where
  placed : ∀ s x, .chained s x ∈ l.work i →
    c.lock (rowKey x.1) = some (i, some (trailRow x)) ∧ c.db.row (rowKey x.1) = none
  locks : ∀ o t n v, c.lock (.event o t n) = some (i, v) → .event o t n ∈ positions (l.work i)
  nodup : (positions (l.work i)).Nodup

theorem Inserts.frame {l' : Ledger Entry} (h : Inserts c l i) (hf : Frame c c' i)
    (hwork : l'.work i = l.work i) : Inserts c' l' i := by
  refine ⟨fun s x hx => ?_, fun o t n v hl => ?_, hwork ▸ h.nodup⟩
  · rw [hwork] at hx
    obtain ⟨hl, hrow⟩ := h.placed s x hx
    exact ⟨(hf.lock _ _).mpr hl, (hf.row _ _ hl).trans hrow⟩
  · rw [hwork]
    exact h.locks o t n v ((hf.lock _ _).mp hl)

theorem inserts_nil (hw : l.work i = []) (hl : ∀ o t n v, c.lock (.event o t n) ≠ some (i, v)) :
    Inserts c l i := by
  refine ⟨fun s x hx => ?_, fun o t n v h => absurd h (hl o t n v), ?_⟩
  · rw [hw] at hx
    exact absurd hx List.not_mem_nil
  · rw [hw]
    exact List.nodup_nil

theorem Inserts.holds (h : Inserts c l i) {k : Key} (hk : k ∈ positions (l.work i)) :
    (∃ v, c.lock k = some (i, some v)) ∧ c.db.row k = none := by
  obtain ⟨s, x, hx, rfl⟩ := mem_positions.mp hk
  obtain ⟨hl, hrow⟩ := h.placed s x hx
  exact ⟨⟨trailRow x, hl⟩, hrow⟩

theorem positions_chained (s : Source) (x : StoredEvent) :
    positions [.chained s x] = [rowKey x.1] := rfl

theorem Inserts.insert {x : StoredEvent} {s : Source} {q : Pc} (h : Inserts c l i)
    (hrow : c.viewRow i (rowKey x.1) = none) :
    Inserts ((c.write i (rowKey x.1) (some (trailRow x))).goto i q) (l.note i [.chained s x]) i := by
  have hnew : rowKey x.1 ∉ positions (l.work i) := by
    intro hmem
    obtain ⟨⟨v, hv⟩, -⟩ := h.holds hmem
    rw [Cfg.viewRow_own hv] at hrow
    cases hrow
  have hdb : c.db.row (rowKey x.1) = none := by
    rw [← hrow]
    exact (Cfg.viewRow_other fun v hv => hnew (h.locks _ _ _ v hv)).symm
  refine ⟨fun s' y hy => ?_, fun o t n v hl => ?_, ?_⟩
  · rw [Ledger.note_work_self] at hy
    rcases List.mem_append.mp hy with hold | hnew'
    · have hne : rowKey y.1 ≠ rowKey x.1 := by
        intro hkey
        exact hnew (hkey ▸ mem_positions.mpr ⟨s', y, hold, rfl⟩)
      obtain ⟨hl, hr⟩ := h.placed s' y hold
      refine ⟨?_, hr⟩
      rw [Cfg.goto_lock, Cfg.write_lock, Function.update_of_ne hne]
      exact hl
    · cases List.mem_singleton.mp hnew'
      refine ⟨?_, hdb⟩
      rw [Cfg.goto_lock, Cfg.write_lock, Function.update_self]
  · rw [Ledger.note_work_self, positions_append, positions_chained, List.mem_append,
      List.mem_singleton]
    rcases lock_write hl with hold | ⟨-, hk, -⟩
    · exact Or.inl (h.locks o t n v hold)
    · exact Or.inr hk.symm
  · rw [Ledger.note_work_self, positions_append, positions_chained, List.nodup_append]
    refine ⟨h.nodup, List.nodup_singleton _, fun k hk k' hk' hkk => ?_⟩
    rw [List.mem_singleton.mp hk'] at hkk
    exact hnew (hkk ▸ hk)

theorem ends_next {p : Pc} (hcommit : ∀ n, p ≠ .commit n) (hfail : p ≠ .fail) :
    ((auditProgram env).next p).ends = false := by
  cases p with
  | commit n => exact absurd rfl (hcommit n)
  | fail => exact absurd rfl hfail
  | _ => rfl

theorem Inserts.other {p : Pc} (h : Inserts c l i)
    (ha : c.act i ((auditProgram env).next p) = some c') (hp : ∀ x after, p ≠ .insertEvent x after)
    (hcommit : ∀ n, p ≠ .commit n) (hfail : p ≠ .fail) :
    Inserts c' (l.note i (noted p)) i := by
  have hpos : positions (noted p) = [] := by
    cases p with
    | insertEvent x after => exact absurd rfl (hp x after)
    | _ => rfl
  have hlock (o : Uuid) (t : ℤ) (n : ℕ) : c'.lock (.event o t n) = c.lock (.event o t n) := by
    apply lock_of_not_writes ha (ends_next hcommit hfail)
    intro r hw
    obtain ⟨x, after, hx⟩ := writes_event hw
    exact hp x after hx
  have hrow := row_of_not_ends ha (ends_next hcommit hfail)
  refine ⟨fun s x hx => ?_, fun o t n v hl => ?_, ?_⟩
  · rw [Ledger.note_work_self] at hx
    rcases List.mem_append.mp hx with hold | hnew
    · obtain ⟨hl, hr⟩ := h.placed s x hold
      rw [hrow]
      exact ⟨(hlock ..).trans hl, hr⟩
    · have hmem : rowKey x.1 ∈ positions (noted p) := mem_positions.mpr ⟨s, x, hnew, rfl⟩
      rw [hpos] at hmem
      cases hmem
  · rw [Ledger.note_work_self, positions_append, hpos, List.append_nil]
    rw [hlock] at hl
    exact h.locks o t n v hl
  · rw [Ledger.note_work_self, positions_append, hpos, List.append_nil]
    exact h.nodup

/-- The rows of the trail are those of the events that were chained, each at its own position. -/
structure RowsOk (db : Db) (done : List Entry) : Prop where
  rows : ∀ o t n v, db.row (.event o t n) = some v → .event o t n ∈ positions done
  chained : ∀ s x, .chained s x ∈ done → db.row (rowKey x.1) = some (trailRow x)
  nodup : (positions done).Nodup

theorem RowsOk.congr {db db' : Db} {done : List Entry} (h : RowsOk db done)
    (hrow : db'.row = db.row) : RowsOk db' done := by
  refine ⟨fun o t n v hv => ?_, fun s x hx => ?_, h.nodup⟩
  · rw [hrow] at hv
    exact h.rows o t n v hv
  · rw [hrow]
    exact h.chained s x hx

theorem RowsOk.commit {n : Option Pc} (h : RowsOk c.db l.done) (hi : Inserts c l i) :
    RowsOk (c.commit i n).db (l.settle i).done := by
  have hold {k : Key} (hk : k ∈ positions l.done) : c.db.row k ≠ none := by
    obtain ⟨s, x, hx, rfl⟩ := mem_positions.mp hk
    rw [h.chained s x hx]
    exact Option.some_ne_none _
  refine ⟨fun o t m v hv => ?_, fun s x hx => ?_, ?_⟩
  · rw [Ledger.settle_done, positions_append, List.mem_append]
    rcases c.viewRow_cases i (.event o t m) with ⟨r, hr, -⟩ | ⟨-, hrow⟩
    · exact Or.inr (hi.locks o t m r hr)
    · rw [Cfg.commit_row, hrow] at hv
      exact Or.inl (h.rows o t m v hv)
  · rw [Ledger.settle_done, List.mem_append] at hx
    rw [Cfg.commit_row]
    rcases hx with hx | hx
    · rw [Cfg.viewRow_other, h.chained s x hx]
      -- a row that is committed is not one the transaction has inserted
      intro r hr
      have hmem := hi.locks _ _ _ r hr
      exact hold (mem_positions.mpr ⟨s, x, hx, rfl⟩) (hi.holds hmem).2
    · exact Cfg.viewRow_own (hi.placed s x hx).1
  · rw [Ledger.settle_done, positions_append, List.nodup_append]
    refine ⟨h.nodup, hi.nodup, fun k hk k' hk' hkk => ?_⟩
    rw [← hkk] at hk'
    exact hold hk (hi.holds hk').2

end Rows

section Runs

variable {env : Env} {c c' : AuditCfg} {l : Ledger Entry} {e : Event Req} {es : List (Event Req)}

/-- What every step keeps, while the ids to be drawn for the queue are new. -/
structure Draining (c : AuditCfg) (l : Ledger Entry) (es : List (Event Req)) : Prop where
  live : OwnersLive c
  procs : ∀ i p, c.proc i = some p → Proceeds c l i p
  inserts : ∀ i, c.proc i ≠ some .fail → Inserts c l i
  items : ItemsOk c.db l.done
  ids : IdsOk c l es
  rows : RowsOk c.db l.done

theorem Draining.step_procs (hd : Draining c l (e :: es))
    (h : exec (auditProgram env) c e = some c') (i : ℕ) (q : Pc) (hq : c'.proc i = some q) :
    Proceeds c' (track (auditProgram env) noted c l e) i q := by
  by_cases hi : i = e.actor
  swap
  · obtain ⟨hframe, hproc⟩ := frame_of_exec h hi
    exact (hd.procs i q (hproc ▸ hq)).frame hframe (track_work_of_ne h hi)
      fun x hx => mem_track_done h hx
  rcases exec_cases h with ⟨j, r, rfl, hj, rfl⟩ | ⟨j, rfl, -, rfl⟩ | ⟨j, p, rfl, hp, ha⟩
  · change i = j at hi
    subst hi
    rw [Cfg.goto_proc, Function.update_self] at hq
    rw [← Option.some.inj hq]
    exact proceeds_start hd.live hj r
  · change i = j at hi
    rw [hi, Cfg.rollback_proc, Function.update_self] at hq
    cases hq
  · change i = j at hi
    subst hi
    rw [track_step hp]
    by_cases hcommit : ∃ n, p = .commit n
    · obtain ⟨n, rfl⟩ := hcommit
      obtain rfl := act_commit ha
      rw [Cfg.commit_proc, Function.update_self] at hq
      exact proceeds_commit (hd.procs i _ hp) hq
    by_cases hfail : p = .fail
    · subst hfail
      obtain rfl := act_abort ha
      rw [Cfg.rollback_proc, Function.update_self] at hq
      cases hq
    have hn : ∀ n, p ≠ .commit n := fun n hpn => hcommit ⟨n, hpn⟩
    rw [act_of_not_ends (ends_next hn hfail)]
    exact (hd.procs i p hp).step hd.items.sees hd.items.single hn ha hq

theorem Draining.step_inserts (hd : Draining c l (e :: es))
    (h : exec (auditProgram env) c e = some c') (i : ℕ) (hq : c'.proc i ≠ some .fail) :
    Inserts c' (track (auditProgram env) noted c l e) i := by
  by_cases hi : i = e.actor
  swap
  · obtain ⟨hframe, hproc⟩ := frame_of_exec h hi
    exact (hd.inserts i (hproc ▸ hq)).frame hframe (track_work_of_ne h hi)
  rcases exec_cases h with ⟨j, r, rfl, hj, rfl⟩ | ⟨j, rfl, -, rfl⟩ | ⟨j, p, rfl, hp, ha⟩
  · change i = j at hi
    subst hi
    exact inserts_nil l.drop_work_self fun o t n v hl => hd.live _ i v hl hj
  · change i = j at hi
    subst hi
    exact inserts_nil l.drop_work_self fun o t n v hl => (Cfg.releaseLock_eq_some.mp hl).2 rfl
  · change i = j at hi
    subst hi
    rw [track_step hp]
    by_cases hcommit : ∃ n, p = .commit n
    · obtain ⟨n, rfl⟩ := hcommit
      obtain rfl := act_commit ha
      exact inserts_nil l.settle_work_self fun o t m v hl => (Cfg.releaseLock_eq_some.mp hl).2 rfl
    by_cases hfail : p = .fail
    · subst hfail
      obtain rfl := act_abort ha
      exact inserts_nil l.drop_work_self fun o t n v hl => (Cfg.releaseLock_eq_some.mp hl).2 rfl
    have hn : ∀ n, p ≠ .commit n := fun n hpn => hcommit ⟨n, hpn⟩
    rw [act_of_not_ends (ends_next hn hfail)]
    have hold : Inserts c l i := hd.inserts i fun hpf => hfail (Option.some.inj (hp.symm.trans hpf))
    by_cases hinsert : ∃ x after, p = .insertEvent x after
    · obtain ⟨x, after, rfl⟩ := hinsert
      rcases act_insert ha with ⟨hrow, -, rfl⟩ | ⟨-, rfl⟩
      · exact hold.insert hrow
      · exact absurd (Function.update_self ..) hq
    · exact hold.other ha (fun x after hx => hinsert ⟨x, after, hx⟩) hn hfail

theorem Draining.step (hd : Draining c l (e :: es)) (h : exec (auditProgram env) c e = some c') :
    Draining c' (track (auditProgram env) noted c l e) es := by
  have hcommitted : ItemsOk c'.db (track (auditProgram env) noted c l e).done ∧
      RowsOk c'.db (track (auditProgram env) noted c l e).done := by
    rcases track_cases noted l h with ⟨hdone, hrow⟩ | ⟨i, p, n, -, hp, hn, rfl, ht⟩
    · rw [hdone]
      have hitems := hd.items.congr (fun item => congrFun hrow item.key) appending_nil
      rw [List.append_nil] at hitems
      exact ⟨hitems, hd.rows.congr hrow⟩
    · rw [ht]
      obtain rfl := eq_commit_of_next hn
      have hmoves : Moves c l i := (hd.procs i _ hp).moves n rfl
      refine ⟨hd.items.commit hmoves fun id ev hw ev' hin => ?_, hd.rows.commit (hd.inserts i ?_)⟩
      · have hworking : Uses c l id (some i) := .working (hw ▸ List.mem_singleton_self _)
        cases hd.ids.single id _ _ hworking (.committed hin)
      · rw [hp]
        simp
  exact ⟨hd.live.step h, hd.step_procs h, hd.step_inserts h, hcommitted.1,
    hd.ids.step hd.procs h, hcommitted.2⟩

theorem itemsOk_nil {db : Db} (h : ∀ item : Item, db.row item.key = none) : ItemsOk db [] := by
  refine ⟨fun _ hmem => ?_, fun _ _ hmem => ?_, ⟨fun id ev hev => ?_, fun id row hrow => ?_⟩,
    fun _ _ hmem => ?_⟩
  · exact absurd hmem List.not_mem_nil
  · exact absurd hmem List.not_mem_nil
  · cases (h (.event id ev)).symm.trans hev
  · cases (h (.switch id row)).symm.trans hrow
  · exact absurd hmem List.not_mem_nil

theorem draining_idle {db : Db} (hdb : NoTrail db) (hitems : ∀ item : Item, db.row item.key = none)
    (hids : (es.filterMap drawnId).Nodup) :
    Draining (Cfg.idle db) Ledger.blank es where
  live := ownersLive_idle db
  procs _ _ hp := by cases hp
  inserts _ _ := inserts_nil rfl fun _ _ _ _ hl => by cases hl
  items := itemsOk_nil hitems
  ids := by
    have hunused (id : Uuid) (a : Option ℕ) : ¬Uses (Cfg.idle db) Ledger.blank id a := by
      intro hu
      cases hu with
      | entering hp => cases hp
      | working hmem => exact absurd hmem List.not_mem_nil
      | committed hmem => exact absurd hmem List.not_mem_nil
    exact ⟨hids, fun id _ a => hunused id a, fun id a _ ha => absurd ha (hunused id a)⟩
  rows := by
    refine ⟨fun o t n v hv => ?_, fun _ _ hmem => absurd hmem List.not_mem_nil, List.nodup_nil⟩
    cases (hdb.event o t n).symm.trans hv

theorem Item.Carries.organizationId {item : Item} {ev : AuditEvent} (h : item.Carries ev) :
    ev.organizationId = item.organizationId := by
  cases item with
  | event id row =>
    obtain ⟨rfl, -⟩ := unmarshalEvent_queuePayload row.payload_eq h
    rfl
  | switch id row =>
    obtain ⟨subject, eventId, hbuild⟩ := h
    unfold buildEvent newAuditEvent at hbuild
    split_ifs at hbuild
    rw [← Except.ok.inj hbuild]
    rfl

theorem RowsOk.hasEvent {db : Db} {done : List Entry} (h : RowsOk db done) {y : SealedEvent} :
    HasEvent db y ↔ ∃ s x, .chained s x ∈ done ∧ x.1.stored = y := by
  constructor
  · intro hy
    obtain ⟨v, hv, -⟩ := Option.map_eq_some_iff.mp hy
    obtain ⟨s, x, hx, hkey⟩ := mem_positions.mp (h.rows _ _ _ v hv)
    refine ⟨s, x, hx, ?_⟩
    have hrow := h.chained s x hx
    have hat : eventAt db y.event.organizationId y.event.occurredAt.unixMicro y.seq =
        some x.1.stored := by
      obtain ⟨ho, ht, hn⟩ := Key.event.inj hkey
      rw [← ho, ← ht, ← hn]
      exact congrArg (Option.map fun v => v.1.1) hrow
    exact Option.some.inj (hat.symm.trans hy)
  · rintro ⟨s, x, hx, rfl⟩
    have htime : x.1.stored.event.occurredAt.unixMicro = x.1.event.occurredAt.unixMicro :=
      Time.stored_unixMicro _
    rw [HasEvent, htime]
    exact congrArg (Option.map fun v => v.1.1) (h.chained s x hx)

/-- Whatever the drains, enqueues and appends of a run do in whatever order, and wherever they
stop: the trail has the events that were chained and no other, each once, and every committed item
is either pending, with nothing chained for it, or no longer pending, with one event of its
organization's chain. -/
theorem drained_exactly_once {db : Db} (hdb : NoTrail db)
    (hitems : ∀ item : Item, db.row item.key = none) (hids : (es.filterMap drawnId).Nodup)
    (hrun : run (exec (auditProgram env)) (Cfg.idle db) es = some c) :
    (∀ org y, y ∈ trailEvents c.db org ↔ y.event.organizationId = org ∧
      ∃ s x, .chained s x ∈ committedEntries env db es ∧ x.1.stored = y) ∧
    (positions (committedEntries env db es)).Nodup ∧
    (∀ item : Item, item.Waiting → item.Pending c.db →
      .enqueued item ∈ committedEntries env db es) ∧
    ∀ item, .enqueued item ∈ committedEntries env db es →
      (item.Pending c.db ∧ chainedFrom (committedEntries env db es) item.source = []) ∨
      (¬item.Pending c.db ∧ ∃ x, chainedFrom (committedEntries env db es) item.source = [x] ∧
        item.Carries x.1.event ∧ x.1.stored ∈ trailEvents c.db item.organizationId) := by
  have hd : Draining c (ledger (auditProgram env) noted (Cfg.idle db) Ledger.blank es) [] :=
    ledger_invariant (I := Draining) (fun _ _ _ _ _ hd he => hd.step he)
      (draining_idle hdb hitems hids) hrun
  have hok : ItemsOk c.db (committedEntries env db es) := hd.items
  have hrows : RowsOk c.db (committedEntries env db es) := hd.rows
  refine ⟨fun org y => ?_, hrows.nodup, fun item hwait hpending => ?_, fun item hin => ?_⟩
  · rw [mem_trailEvents, hrows.hasEvent]
    exact And.comm
  · cases item with
    | event id ev => exact hok.sees.1 id ev hpending
    | switch id row =>
      have hsame : { row with published := false } = row := by rw [← hwait]
      rw [← hsame]
      exact hok.sees.2 id { row with published := false } hpending
  · rcases hok.once item hin with hpending | ⟨hdrained, x, hx, hc⟩
    · exact Or.inl hpending
    · refine Or.inr ⟨not_pending_of_drained hdrained, x, hx, hc, ?_⟩
      have hmem : x ∈ chainedFrom (committedEntries env db es) item.source := by
        rw [hx]
        exact List.mem_singleton_self x
      obtain ⟨entry, hentry, hfrom⟩ := List.mem_filterMap.mp hmem
      rw [mem_trailEvents, hrows.hasEvent]
      refine ⟨?_, hc.organizationId⟩
      cases entry with
      | enqueued item' => cases hfrom
      | chained s y =>
        simp only [Entry.chainedFrom] at hfrom
        split_ifs at hfrom
        rw [Option.some.inj hfrom] at hentry
        exact ⟨s, x, hentry, rfl⟩

end Runs

namespace Sample

/-- Two drains read the same queued event; one chains it, the other finds its row gone. -/
def drainedTwice : List (Event Req) :=
  [.start 0 (.enqueue (loginInput 7) 5000 1 11), .step 0, .step 0,
    .start 1 (.drainQueue 5 fun _ => nonce), .step 1, .start 2 (.drainQueue 5 fun _ => nonce),
    .step 2, .step 1, .step 1, .step 1, .step 1, .step 1, .step 1, .step 1,
    .step 2, .step 2, .step 2, .step 2, .step 2, .step 2, .step 2]

def queuedEntry : Entry → Bool
  | .enqueued (.event id row) => id = 11 && row.1.organizationId = 7
  | _ => false

end Sample

theorem drained_twice_chained_once :
    ∃ c, run (exec (auditProgram Sample.env)) (Cfg.idle Store.empty) Sample.drainedTwice = some c ∧
      c.proc 2 = none ∧
      ∃ x, chainedFrom (committedEntries Sample.env Store.empty Sample.drainedTwice) (.queue 11) =
        [x] ∧ x.1.stored ∈ trailEvents c.db 7 := by
  have hrun : (run (exec (auditProgram Sample.env)) (Cfg.idle Store.empty)
      Sample.drainedTwice).any (fun c => (c.proc 2).isNone && (c.db.row (.queue 11)).isNone) =
        true := by
    decide +kernel
  have hentry : (committedEntries Sample.env Store.empty Sample.drainedTwice).any
      Sample.queuedEntry = true := by
    decide +kernel
  obtain ⟨c, hc, hdec⟩ := (Option.any_eq_true _ _).mp hrun
  obtain ⟨hproc, hrow⟩ := Bool.and_eq_true_iff.mp hdec
  obtain ⟨entry, hin, hqueued⟩ := List.any_eq_true.mp hentry
  refine ⟨c, hc, Option.isNone_iff_eq_none.mp hproc, ?_⟩
  obtain ⟨-, -, -, honce⟩ := drained_exactly_once
    ⟨fun _ => rfl, fun _ _ _ => rfl, fun _ _ => rfl⟩ (fun _ => rfl)
    (by decide) hc
  cases entry with
  | chained s x => cases hqueued
  | enqueued item =>
    cases item with
    | switch id row => cases hqueued
    | event id e =>
      obtain ⟨hid, horg⟩ := Bool.and_eq_true_iff.mp hqueued
      obtain rfl : id = 11 := of_decide_eq_true hid
      rcases honce _ hin with ⟨hpending, -⟩ | ⟨-, x, hx, -, hmem⟩
      · rw [Item.Pending, Option.isNone_iff_eq_none.mp hrow] at hpending
        cases hpending
      · refine ⟨x, hx, ?_⟩
        rwa [Item.organizationId, of_decide_eq_true horg] at hmem

end ArchGuard.Audit
