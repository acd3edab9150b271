import ArchGuard.AuthzOutbox
import ArchGuard.UuidText

/-! What the tuple store holds once the outbox is drained: for every interleaving of
transactions and drains in which each commit leaves its last mutation of a tuple last in
the order of the drain, the effect of the last committed mutation. -/
namespace ArchGuard.Authz
open ReadCommitted TransitionRun

section Log

/-- The last mutation of a tuple in a list of enqueued rows. -/
def lastFor (es : List OutboxEntry) (t : RelationTuple) : Option OutboxEntry :=
  (es.filter fun e => e.row.tuple = t).getLast?

variable {es fs : List OutboxEntry} {t : RelationTuple} {e : OutboxEntry}

theorem lastFor_append : lastFor (es ++ fs) t = (lastFor fs t).or (lastFor es t) := by
  simp only [lastFor, List.filter_append, List.getLast?_append]

theorem mem_of_lastFor (h : lastFor es t = some e) : e ∈ es ∧ e.row.tuple = t := by
  have hmem := List.mem_of_getLast? h
  simpa only [List.mem_filter, decide_eq_true_eq] using hmem

theorem tuple_ne_of_lastFor_none (h : lastFor es t = none) (he : e ∈ es) : e.row.tuple ≠ t := by
  intro ht
  have hnil : es.filter (fun e => e.row.tuple = t) = [] := by
    simpa only [lastFor, List.getLast?_eq_none_iff] using h
  have hmem : e ∈ es.filter (fun e => e.row.tuple = t) := List.mem_filter.mpr ⟨he, by simp [ht]⟩
  rw [hnil] at hmem
  exact List.not_mem_nil hmem

end Log

variable {κ : Type} {ρ : κ → Type}

/-- The mutations that a step commits, in the order in which they were enqueued. -/
def committed (c : Cfg (Row ρ) (Pc ρ)) : Event (Req ρ) → Option (List OutboxEntry)
  | .step i =>
    match c.proc i with
    | some (.business _ queued .commit) => some queued
    | _ => none
  | _ => none

/-- A commit leaves its last mutation of each tuple last in the order of the drain, among
the unpublished mutations of the tuple that have another effect. -/
def CommitsInOrder (c : Cfg (Row ρ) (Pc ρ)) (e : Event (Req ρ)) : Prop :=
  ∀ queued ∈ committed c e, ∀ q ∈ queued, lastFor queued q.row.tuple = some q →
    ∀ r ∈ outboxRows (c.view e.actor), r.row.published = false → r.row.tuple = q.row.tuple →
      r.row.effect ≠ q.row.effect → r.drainsBefore q

instance (c : Cfg (Row ρ) (Pc ρ)) (e : Event (Req ρ)) : Decidable (CommitsInOrder c e) :=
  inferInstanceAs (Decidable (∀ queued ∈ committed c e, _))

/-- What the store holds of a tuple: nothing, or the condition it is under. -/
def heldTuple (db : Store (Row ρ)) (t : RelationTuple) : Option (Option TupleCondition) :=
  (db.row (.tuple t)).map TupleRow.condition

section Rows

variable {db : Store (Row ρ)} {e e' : OutboxEntry}

theorem mem_outboxRows : e ∈ outboxRows db ↔ db.row (.outbox e.id) = some e.row := by
  unfold outboxRows
  rw [Store.mem_scan]
  constructor
  · rintro ⟨k, v, hv, he⟩
    cases k with
    | outbox id =>
      obtain rfl : (⟨id, v⟩ : OutboxEntry) = e := Option.some.inj he
      exact hv
    | source k => cases he
    | tuple t => cases he
  · exact fun h => ⟨.outbox e.id, e.row, h, rfl⟩

theorem not_drainsBefore_total (a b : OutboxEntry) : ¬b.drainsBefore a ∨ ¬a.drainsBefore b := by
  unfold OutboxEntry.drainsBefore
  grind

theorem not_drainsBefore_self (a : OutboxEntry) : ¬a.drainsBefore a := by
  unfold OutboxEntry.drainsBefore
  simp

theorem not_drainsBefore_trans {a b c : OutboxEntry} (hab : ¬b.drainsBefore a)
    (hbc : ¬c.drainsBefore b) : ¬c.drainsBefore a := by
  unfold OutboxEntry.drainsBefore at *
  grind

theorem mem_unpublished {batch : ℕ} (h : e ∈ unpublished db batch) :
    db.row (.outbox e.id) = some e.row ∧ e.row.published = false := by
  have hmem := List.mem_of_mem_take h
  rw [List.mem_insertionSort, List.mem_filter, mem_outboxRows] at hmem
  simpa using hmem

/-- A batch that holds a row holds before it every unpublished row that drains before it. -/
theorem mem_prefix_of_unpublished {batch : ℕ} {before after : List OutboxEntry}
    (hsplit : unpublished db batch = before ++ e :: after)
    (hrow : db.row (.outbox e'.id) = some e'.row) (hp : e'.row.published = false)
    (hlt : e'.drainsBefore e) : e' ∈ before := by
  have : Std.Total fun a b : OutboxEntry => ¬b.drainsBefore a := ⟨not_drainsBefore_total⟩
  have : IsTrans OutboxEntry fun a b => ¬b.drainsBefore a := ⟨fun _ _ _ => not_drainsBefore_trans⟩
  let sorted := ((outboxRows db).filter fun e => !e.row.published).insertionSort
    fun a b => ¬b.drainsBefore a
  have hsorted : sorted.Pairwise fun a b => ¬b.drainsBefore a := List.pairwise_insertionSort _ _
  have heq : sorted = before ++ e :: (after ++ sorted.drop batch) := by
    calc sorted = sorted.take batch ++ sorted.drop batch := (List.take_append_drop batch sorted).symm
      _ = (before ++ e :: after) ++ sorted.drop batch := congrArg (· ++ sorted.drop batch) hsplit
      _ = before ++ e :: (after ++ sorted.drop batch) := by simp only [List.append_assoc, List.cons_append]
  have hmem : e' ∈ sorted := by
    rw [List.mem_insertionSort, List.mem_filter, mem_outboxRows]
    exact ⟨hrow, by simp [hp]⟩
  rw [heq] at hmem hsorted
  rw [List.mem_append] at hmem
  -- behind `e` nothing drains before `e`
  apply hmem.resolve_right
  intro htail
  have hhead := (List.pairwise_append.mp hsorted).2.1
  rcases List.mem_cons.mp htail with rfl | htail
  · exact not_drainsBefore_self e' hlt
  · exact (List.pairwise_cons.mp hhead).1 e' htail hlt

end Rows

section States

def Unpublished (db : Store (Row ρ)) (e : OutboxEntry) : Prop :=
  db.row (.outbox e.id) = some e.row ∧ e.row.published = false

def Published (db : Store (Row ρ)) (e : OutboxEntry) : Prop :=
  db.row (.outbox e.id) = some { e.row with published := true }

def Rival (db : Store (Row ρ)) (e e' : OutboxEntry) : Prop :=
  Unpublished db e' ∧ e'.row.tuple = e.row.tuple ∧ e'.row.effect ≠ e.row.effect

/-- What is left of a drain, the row it works on first. -/
def Pc.rows : Pc ρ → List OutboxEntry
  | .fetched rows => rows
  | .apply r rest | .refresh r rest | .mark r rest | .marked r rest | .skip r rest => r :: rest
  | .business .. | .readOutbox _ | .fail => []

/-- The row whose mutation a drain has applied and not committed. -/
def Pc.applied : Pc ρ → Option OutboxEntry
  | .mark r _ | .marked r _ => some r
  | _ => none

theorem Pc.mem_rows_of_applied {l : Pc ρ} {e : OutboxEntry} (h : l.applied = some e) :
    ∃ rest, l.rows = e :: rest := by
  cases l with
  | mark r rest => exact ⟨rest, congrArg (· :: rest) (Option.some.inj h)⟩
  | marked r rest => exact ⟨rest, congrArg (· :: rest) (Option.some.inj h)⟩
  | _ => cases h

variable (c : Cfg (Row ρ) (Pc ρ)) (i : ℕ)

def NoTupleLock : Prop := ∀ t r, c.lock (.tuple t) ≠ some (i, r)

def NoOutboxLock : Prop := ∀ id r, c.lock (.outbox id) ≠ some (i, r)

/-- The only tuple that the transaction holds is the one of `e`, with its effect. -/
def HoldsEffect (e : OutboxEntry) : Prop :=
  ∀ t r, c.lock (.tuple t) = some (i, r) → t = e.row.tuple ∧ r.map TupleRow.condition = e.row.effect

/-- The outbox rows of a business transaction are the ones it has enqueued. -/
structure HoldsQueued (queued : List OutboxEntry) : Prop where
  held : ∀ e ∈ queued, c.lock (.outbox e.id) = some (i, some e.row)
  fresh : ∀ e ∈ queued, c.db.row (.outbox e.id) = none
  unpublished : ∀ e ∈ queued, e.row.published = false
  only : ∀ id r, c.lock (.outbox id) = some (i, r) → ∃ e ∈ queued, e.id = id ∧ r = some e.row

/-- A drain holds the mark of one row and no other outbox row. -/
structure HoldsMark (r : OutboxEntry) : Prop where
  held : c.lock (.outbox r.id) = some (i, some { r.row with published := true })
  only : ∀ id v, c.lock (.outbox id) = some (i, v) → id = r.id
  unpublished : Unpublished c.db r

/-- What each transaction holds where it stands. -/
def LocksOk : Pc ρ → Prop
  | .business _ queued _ => NoTupleLock c i ∧ HoldsQueued c i queued
  | .readOutbox _ | .fetched _ | .apply .. => NoTupleLock c i ∧ NoOutboxLock c i
  -- DO UPDATE is reached from a write
  | .refresh r _ => (NoTupleLock c i ∧ NoOutboxLock c i) ∧ r.row.effect = some r.row.condition
  | .mark r _ => HoldsEffect c i r ∧ NoOutboxLock c i
  | .marked r _ => HoldsEffect c i r ∧ HoldsMark c i r
  | .skip r _ => Published c.db r
  | .fail => True

/-- A drain works on committed rows. -/
def Tracked (l : Pc ρ) : Prop := ∀ e ∈ l.rows, Unpublished c.db e ∨ Published c.db e

/-- A drain that still has to publish `e` publishes every rival first, and one that has
applied `e` sees its effect. -/
def Awaits (l : Pc ρ) (e : OutboxEntry) : Prop :=
  (∀ before after, l.rows = before ++ e :: after → ∀ e', Rival c.db e e' → e' ∈ before) ∧
    (l.applied = some e → (c.viewRow i (.tuple e.row.tuple)).map TupleRow.condition = e.row.effect)

/-- The last committed mutation of a tuple is yet to be published, after its rivals; or it
is published, it has no rivals, and the store holds its effect. -/
def Settled (e : OutboxEntry) : Prop :=
  (Unpublished c.db e ∧ (∀ e', Rival c.db e e' → e'.drainsBefore e) ∧
      ∀ j l, c.proc j = some l → Awaits c j l e) ∨
    (Published c.db e ∧ (∀ e', ¬Rival c.db e e') ∧ heldTuple c.db e.row.tuple = e.row.effect)

end States

/-- The invariant, over the mutations committed so far. -/
structure OutboxInv (log : List OutboxEntry) (c : Cfg (Row ρ) (Pc ρ)) : Prop where
  live : OwnersLive c
  holds : ∀ j l, c.proc j = some l → LocksOk c j l
  tracked : ∀ j l, c.proc j = some l → Tracked c l
  settled : ∀ t e, lastFor log t = some e → Settled c e

section Statements

variable {parse column : String → Option Uuid} {c : Cfg (Row ρ) (Pc ρ)} {ev : Event (Req ρ)}
  {e : OutboxEntry} {i : ℕ}

theorem committed_eq_some {queued : List OutboxEntry} : committed c ev = some queued ↔
    ∃ i start, ev = .step i ∧ c.proc i = some (.business start queued .commit) := by
  cases ev with
  | start i r => simp [committed]
  | kill i => simp [committed]
  | step i =>
    constructor
    · intro h
      simp only [committed] at h
      split at h
      · rename_i start queued' hp
        exact ⟨i, start, rfl, Option.some.inj h ▸ hp⟩
      · cases h
    · rintro ⟨i', start, hi, hp⟩
      obtain rfl := Event.step.inj hi
      simp only [committed, hp]

theorem businessNext_eq_commit {start : Time} {queued : List OutboxEntry} {s : Script ρ}
    {n : Option (Pc ρ)} (h : businessNext parse start queued s = .commit n) : s = .commit := by
  cases s with
  | enqueue updates next =>
    cases updates with
    | nil => cases h
    | cons u updates =>
      simp only [businessNext] at h
      split at h <;> cases h
  | commit => rfl
  | _ => cases h

theorem Unpublished.not_published {db : Store (Row ρ)} (he : Unpublished db e) : ¬Published db e := by
  intro hp
  have heq : e.row = { e.row with published := true } := Option.some.inj (he.1.symm.trans hp)
  have := congrArg OutboxRow.published heq
  rw [he.2] at this
  cases this

theorem businessNext_rows {start : Time} {queued : List OutboxEntry} {s : Script ρ} {l : Pc ρ}
    (h : Reaches c i (businessNext parse start queued s) l) : l.rows = [] := by
  cases s with
  | enqueue updates next =>
    cases updates with
    | nil =>
      cases h
      rfl
    | cons u updates =>
      simp only [businessNext] at h
      split at h <;> cases h <;> rfl
  | commit => cases h
  | fail => cases h
  | _ => cases h <;> rfl

theorem applyTupleUpdate_rows {r : OutboxEntry} {rest : List OutboxEntry} {l : Pc ρ}
    (h : Reaches c i (applyTupleUpdate column r rest) l) : l.rows = r :: rest := by
  unfold applyTupleUpdate at h
  split at h
  · split at h <;> cases h <;> rfl
  · cases h <;> rfl

theorem nextRow_rows {rest : List OutboxEntry} {l : Pc ρ} (h : nextRow rest = some l) :
    l.rows = rest := by
  cases rest with
  | nil => cases h
  | cons r rest =>
    cases h
    rfl

/-- What is left of a drain after a statement: the same rows, the batch it has just read,
or all but a row that is published or passed over. -/
theorem rows_of_reaches {l l' : Pc ρ} (h : Reaches c i ((outboxProgram parse column).next l) l') :
    l'.rows = [] ∨ l'.rows = l.rows ∨
      (∃ batch, l = .readOutbox batch ∧ l'.rows = unpublished (c.view i) batch) ∨
      ∃ r, l = .marked r l'.rows ∨ l = .skip r l'.rows := by
  cases l with
  | business start queued s => exact Or.inl (businessNext_rows h)
  | readOutbox batch =>
    cases h
    exact Or.inr (Or.inr (Or.inl ⟨batch, rfl, rfl⟩))
  | fetched rows =>
    generalize hn : (outboxProgram parse column).next (.fetched rows) = a at h
    cases h with
    | commit => exact Or.inr (Or.inl (nextRow_rows (Action.commit.inj hn)))
    | _ => cases hn
  | apply r rest => exact Or.inr (Or.inl (applyTupleUpdate_rows h))
  | refresh r rest => cases h <;> exact Or.inr (Or.inl rfl)
  | mark r rest =>
    cases h with
    | absent hk => exact Or.inr (Or.inl rfl)
    | present hv =>
      dsimp only
      split_ifs <;> exact Or.inr (Or.inl rfl)
  | marked r rest =>
    generalize hn : (outboxProgram parse column).next (.marked r rest) = a at h
    cases h with
    | commit =>
      rw [nextRow_rows (Action.commit.inj hn)]
      exact Or.inr (Or.inr (Or.inr ⟨r, Or.inl rfl⟩))
    | _ => cases hn
  | skip r rest =>
    cases rest with
    | nil => cases h
    | cons r' rest =>
      cases h
      exact Or.inr (Or.inr (Or.inr ⟨r, Or.inr rfl⟩))
  | fail => cases h

end Statements

section Steps

variable [DecidableEq κ] {parse column : String → Option Uuid} {c c' : Cfg (Row ρ) (Pc ρ)}
  {ev : Event (Req ρ)} {e e' : OutboxEntry} {i j : ℕ}

/-- One statement of a business transaction: it moves on, touches a source row, enqueues a
row under a new id, or ends. -/
theorem business_act {start : Time} {queued : List OutboxEntry} {s : Script ρ}
    (h : c.act i (businessNext parse start queued s) = some c') :
    (∃ s', c' = c.goto i (.business start queued s')) ∨
      (∃ k r s', (∀ j v, c.lock (.source k) = some (j, v) → j = i) ∧
        c' = (c.write i (.source k) r).goto i (.business start queued s')) ∨
      (∃ id row s', c.viewRow i (.outbox id) = none ∧ row.published = false ∧
        (∀ j v, c.lock (.outbox id) = some (j, v) → j = i) ∧
        c' = (c.write i (.outbox id) (some row)).goto i
          (.business start (queued ++ [⟨id, row⟩]) s')) ∨
      c' = c.goto i .fail ∨ c' = c.rollback i ∨ (s = .commit ∧ c' = c.commit i none) := by
  cases s with
  | select next => exact Or.inl ⟨_, act_read h⟩
  | update k absent set next =>
    rcases act_update h with ⟨-, rfl⟩ | ⟨v, -, hfree, rfl⟩
    · exact Or.inl ⟨_, rfl⟩
    · exact Or.inr (Or.inl ⟨k, _, _, hfree, rfl⟩)
  | insert k v inserted conflict =>
    rcases act_insert h with ⟨-, hfree, rfl⟩ | ⟨-, rfl⟩
    · exact Or.inr (Or.inl ⟨k, _, _, hfree, rfl⟩)
    · exact Or.inl ⟨_, rfl⟩
  | enqueue updates next =>
    cases updates with
    | nil => exact Or.inl ⟨_, act_read h⟩
    | cons u updates =>
      simp only [businessNext] at h
      split at h
      · exact Or.inr (Or.inr (Or.inr (Or.inr (Or.inl (act_abort h)))))
      · rename_i org horg
        rcases act_insert h with ⟨hnone, hfree, rfl⟩ | ⟨-, rfl⟩
        · exact Or.inr (Or.inr (Or.inl ⟨u.1, _, _, hnone, rfl, hfree, rfl⟩))
        · exact Or.inr (Or.inr (Or.inr (Or.inl rfl)))
  | commit => exact Or.inr (Or.inr (Or.inr (Or.inr (Or.inr ⟨rfl, act_commit h⟩))))
  | fail => exact Or.inr (Or.inr (Or.inr (Or.inr (Or.inl (act_abort h)))))

/-- Outbox and tuples change only with the commit of a business transaction, and with the
commit of a row that a drain has marked. -/
theorem rows_of_exec (hc : ∀ j l, c.proc j = some l → LocksOk c j l)
    (h : exec (outboxProgram parse column) c ev = some c') :
    ((∀ id, c'.db.row (.outbox id) = c.db.row (.outbox id)) ∧
        (∀ t, c'.db.row (.tuple t) = c.db.row (.tuple t)) ∧ committed c ev = none) ∨
      (∃ i start queued, ev = .step i ∧ c.proc i = some (.business start queued .commit) ∧
        c' = c.commit i none) ∨
      ∃ i r rest, ev = .step i ∧ c.proc i = some (.marked r rest) ∧
        c' = c.commit i (nextRow rest) := by
  cases hq : committed c ev with
  | some queued =>
    obtain ⟨i, start, rfl, hp⟩ := committed_eq_some.mp hq
    simp only [exec, hp, Option.bind_some] at h
    exact Or.inr (Or.inl ⟨i, start, queued, rfl, hp, act_commit h⟩)
  | none =>
    rcases row_of_exec h with hrow | ⟨i, l, n, rfl, hp, hn, rfl⟩
    · exact Or.inl ⟨fun id => congrFun hrow _, fun t => congrFun hrow _, rfl⟩
    have hi := hc i l hp
    cases l with
    | business start queued s =>
      obtain rfl := businessNext_eq_commit hn
      rw [committed_eq_some.mpr ⟨i, start, rfl, hp⟩] at hq
      cases hq
    | fetched rows =>
      -- a drain holds nothing when it ends the transaction that read its batch
      refine Or.inl ⟨fun id => ?_, fun t => ?_, rfl⟩
      · exact Cfg.commit_row_of_not_own (hi.2 id)
      · exact Cfg.commit_row_of_not_own (hi.1 t)
    | marked r rest =>
      obtain rfl : nextRow rest = n := by
        have := hn
        simp only [outboxProgram, Action.commit.injEq] at this
        exact this
      exact Or.inr (Or.inr ⟨i, r, rest, rfl, hp, rfl⟩)
    | apply r rest =>
      simp only [outboxProgram, applyTupleUpdate] at hn
      split at hn
      · split at hn <;> cases hn
      · cases hn
    | skip r rest => cases rest <;> cases hn
    | readOutbox batch => cases hn
    | refresh r rest => cases hn
    | mark r rest => cases hn
    | fail => cases hn

theorem outbox_row_step (hc : ∀ j l, c.proc j = some l → LocksOk c j l)
    (h : exec (outboxProgram parse column) c ev = some c') {id : Uuid} {row : OutboxRow}
    (hrow : c.db.row (.outbox id) = some row) :
    c'.db.row (.outbox id) = some row ∨
      (row.published = false ∧ c'.db.row (.outbox id) = some { row with published := true }) := by
  rcases rows_of_exec hc h with
    ⟨hout, -, -⟩ | ⟨i, start, queued, -, hp, rfl⟩ | ⟨i, r, rest, -, hp, rfl⟩
  · exact Or.inl ((hout id).trans hrow)
  · -- a new row has a new id
    obtain ⟨-, hq⟩ := hc i _ hp
    refine Or.inl ((Cfg.commit_row_of_not_own fun v hv => ?_).trans hrow)
    obtain ⟨q, hmem, rfl, -⟩ := hq.only id v hv
    rw [hq.fresh q hmem] at hrow
    cases hrow
  · obtain ⟨-, hm⟩ := hc i _ hp
    by_cases hid : id = r.id
    · subst hid
      obtain rfl : r.row = row := Option.some.inj (hm.unpublished.1.symm.trans hrow)
      exact Or.inr ⟨hm.unpublished.2, Cfg.viewRow_own hm.held⟩
    · exact Or.inl ((Cfg.commit_row_of_not_own fun v hv => hid (hm.only id v hv)).trans hrow)

theorem Published.step (hc : ∀ j l, c.proc j = some l → LocksOk c j l)
    (h : exec (outboxProgram parse column) c ev = some c') (he : Published c.db e) :
    Published c'.db e := by
  rcases outbox_row_step hc h he with hrow | ⟨hp, -⟩
  · exact hrow
  · cases hp

theorem Unpublished.step (hc : ∀ j l, c.proc j = some l → LocksOk c j l)
    (h : exec (outboxProgram parse column) c ev = some c') (he : Unpublished c.db e) :
    Unpublished c'.db e ∨ Published c'.db e := by
  rcases outbox_row_step hc h he.1 with hrow | ⟨-, hrow⟩
  · exact Or.inl ⟨hrow, he.2⟩
  · exact Or.inr hrow

theorem Unpublished.of_step (hc : ∀ j l, c.proc j = some l → LocksOk c j l)
    (h : exec (outboxProgram parse column) c ev = some c') (he : Unpublished c'.db e) :
    Unpublished c.db e ∨ ∃ queued, committed c ev = some queued ∧ e ∈ queued := by
  rcases rows_of_exec hc h with
    ⟨hout, -, -⟩ | ⟨i, start, queued, rfl, hp, rfl⟩ | ⟨i, r, rest, -, hp, rfl⟩
  · exact Or.inl ⟨(hout e.id).symm.trans he.1, he.2⟩
  · obtain ⟨-, hq⟩ := hc i _ hp
    rcases c.viewRow_cases i (.outbox e.id) with ⟨v, hv, hview⟩ | ⟨-, hview⟩
    · obtain ⟨q, hmem, hid, rfl⟩ := hq.only e.id v hv
      have hrow : q.row = e.row := Option.some.inj (hview.symm.trans he.1)
      obtain rfl : q = e := by
        cases q
        cases e
        simp_all
      exact Or.inr ⟨queued, committed_eq_some.mpr ⟨i, start, rfl, hp⟩, hmem⟩
    · exact Or.inl ⟨hview.symm.trans he.1, he.2⟩
  · obtain ⟨-, hm⟩ := hc i _ hp
    rcases c.viewRow_cases i (.outbox e.id) with ⟨v, hv, hview⟩ | ⟨-, hview⟩
    · -- the row that is marked is published now
      have hid := hm.only e.id v hv
      have hrow : some e.row = some { r.row with published := true } := by
        rw [← he.1]
        exact hid ▸ Cfg.viewRow_own hm.held
      have hpub := he.2
      rw [Option.some.inj hrow] at hpub
      cases hpub
    · exact Or.inl ⟨hview.symm.trans he.1, he.2⟩

theorem tuple_row_step (hc : ∀ j l, c.proc j = some l → LocksOk c j l)
    (h : exec (outboxProgram parse column) c ev = some c') (t : RelationTuple) :
    c'.db.row (.tuple t) = c.db.row (.tuple t) ∨
      ∃ r v, Unpublished c.db r ∧ r.row.tuple = t ∧ c.lock (.tuple t) = some (ev.actor, v) ∧
        c'.db.row (.tuple t) = v ∧ v.map TupleRow.condition = r.row.effect := by
  rcases rows_of_exec hc h with
    ⟨-, htuple, -⟩ | ⟨i, start, queued, -, hp, rfl⟩ | ⟨i, r, rest, rfl, hp, rfl⟩
  · exact Or.inl (htuple t)
  · exact Or.inl (Cfg.commit_row_of_not_own ((hc i _ hp).1 t))
  · obtain ⟨heff, hm⟩ := hc i _ hp
    rcases c.viewRow_cases i (.tuple t) with ⟨v, hv, hview⟩ | ⟨-, hview⟩
    · obtain ⟨rfl, hcond⟩ := heff t v hv
      exact Or.inr ⟨r, v, hm.unpublished, rfl, hv, hview, hcond⟩
    · exact Or.inl hview

theorem heldTuple_step (hc : ∀ j l, c.proc j = some l → LocksOk c j l)
    (h : exec (outboxProgram parse column) c ev = some c') (hrivals : ∀ e', ¬Rival c.db e e')
    (hheld : heldTuple c.db e.row.tuple = e.row.effect) :
    heldTuple c'.db e.row.tuple = e.row.effect := by
  rcases tuple_row_step hc h e.row.tuple with hrow | ⟨r, v, hr, ht, -, hv, hcond⟩
  · exact (congrArg (Option.map TupleRow.condition) hrow).trans hheld
  · have hsame : r.row.effect = e.row.effect := by
      by_contra hne
      exact hrivals r ⟨hr, ht, hne⟩
    calc heldTuple c'.db e.row.tuple = v.map TupleRow.condition :=
          congrArg (Option.map TupleRow.condition) hv
      _ = e.row.effect := hcond.trans hsame

theorem Rival.of_step (hc : ∀ j l, c.proc j = some l → LocksOk c j l)
    (h : exec (outboxProgram parse column) c ev = some c')
    (hnone : ∀ queued, committed c ev = some queued → lastFor queued e.row.tuple = none)
    (he : Rival c'.db e e') : Rival c.db e e' := by
  obtain ⟨hun, ht, hne⟩ := he
  rcases hun.of_step hc h with hold | ⟨queued, hq, hmem⟩
  · exact ⟨hold, ht, hne⟩
  · exact absurd ht (tuple_ne_of_lastFor_none (hnone queued hq) hmem)

theorem Awaits.step_other (hc : ∀ j l, c.proc j = some l → LocksOk c j l)
    (h : exec (outboxProgram parse column) c ev = some c') {l : Pc ρ} (hj : j ≠ ev.actor)
    (hrival : ∀ e', Rival c'.db e e' → Rival c.db e e') (ha : Awaits c j l e) :
    Awaits c' j l e := by
  obtain ⟨hrows, happ⟩ := ha
  refine ⟨fun before after hs e' he' => hrows before after hs e' (hrival e' he'), fun hl => ?_⟩
  obtain ⟨rest, hrest⟩ := Pc.mem_rows_of_applied hl
  have hnone (e' : OutboxEntry) : ¬Rival c.db e e' := fun he' =>
    List.not_mem_nil (hrows [] rest hrest e' he')
  obtain ⟨hframe, -⟩ := frame_of_exec h hj
  rcases c.viewRow_cases j (.tuple e.row.tuple) with ⟨v, hv, hview⟩ | ⟨hfree, hview⟩
  · rw [Cfg.viewRow_own ((hframe.lock _ v).mpr hv), ← hview]
    exact happ hl
  · rw [Cfg.viewRow_other fun v hv => hfree v ((hframe.lock _ v).mp hv)]
    apply heldTuple_step hc h hnone
    rw [← happ hl, hview]
    rfl

theorem LocksOk.step_other (hc : ∀ j l, c.proc j = some l → LocksOk c j l)
    (h : exec (outboxProgram parse column) c ev = some c') {l : Pc ρ} (hj : j ≠ ev.actor)
    (hl : LocksOk c j l) : LocksOk c' j l := by
  obtain ⟨hframe, -⟩ := frame_of_exec h hj
  have htuple (hn : NoTupleLock c j) : NoTupleLock c' j := fun t r hr =>
    hn t r ((hframe.lock _ r).mp hr)
  have houtbox (hn : NoOutboxLock c j) : NoOutboxLock c' j := fun id r hr =>
    hn id r ((hframe.lock _ r).mp hr)
  have heffect {r : OutboxEntry} (hr : HoldsEffect c j r) : HoldsEffect c' j r := fun t v hv =>
    hr t v ((hframe.lock _ v).mp hv)
  cases l with
  | business start queued s =>
    obtain ⟨hn, hq⟩ := hl
    refine ⟨htuple hn, fun q hmem => (hframe.lock _ _).mpr (hq.held q hmem), fun q hmem => ?_,
      hq.unpublished, fun id v hv => hq.only id v ((hframe.lock _ v).mp hv)⟩
    exact (hframe.row _ _ (hq.held q hmem)).trans (hq.fresh q hmem)
  | readOutbox batch => exact ⟨htuple hl.1, houtbox hl.2⟩
  | fetched rows => exact ⟨htuple hl.1, houtbox hl.2⟩
  | apply r rest => exact ⟨htuple hl.1, houtbox hl.2⟩
  | refresh r rest => exact ⟨⟨htuple hl.1.1, houtbox hl.1.2⟩, hl.2⟩
  | mark r rest => exact ⟨heffect hl.1, houtbox hl.2⟩
  | marked r rest =>
    obtain ⟨heff, hm⟩ := hl
    refine ⟨heffect heff, (hframe.lock _ _).mpr hm.held,
      fun id v hv => hm.only id v ((hframe.lock _ v).mp hv), ?_, hm.unpublished.2⟩
    exact (hframe.row _ _ hm.held).trans hm.unpublished.1
  | skip r rest => exact hl.step hc h
  | fail => trivial

section Actor

variable {l l' : Pc ρ}

omit [DecidableEq κ] in
theorem holds_nextRow {rest : List OutboxEntry} (hlock : ∀ k, c'.lock k = c.releaseLock i k)
    (h : nextRow rest = some l) : LocksOk c' i l := by
  have hfree (k : Key κ) (r : Option (Row ρ k)) : c'.lock k ≠ some (i, r) := fun hr =>
    (Cfg.releaseLock_eq_some.mp ((hlock k).symm.trans hr)).2 rfl
  cases rest with
  | nil => cases h
  | cons r rest =>
    cases h
    exact ⟨fun t => hfree _, fun id => hfree _⟩

theorem holds_mark {r : OutboxEntry} {rest : List OutboxEntry} {v : Option TupleRow}
    (hl : NoTupleLock c i ∧ NoOutboxLock c i) (hv : v.map TupleRow.condition = r.row.effect) :
    LocksOk ((c.write i (.tuple r.row.tuple) v).goto i (.mark r rest)) i (.mark r rest) := by
  constructor
  · intro t w hw
    rcases lock_write hw with hold | ⟨-, hk, hr⟩
    · exact absurd hold (hl.1 t w)
    · cases hk
      exact ⟨rfl, hr ▸ hv⟩
  · intro id w hw
    rcases lock_write hw with hold | ⟨-, hk, -⟩
    · exact hl.2 id w hold
    · cases hk

theorem HoldsQueued.enqueue {queued : List OutboxEntry} {id : Uuid} {row : OutboxRow}
    (hq : HoldsQueued c i queued) (hnone : c.viewRow i (.outbox id) = none)
    (hp : row.published = false) :
    HoldsQueued ((c.write i (.outbox id) (some row)).goto i l) i (queued ++ [⟨id, row⟩]) := by
  have hid (q : OutboxEntry) (hmem : q ∈ queued) : q.id ≠ id := by
    rintro rfl
    rw [Cfg.viewRow_own (hq.held q hmem)] at hnone
    cases hnone
  have hdb : c.db.row (.outbox id) = none := by
    rw [← hnone]
    refine (Cfg.viewRow_other fun v hv => ?_).symm
    obtain ⟨q, hmem, hqid, -⟩ := hq.only id v hv
    exact hid q hmem hqid
  have hmem_iff (q : OutboxEntry) (hmem : q ∈ queued ++ [⟨id, row⟩]) :
      q ∈ queued ∨ q = ⟨id, row⟩ := by simpa using hmem
  constructor
  · intro q hmem
    rcases hmem_iff q hmem with hq' | rfl
    · rw [Cfg.goto_lock, Cfg.write_lock, Function.update_of_ne (by simpa using hid q hq')]
      exact hq.held q hq'
    · rw [Cfg.goto_lock, Cfg.write_lock, Function.update_self]
  · intro q hmem
    rcases hmem_iff q hmem with hq' | rfl
    · exact hq.fresh q hq'
    · exact hdb
  · intro q hmem
    rcases hmem_iff q hmem with hq' | rfl
    · exact hq.unpublished q hq'
    · exact hp
  · intro id' v hv
    rcases lock_write hv with hold | ⟨-, hk, hr⟩
    · obtain ⟨q, hmem, hq'⟩ := hq.only id' v hold
      exact ⟨q, List.mem_append_left _ hmem, hq'⟩
    · cases hk
      exact ⟨⟨id, row⟩, by simp, rfl, hr.symm⟩

theorem holds_business {start : Time} {queued : List OutboxEntry} {s : Script ρ}
    (hl : NoTupleLock c i ∧ HoldsQueued c i queued)
    (h : c.act i (businessNext parse start queued s) = some c') (hp : c'.proc i = some l') :
    LocksOk c' i l' := by
  obtain ⟨hn, hq⟩ := hl
  rcases business_act h with ⟨s', rfl⟩ | ⟨k, r, s', -, rfl⟩ | ⟨id, row, s', hnone, hpub, -, rfl⟩ |
    rfl | rfl | ⟨-, rfl⟩
  · obtain rfl : .business start queued s' = l' := by simpa using hp
    exact ⟨hn, hq.held, hq.fresh, hq.unpublished, hq.only⟩
  · obtain rfl : .business start queued s' = l' := by simpa using hp
    refine ⟨fun t v hv => ?_, fun q hmem => ?_, hq.fresh, hq.unpublished, fun id v hv => ?_⟩
    · rcases lock_write hv with hold | ⟨-, hk, -⟩
      · exact hn t v hold
      · cases hk
    · rw [Cfg.goto_lock, Cfg.write_lock, Function.update_of_ne (by simp)]
      exact hq.held q hmem
    · rcases lock_write hv with hold | ⟨-, hk, -⟩
      · exact hq.only id v hold
      · cases hk
  · obtain rfl : .business start (queued ++ [⟨id, row⟩]) s' = l' := by simpa using hp
    refine ⟨fun t v hv => ?_, hq.enqueue hnone hpub⟩
    rcases lock_write hv with hold | ⟨-, hk, -⟩
    · exact hn t v hold
    · cases hk
  · obtain rfl : .fail = l' := by simpa using hp
    trivial
  · simp at hp
  · simp at hp

theorem apply_act {r : OutboxEntry} {rest : List OutboxEntry}
    (h : c.act i (applyTupleUpdate column r rest) = some c') :
    (∃ v, v.map TupleRow.condition = r.row.effect ∧
        c' = (c.write i (.tuple r.row.tuple) v).goto i (.mark r rest)) ∨
      (c.viewRow i (.tuple r.row.tuple) = none ∧ r.row.effect = none ∧ c' = c.goto i (.mark r rest)) ∨
      (r.row.effect = some r.row.condition ∧ c' = c.goto i (.refresh r rest)) ∨
      c' = c.rollback i := by
  unfold applyTupleUpdate at h
  split at h
  · rename_i hop
    split at h
    · exact Or.inr (Or.inr (Or.inr (act_abort h)))
    · rcases act_insert h with ⟨-, -, rfl⟩ | ⟨-, rfl⟩
      · exact Or.inl ⟨_, by simp [OutboxRow.effect, hop], rfl⟩
      · exact Or.inr (Or.inr (Or.inl ⟨by simp [OutboxRow.effect, hop], rfl⟩))
  · rename_i hop
    rcases act_update h with ⟨hnone, rfl⟩ | ⟨v, -, -, rfl⟩
    · exact Or.inr (Or.inl ⟨hnone, by simp [OutboxRow.effect, hop], rfl⟩)
    · exact Or.inl ⟨none, by simp [OutboxRow.effect, hop], rfl⟩

theorem holds_actor (hl : LocksOk c i l) (ht : Tracked c l)
    (h : c.act i ((outboxProgram parse column).next l) = some c') (hp : c'.proc i = some l') :
    LocksOk c' i l' := by
  cases l with
  | business start queued s => exact holds_business hl h hp
  | readOutbox batch =>
    obtain rfl := act_read h
    obtain rfl : .fetched _ = l' := by simpa using hp
    exact hl
  | fetched rows =>
    obtain rfl := act_commit h
    exact holds_nextRow (fun k => rfl) (by simpa using hp)
  | apply r rest =>
    rcases apply_act h with ⟨v, hv, rfl⟩ | ⟨-, -, rfl⟩ | ⟨heff, rfl⟩ | rfl
    · obtain rfl : .mark r rest = l' := by simpa using hp
      exact holds_mark hl hv
    · obtain rfl : .mark r rest = l' := by simpa using hp
      exact ⟨fun t v hv => absurd hv (hl.1 t v), hl.2⟩
    · obtain rfl : .refresh r rest = l' := by simpa using hp
      exact ⟨hl, heff⟩
    · simp at hp
  | refresh r rest =>
    rcases act_update h with ⟨-, rfl⟩ | ⟨v, -, -, rfl⟩
    · obtain rfl : .apply r rest = l' := by simpa using hp
      exact hl.1
    · obtain rfl : .mark r rest = l' := by simpa using hp
      exact holds_mark hl.1 hl.2.symm
  | mark r rest =>
    obtain ⟨heff, hn⟩ := hl
    have hview : c.viewRow i (.outbox r.id) = c.db.row (.outbox r.id) := Cfg.viewRow_other (hn r.id)
    have hr : Unpublished c.db r ∨ Published c.db r := ht r List.mem_cons_self
    rcases act_update h with ⟨hnone, rfl⟩ | ⟨v, hv, -, rfl⟩
    · -- outbox rows are never deleted
      rw [hview] at hnone
      rcases hr with hr | hr
      · rw [hr.1] at hnone
        cases hnone
      · rw [hr] at hnone
        cases hnone
    · have hrow := hview.symm.trans hv
      by_cases hpub : v.published = true
      · simp only [hpub, ↓reduceIte, Cfg.goto_proc, Function.update_self, Option.some.injEq] at hp
        obtain rfl := hp
        apply hr.resolve_left
        intro hun
        rw [← Option.some.inj (hun.1.symm.trans hrow), hun.2] at hpub
        cases hpub
      · simp only [hpub, Cfg.goto_proc, Function.update_self, Option.some.injEq] at hp
        obtain rfl := hp
        have hun : Unpublished c.db r := by
          refine hr.resolve_right fun hpub' => hpub ?_
          rw [← Option.some.inj (hpub'.symm.trans hrow)]
        obtain rfl : r.row = v := Option.some.inj (hun.1.symm.trans hrow)
        refine ⟨fun t w hw => ?_, ?_, fun id w hw => ?_, hun⟩
        · rcases lock_write hw with hold | ⟨-, hk, -⟩
          · exact heff t w hold
          · cases hk
        · simp [hpub]
        · rcases lock_write hw with hold | ⟨-, hk, -⟩
          · exact absurd hold (hn id w)
          · cases hk
            rfl
  | marked r rest =>
    obtain rfl := act_commit h
    exact holds_nextRow (fun k => rfl) (by simpa using hp)
  | skip r rest =>
    cases rest with
    | nil =>
      obtain rfl := act_abort h
      simp at hp
    | cons r' rest =>
      obtain rfl := act_rollback h
      have hnext : nextRow (r' :: rest) = some l' := by simpa [nextRow] using hp
      exact holds_nextRow (fun k => rfl) hnext
  | fail =>
    obtain rfl := act_abort h
    simp at hp

theorem applied_actor (hl : LocksOk c i l)
    (h : c.act i ((outboxProgram parse column).next l) = some c') (hp : c'.proc i = some l')
    (happ : l'.applied = some e) :
    (c'.viewRow i (.tuple e.row.tuple)).map TupleRow.condition = e.row.effect ∨
      (l.applied = some e ∧ c'.viewRow i (.tuple e.row.tuple) = c.viewRow i (.tuple e.row.tuple)) := by
  obtain ⟨rest', hrest'⟩ := Pc.mem_rows_of_applied happ
  cases l with
  | business start queued s =>
    rw [businessNext_rows (proc_of_act h hp)] at hrest'
    cases hrest'
  | readOutbox batch =>
    obtain rfl := act_read h
    obtain rfl : .fetched _ = l' := by simpa using hp
    cases happ
  | fetched rows =>
    obtain rfl := act_commit h
    cases rows with
    | nil => simp [nextRow] at hp
    | cons r rest =>
      obtain rfl : .apply r rest = l' := by simpa [nextRow] using hp
      cases happ
  | apply r rest =>
    rcases apply_act h with ⟨v, hv, rfl⟩ | ⟨hnone, heff, rfl⟩ | ⟨-, rfl⟩ | rfl
    · obtain rfl : .mark r rest = l' := by simpa using hp
      obtain rfl := Option.some.inj happ
      exact Or.inl ((congrArg _ (viewRow_write_self _)).trans hv)
    · obtain rfl : .mark r rest = l' := by simpa using hp
      obtain rfl := Option.some.inj happ
      left
      rw [Cfg.goto_viewRow, hnone, heff]
      rfl
    · obtain rfl : .refresh r rest = l' := by simpa using hp
      cases happ
    · simp at hp
  | refresh r rest =>
    rcases act_update h with ⟨-, rfl⟩ | ⟨v, -, -, rfl⟩
    · obtain rfl : .apply r rest = l' := by simpa using hp
      cases happ
    · obtain rfl : .mark r rest = l' := by simpa using hp
      obtain rfl := Option.some.inj happ
      exact Or.inl ((congrArg _ (viewRow_write_self _)).trans hl.2.symm)
  | mark r rest =>
    rcases act_update h with ⟨-, rfl⟩ | ⟨v, -, -, rfl⟩
    · obtain rfl : .skip r rest = l' := by simpa using hp
      cases happ
    · by_cases hpub : v.published = true
      · simp only [hpub, ↓reduceIte, Cfg.goto_proc, Function.update_self, Option.some.injEq] at hp
        obtain rfl := hp
        cases happ
      · simp only [hpub, Cfg.goto_proc, Function.update_self, Option.some.injEq] at hp
        obtain rfl := hp
        exact Or.inr ⟨happ, viewRow_write_of_ne _ (by simp)⟩
  | marked r rest =>
    obtain rfl := act_commit h
    cases rest with
    | nil => simp [nextRow] at hp
    | cons r' rest =>
      obtain rfl : .apply r' rest = l' := by simpa [nextRow] using hp
      cases happ
  | skip r rest =>
    cases rest with
    | nil =>
      obtain rfl := act_abort h
      simp at hp
    | cons r' rest =>
      obtain rfl := act_rollback h
      obtain rfl : .apply r' rest = l' := by simpa using hp
      cases happ
  | fail =>
    obtain rfl := act_abort h
    simp at hp

theorem published_popped (hc : ∀ j l, c.proc j = some l → LocksOk c j l) {r : OutboxEntry}
    {rest : List OutboxEntry} (hl : c.proc i = some l) (hpop : l = .marked r rest ∨ l = .skip r rest)
    (h : exec (outboxProgram parse column) c (.step i) = some c') : Published c'.db r := by
  rcases hpop with rfl | rfl
  · obtain ⟨-, hm⟩ := hc i _ hl
    simp only [exec, hl, Option.bind_some] at h
    obtain rfl := act_commit h
    exact Cfg.viewRow_own hm.held
  · have hr : Published c.db r := hc i _ hl
    exact hr.step hc h

theorem awaits_actor (hc : ∀ j l, c.proc j = some l → LocksOk c j l) (hl : c.proc i = some l)
    (h : exec (outboxProgram parse column) c (.step i) = some c') (hp : c'.proc i = some l')
    (hrival : ∀ e', Rival c'.db e e' → Rival c.db e e')
    (horder : ∀ e', Rival c.db e e' → e'.drainsBefore e) (ha : Awaits c i l e) :
    Awaits c' i l' e := by
  have hact : c.act i ((outboxProgram parse column).next l) = some c' := by
    simpa only [exec, hl, Option.bind_some] using h
  constructor
  · intro before after hs e' he'
    have hold := hrival e' he'
    rcases rows_of_reaches (proc_of_act hact hp) with hnil | hsame | ⟨batch, rfl, hrows⟩ | ⟨r, hpop⟩
    · rw [hnil] at hs
      simp at hs
    · exact ha.1 before after (hsame.symm.trans hs) e' hold
    · -- the batch is in the order of the drain, and the rivals drain before `e`
      obtain ⟨-, hn⟩ := hc i _ hl
      have hview : (c.view i).row (.outbox e'.id) = c.db.row (.outbox e'.id) :=
        Cfg.viewRow_other (hn e'.id)
      exact mem_prefix_of_unpublished (hrows.symm.trans hs) (hview.trans hold.1.1) hold.1.2
        (horder e' hold)
    · have hrows : l.rows = (r :: before) ++ e :: after := by
        rcases hpop with rfl | rfl <;> exact congrArg (r :: ·) hs
      rcases List.mem_cons.mp (ha.1 (r :: before) after hrows e' hold) with rfl | hmem
      · exact absurd (published_popped hc hl hpop h) he'.1.not_published
      · exact hmem
  · intro happ
    rcases applied_actor (hc i l hl) hact hp happ with hview | ⟨happ', hview⟩
    · exact hview
    · rw [hview]
      exact ha.2 happ'

end Actor

omit [DecidableEq κ] in
theorem holds_entry {r : Req ρ} (hlive : OwnersLive c) (hi : c.proc i = none) :
    LocksOk (c.goto i ((outboxProgram parse column).entry r)) i
      ((outboxProgram parse column).entry r) := by
  have hfree (k : Key κ) (v : Option (Row ρ k)) : c.lock k ≠ some (i, v) := fun hv =>
    hlive k i v hv hi
  cases r with
  | business start s =>
    refine ⟨fun t v => hfree _ v, fun q hq => ?_, fun q hq => ?_, fun q hq => ?_, fun id v hv => ?_⟩
    · exact absurd hq List.not_mem_nil
    · exact absurd hq List.not_mem_nil
    · exact absurd hq List.not_mem_nil
    · exact absurd hv (hfree _ v)
  | publish batch => exact ⟨fun t v => hfree _ v, fun id v => hfree _ v⟩

omit [DecidableEq κ] in
theorem entry_rows (r : Req ρ) : ((outboxProgram parse column).entry r).rows = [] := by
  cases r <;> rfl

variable {log : List OutboxEntry}

theorem OutboxInv.holds_step (hc : OutboxInv log c)
    (h : exec (outboxProgram parse column) c ev = some c') (l : Pc ρ) (hl : c'.proc j = some l) :
    LocksOk c' j l := by
  rcases proc_of_exec h hl with ⟨hold, hj⟩ | ⟨r, rfl, hi, rfl⟩ | ⟨l', rfl, hi, -⟩
  · exact (hc.holds j l hold).step_other hc.holds h hj
  · obtain rfl : c.goto j _ = c' := by simpa [exec, hi] using h
    exact holds_entry hc.live hi
  · simp only [exec, hi, Option.bind_some] at h
    exact holds_actor (hc.holds j l' hi) (hc.tracked j l' hi) h hl

theorem OutboxInv.tracked_step (hc : OutboxInv log c)
    (h : exec (outboxProgram parse column) c ev = some c') (l : Pc ρ) (hl : c'.proc j = some l) :
    Tracked c' l := by
  have hkeep {l' : Pc ρ} (ht : Tracked c l') (hsub : l.rows ⊆ l'.rows) : Tracked c' l := by
    intro e he
    rcases ht e (hsub he) with hun | hpub
    · exact hun.step hc.holds h
    · exact Or.inr (hpub.step hc.holds h)
  rcases proc_of_exec h hl with ⟨hold, -⟩ | ⟨r, rfl, -, rfl⟩ | ⟨l', rfl, hi, hreach⟩
  · exact hkeep (hc.tracked j l hold) (List.Subset.refl _)
  · intro e he
    rw [entry_rows] at he
    exact absurd he List.not_mem_nil
  · have ht := hc.tracked j l' hi
    rcases rows_of_reaches hreach with hnil | hsame | ⟨batch, rfl, hrows⟩ | ⟨r, hpop⟩
    · exact hkeep ht (by rw [hnil]; exact List.nil_subset _)
    · exact hkeep ht (by rw [hsame]; exact List.Subset.refl _)
    · intro e he
      rw [hrows] at he
      obtain ⟨hrow, hp⟩ := mem_unpublished he
      obtain ⟨-, hn⟩ := hc.holds j _ hi
      have hview : (c.view j).row (.outbox e.id) = c.db.row (.outbox e.id) :=
        Cfg.viewRow_other (hn e.id)
      have hun : Unpublished c.db e := ⟨hview.symm.trans hrow, hp⟩
      exact hun.step hc.holds h
    · apply hkeep ht
      rcases hpop with rfl | rfl <;> exact List.subset_cons_self r l.rows

theorem OutboxInv.settled_commit (hc : OutboxInv log c) (hok : CommitsInOrder c ev)
    (h : exec (outboxProgram parse column) c ev = some c') {queued : List OutboxEntry}
    {t : RelationTuple} (hq : committed c ev = some queued) (he : lastFor queued t = some e) :
    Settled c' e := by
  obtain ⟨i, start, rfl, hp⟩ := committed_eq_some.mp hq
  obtain ⟨-, hqueued⟩ := hc.holds i _ hp
  obtain ⟨hmem, rfl⟩ := mem_of_lastFor he
  simp only [exec, hp, Option.bind_some] at h
  obtain rfl := act_commit h
  refine Or.inl ⟨⟨Cfg.viewRow_own (hqueued.held e hmem), hqueued.unpublished e hmem⟩,
    fun e' he' => ?_, fun j l hl => ?_⟩
  · exact hok queued hq e hmem he e' (mem_outboxRows.mpr he'.1.1) he'.1.2 he'.2.1 he'.2.2
  · -- no drain has read the new row yet
    have hji : j ≠ i := by
      rintro rfl
      simp at hl
    have hlj : c.proc j = some l := by
      rwa [Cfg.commit_proc, Function.update_of_ne hji] at hl
    have hnot : e ∉ l.rows := by
      intro hin
      have hfresh := hqueued.fresh e hmem
      rcases hc.tracked j l hlj e hin with hun | hpub
      · rw [hun.1] at hfresh
        cases hfresh
      · rw [hpub] at hfresh
        cases hfresh
    constructor
    · intro before after hs
      exact absurd (by rw [hs]; simp) hnot
    · intro happ
      obtain ⟨rest, hrest⟩ := Pc.mem_rows_of_applied happ
      exact absurd (by rw [hrest]; exact List.mem_cons_self) hnot

theorem Settled.step (hc : OutboxInv log c)
    (h : exec (outboxProgram parse column) c ev = some c')
    (hnone : ∀ queued, committed c ev = some queued → lastFor queued e.row.tuple = none)
    (he : Settled c e) : Settled c' e := by
  have hrival (e' : OutboxEntry) (hr : Rival c'.db e e') : Rival c.db e e' :=
    hr.of_step hc.holds h hnone
  rcases he with ⟨hun, horder, hawaits⟩ | ⟨hpub, hno, hheld⟩
  · rcases hun.step hc.holds h with hun' | hpub'
    · refine Or.inl ⟨hun', fun e' he' => horder e' (hrival e' he'), fun j l hl => ?_⟩
      rcases proc_of_exec h hl with ⟨hold, hj⟩ | ⟨r, rfl, -, rfl⟩ | ⟨l', rfl, hi, -⟩
      · exact (hawaits j l hold).step_other hc.holds h hj hrival
      · constructor
        · intro before after hs
          rw [entry_rows] at hs
          simp at hs
        · intro happ
          obtain ⟨rest, hrest⟩ := Pc.mem_rows_of_applied happ
          rw [entry_rows] at hrest
          cases hrest
      · exact awaits_actor hc.holds hi h hl hrival horder (hawaits j l' hi)
    · -- the step publishes `e`: the drain at work on it has no rival left to publish
      rcases rows_of_exec hc.holds h with ⟨hout, -, -⟩ | ⟨i, start, queued, rfl, hp, rfl⟩ |
        ⟨i, r, rest, rfl, hp, rfl⟩
      · have hsame : Unpublished c'.db e := ⟨(hout e.id).trans hun.1, hun.2⟩
        exact absurd hpub' hsame.not_published
      · obtain ⟨-, hq⟩ := hc.holds i _ hp
        have hsame : Unpublished (c.commit i none).db e := by
          refine ⟨(Cfg.commit_row_of_not_own fun v hv => ?_).trans hun.1, hun.2⟩
          obtain ⟨q, hmem, hid, -⟩ := hq.only e.id v hv
          have hfresh := hq.fresh q hmem
          rw [hid, hun.1] at hfresh
          cases hfresh
        exact absurd hpub' hsame.not_published
      · obtain ⟨-, hm⟩ := hc.holds i _ hp
        by_cases hid : e.id = r.id
        · have hrow : r.row = e.row :=
            Option.some.inj (hm.unpublished.1.symm.trans (hid ▸ hun.1))
          obtain rfl : r = e := by
            cases r
            cases e
            simp_all
          obtain ⟨hrows, happ⟩ := hawaits i _ hp
          have hno (e' : OutboxEntry) : ¬Rival c.db r e' := fun he' =>
            List.not_mem_nil (hrows [] rest rfl e' he')
          exact Or.inr ⟨hpub', fun e' he' => hno e' (hrival e' he'), happ rfl⟩
        · have hsame : Unpublished (c.commit i (nextRow rest)).db e :=
            ⟨(Cfg.commit_row_of_not_own fun v hv => hid (hm.only e.id v hv)).trans hun.1, hun.2⟩
          exact absurd hpub' hsame.not_published
  · exact Or.inr ⟨hpub.step hc.holds h, fun e' he' => hno e' (hrival e' he'),
      heldTuple_step hc.holds h hno hheld⟩

theorem OutboxInv.step (hc : OutboxInv log c) (hok : CommitsInOrder c ev)
    (h : exec (outboxProgram parse column) c ev = some c') :
    OutboxInv (log ++ (committed c ev).getD []) c' := by
  refine ⟨hc.live.step h, fun j l => hc.holds_step h l, fun j l => hc.tracked_step h l, ?_⟩
  intro t e he
  rw [lastFor_append, Option.or_eq_some_iff] at he
  rcases he with hnew | ⟨hnone, hold⟩
  · cases hq : committed c ev with
    | none =>
      rw [hq] at hnew
      cases hnew
    | some queued =>
      rw [hq] at hnew
      exact hc.settled_commit hok h hq hnew
  · obtain ⟨-, rfl⟩ := mem_of_lastFor hold
    apply (hc.settled _ e hold).step hc h
    intro queued hq
    rwa [hq] at hnone

end Steps

section Runs

variable [DecidableEq κ] {parse column : String → Option Uuid} {c : Cfg (Row ρ) (Pc ρ)}
  {es : List (Event (Req ρ))}

theorem outboxInv_run (db : Store (Row ρ))
    (hok : Along (exec (outboxProgram parse column)) CommitsInOrder (Cfg.idle db) es)
    (hrun : run (exec (outboxProgram parse column)) (Cfg.idle db) es = some c) :
    OutboxInv (trace (exec (outboxProgram parse column)) committed (Cfg.idle db) es).flatten c := by
  have hinit : OutboxInv [] (Cfg.idle db : Cfg (Row ρ) (Pc ρ)) := by
    refine ⟨ownersLive_idle db, fun j l hl => ?_, fun j l hl => ?_, fun t e he => ?_⟩
    · cases hl
    · cases hl
    · cases he
  have hstep (os : List (List OutboxEntry)) (s : Cfg (Row ρ) (Pc ρ)) (e : Event (Req ρ))
      (s' : Cfg (Row ρ) (Pc ρ)) (hs : OutboxInv os.flatten s) (hok' : CommitsInOrder s e)
      (he : exec (outboxProgram parse column) s e = some s') :
      OutboxInv (os ++ (committed s e).toList).flatten s' := by
    have hnext := hs.step hok' he
    rw [List.flatten_append]
    cases hq : committed s e with
    | none => simpa [hq] using hnext
    | some queued => simpa [hq] using hnext
  have h : OutboxInv
      ([] ++ trace (exec (outboxProgram parse column)) committed (Cfg.idle db) es).flatten c :=
    run_trace_invariant (I := fun os s => OutboxInv os.flatten s) hstep hinit hok hrun
  simpa using h

/-- Once every row is drained, the store holds for each tuple the effect of the last
committed mutation. -/
theorem outbox_converges (db : Store (Row ρ))
    (hok : Along (exec (outboxProgram parse column)) CommitsInOrder (Cfg.idle db) es)
    (hrun : run (exec (outboxProgram parse column)) (Cfg.idle db) es = some c)
    (hdrained : ∀ e ∈ outboxRows c.db, e.row.published = true) (t : RelationTuple)
    (e : OutboxEntry)
    (hlast : lastFor (trace (exec (outboxProgram parse column)) committed (Cfg.idle db) es).flatten t
      = some e) :
    heldTuple c.db t = e.row.effect := by
  have hinv := outboxInv_run db hok hrun
  obtain ⟨-, rfl⟩ := mem_of_lastFor hlast
  rcases hinv.settled _ e hlast with ⟨hun, -, -⟩ | ⟨-, -, hheld⟩
  · have hpub := hdrained e (mem_outboxRows.mpr hun.1)
    rw [hun.2] at hpub
    cases hpub
  · exact hheld

end Runs

namespace Sample

def membership : RelationTuple :=
  ⟨qualify 1 .membership (Uuid.text 3), relMember, qualify 1 .group (Uuid.text 4)⟩

/-- The rows of `group_membership` in group 4, by membership. -/
abbrev Members : Uuid → Type := fun _ => Unit

def join : Script Members :=
  .insert 3 () (.enqueue [(9, ⟨.write, membership, none⟩)] .commit) .fail

def leave : Script Members :=
  .update 3 .fail (fun _ => none) fun _ => .enqueue [(8, ⟨.delete, membership, none⟩)] .commit

/-- Transaction 2 runs from its start at one millisecond; then 1 runs, which began at `start`;
then a drain. -/
def overtaken (start : Time) : List (Event (Req Members)) :=
  [.start 1 (.business start leave), .start 2 (.business 1000000 join),
    .step 2, .step 2, .step 2, .step 2, .step 1, .step 1, .step 1, .step 1,
    .start 3 (.publish 10), .step 3, .step 3,
    .step 3, .step 3, .step 3, .step 3, .step 3, .step 3]

def program : Program (Row Members) (Req Members) (Pc Members) :=
  outboxProgram Uuid.ofText Uuid.ofText

/-- The last committed mutation removes the membership. -/
def removal (start : Time) : OutboxEntry := ⟨8, 1, .delete, membership, none, start.stored, false⟩

/-- Started after the joining, the leaving drains in order and last; started before it, the drain
leaves the membership in the store, although the removal is committed last. -/
theorem overtaken_drained :
    ((run (exec program) (Cfg.idle Store.empty) (overtaken 2000000)).any
        (fun c => (outboxRows c.db).all fun e => e.row.published) = true ∧
      checkAlong (exec program) (fun c e => decide (CommitsInOrder c e)) (Cfg.idle Store.empty)
        (overtaken 2000000) = true ∧
      lastFor (trace (exec program) committed (Cfg.idle Store.empty)
        (overtaken 2000000)).flatten membership = some (removal 2000000)) ∧
    (run (exec program) (Cfg.idle Store.empty) (overtaken 0)).any
        (fun c => ((outboxRows c.db).all fun e => e.row.published) &&
          heldTuple c.db membership = some none) = true ∧
      lastFor (trace (exec program) committed (Cfg.idle Store.empty) (overtaken 0)).flatten
        membership = some (removal 0) := by
  decide

end Sample

/-- Begun after the joining transaction, the leaving one is drained after it. -/
theorem outbox_converges_in_order :
    ∃ c, run (exec Sample.program) (Cfg.idle Store.empty) (Sample.overtaken 2000000) = some c ∧
      heldTuple c.db Sample.membership = (Sample.removal 2000000).row.effect := by
  obtain ⟨⟨hrun, hinorder, hremoved⟩, -⟩ := Sample.overtaken_drained
  obtain ⟨c, hc, hdrained⟩ := (Option.any_eq_true _ _).mp hrun
  exact ⟨c, hc, outbox_converges Store.empty
    (along_of_check (fun _ _ => of_decide_eq_true) hinorder) hc (List.all_eq_true.mp hdrained) _
    (Sample.removal 2000000) hremoved⟩

/-- The leaving transaction begins first and commits last: the drain applies its removal
before the joining that it undoes, and the store keeps the membership. -/
theorem removal_overtaken : ¬∀ c,
    run (exec Sample.program) (Cfg.idle Store.empty) (Sample.overtaken 0) = some c →
      (∀ e ∈ outboxRows c.db, e.row.published = true) → ∀ t e,
        lastFor (trace (exec Sample.program) committed (Cfg.idle Store.empty)
          (Sample.overtaken 0)).flatten t = some e →
        heldTuple c.db t = e.row.effect := by
  intro h
  obtain ⟨-, hrun, hremoved⟩ := Sample.overtaken_drained
  obtain ⟨c, hc, hboth⟩ := (Option.any_eq_true _ _).mp hrun
  obtain ⟨hdrained, hheld⟩ := Bool.and_eq_true_iff.mp hboth
  have hlast := h c hc (List.all_eq_true.mp hdrained) Sample.membership (Sample.removal 0) hremoved
  rw [of_decide_eq_true hheld] at hlast
  cases hlast

end ArchGuard.Authz
