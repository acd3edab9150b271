import ArchGuard.TransitionRun
import Mathlib.Data.List.Nodup
import Mathlib.Logic.Function.Basic

/-! Transactions over keyed rows at isolation level READ COMMITTED: each statement
reads the rows committed when it begins, over the writes of its own transaction; a
written row stays locked until its transaction ends. -/
namespace ReadCommitted

variable {K : Type}

/-- The rows of a database, with the keys a table scan walks. -/
structure Store (V : K → Type) where
  row : (k : K) → Option (V k)
  keys : List K
  nodup : keys.Nodup
  covers : ∀ k v, row k = some v → k ∈ keys

variable {V : K → Type} {R L : Type}

def Store.empty : Store V := ⟨fun _ => none, [], List.nodup_nil, by simp⟩

/-- A row slot at `k`, so that a scan will walk it. -/
def Store.touch [DecidableEq K] (s : Store V) (k : K) : Store V where
  row := s.row
  keys := s.keys.insert k
  nodup := s.nodup.insert
  covers k' v h := List.mem_insert_of_mem (s.covers k' v h)

/-- A statement that rewrites rows in place (an UPDATE over a whole table). -/
def Store.mapRows (s : Store V) (f : (k : K) → V k → V k) : Store V where
  row k := (s.row k).map (f k)
  keys := s.keys
  nodup := s.nodup
  covers k v h := by
    obtain ⟨w, hw, -⟩ := Option.map_eq_some_iff.mp h
    exact s.covers k w hw

/-- A DELETE of the rows that fail the test. -/
def Store.filterRows (s : Store V) (keep : (k : K) → V k → Bool) : Store V where
  row k := (s.row k).filter (keep k)
  keys := s.keys
  nodup := s.nodup
  covers k v h := s.covers k v (Option.filter_eq_some_iff.mp h).1

/-- A SELECT over a table: what `f` keeps of each row. -/
def Store.scan {α : Type} (s : Store V) (f : (k : K) → V k → Option α) : List α :=
  s.keys.filterMap fun k => (s.row k).bind (f k)

def Store.set [DecidableEq K] (s : Store V) (k : K) (r : Option (V k)) : Store V where
  row := Function.update s.row k r
  keys := s.keys.insert k
  nodup := s.nodup.insert
  covers k' v h := by
    by_cases hk : k' = k
    · exact hk ▸ List.mem_insert_self
    · rw [Function.update_of_ne hk] at h
      exact List.mem_insert_of_mem (s.covers k' v h)

section Rows

variable (s : Store V) (k k' : K)

@[simp] theorem Store.empty_row : (Store.empty : Store V).row k = none := rfl

@[simp] theorem Store.mapRows_row (f : (k : K) → V k → V k) :
    (s.mapRows f).row k = (s.row k).map (f k) := rfl

@[simp] theorem Store.filterRows_row (keep : (k : K) → V k → Bool) :
    (s.filterRows keep).row k = (s.row k).filter (keep k) := rfl

theorem Store.filterRows_row_of_keep (keep : (k : K) → V k → Bool) (h : ∀ v, keep k v = true) :
    (s.filterRows keep).row k = s.row k := by
  rw [filterRows_row]
  cases s.row k with
  | none => rfl
  | some v => exact Option.filter_some_pos (h v)

theorem Store.mem_scan {α : Type} {f : (k : K) → V k → Option α} {x : α} :
    x ∈ s.scan f ↔ ∃ k v, s.row k = some v ∧ f k v = some x := by
  simp only [scan, List.mem_filterMap, Option.bind_eq_some_iff]
  constructor
  · rintro ⟨k, -, v, hv, hx⟩
    exact ⟨k, v, hv, hx⟩
  · rintro ⟨k, v, hv, hx⟩
    exact ⟨k, s.covers k v hv, v, hv, hx⟩

variable [DecidableEq K] (r : Option (V k))

theorem Store.scan_set {α : Type} {f : (k : K) → V k → Option α} (h : ∀ v, f k v = none) :
    (s.set k r).scan f = s.scan f := by
  have hskip (x : Option (V k)) : x.bind (f k) = none := by
    cases x with
    | none => rfl
    | some v => exact h v
  have hrow (k' : K) : ((s.set k r).row k').bind (f k') = (s.row k').bind (f k') := by
    by_cases hk : k' = k
    · subst hk
      rw [hskip, hskip]
    · rw [show (s.set k r).row k' = s.row k' from Function.update_of_ne hk ..]
  have hkeys : (s.set k r).scan f = (s.keys.insert k).filterMap fun k' => (s.row k').bind (f k') :=
    List.filterMap_congr fun k' _ => hrow k'
  rw [hkeys, scan]
  by_cases hk : k ∈ s.keys
  · rw [List.insert_of_mem hk]
  · rw [List.insert_of_not_mem hk, List.filterMap_cons, hskip]

@[simp] theorem Store.set_row_self : (s.set k r).row k = r := Function.update_self ..

theorem Store.set_row_of_ne (h : k' ≠ k) : (s.set k r).row k' = s.row k' :=
  Function.update_of_ne h ..

end Rows

/-- One statement of a transaction in program state `L`.

`read` is a SELECT, or the snapshot a longer statement works from. `update` is an
UPDATE, DELETE or SELECT FOR UPDATE of one row: it waits for the row's lock and acts
on the newest version. `insert` waits for an uncommitted row under the same key.
`commit` may go on with a further transaction of the same caller; `rollback` undoes the
transaction and does. -/
inductive Action (V : K → Type) (L : Type)
  | read (next : Store V → L)
  | update (k : K) (absent : L) (present : V k → Option (V k) × L)
  | insert (k : K) (v : V k) (inserted conflict : L)
  | commit (next : Option L)
  | rollback (next : L)
  | abort

/-- A program: what each request starts with, and the statement of each state. -/
structure Program (V : K → Type) (R L : Type) where
  entry : R → L
  next : L → Action V L

/-- Committed rows, row locks with the owner's version of the row, and the program
state of each open transaction. -/
structure Cfg (V : K → Type) (L : Type) where
  db : Store V
  lock : (k : K) → Option (ℕ × Option (V k))
  proc : ℕ → Option L
  locked_mem : ∀ k i v, lock k = some (i, some v) → k ∈ db.keys

inductive Event (R : Type)
  | start (i : ℕ) (r : R)
  | step (i : ℕ)
  | kill (i : ℕ)

namespace Cfg

def idle (db : Store V) : Cfg V L := ⟨db, fun _ => none, fun _ => none, by simp⟩

def viewRow (c : Cfg V L) (i : ℕ) (k : K) : Option (V k) :=
  match c.lock k with
  | some (j, r) => if j = i then r else c.db.row k
  | none => c.db.row k

theorem viewRow_own {c : Cfg V L} {i : ℕ} {k : K} {r : Option (V k)}
    (h : c.lock k = some (i, r)) : c.viewRow i k = r := by
  simp only [viewRow, h, ↓reduceIte]

theorem viewRow_other {c : Cfg V L} {i : ℕ} {k : K} (h : ∀ r, c.lock k ≠ some (i, r)) :
    c.viewRow i k = c.db.row k := by
  unfold viewRow
  split
  · rename_i j r hl
    split_ifs with hj
    -- the lock is of `i` itself after all
    · exact absurd (hj ▸ hl) (h r)
    · rfl
  · rfl

/-- What transaction `i` sees: its own versions over the committed rows. -/
def view (c : Cfg V L) (i : ℕ) : Store V where
  row := c.viewRow i
  keys := c.db.keys
  nodup := c.db.nodup
  covers k v h := by
    by_cases ho : ∃ r, c.lock k = some (i, r)
    · obtain ⟨r, hr⟩ := ho
      rw [viewRow_own hr] at h
      exact c.locked_mem k i v (h ▸ hr)
    · rw [viewRow_other (by simpa only [not_exists] using ho)] at h
      exact c.db.covers k v h

def goto (c : Cfg V L) (i : ℕ) (l : L) : Cfg V L :=
  ⟨c.db, c.lock, Function.update c.proc i (some l), c.locked_mem⟩

def releaseLock (c : Cfg V L) (i : ℕ) (k : K) : Option (ℕ × Option (V k)) :=
  (c.lock k).filter fun l => l.1 ≠ i

theorem releaseLock_eq_some {c : Cfg V L} {i j : ℕ} {k : K} {r : Option (V k)} :
    c.releaseLock i k = some (j, r) ↔ c.lock k = some (j, r) ∧ j ≠ i := by
  simp only [releaseLock, Option.filter_eq_some_iff, ne_eq, decide_not, Bool.not_eq_eq_eq_not,
    Bool.not_true, decide_eq_false_iff_not]

def commit (c : Cfg V L) (i : ℕ) (next : Option L) : Cfg V L where
  db := c.view i
  lock := c.releaseLock i
  proc := Function.update c.proc i next
  locked_mem k j v h := c.locked_mem k j v (releaseLock_eq_some.mp h).1

def rollback (c : Cfg V L) (i : ℕ) : Cfg V L where
  db := c.db
  lock := c.releaseLock i
  proc := Function.update c.proc i none
  locked_mem k j v h := c.locked_mem k j v (releaseLock_eq_some.mp h).1

section Fields

variable (c : Cfg V L) (i j : ℕ) (l : L) (n : Option L) (k : K)

@[simp] theorem goto_db : (c.goto i l).db = c.db := rfl
@[simp] theorem goto_lock : (c.goto i l).lock = c.lock := rfl
@[simp] theorem goto_viewRow : (c.goto i l).viewRow j = c.viewRow j := rfl
@[simp] theorem goto_proc : (c.goto i l).proc = Function.update c.proc i (some l) := rfl
@[simp] theorem commit_row : (c.commit i n).db.row k = c.viewRow i k := rfl
@[simp] theorem commit_keys : (c.commit i n).db.keys = c.db.keys := rfl
@[simp] theorem commit_lock : (c.commit i n).lock k = c.releaseLock i k := rfl
@[simp] theorem commit_proc : (c.commit i n).proc = Function.update c.proc i n := rfl
@[simp] theorem rollback_db : (c.rollback i).db = c.db := rfl
@[simp] theorem rollback_lock : (c.rollback i).lock k = c.releaseLock i k := rfl
@[simp] theorem rollback_proc : (c.rollback i).proc = Function.update c.proc i none := rfl
@[simp] theorem view_row : (c.view i).row = c.viewRow i := rfl
@[simp] theorem view_keys : (c.view i).keys = c.db.keys := rfl

end Fields

theorem commit_row_of_not_own {c : Cfg V L} {i : ℕ} {n : Option L} {k : K}
    (h : ∀ r, c.lock k ≠ some (i, r)) : (c.commit i n).db.row k = c.db.row k :=
  viewRow_other h

theorem viewRow_cases (c : Cfg V L) (i : ℕ) (k : K) :
    (∃ r, c.lock k = some (i, r) ∧ c.viewRow i k = r) ∨
      ((∀ r, c.lock k ≠ some (i, r)) ∧ c.viewRow i k = c.db.row k) := by
  by_cases h : ∃ r, c.lock k = some (i, r)
  · obtain ⟨r, hr⟩ := h
    exact Or.inl ⟨r, hr, viewRow_own hr⟩
  · have hn : ∀ r, c.lock k ≠ some (i, r) := by simpa only [not_exists] using h
    exact Or.inr ⟨hn, viewRow_other hn⟩

/-- No other transaction holds the row. -/
def free (c : Cfg V L) (i : ℕ) (k : K) : Bool :=
  match c.lock k with
  | some (j, _) => j == i
  | none => true

/-- An INSERT waits while another transaction holds an uncommitted insert or delete
of the key; a live committed row is a conflict at once, locked or not. -/
def insertWaits (c : Cfg V L) (i : ℕ) (k : K) : Bool :=
  !c.free i k && !((c.db.row k).isSome && (c.lock k).any fun l => l.2.isSome)

theorem free_iff {c : Cfg V L} {i : ℕ} {k : K} :
    c.free i k = true ↔ ∀ j r, c.lock k = some (j, r) → j = i := by
  unfold free
  split
  · rename_i j r hl
    simp only [beq_iff_eq, hl, Option.some.injEq, Prod.mk.injEq]
    exact ⟨fun h j' r' hj => hj.1 ▸ h, fun h => h j r ⟨rfl, rfl⟩⟩
  · rename_i hl
    simp only [hl, reduceCtorEq, false_implies, implies_true]

/-- Without a visible row, an INSERT that does not wait owns the key. -/
theorem free_of_not_insertWaits {c : Cfg V L} {i : ℕ} {k : K}
    (hw : c.insertWaits i k = false) (hk : c.viewRow i k = none) : c.free i k = true := by
  by_contra hf
  -- another transaction has the row, so `i` sees the committed one: there is none
  have hdb : c.db.row k = none := by
    rw [← hk]
    refine (viewRow_other fun r hr => hf (free_iff.mpr ?_)).symm
    intro j r' hj
    rw [hr, Option.some.injEq, Prod.mk.injEq] at hj
    exact hj.1.symm
  simp only [insertWaits, hdb, Option.isSome_none, Bool.false_and, Bool.not_false, Bool.and_true,
    Bool.not_eq_eq_eq_not] at hw
  exact hf hw

variable [DecidableEq K]

def write (c : Cfg V L) (i : ℕ) (k : K) (r : Option (V k)) : Cfg V L where
  db := c.db.touch k
  lock := Function.update c.lock k (some (i, r))
  proc := c.proc
  locked_mem k' j v h := by
    by_cases hk : k' = k
    · exact hk ▸ List.mem_insert_self
    · rw [Function.update_of_ne hk] at h
      exact List.mem_insert_of_mem (c.locked_mem k' j v h)

def act (c : Cfg V L) (i : ℕ) : Action V L → Option (Cfg V L)
  | .read next => some (c.goto i (next (c.view i)))
  | .update k absent present =>
    match (c.view i).row k with
    | none => some (c.goto i absent)
    -- a statement that has to wait is not enabled until the row is free
    | some v => if c.free i k then some ((c.write i k (present v).1).goto i (present v).2) else none
  | .insert k v inserted conflict =>
    if c.insertWaits i k then none
    else match (c.view i).row k with
      | none => some ((c.write i k (some v)).goto i inserted)
      | some _ => some (c.goto i conflict)
  | .commit next => some (c.commit i next)
  | .rollback next => some ((c.rollback i).goto i next)
  | .abort => some (c.rollback i)

end Cfg

theorem eq_of_goto_proc {c : Cfg V L} {i : ℕ} {l l' : L} (h : (c.goto i l).proc i = some l') :
    l = l' := by
  rw [Cfg.goto_proc, Function.update_self] at h
  exact Option.some.inj h

variable [DecidableEq K]

def exec (P : Program V R L) (c : Cfg V L) : Event R → Option (Cfg V L)
  | .start i r => if (c.proc i).isNone then some (c.goto i (P.entry r)) else none
  | .step i => (c.proc i).bind fun l => c.act i (P.next l)
  | .kill i => if (c.proc i).isSome then some (c.rollback i) else none

variable {P : Program V R L} {c c' : Cfg V L} {e : Event R}

theorem exec_cases (h : exec P c e = some c') :
    (∃ i r, e = .start i r ∧ c.proc i = none ∧ c' = c.goto i (P.entry r)) ∨
      (∃ i, e = .kill i ∧ c.proc i ≠ none ∧ c' = c.rollback i) ∨
      ∃ i l, e = .step i ∧ c.proc i = some l ∧ c.act i (P.next l) = some c' := by
  cases e with
  | start i r =>
    simp only [exec, Option.isNone_iff_eq_none] at h
    split_ifs at h with hi
    exact Or.inl ⟨i, r, rfl, hi, (Option.some.inj h).symm⟩
  | kill i =>
    simp only [exec] at h
    split_ifs at h with hi
    exact Or.inr (Or.inl ⟨i, rfl, Option.isSome_iff_ne_none.mp hi, (Option.some.inj h).symm⟩)
  | step i =>
    simp only [exec, Option.bind_eq_some_iff] at h
    obtain ⟨l, hi, ha⟩ := h
    exact Or.inr (Or.inr ⟨i, l, rfl, hi, ha⟩)

theorem act_of_exec {i : ℕ} {l : L} (h : exec P c (.step i) = some c') (hl : c.proc i = some l) :
    c.act i (P.next l) = some c' := by
  rw [exec, hl] at h
  exact h

theorem act_read {i : ℕ} {next : Store V → L} (h : c.act i (.read next) = some c') :
    c' = c.goto i (next (c.view i)) := (Option.some.inj h).symm

theorem act_commit {i : ℕ} {next : Option L} (h : c.act i (.commit next) = some c') :
    c' = c.commit i next := (Option.some.inj h).symm

theorem act_rollback {i : ℕ} {next : L} (h : c.act i (.rollback next) = some c') :
    c' = (c.rollback i).goto i next := (Option.some.inj h).symm

theorem act_abort {i : ℕ} (h : c.act i .abort = some c') : c' = c.rollback i :=
  (Option.some.inj h).symm

theorem act_update {i : ℕ} {k : K} {a : L} {f : V k → Option (V k) × L}
    (h : c.act i (.update k a f) = some c') :
    (c.viewRow i k = none ∧ c' = c.goto i a) ∨
      ∃ v, c.viewRow i k = some v ∧ (∀ j r, c.lock k = some (j, r) → j = i) ∧
        c' = (c.write i k (f v).1).goto i (f v).2 := by
  simp only [Cfg.act] at h
  split at h
  · rename_i hk
    exact Or.inl ⟨hk, (Option.some.inj h).symm⟩
  · rename_i v hk
    split_ifs at h with hf
    exact Or.inr ⟨v, hk, Cfg.free_iff.mp hf, (Option.some.inj h).symm⟩

theorem act_insert {i : ℕ} {k : K} {v : V k} {a b : L}
    (h : c.act i (.insert k v a b) = some c') :
    (c.viewRow i k = none ∧ (∀ j r, c.lock k = some (j, r) → j = i) ∧
        c' = (c.write i k (some v)).goto i a) ∨
      (c.viewRow i k ≠ none ∧ c' = c.goto i b) := by
  simp only [Cfg.act] at h
  split_ifs at h with hw
  split at h
  · rename_i hk
    exact Or.inl ⟨hk, Cfg.free_iff.mp (Cfg.free_of_not_insertWaits (by simpa using hw) hk),
      (Option.some.inj h).symm⟩
  · rename_i w hk
    refine Or.inr ⟨?_, (Option.some.inj h).symm⟩
    change (c.view i).row k ≠ none
    rw [hk]
    exact Option.some_ne_none w

section Writes

variable {i : ℕ} {k : K} {r : Option (V k)}

@[simp] theorem Cfg.write_row : (c.write i k r).db.row = c.db.row := rfl
@[simp] theorem Cfg.write_proc : (c.write i k r).proc = c.proc := rfl
@[simp] theorem Cfg.write_lock : (c.write i k r).lock = Function.update c.lock k (some (i, r)) := rfl
@[simp] theorem Cfg.mem_write_keys {k' : K} :
    k' ∈ (c.write i k r).db.keys ↔ k' = k ∨ k' ∈ c.db.keys := List.mem_insert_iff

end Writes

end ReadCommitted
