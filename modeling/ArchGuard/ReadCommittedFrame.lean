import ArchGuard.ReadCommitted

/-! What the step of one transaction leaves alone for the others, and the inversion
of each kind of statement. -/
namespace ReadCommitted

variable {K R L : Type} {V : K → Type}

def Event.actor : Event R → ℕ
  | .start i _ => i
  | .step i => i
  | .kill i => i

/-- Transaction `j` holds the same locks in `c` and `c'`, over the same committed rows. -/
structure Frame (c c' : Cfg V L) (j : ℕ) : Prop where
  lock : ∀ k r, c'.lock k = some (j, r) ↔ c.lock k = some (j, r)
  row : ∀ k r, c.lock k = some (j, r) → c'.db.row k = c.db.row k

namespace Frame

variable {c : Cfg V L} {i j : ℕ}

theorem goto (l : L) : Frame c (c.goto i l) j := ⟨fun _ _ => Iff.rfl, fun _ _ _ => rfl⟩

theorem commit (n : Option L) (hij : j ≠ i) : Frame c (c.commit i n) j where
  lock k r := by simp only [Cfg.commit_lock, Cfg.releaseLock_eq_some, hij, ne_eq,
    not_false_eq_true, and_true]
  row k r h := by
    refine Cfg.commit_row_of_not_own fun r' h' => hij ?_
    rw [h, Option.some.injEq, Prod.mk.injEq] at h'
    exact h'.1

theorem rollback (hij : j ≠ i) : Frame c (c.rollback i) j where
  lock k r := by simp only [Cfg.rollback_lock, Cfg.releaseLock_eq_some, hij, ne_eq,
    not_false_eq_true, and_true]
  row _ _ _ := rfl

theorem write [DecidableEq K] {k : K} {r : Option (V k)} (l : L) (hij : j ≠ i)
    (hfree : ∀ j r, c.lock k = some (j, r) → j = i) : Frame c ((c.write i k r).goto i l) j where
  lock k' r' := by
    simp only [Cfg.goto_lock, Cfg.write_lock]
    by_cases hk : k' = k
    · subst hk
      rw [Function.update_self]
      constructor
      · intro h
        rw [Option.some.injEq, Prod.mk.injEq] at h
        exact absurd h.1.symm hij
      · exact fun h => absurd (hfree j r' h) hij
    · rw [Function.update_of_ne hk]
  row _ _ _ := rfl

theorem viewRow {c' : Cfg V L} (hf : Frame c c' j) (hdb : c'.db.row = c.db.row) (k : K) :
    c'.viewRow j k = c.viewRow j k := by
  rcases c.viewRow_cases j k with ⟨r, hr, he⟩ | ⟨hn, he⟩
  · rw [he, Cfg.viewRow_own ((hf.lock k r).mpr hr)]
  · rw [he, Cfg.viewRow_other fun r hr => hn r ((hf.lock k r).mp hr), hdb]

end Frame

section View

variable {c : Cfg V L} {i j : ℕ}

theorem viewRow_commit_self (n : Option L) (k : K) :
    (c.commit i n).viewRow i k = c.viewRow i k :=
  Cfg.viewRow_other fun _ h => (Cfg.releaseLock_eq_some.mp h).2 rfl

variable [DecidableEq K] {k : K} {r : Option (V k)}

theorem viewRow_write_self (l : L) : ((c.write i k r).goto i l).viewRow i k = r :=
  Cfg.viewRow_own (by simp)

theorem viewRow_write_of_ne (l : L) {k' : K} (hk : k' ≠ k) :
    ((c.write i k r).goto i l).viewRow j k' = c.viewRow j k' := by
  simp only [Cfg.viewRow, Cfg.goto_lock, Cfg.write_lock, Function.update_of_ne hk, Cfg.goto_db,
    Cfg.write_row]

end View

/-- Only open transactions hold locks. -/
def OwnersLive (c : Cfg V L) : Prop := ∀ k i r, c.lock k = some (i, r) → c.proc i ≠ none

theorem ownersLive_idle (db : Store V) : OwnersLive (Cfg.idle db : Cfg V L) :=
  fun _ _ _ h => by cases h

variable [DecidableEq K] {P : Program V R L} {c c' : Cfg V L} {e : Event R}

theorem frame_of_act {i j : ℕ} {a : Action V L} (h : c.act i a = some c') (hij : j ≠ i) :
    Frame c c' j ∧ c'.proc j = c.proc j := by
  have hproc (n : Option L) : Function.update c.proc i n j = c.proc j := Function.update_of_ne hij ..
  cases a with
  | read next => exact act_read h ▸ ⟨.goto _, hproc _⟩
  | update k a f =>
    rcases act_update h with ⟨-, rfl⟩ | ⟨v, -, hfree, rfl⟩
    · exact ⟨.goto _, hproc _⟩
    · exact ⟨.write _ hij hfree, hproc _⟩
  | insert k v a b =>
    rcases act_insert h with ⟨-, hfree, rfl⟩ | ⟨-, rfl⟩
    · exact ⟨.write _ hij hfree, hproc _⟩
    · exact ⟨.goto _, hproc _⟩
  | commit next => exact act_commit h ▸ ⟨.commit _ hij, hproc _⟩
  | rollback next =>
    obtain rfl := act_rollback h
    refine ⟨⟨(Frame.rollback hij).lock, fun _ _ _ => rfl⟩, ?_⟩
    rw [Cfg.goto_proc, Function.update_of_ne hij]
    exact hproc _
  | abort => exact act_abort h ▸ ⟨.rollback hij, hproc _⟩

theorem frame_of_exec (h : exec P c e = some c') {j : ℕ} (hj : j ≠ e.actor) :
    Frame c c' j ∧ c'.proc j = c.proc j := by
  rcases exec_cases h with ⟨i, r, rfl, -, rfl⟩ | ⟨i, rfl, -, rfl⟩ | ⟨i, l, rfl, -, ha⟩
  · exact ⟨.goto _, Function.update_of_ne hj ..⟩
  · exact ⟨.rollback hj, Function.update_of_ne hj ..⟩
  · exact frame_of_act ha hj

/-- The version of row `k` that statement `a` of transaction `i` writes. -/
inductive Writes (c : Cfg V L) (i : ℕ) : Action V L → (k : K) → Option (V k) → Prop
  | update {k : K} {a : L} {f : V k → Option (V k) × L} {v : V k} (hv : c.viewRow i k = some v) :
      Writes c i (.update k a f) k (f v).1
  | insert {k : K} {v : V k} {a b : L} (hk : c.viewRow i k = none) :
      Writes c i (.insert k v a b) k (some v)

/-- The program state that statement `a` of transaction `i` leads to. -/
inductive Reaches (c : Cfg V L) (i : ℕ) : Action V L → L → Prop
  | read {f : Store V → L} : Reaches c i (.read f) (f (c.view i))
  | absent {k : K} {a : L} {f : V k → Option (V k) × L} (hk : c.viewRow i k = none) :
      Reaches c i (.update k a f) a
  | present {k : K} {a : L} {f : V k → Option (V k) × L} {v : V k} (hv : c.viewRow i k = some v) :
      Reaches c i (.update k a f) (f v).2
  | inserted {k : K} {v : V k} {a b : L} (hk : c.viewRow i k = none) :
      Reaches c i (.insert k v a b) a
  | conflict {k : K} {v : V k} {a b : L} (hk : c.viewRow i k ≠ none) :
      Reaches c i (.insert k v a b) b
  | commit {l : L} : Reaches c i (.commit (some l)) l
  | rollback {l : L} : Reaches c i (.rollback l) l

theorem lock_write {i j : ℕ} {k k' : K} {r : Option (V k)} {r' : Option (V k')} {l : L}
    (h : ((c.write i k r).goto i l).lock k' = some (j, r')) :
    c.lock k' = some (j, r') ∨ (j = i ∧ ∃ hk : k = k', hk ▸ r = r') := by
  rw [Cfg.goto_lock, Cfg.write_lock] at h
  by_cases hk : k' = k
  · subst hk
    rw [Function.update_self, Option.some.injEq, Prod.mk.injEq] at h
    exact Or.inr ⟨h.1.symm, rfl, h.2⟩
  · rw [Function.update_of_ne hk] at h
    exact Or.inl h

theorem lock_of_act {i j : ℕ} {a : Action V L} {k : K} {r : Option (V k)}
    (h : c.act i a = some c') (hl : c'.lock k = some (j, r)) :
    c.lock k = some (j, r) ∨ (j = i ∧ Writes c i a k r) := by
  cases a with
  | read next =>
    obtain rfl := act_read h
    exact Or.inl hl
  | update k' a f =>
    rcases act_update h with ⟨-, rfl⟩ | ⟨v, hv, -, rfl⟩
    · exact Or.inl hl
    · refine (lock_write hl).imp_right fun ⟨hj, hk, hr⟩ => ⟨hj, ?_⟩
      subst hk hr
      exact .update hv
  | insert k' v a b =>
    rcases act_insert h with ⟨hk', -, rfl⟩ | ⟨-, rfl⟩
    · refine (lock_write hl).imp_right fun ⟨hj, hk, hr⟩ => ⟨hj, ?_⟩
      subst hk hr
      exact .insert hk'
    · exact Or.inl hl
  | commit next =>
    obtain rfl := act_commit h
    exact Or.inl (Cfg.releaseLock_eq_some.mp hl).1
  | rollback next =>
    obtain rfl := act_rollback h
    exact Or.inl (Cfg.releaseLock_eq_some.mp hl).1
  | abort =>
    obtain rfl := act_abort h
    exact Or.inl (Cfg.releaseLock_eq_some.mp hl).1

theorem lock_of_exec {j : ℕ} {k : K} {r : Option (V k)} (h : exec P c e = some c')
    (hl : c'.lock k = some (j, r)) :
    c.lock k = some (j, r) ∨ ∃ l, e = .step j ∧ c.proc j = some l ∧ Writes c j (P.next l) k r := by
  rcases exec_cases h with ⟨i, q, rfl, -, rfl⟩ | ⟨i, rfl, -, rfl⟩ | ⟨i, l, rfl, hi, ha⟩
  · exact Or.inl hl
  · exact Or.inl (Cfg.releaseLock_eq_some.mp hl).1
  · refine (lock_of_act ha hl).imp_right fun ⟨hj, hw⟩ => ?_
    subst hj
    exact ⟨l, rfl, hi, hw⟩

theorem proc_of_act {i : ℕ} {a : Action V L} {l : L} (h : c.act i a = some c')
    (hl : c'.proc i = some l) : Reaches c i a l := by
  cases a with
  | read next =>
    obtain rfl := act_read h
    obtain rfl : next (c.view i) = l := by simpa using hl
    exact .read
  | update k a f =>
    rcases act_update h with ⟨hk, rfl⟩ | ⟨v, hv, -, rfl⟩
    · obtain rfl : a = l := by simpa using hl
      exact .absent hk
    · obtain rfl : (f v).2 = l := by simpa using hl
      exact .present hv
  | insert k v a b =>
    rcases act_insert h with ⟨hk, -, rfl⟩ | ⟨hk, rfl⟩
    · obtain rfl : a = l := by simpa using hl
      exact .inserted hk
    · obtain rfl : b = l := by simpa using hl
      exact .conflict hk
  | commit next =>
    obtain rfl := act_commit h
    obtain rfl : next = some l := by simpa using hl
    exact .commit
  | rollback next =>
    obtain rfl := act_rollback h
    obtain rfl : next = l := by simpa using hl
    exact .rollback
  | abort =>
    obtain rfl := act_abort h
    simp at hl

theorem proc_of_exec {j : ℕ} {l : L} (h : exec P c e = some c') (hl : c'.proc j = some l) :
    (c.proc j = some l ∧ j ≠ e.actor) ∨ (∃ r, e = .start j r ∧ c.proc j = none ∧ l = P.entry r) ∨
      ∃ l', e = .step j ∧ c.proc j = some l' ∧ Reaches c j (P.next l') l := by
  by_cases hj : j = e.actor
  · subst hj
    rcases exec_cases h with ⟨i, r, rfl, hi, rfl⟩ | ⟨i, rfl, -, rfl⟩ | ⟨i, l', rfl, hi, ha⟩
    · exact Or.inr (Or.inl ⟨r, rfl, hi, by simpa [Event.actor, eq_comm] using hl⟩)
    · simp [Event.actor] at hl
    · exact Or.inr (Or.inr ⟨l', rfl, hi, proc_of_act ha hl⟩)
  · exact Or.inl ⟨(frame_of_exec h hj).2 ▸ hl, hj⟩

theorem row_of_exec (h : exec P c e = some c') :
    c'.db.row = c.db.row ∨ ∃ i l n, e = .step i ∧ c.proc i = some l ∧ P.next l = .commit n ∧
      c' = c.commit i n := by
  rcases exec_cases h with ⟨i, r, rfl, -, rfl⟩ | ⟨i, rfl, -, rfl⟩ | ⟨i, l, rfl, hi, ha⟩
  · exact Or.inl rfl
  · exact Or.inl rfl
  cases hn : P.next l with
  | read next => exact Or.inl (act_read (hn ▸ ha) ▸ rfl)
  | update k a f =>
    rcases act_update (hn ▸ ha) with ⟨-, rfl⟩ | ⟨v, -, -, rfl⟩ <;> exact Or.inl rfl
  | insert k v a b =>
    rcases act_insert (hn ▸ ha) with ⟨-, -, rfl⟩ | ⟨-, rfl⟩ <;> exact Or.inl rfl
  | commit next => exact Or.inr ⟨i, l, next, rfl, hi, hn, act_commit (hn ▸ ha)⟩
  | rollback next => exact Or.inl (act_rollback (hn ▸ ha) ▸ rfl)
  | abort => exact Or.inl (act_abort (hn ▸ ha) ▸ rfl)

theorem row_of_locked {k : K} {j : ℕ} {r : Option (V k)} (h : exec P c e = some c')
    (hl : c'.lock k = some (j, r)) : c'.db.row k = c.db.row k := by
  rcases row_of_exec h with heq | ⟨i, l, n, -, -, -, rfl⟩
  · rw [heq]
  · obtain ⟨hlock, hji⟩ := Cfg.releaseLock_eq_some.mp hl
    refine Cfg.commit_row_of_not_own fun r' hr' => hji ?_
    rw [hlock, Option.some.injEq, Prod.mk.injEq] at hr'
    exact hr'.1

/-- Statements that go on in the same transaction. -/
def Action.continues : Action V L → Bool
  | .read _ => true
  | .update .. => true
  | .insert .. => true
  | .commit _ => false
  | .rollback _ => false
  | .abort => false

theorem continues_of_lock {a : Action V L} {k : K} {r : Option (V k)} (ha : c.act i a = some c')
    (hl : c'.lock k = some (i, r)) : a.continues = true := by
  cases a with
  | commit next =>
    obtain rfl := act_commit ha
    exact absurd rfl (Cfg.releaseLock_eq_some.mp hl).2
  | rollback next =>
    obtain rfl := act_rollback ha
    exact absurd rfl (Cfg.releaseLock_eq_some.mp hl).2
  | abort =>
    obtain rfl := act_abort ha
    exact absurd rfl (Cfg.releaseLock_eq_some.mp hl).2
  | _ => rfl

theorem OwnersLive.step (hc : OwnersLive c) (h : exec P c e = some c') : OwnersLive c' := by
  intro k j r hl
  by_cases hj : j = e.actor
  · subst hj
    rcases exec_cases h with ⟨i, r', rfl, -, rfl⟩ | ⟨i, rfl, -, rfl⟩ | ⟨i, l, rfl, hi, ha⟩
    -- a start takes no lock; a kill, a commit and an abort release every lock of theirs
    · simp [Event.actor]
    · exact absurd rfl (Cfg.releaseLock_eq_some.mp hl).2
    · have hcont : (P.next l).continues = true := continues_of_lock ha hl
      cases hn : P.next l with
      | read next =>
        obtain rfl := act_read (hn ▸ ha)
        simp [Event.actor]
      | update k a f =>
        rcases act_update (hn ▸ ha) with ⟨-, rfl⟩ | ⟨v, -, -, rfl⟩ <;> simp [Event.actor]
      | insert k v a b =>
        rcases act_insert (hn ▸ ha) with ⟨-, -, rfl⟩ | ⟨-, rfl⟩ <;> simp [Event.actor]
      | _ =>
        rw [hn] at hcont
        cases hcont
  · obtain ⟨hf, hproc⟩ := frame_of_exec h hj
    rw [hproc]
    exact hc k j r ((hf.lock k r).mp hl)

end ReadCommitted
