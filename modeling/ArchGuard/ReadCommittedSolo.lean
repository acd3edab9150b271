import ArchGuard.ReadCommittedFrame

/-! A transaction that runs while no other does: its statements act on the rows one after
another. -/
namespace ReadCommitted
open TransitionRun

variable {K : Type} {V : K → Type} {R L : Type} [DecidableEq K] {P : Program V R L}
  {c c' : Cfg V L} {i : ℕ} {l : L} {row : (k : K) → Option (V k)}

/-- Transaction `i` sees `row`, and nobody else holds a row. -/
structure Solo (c : Cfg V L) (i : ℕ) (row : (k : K) → Option (V k)) (l : L) : Prop where
  view : c.viewRow i = row
  proc : c.proc i = some l
  free : ∀ k j r, c.lock k = some (j, r) → j = i

theorem solo_start {db : Store V} {r : R} (h : exec P (Cfg.idle db) (.start i r) = some c') :
    Solo c' i db.row (P.entry r) := by
  have hc : c' = (Cfg.idle db : Cfg V L).goto i (P.entry r) := (Option.some.inj h).symm
  rw [hc]
  refine ⟨rfl, ?_, fun _ _ _ hl => ?_⟩
  · rw [Cfg.goto_proc, Function.update_self]
  · cases hl

theorem solo_step (hc : Solo c i row l) (h : exec P c (.step i) = some c') :
    c.act i (P.next l) = some c' := by
  rw [exec, hc.proc, Option.bind_some] at h
  exact h

omit [DecidableEq K] in
theorem solo_goto (hc : Solo c i row l) (l' : L) : Solo (c.goto i l') i row l' := by
  refine ⟨hc.view, ?_, hc.free⟩
  rw [Cfg.goto_proc, Function.update_self]

theorem solo_write (hc : Solo c i row l) (k : K) (r : Option (V k)) (l' : L) :
    Solo ((c.write i k r).goto i l') i (Function.update row k r) l' := by
  refine ⟨funext fun k' => ?_, ?_, fun k' j r' hl => ?_⟩
  · by_cases hk : k' = k
    · subst hk
      rw [viewRow_write_self, Function.update_self]
    · rw [viewRow_write_of_ne l' hk, Function.update_of_ne hk, hc.view]
  · rw [Cfg.goto_proc, Function.update_self]
  · by_cases hk : k' = k
    · subst hk
      rw [Cfg.goto_lock, Cfg.write_lock, Function.update_self] at hl
      exact (Prod.mk.inj (Option.some.inj hl)).1.symm
    · rw [Cfg.goto_lock, Cfg.write_lock, Function.update_of_ne hk] at hl
      exact hc.free k' j r' hl

theorem solo_update (hc : Solo c i row l) {k : K} {a : L} {f : V k → Option (V k) × L}
    (hl : P.next l = .update k a f) (h : exec P c (.step i) = some c') :
    (row k = none ∧ Solo c' i row a) ∨
      ∃ v, row k = some v ∧ Solo c' i (Function.update row k (f v).1) (f v).2 := by
  have hact := solo_step hc h
  rw [hl] at hact
  rcases act_update hact with ⟨hk, hc'⟩ | ⟨v, hv, -, hc'⟩
  · left
    rw [hc.view] at hk
    exact ⟨hk, hc' ▸ solo_goto hc a⟩
  · right
    rw [hc.view] at hv
    exact ⟨v, hv, hc' ▸ solo_write hc k _ _⟩

theorem solo_insert (hc : Solo c i row l) {k : K} {v : V k} {a b : L}
    (hl : P.next l = .insert k v a b) (h : exec P c (.step i) = some c') :
    (row k = none ∧ Solo c' i (Function.update row k (some v)) a) ∨
      (row k ≠ none ∧ Solo c' i row b) := by
  have hact := solo_step hc h
  rw [hl] at hact
  rcases act_insert hact with ⟨hk, -, hc'⟩ | ⟨hk, hc'⟩
  · left
    rw [hc.view] at hk
    exact ⟨hk, hc' ▸ solo_write hc k _ _⟩
  · right
    rw [hc.view] at hk
    exact ⟨hk, hc' ▸ solo_goto hc b⟩

theorem solo_commit (hc : Solo c i row l) {n : Option L} (hl : P.next l = .commit n)
    (h : exec P c (.step i) = some c') : c'.db.row = row := by
  have hact := solo_step hc h
  rw [hl] at hact
  rw [act_commit hact]
  exact hc.view

theorem not_run_of_abort (hc : Solo c i row l) (hl : P.next l = .abort) {es : List (Event R)}
    (h : run (exec P) c (.step i :: .step i :: es) = some c') : False := by
  obtain ⟨d, hd, h⟩ := run_cons_eq_some.mp h
  obtain ⟨e, he, -⟩ := run_cons_eq_some.mp h
  have hact := solo_step hc hd
  rw [hl] at hact
  rw [act_abort hact, exec, Cfg.rollback_proc, Function.update_self, Option.bind_none] at he
  cases he

end ReadCommitted
