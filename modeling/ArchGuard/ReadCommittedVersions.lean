import ArchGuard.ReadCommittedGuard
import ArchGuard.ReadCommittedOrder

/-! The versions of a row that are committed or held, and how what a transaction sees moves. -/
namespace ReadCommitted

variable {K R L : Type} {V : K → Type}

theorem Store.scan_nodup {α : Type} (s : Store V) {f : (k : K) → V k → Option α}
    (h : ∀ k k' v v' x, f k v = some x → f k' v' = some x → k = k') : (s.scan f).Nodup := by
  apply s.nodup.filterMap
  intro k k' x hk hk'
  obtain ⟨v, -, hv⟩ := Option.bind_eq_some_iff.mp hk
  obtain ⟨v', -, hv'⟩ := Option.bind_eq_some_iff.mp hk'
  exact h k k' v v' x hv hv'

/-- A version of a row, committed or held by a transaction. -/
def Version (c : Cfg V L) (k : K) (v : V k) : Prop :=
  c.db.row k = some v ∨ ∃ i, c.lock k = some (i, some v)

theorem version_of_view {c : Cfg V L} {i : ℕ} {k : K} {v : V k} (h : c.viewRow i k = some v) :
    Version c k v := by
  rcases c.viewRow_cases i k with ⟨r, hr, heq⟩ | ⟨-, heq⟩
  · rw [heq] at h
    exact Or.inr ⟨i, by rw [hr, h]⟩
  · exact Or.inl (heq.symm.trans h)

variable [DecidableEq K] {P : Program V R L} {c c' : Cfg V L} {e : Event R}

/-- A version was there before, or is what a statement has just written. -/
theorem version_of_exec {k : K} {v : V k} (h : exec P c e = some c') (hv : Version c' k v) :
    Version c k v ∨ ∃ i l, e = .step i ∧ c.proc i = some l ∧ Writes c i (P.next l) k (some v) := by
  rcases hv with hv | ⟨i, hv⟩
  · rcases row_of_exec h with heq | ⟨i, l, n, -, -, -, rfl⟩
    · rw [heq] at hv
      exact Or.inl (Or.inl hv)
    · exact Or.inl (version_of_view hv)
  · rcases lock_of_exec h hv with hlock | ⟨l, he, hl, hw⟩
    · exact Or.inl (Or.inr ⟨i, hlock⟩)
    · exact Or.inr ⟨i, l, he, hl, hw⟩

variable {o : VersionOrder V}

theorem LocksForward.view_other (hc : LocksForward o c) (h : exec P c e = some c') {j : ℕ}
    (hj : j ≠ e.actor) (k : K) : o.le k (c.viewRow j k) (c'.viewRow j k) := by
  obtain ⟨hf, -⟩ := frame_of_exec h hj
  rcases c.viewRow_cases j k with ⟨r, hr, heq⟩ | ⟨hno, heq⟩
  · rw [heq, Cfg.viewRow_own ((hf.lock k r).mpr hr)]
    exact o.refl k r
  · rw [heq, Cfg.viewRow_other fun r hr => hno r ((hf.lock k r).mp hr)]
    exact hc.rows h k

/-- So it does by its own statements, up to the end of the transaction. -/
theorem view_step (hok : WritesForward o P c e) {i : ℕ} {l : L} (he : e = .step i)
    (hl : c.proc i = some l) (hgo : (P.next l).continues = true) (h : exec P c e = some c')
    (k : K) : o.le k (c.viewRow i k) (c'.viewRow i k) := by
  have hact : c.act i (P.next l) = some c' := act_of_exec (he ▸ h) hl
  -- a statement replaces one row at most, and that one by a version that follows it
  have hwrite : ∀ k' r l', Writes c i (P.next l) k' r →
      o.le k (c.viewRow i k) (((c.write i k' r).goto i l').viewRow i k) := by
    intro k' r l' hw
    by_cases hk : k = k'
    · subst hk
      rw [viewRow_write_self]
      exact hok i l k r he hl hw
    · rw [viewRow_write_of_ne _ hk]
      exact o.refl k _
  cases hn : P.next l with
  | read next =>
    obtain rfl := act_read (hn ▸ hact)
    exact o.refl k _
  | update k' a f =>
    rcases act_update (hn ▸ hact) with ⟨-, rfl⟩ | ⟨v, hv, -, rfl⟩
    · exact o.refl k _
    · exact hwrite k' _ _ (hn ▸ .update hv)
  | insert k' v a b =>
    rcases act_insert (hn ▸ hact) with ⟨hv, -, rfl⟩ | ⟨-, rfl⟩
    · exact hwrite k' _ _ (hn ▸ .insert hv)
    · exact o.refl k _
  | commit next =>
    rw [hn] at hgo
    cases hgo
  | rollback next =>
    rw [hn] at hgo
    cases hgo
  | abort =>
    rw [hn] at hgo
    cases hgo

/-- So it does for a transaction that holds a row after the step: it has not ended. -/
theorem LocksForward.view_held (hc : LocksForward o c) (hok : WritesForward o P c e)
    (h : exec P c e = some c') {j : ℕ} {k₀ : K} {r : Option (V k₀)}
    (hl : c'.lock k₀ = some (j, r)) (k : K) : o.le k (c.viewRow j k) (c'.viewRow j k) := by
  by_cases hj : j = e.actor
  · subst hj
    rcases exec_cases h with ⟨i, q, rfl, -, rfl⟩ | ⟨i, rfl, -, rfl⟩ | ⟨i, l, rfl, hi, ha⟩
    · exact o.refl k _
    · exact absurd rfl (Cfg.releaseLock_eq_some.mp hl).2
    · exact view_step hok rfl hi (continues_of_lock ha hl) h k
  · exact hc.view_other h hj k

end ReadCommitted
