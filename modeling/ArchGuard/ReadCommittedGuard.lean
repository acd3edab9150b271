import ArchGuard.ReadCommittedFrame

/-! Families of rows with a guard: a transaction commits none of the others unless it holds the
guard, so that what it sees of the family when it is about to commit stays what it commits. -/
namespace ReadCommitted
open TransitionRun

variable {K R L : Type} {V : K → Type}

/-- A transaction holds only rows that its program state accounts for. -/
def HeldAt (owned : L → K → Prop) (c : Cfg V L) : Prop :=
  ∀ k i r, c.lock k = some (i, r) → ∃ l, c.proc i = some l ∧ owned l k

theorem heldAt_idle (owned : L → K → Prop) (db : Store V) : HeldAt owned (Cfg.idle db : Cfg V L) :=
  fun _ _ _ h => by cases h

theorem HeldAt.unlocked {owned : L → K → Prop} {c : Cfg V L} (hc : HeldAt owned c) {i : ℕ} {l : L}
    (hl : c.proc i = some l) {k : K} (hno : ¬owned l k) (r : Option (V k)) :
    c.lock k ≠ some (i, r) := by
  intro hr
  obtain ⟨l', hl', hown⟩ := hc k i r hr
  obtain rfl := Option.some.inj (hl.symm.trans hl')
  exact hno hown

/-- A transaction sees the committed version of a row that it cannot hold. -/
theorem HeldAt.view_eq {owned : L → K → Prop} {c : Cfg V L} (hc : HeldAt owned c) {i : ℕ} {l : L}
    (hl : c.proc i = some l) {k : K} (hno : ¬owned l k) : c.viewRow i k = c.db.row k :=
  Cfg.viewRow_other (hc.unlocked hl hno)

/-- The rows of a family and the one among them that guards it. -/
structure Family (K : Type) where
  member : K → Prop
  guard : K

/-- Transaction `i` is about to commit. -/
def Commits (P : Program V R L) (c : Cfg V L) (i : ℕ) : Prop :=
  ∃ l n, c.proc i = some l ∧ P.next l = .commit n

/-- A transaction that is about to commit holds the guard, or nothing of the family. -/
def Guarded (P : Program V R L) (F : Family K) (c : Cfg V L) : Prop :=
  ∀ i, Commits P c i → (∃ r, c.lock F.guard = some (i, r)) ∨
    ∀ k, F.member k → ∀ r, c.lock k ≠ some (i, r)

def OfFamily (F : Family K) (Φ : Store V → Prop) : Prop :=
  ∀ s s' : Store V, (∀ k, F.member k → s'.row k = s.row k) → Φ s → Φ s'

/-- The property holds of the committed rows, and of what each transaction is about to commit. -/
structure Sealed (P : Program V R L) (Φ : Store V → Prop) (c : Cfg V L) : Prop where
  db : Φ c.db
  view : ∀ i, Commits P c i → Φ (c.view i)

/-- What another transaction commits of a guarded family is not what `j` is about to commit: `j`
sees its own rows of the family as before, or sees those that were just committed. -/
theorem view_of_commit {P : Program V R L} {c : Cfg V L} {F : Family K} (hc : Guarded P F c)
    {i j : ℕ} (hi : Commits P c i)
    (hj : Commits P c j) (hij : j ≠ i) (n : Option L) :
    (∀ k, F.member k → (c.commit i n).viewRow j k = c.viewRow j k) ∨
      ∀ k, F.member k → (c.commit i n).viewRow j k = c.viewRow i k := by
  have hframe : Frame c (c.commit i n) j := Frame.commit n hij
  rcases hc j hj with ⟨r, hr⟩ | hnone
  · -- `j` has the guard, so `i` holds nothing of the family and commits none of it
    have hother : ∀ k, F.member k → ∀ r, c.lock k ≠ some (i, r) := by
      rcases hc i hi with ⟨r', hr'⟩ | hnone
      · rw [hr, Option.some.injEq, Prod.mk.injEq] at hr'
        exact absurd hr'.1 hij
      · exact hnone
    apply Or.inl
    intro k hk
    have hrow : (c.commit i n).db.row k = c.db.row k := Cfg.commit_row_of_not_own (hother k hk)
    rcases c.viewRow_cases j k with ⟨r', hr', heq⟩ | ⟨hno, heq⟩
    · rw [heq, Cfg.viewRow_own ((hframe.lock k r').mpr hr')]
    · rw [heq, Cfg.viewRow_other fun r' hr' => hno r' ((hframe.lock k r').mp hr'), hrow]
  · apply Or.inr
    intro k hk
    exact Cfg.viewRow_other fun r hr => hnone k hk r ((hframe.lock k r).mp hr)

theorem guarded_idle (P : Program V R L) (F : Family K) (db : Store V) :
    Guarded P F (Cfg.idle db) := by
  rintro i ⟨l, n, hl, -⟩
  cases hl

theorem sealed_idle (P : Program V R L) {Φ : Store V → Prop} {db : Store V} (h : Φ db) :
    Sealed P Φ (Cfg.idle db) := by
  refine ⟨h, ?_⟩
  rintro i ⟨l, n, hl, -⟩
  cases hl

section Steps

variable [DecidableEq K] {P : Program V R L} {c c' : Cfg V L} {e : Event R}

/-- The rule for what is held: each statement that goes on accounts for the rows held before it
and for the row that it writes. -/
theorem HeldAt.step {owned : L → K → Prop} (hc : HeldAt owned c)
    (hgrow : ∀ i l l' k, e = .step i → c.proc i = some l → (P.next l).continues = true →
      Reaches c i (P.next l) l' → (owned l k ∨ ∃ r, Writes c i (P.next l) k r) → owned l' k)
    (h : exec P c e = some c') : HeldAt owned c' := by
  intro k j r hl
  by_cases hj : j = e.actor
  · subst hj
    rcases exec_cases h with ⟨i, q, rfl, hi, rfl⟩ | ⟨i, rfl, -, rfl⟩ | ⟨i, l, rfl, hi, ha⟩
    · -- before it began, the transaction held nothing
      obtain ⟨l, hp, -⟩ := hc k i r hl
      rw [hi] at hp
      cases hp
    · exact absurd rfl (Cfg.releaseLock_eq_some.mp hl).2
    · have hcases : owned l k ∨ ∃ r, Writes c i (P.next l) k r := by
        rcases lock_of_act ha hl with hlock | ⟨-, hw⟩
        · obtain ⟨l₀, hp, hown⟩ := hc k i r hlock
          obtain rfl : l = l₀ := Option.some.inj (hi.symm.trans hp)
          exact Or.inl hown
        · exact Or.inr ⟨r, hw⟩
      have hcont : (P.next l).continues = true := continues_of_lock ha hl
      have hgo {l' : L} (hp : c'.proc i = some l') : ∃ l, c'.proc i = some l ∧ owned l k :=
        ⟨l', hp, hgrow i l l' k rfl hi hcont (proc_of_act ha hp) hcases⟩
      -- a statement goes on with its rows, the end of the transaction has let go of them
      cases hn : P.next l with
      | read next =>
        obtain rfl := act_read (hn ▸ ha)
        exact hgo (Function.update_self ..)
      | update k' a f =>
        rcases act_update (hn ▸ ha) with ⟨-, rfl⟩ | ⟨v, -, -, rfl⟩
        · exact hgo (Function.update_self ..)
        · exact hgo (Function.update_self ..)
      | insert k' v a b =>
        rcases act_insert (hn ▸ ha) with ⟨-, -, rfl⟩ | ⟨-, rfl⟩
        · exact hgo (Function.update_self ..)
        · exact hgo (Function.update_self ..)
      | _ =>
        rw [hn] at hcont
        cases hcont
  · obtain ⟨hf, hproc⟩ := frame_of_exec h hj
    rw [hproc]
    exact hc k j r ((hf.lock k r).mp hl)

theorem commits_of_exec {j : ℕ} (h : exec P c e = some c') (hj : j ≠ e.actor) :
    Commits P c' j ↔ Commits P c j := by
  simp only [Commits, (frame_of_exec h hj).2]

theorem Guarded.step {F : Family K} (hc : Guarded P F c) (h : exec P c e = some c')
    (hactor : Commits P c' e.actor → (∃ r, c'.lock F.guard = some (e.actor, r)) ∨
      ∀ k, F.member k → ∀ r, c'.lock k ≠ some (e.actor, r)) : Guarded P F c' := by
  intro j hj
  by_cases hje : j = e.actor
  · subst hje
    exact hactor hj
  · obtain ⟨hf, -⟩ := frame_of_exec h hje
    rcases hc j ((commits_of_exec h hje).mp hj) with ⟨r, hr⟩ | hnone
    · exact Or.inl ⟨r, (hf.lock F.guard r).mpr hr⟩
    · exact Or.inr fun k hk r hr => hnone k hk r ((hf.lock k r).mp hr)

/-- The rule for a property of a guarded family: only the transaction that moves has to show it,
when it gets to its commit. -/
theorem Sealed.step {F : Family K} {Φ : Store V → Prop} (hΦ : OfFamily F Φ) (hc : Sealed P Φ c)
    (hg : Guarded P F c) (h : exec P c e = some c')
    (hactor : Commits P c' e.actor → Φ (c'.view e.actor)) : Sealed P Φ c' := by
  rcases row_of_exec h with hrow | ⟨i, l, n, rfl, hi, hn, rfl⟩
  · refine ⟨hΦ c.db c'.db (fun k _ => congrFun hrow k) hc.db, fun j hj => ?_⟩
    by_cases hje : j = e.actor
    · subst hje
      exact hactor hj
    · obtain ⟨hf, -⟩ := frame_of_exec h hje
      apply hΦ (c.view j) (c'.view j) _ (hc.view j ((commits_of_exec h hje).mp hj))
      exact fun k _ => hf.viewRow hrow k
  · have hci : Commits P c i := ⟨l, n, hi, hn⟩
    refine ⟨hc.view i hci, fun j hj => ?_⟩
    by_cases hji : j = i
    · subst hji
      exact hactor hj
    · have hcj : Commits P c j := (commits_of_exec h hji).mp hj
      rcases view_of_commit hg hci hcj hji n with hsame | hcommitted
      · exact hΦ (c.view j) _ hsame (hc.view j hcj)
      · exact hΦ (c.view i) _ hcommitted (hc.view i hci)

end Steps

end ReadCommitted
