import ArchGuard.TransitionRun
import Mathlib.Data.Nat.Notation
import Mathlib.Logic.Function.Basic

/-! Calls over one shared state: each stands at a statement of its own, every statement takes
effect at once, and which call runs next is free. -/
namespace SharedCalls
open TransitionRun

variable {σ Q L W : Type}

/-- Where a request enters, and what the statement of a location does to the shared state, given
what the world outside answers it; a call that has returned has no statement. -/
structure Program (σ Q L W : Type) where
  entry : Q → L
  next : L → W → σ → Option (L × σ)

structure Site (σ L : Type) where
  shared : σ
  call : ℕ → Option L

inductive Event (Q W : Type)
  | start (i : ℕ) (q : Q)
  | step (i : ℕ) (w : W)

/-- Nothing has been called yet. -/
def Site.idle (s : σ) : Site σ L := ⟨s, fun _ => none⟩

def Site.goto (s : Site σ L) (i : ℕ) (l : L) (t : σ) : Site σ L :=
  ⟨t, Function.update s.call i (some l)⟩

def exec (P : Program σ Q L W) (s : Site σ L) : Event Q W → Option (Site σ L)
  | .start i q =>
    match s.call i with
    | none => some (s.goto i (P.entry q) s.shared)
    | some _ => none
  | .step i w => (s.call i).bind fun l => (P.next l w s.shared).map fun r => s.goto i r.1 r.2

theorem goto_call (s : Site σ L) (i : ℕ) (l : L) (t : σ) :
    (s.goto i l t).call = Function.update s.call i (some l) := rfl

@[simp] theorem goto_shared (s : Site σ L) (i : ℕ) (l : L) (t : σ) : (s.goto i l t).shared = t := rfl

theorem call_goto {s : Site σ L} {i j : ℕ} {l m : L} {t : σ}
    (h : (s.goto i l t).call j = some m) : (j = i ∧ l = m) ∨ (j ≠ i ∧ s.call j = some m) := by
  by_cases hj : j = i
  · subst hj
    rw [goto_call, Function.update_self, Option.some.injEq] at h
    exact Or.inl ⟨rfl, h⟩
  · rw [goto_call, Function.update_of_ne hj] at h
    exact Or.inr ⟨hj, h⟩

variable {P : Program σ Q L W} {s s' : Site σ L} {e : Event Q W}

theorem exec_start {i : ℕ} {q : Q} :
    exec P s (.start i q) = some s' ↔ s.call i = none ∧ s.goto i (P.entry q) s.shared = s' := by
  rw [exec]
  split
  · rename_i h
    rw [Option.some.injEq, h]
    simp only [true_and]
  · rename_i l h
    rw [h]
    simp only [reduceCtorEq, false_and]

theorem exec_step {i : ℕ} {w : W} :
    exec P s (.step i w) = some s' ↔ ∃ l l' t, s.call i = some l ∧
      P.next l w s.shared = some (l', t) ∧ s.goto i l' t = s' := by
  rw [exec, Option.bind_eq_some_iff]
  constructor
  · rintro ⟨l, hl, hm⟩
    obtain ⟨⟨l', t⟩, hn, rfl⟩ := Option.map_eq_some_iff.mp hm
    exact ⟨l, l', t, hl, hn, rfl⟩
  · rintro ⟨l, l', t, hl, hn, rfl⟩
    exact ⟨l, hl, Option.map_eq_some_iff.mpr ⟨_, hn, rfl⟩⟩

def Event.caller : Event Q W → ℕ
  | .start i _ => i
  | .step i _ => i

/-- Nothing is called beyond the first `n` calls. -/
def Among (n : ℕ) (s : Site σ L) : Prop := ∀ j, n ≤ j → s.call j = none

theorem among_idle {n : ℕ} {t : σ} : Among n (Site.idle t : Site σ L) := fun _ _ => rfl

theorem Among.exec {n : ℕ} (h : Among n s) (hn : e.caller < n) (he : exec P s e = some s') :
    Among n s' := by
  have hgoto (i : ℕ) (l : L) (t : σ) (hi : i < n) : Among n (s.goto i l t) := by
    intro j hj
    rw [goto_call, Function.update_of_ne (by omega)]
    exact h j hj
  cases e with
  | start i q =>
    obtain ⟨-, rfl⟩ := exec_start.mp he
    exact hgoto i _ _ hn
  | step i w =>
    obtain ⟨l, l', t, -, -, rfl⟩ := exec_step.mp he
    exact hgoto i _ _ hn

theorem Among.run {n : ℕ} (h : Among n s) {es : List (Event Q W)} (hn : ∀ e ∈ es, e.caller < n)
    (hrun : run (SharedCalls.exec P) s es = some s') : Among n s' := by
  have hok : Along (SharedCalls.exec P) (fun _ e => e.caller < n) s es := along_of_mem hn s
  exact run_invariant (fun _ _ _ hs hlt he => hs.exec hlt he) h hok hrun

/-- Of finitely many calls, each is looked at. -/
theorem Among.forall {n : ℕ} (h : Among n s) {test : ℕ → L → Bool}
    (htest : ((List.range n).all fun j => (s.call j).all (test j)) = true) {j : ℕ} {m : L}
    (hm : s.call j = some m) : test j m = true := by
  have hj : j < n := by
    by_contra hj
    rw [h j (by omega)] at hm
    cases hm
  have hall := List.all_eq_true.mp htest j (List.mem_range.mpr hj)
  rw [hm] at hall
  exact hall

/-- A test that admits the first `n` calls only may rely on them. -/
theorem along_of_among {n : ℕ} {ok : Site σ L → Event Q W → Prop}
    {test : Site σ L → Event Q W → Bool} (hcaller : ∀ s e, test s e = true → e.caller < n)
    (htest : ∀ s e, Among n s → test s e = true → ok s e) {t : σ} {es : List (Event Q W)}
    (h : checkAlong (SharedCalls.exec P) test (Site.idle t) es = true) :
    Along (SharedCalls.exec P) ok (Site.idle t) es := by
  refine along_of_check_invariant ?_ htest among_idle h
  intro s e s' hs ht he
  exact hs.exec (hcaller s e ht) he

/-- The shared state is good, and so is what each call knows of it. -/
structure Holds (I : σ → Prop) (J : σ → L → Prop) (s : Site σ L) : Prop where
  shared : I s.shared
  call : ∀ i l, s.call i = some l → J s.shared l

theorem holds_idle {I : σ → Prop} {J : σ → L → Prop} {t : σ} (h : I t) :
    Holds I J (Site.idle t) := ⟨h, fun _ _ hl => nomatch hl⟩

section Rules

variable {I : σ → Prop} {J : σ → L → Prop}

/-- The rule of interleaving: what a call knows when it enters, what its own statement gives it,
and what the statement of another leaves to it. -/
theorem Holds.exec (h : Holds I J s) (he : exec P s e = some s')
    (hentry : ∀ i q, e = .start i q → J s.shared (P.entry q))
    (hown : ∀ i w l l' t, e = .step i w → s.call i = some l →
      P.next l w s.shared = some (l', t) → I t ∧ J t l')
    (hothers : ∀ i w l l' t, e = .step i w → s.call i = some l →
      P.next l w s.shared = some (l', t) → ∀ j m, j ≠ i → s.call j = some m → J t m) :
    Holds I J s' := by
  cases e with
  | start i q =>
    obtain ⟨-, rfl⟩ := exec_start.mp he
    refine ⟨h.shared, fun j m hm => ?_⟩
    rcases call_goto hm with ⟨-, rfl⟩ | ⟨-, hm⟩
    · exact hentry i q rfl
    · exact h.call j m hm
  | step i w =>
    obtain ⟨l, l', t, hl, hn, rfl⟩ := exec_step.mp he
    refine ⟨(hown i w l l' t rfl hl hn).1, fun j m hm => ?_⟩
    rcases call_goto hm with ⟨-, rfl⟩ | ⟨hj, hm⟩
    · exact (hown i w l l' t rfl hl hn).2
    · exact hothers i w l l' t rfl hl hn j m hj hm

/-- No two calls stand at locations that exclude each other. -/
def Apart (R : L → L → Prop) (s : Site σ L) : Prop :=
  ∀ i j l m, i ≠ j → s.call i = some l → s.call j = some m → ¬R l m

theorem apart_idle {R : L → L → Prop} {t : σ} : Apart R (Site.idle t) :=
  fun _ _ _ _ _ hl => nomatch hl

/-- A call that moves to a location needs to be apart from the others there only. -/
theorem Apart.exec {R : L → L → Prop} (hsymm : ∀ l m, R l m → R m l) (h : Apart R s)
    (he : exec P s e = some s')
    (hentry : ∀ i q, e = .start i q → ∀ j m, j ≠ i → s.call j = some m → ¬R (P.entry q) m)
    (hown : ∀ i w l l' t, e = .step i w → s.call i = some l →
      P.next l w s.shared = some (l', t) → ∀ j m, j ≠ i → s.call j = some m → ¬R l' m) :
    Apart R s' := by
  -- the call that moved is one of the two, or neither
  have hgoto (i : ℕ) (l : L) (t : σ) (hl : ∀ j m, j ≠ i → s.call j = some m → ¬R l m) :
      Apart R (s.goto i l t) := by
    intro j k m n hjk hm hn
    rcases call_goto hm with ⟨hj, rfl⟩ | ⟨hj, hm⟩
    · rcases call_goto hn with ⟨hk, -⟩ | ⟨hk, hn⟩
      · exact absurd (hj.trans hk.symm) hjk
      · exact hl k n hk hn
    · rcases call_goto hn with ⟨hk, rfl⟩ | ⟨hk, hn⟩
      · exact fun hr => hl j m hj hm (hsymm _ _ hr)
      · exact h j k m n hjk hm hn
  cases e with
  | start i q =>
    obtain ⟨-, rfl⟩ := exec_start.mp he
    exact hgoto i _ _ (hentry i q rfl)
  | step i w =>
    obtain ⟨l, l', t, hl, hn, rfl⟩ := exec_step.mp he
    exact hgoto i _ _ (hown i w l l' t rfl hl hn)

end Rules

end SharedCalls
