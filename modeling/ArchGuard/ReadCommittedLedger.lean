import ArchGuard.ReadCommittedFrame

/-! A ledger beside a run: what each open transaction has noted so far, and the notes of those
that committed, in the order of their commits. -/
namespace ReadCommitted
open TransitionRun

variable {K R L α : Type} {V : K → Type}

structure Ledger (α : Type) where
  work : ℕ → List α
  done : List α

def Ledger.blank : Ledger α := ⟨fun _ => [], []⟩

/-- The notes of transaction `i` are dropped. -/
def Ledger.drop (l : Ledger α) (i : ℕ) : Ledger α := ⟨Function.update l.work i [], l.done⟩

def Ledger.note (l : Ledger α) (i : ℕ) (notes : List α) : Ledger α :=
  ⟨Function.update l.work i (l.work i ++ notes), l.done⟩

def Ledger.settle (l : Ledger α) (i : ℕ) : Ledger α :=
  ⟨Function.update l.work i [], l.done ++ l.work i⟩

section Fields

variable (l : Ledger α) {i j : ℕ} (notes : List α)

@[simp] theorem Ledger.blank_work : (Ledger.blank : Ledger α).work i = [] := rfl
@[simp] theorem Ledger.blank_done : (Ledger.blank : Ledger α).done = [] := rfl
@[simp] theorem Ledger.drop_done : (l.drop i).done = l.done := rfl
@[simp] theorem Ledger.note_done : (l.note i notes).done = l.done := rfl
@[simp] theorem Ledger.settle_done : (l.settle i).done = l.done ++ l.work i := rfl
@[simp] theorem Ledger.drop_work_self : (l.drop i).work i = [] := Function.update_self ..
@[simp] theorem Ledger.settle_work_self : (l.settle i).work i = [] := Function.update_self ..

@[simp] theorem Ledger.note_work_self : (l.note i notes).work i = l.work i ++ notes :=
  Function.update_self ..

theorem Ledger.drop_work_of_ne (h : j ≠ i) : (l.drop i).work j = l.work j :=
  Function.update_of_ne h ..

theorem Ledger.note_work_of_ne (h : j ≠ i) : (l.note i notes).work j = l.work j :=
  Function.update_of_ne h ..

theorem Ledger.settle_work_of_ne (h : j ≠ i) : (l.settle i).work j = l.work j :=
  Function.update_of_ne h ..

end Fields

variable [DecidableEq K] (P : Program V R L) (record : L → List α)

/-- A commit settles the notes of its transaction, and whatever else ends one drops them. -/
def Ledger.act (l : Ledger α) (i : ℕ) (notes : List α) : Action V L → Ledger α
  | .commit _ => l.settle i
  | .rollback _ => l.drop i
  | .abort => l.drop i
  | .read _ => l.note i notes
  | .update .. => l.note i notes
  | .insert .. => l.note i notes

/-- A statement notes what `record` says of it. -/
def track (c : Cfg V L) (l : Ledger α) : Event R → Ledger α
  | .start i _ => l.drop i
  | .kill i => l.drop i
  | .step i =>
    match c.proc i with
    | none => l
    | some p => l.act i (record p) (P.next p)

def ledger : Cfg V L → Ledger α → List (Event R) → Ledger α
  | _, l, [] => l
  | c, l, e :: es =>
    match exec P c e with
    | none => l
    | some c' => ledger c' (track P record c l e) es

variable {P record}

/-- The invariant rule for the state and its ledger; the invariant may look at the events to
come. -/
theorem ledger_invariant {I : Cfg V L → Ledger α → List (Event R) → Prop}
    (hstep : ∀ c l e es c', I c l (e :: es) → exec P c e = some c' →
      I c' (track P record c l e) es)
    {c c' : Cfg V L} {l : Ledger α} {es : List (Event R)} (hI : I c l es)
    (hrun : run (exec P) c es = some c') : I c' (ledger P record c l es) [] := by
  induction es generalizing c l with
  | nil =>
    rw [← Option.some.inj hrun]
    exact hI
  | cons e es ih =>
    obtain ⟨d, hd, hrun⟩ := run_cons_eq_some.mp hrun
    simp only [ledger, hd]
    exact ih (hstep c l e es d hI hd) hrun

section Steps

variable {c c' : Cfg V L} {l : Ledger α} {e : Event R}

omit [DecidableEq K] in
theorem track_step {i : ℕ} {p : L} (hp : c.proc i = some p) :
    track P record c l (.step i) = l.act i (record p) (P.next p) := by
  simp only [track, hp]

theorem track_work_of_ne (h : exec P c e = some c') {j : ℕ} (hj : j ≠ e.actor) :
    (track P record c l e).work j = l.work j := by
  rcases exec_cases h with ⟨i, r, rfl, -, rfl⟩ | ⟨i, rfl, -, rfl⟩ | ⟨i, p, rfl, hp, -⟩
  · exact l.drop_work_of_ne hj
  · exact l.drop_work_of_ne hj
  · rw [track_step hp]
    cases P.next p with
    | commit n => exact l.settle_work_of_ne hj
    | rollback m => exact l.drop_work_of_ne hj
    | abort => exact l.drop_work_of_ne hj
    | read f => exact l.note_work_of_ne _ hj
    | update k a f => exact l.note_work_of_ne _ hj
    | insert k v a b => exact l.note_work_of_ne _ hj

theorem track_cases (record : L → List α) (l : Ledger α) (h : exec P c e = some c') :
    (track P record c l e).done = l.done ∧ c'.db.row = c.db.row ∨
      ∃ i p n, e = .step i ∧ c.proc i = some p ∧ P.next p = .commit n ∧ c' = c.commit i n ∧
        track P record c l e = l.settle i := by
  rcases exec_cases h with ⟨i, r, rfl, -, rfl⟩ | ⟨i, rfl, -, rfl⟩ | ⟨i, p, rfl, hp, ha⟩
  · exact Or.inl ⟨rfl, rfl⟩
  · exact Or.inl ⟨rfl, rfl⟩
  · rw [track_step hp]
    cases hn : P.next p with
    | commit n => exact Or.inr ⟨i, p, n, rfl, hp, hn, act_commit (hn ▸ ha), rfl⟩
    | read f => exact Or.inl ⟨rfl, act_read (hn ▸ ha) ▸ rfl⟩
    | rollback m => exact Or.inl ⟨rfl, act_rollback (hn ▸ ha) ▸ rfl⟩
    | abort => exact Or.inl ⟨rfl, act_abort (hn ▸ ha) ▸ rfl⟩
    | update k a f =>
      refine Or.inl ⟨rfl, ?_⟩
      rcases act_update (hn ▸ ha) with ⟨-, rfl⟩ | ⟨v, -, -, rfl⟩ <;> rfl
    | insert k v a b =>
      refine Or.inl ⟨rfl, ?_⟩
      rcases act_insert (hn ▸ ha) with ⟨-, -, rfl⟩ | ⟨-, rfl⟩ <;> rfl

theorem mem_track_done (h : exec P c e = some c') {x : α} (hx : x ∈ l.done) :
    x ∈ (track P record c l e).done := by
  rcases track_cases record l h with ⟨hdone, -⟩ | ⟨i, p, n, -, -, -, -, htrack⟩
  · rwa [hdone]
  · rw [htrack]
    exact List.mem_append_left _ hx

theorem mem_track_work (h : exec P c e = some c') {j : ℕ} {x : α}
    (hx : x ∈ (track P record c l e).work j) :
    x ∈ l.work j ∨ ∃ p, e = .step j ∧ c.proc j = some p ∧ x ∈ record p := by
  by_cases hj : j = e.actor
  swap
  · rw [track_work_of_ne h hj] at hx
    exact Or.inl hx
  have hdrop (hx : x ∈ (l.drop j).work j) : x ∈ l.work j := by
    rw [Ledger.drop_work_self] at hx
    exact absurd hx List.not_mem_nil
  rcases exec_cases h with ⟨i, r, rfl, -, rfl⟩ | ⟨i, rfl, -, rfl⟩ | ⟨i, p, rfl, hp, -⟩
  · subst hj
    exact Or.inl (hdrop hx)
  · subst hj
    exact Or.inl (hdrop hx)
  · change j = i at hj
    rw [← hj] at hp hx ⊢
    -- the notes are dropped at the end of the transaction, and kept and extended until then
    have hcases : x ∈ l.work j ∨ x ∈ record p := by
      rw [track_step hp] at hx
      have hnote (hx : x ∈ (l.note j (record p)).work j) : x ∈ l.work j ∨ x ∈ record p := by
        rw [Ledger.note_work_self] at hx
        exact List.mem_append.mp hx
      cases hn : P.next p with
      | commit n =>
        rw [hn] at hx
        change x ∈ (l.settle j).work j at hx
        rw [Ledger.settle_work_self] at hx
        exact absurd hx List.not_mem_nil
      | rollback m =>
        rw [hn] at hx
        exact Or.inl (hdrop hx)
      | abort =>
        rw [hn] at hx
        exact Or.inl (hdrop hx)
      | read f =>
        rw [hn] at hx
        exact hnote hx
      | update k a f =>
        rw [hn] at hx
        exact hnote hx
      | insert k v a b =>
        rw [hn] at hx
        exact hnote hx
    exact hcases.imp_right fun hr => ⟨p, rfl, hp, hr⟩

end Steps

def Action.ends : Action V L → Bool
  | .commit _ | .rollback _ | .abort => true
  | _ => false

theorem lock_of_not_writes {c c' : Cfg V L} {i : ℕ} {a : Action V L} {k : K}
    (h : c.act i a = some c') (ha : a.ends = false) (hw : ∀ r, ¬Writes c i a k r) :
    c'.lock k = c.lock k := by
  cases a with
  | read f => rw [act_read h, Cfg.goto_lock]
  | update k' a f =>
    rcases act_update h with ⟨-, rfl⟩ | ⟨v, hv, -, rfl⟩
    · rfl
    · have hk : k ≠ k' := by
        rintro rfl
        exact hw _ (.update hv)
      rw [Cfg.goto_lock, Cfg.write_lock, Function.update_of_ne hk]
  | insert k' v a b =>
    rcases act_insert h with ⟨hv, -, rfl⟩ | ⟨-, rfl⟩
    · have hk : k ≠ k' := by
        rintro rfl
        exact hw _ (.insert hv)
      rw [Cfg.goto_lock, Cfg.write_lock, Function.update_of_ne hk]
    · rfl
  | commit n => cases ha
  | rollback m => cases ha
  | abort => cases ha

theorem row_of_not_ends {c c' : Cfg V L} {i : ℕ} {a : Action V L} (h : c.act i a = some c')
    (ha : a.ends = false) : c'.db.row = c.db.row := by
  cases a with
  | read f => rw [act_read h, Cfg.goto_db]
  | update k a f => rcases act_update h with ⟨-, rfl⟩ | ⟨v, -, -, rfl⟩ <;> rfl
  | insert k v a b => rcases act_insert h with ⟨-, -, rfl⟩ | ⟨-, rfl⟩ <;> rfl
  | commit n => cases ha
  | rollback m => cases ha
  | abort => cases ha

omit [DecidableEq K] in
theorem act_of_not_ends {l : Ledger α} {i : ℕ} {notes : List α} {a : Action V L}
    (ha : a.ends = false) : l.act i notes a = l.note i notes := by
  cases a with
  | commit n => cases ha
  | rollback m => cases ha
  | abort => cases ha
  | _ => rfl

end ReadCommitted
