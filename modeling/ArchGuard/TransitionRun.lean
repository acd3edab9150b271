import Mathlib.Data.Option.Basic

/-! Runs of a partial step function: a state, an event, and the next state when
the event is enabled. -/
namespace TransitionRun

variable {σ ε : Type*} (exec : σ → ε → Option σ)

def run : σ → List ε → Option σ
  | s, [] => some s
  | s, e :: es => (exec s e).bind fun s' => run s' es

/-- Every event of the run meets `ok` in the state in which it fires. -/
def Along (ok : σ → ε → Prop) : σ → List ε → Prop
  | _, [] => True
  | s, e :: es => ok s e ∧ ∀ s', exec s e = some s' → Along ok s' es

variable {exec}

theorem run_cons_eq_some {s s'' : σ} {e : ε} {es : List ε} :
    run exec s (e :: es) = some s'' ↔ ∃ s', exec s e = some s' ∧ run exec s' es = some s'' := by
  simp only [run, Option.bind_eq_some_iff]

theorem run_append {s s'' : σ} {es fs : List ε} :
    run exec s (es ++ fs) = some s'' ↔
      ∃ s', run exec s es = some s' ∧ run exec s' fs = some s'' := by
  induction es generalizing s with
  | nil => simp only [List.nil_append, run, Option.some.injEq, exists_eq_left']
  | cons e es ih =>
    simp only [List.cons_append, run_cons_eq_some, ih]
    constructor
    · rintro ⟨t, he, u, hu, hf⟩
      exact ⟨u, ⟨t, he, hu⟩, hf⟩
    · rintro ⟨u, ⟨t, he, hu⟩, hf⟩
      exact ⟨t, he, u, hu, hf⟩

theorem run_append_eq {s s' : σ} {es fs : List ε} (h : run exec s es = some s') :
    run exec s (es ++ fs) = run exec s' fs := by
  ext t
  simp only [run_append, h, Option.some.injEq, exists_eq_left']

theorem along_append {ok : σ → ε → Prop} {s : σ} {es fs : List ε} :
    Along exec ok s (es ++ fs) ↔
      Along exec ok s es ∧ ∀ s', run exec s es = some s' → Along exec ok s' fs := by
  induction es generalizing s with
  | nil => simp only [List.nil_append, Along, run, Option.some.injEq, forall_eq', true_and]
  | cons e es ih =>
    simp only [List.cons_append, Along, ih, run_cons_eq_some]
    constructor
    · rintro ⟨hok, h⟩
      exact ⟨⟨hok, fun t ht => (h t ht).1⟩, fun u ⟨t, ht, hu⟩ => (h t ht).2 u hu⟩
    · rintro ⟨⟨hok, h⟩, h'⟩
      exact ⟨hok, fun t ht => ⟨h t ht, fun u hu => h' u ⟨t, ht, hu⟩⟩⟩

/-- `Along` by evaluation, for a condition that a boolean test implies. -/
def checkAlong (exec : σ → ε → Option σ) (test : σ → ε → Bool) : σ → List ε → Bool
  | _, [] => true
  | s, e :: es => test s e && (exec s e).all fun s' => checkAlong exec test s' es

/-- The test may rely on what the tested steps keep. -/
theorem along_of_check_invariant {ok : σ → ε → Prop} {I : σ → Prop} {test : σ → ε → Bool}
    (hstep : ∀ s e s', I s → test s e = true → exec s e = some s' → I s')
    (htest : ∀ s e, I s → test s e = true → ok s e) {s : σ} {es : List ε} (hs : I s)
    (h : checkAlong exec test s es = true) : Along exec ok s es := by
  induction es generalizing s with
  | nil => trivial
  | cons e es ih =>
    simp only [checkAlong, Bool.and_eq_true, Option.all_eq_true] at h
    exact ⟨htest s e hs h.1, fun s' hs' => ih (hstep s e s' hs h.1 hs') (h.2 s' hs')⟩

theorem along_of_check {ok : σ → ε → Prop} {test : σ → ε → Bool}
    (htest : ∀ s e, test s e = true → ok s e) {s : σ} {es : List ε}
    (h : checkAlong exec test s es = true) : Along exec ok s es :=
  along_of_check_invariant (I := fun _ => True) (fun _ _ _ _ _ _ => trivial)
    (fun s e _ => htest s e) trivial h

theorem along_of_forall {ok : σ → ε → Prop} (h : ∀ s e, ok s e) (s : σ) (es : List ε) :
    Along exec ok s es := by
  induction es generalizing s with
  | nil => trivial
  | cons e es ih => exact ⟨h s e, fun s' _ => ih s'⟩

theorem along_of_mem {A : ε → Prop} {es : List ε} (h : ∀ e ∈ es, A e) (s : σ) :
    Along exec (fun _ e => A e) s es := by
  induction es generalizing s with
  | nil => trivial
  | cons e es ih =>
    exact ⟨h e List.mem_cons_self, fun s' _ => ih (fun e' he' => h e' (List.mem_cons_of_mem e he')) s'⟩

/-- The invariant rule: what every enabled, admissible step keeps, every
admissible run keeps. -/
theorem run_invariant {ok : σ → ε → Prop} {I : σ → Prop}
    (hstep : ∀ s e s', I s → ok s e → exec s e = some s' → I s')
    {s s' : σ} {es : List ε} (hs : I s) (hok : Along exec ok s es)
    (hrun : run exec s es = some s') : I s' := by
  induction es generalizing s with
  | nil =>
    simp only [run, Option.some.injEq] at hrun
    exact hrun ▸ hs
  | cons e es ih =>
    obtain ⟨t, he, ht⟩ := run_cons_eq_some.mp hrun
    exact ih (hstep s e t hs hok.1 he) (hok.2 t he) ht

/-- The same for what every enabled step keeps. -/
theorem run_always {I : σ → Prop} (hstep : ∀ s e s', I s → exec s e = some s' → I s')
    {s s' : σ} {es : List ε} (hs : I s) (hrun : run exec s es = some s') : I s' := by
  have hok : Along exec (fun _ _ => True) s es := along_of_forall (fun _ _ => trivial) s es
  exact run_invariant (fun t e t' ht _ => hstep t e t' ht) hs hok hrun

theorem along_and {ok ok' : σ → ε → Prop} {s : σ} {es : List ε} (h : Along exec ok s es)
    (h' : Along exec ok' s es) : Along exec (fun s e => ok s e ∧ ok' s e) s es := by
  induction es generalizing s with
  | nil => trivial
  | cons e es ih => exact ⟨⟨h.1, h'.1⟩, fun t ht => ih (h.2 t ht) (h'.2 t ht)⟩

/-- What every admissible step of an invariant state meets, every admissible run meets. -/
theorem along_imp {ok ok' : σ → ε → Prop} {I : σ → Prop}
    (hstep : ∀ s e s', I s → ok s e → exec s e = some s' → I s')
    (himp : ∀ s e, I s → ok s e → ok' s e) {s : σ} {es : List ε} (hs : I s)
    (h : Along exec ok s es) : Along exec ok' s es := by
  induction es generalizing s with
  | nil => trivial
  | cons e es ih => exact ⟨himp s e hs h.1, fun s' he => ih (hstep s e s' hs h.1 he) (h.2 s' he)⟩

/-- What a run emits: `out` of each event, in the state in which it fires. -/
def trace {α : Type*} (exec : σ → ε → Option σ) (out : σ → ε → Option α) : σ → List ε → List α
  | _, [] => []
  | s, e :: es => (out s e).toList ++ match exec s e with
    | some s' => trace exec out s' es
    | none => []

/-- The invariant rule for a property of the state and of what was emitted on the way. -/
theorem run_trace_invariant {α : Type*} {out : σ → ε → Option α} {ok : σ → ε → Prop}
    {I : List α → σ → Prop}
    (hstep : ∀ os s e s', I os s → ok s e → exec s e = some s' → I (os ++ (out s e).toList) s')
    {os : List α} {s s' : σ} {es : List ε} (hs : I os s) (hok : Along exec ok s es)
    (hrun : run exec s es = some s') : I (os ++ trace exec out s es) s' := by
  induction es generalizing os s with
  | nil =>
    simp only [run, Option.some.injEq] at hrun
    simpa only [trace, List.append_nil] using hrun ▸ hs
  | cons e es ih =>
    obtain ⟨t, he, ht⟩ := run_cons_eq_some.mp hrun
    have hI := ih (hstep os s e t hs hok.1 he) (hok.2 t he) ht
    simpa only [trace, he, List.append_assoc] using hI

theorem trace_always {α : Type*} {out : σ → ε → Option α} {I : List α → σ → Prop}
    (hstep : ∀ os s e s', I os s → exec s e = some s' → I (os ++ (out s e).toList) s')
    {os : List α} {s s' : σ} {es : List ε} (hs : I os s) (hrun : run exec s es = some s') :
    I (os ++ trace exec out s es) s' := by
  have hok : Along exec (fun _ _ => True) s es := along_of_forall (fun _ _ => trivial) s es
  exact run_trace_invariant (fun os t e t' ht _ => hstep os t e t' ht) hs hok hrun

/-- Where each step of a run keeps `I` exactly when it is admissible, the run stays in `I`
exactly when it is admissible; `J` is what its admissible steps keep besides. -/
theorem stays_iff_along_of_run {ok : σ → ε → Prop} {I J : σ → Prop} {A : ε → Prop}
    (hkeep : ∀ s e s', A e → J s → ok s e → exec s e = some s' → J s')
    (hstep : ∀ s e s', J s → I s → exec s e = some s' → (I s' ↔ ok s e)) {s t : σ} {es : List ε}
    (hes : ∀ e ∈ es, A e) (hJ : J s) (hs : I s) (hrun : run exec s es = some t) :
    (∀ pre post s', es = pre ++ post → run exec s pre = some s' → I s') ↔ Along exec ok s es := by
  induction es generalizing s with
  | nil =>
    refine ⟨fun _ => trivial, fun _ pre post s' he hpre => ?_⟩
    obtain ⟨rfl, -⟩ := List.append_eq_nil_iff.mp he.symm
    exact Option.some.inj hpre ▸ hs
  | cons e es ih =>
    obtain ⟨u, hu, hrest⟩ := run_cons_eq_some.mp hrun
    have ih' := fun hok hI => ih (fun e' he' => hes e' (List.mem_cons_of_mem e he'))
      (hkeep s e u (hes e List.mem_cons_self) hJ hok hu) hI hrest
    constructor
    · intro h
      have hcons (pre : List ε) (s' : σ) (hpre : run exec u pre = some s') :
          run exec s (e :: pre) = some s' := run_cons_eq_some.mpr ⟨u, hu, hpre⟩
      have hI : I u := h [e] es u rfl (hcons [] u rfl)
      have hok := (hstep s e u hJ hs hu).mp hI
      refine ⟨hok, fun u' hu' => ?_⟩
      -- the step function is deterministic
      obtain rfl := Option.some.inj (hu.symm.trans hu')
      apply (ih' hok hI).mp
      intro pre post s' he hpre
      exact h (e :: pre) post s' (by rw [he, List.cons_append]) (hcons pre s' hpre)
    · intro ⟨hok, halong⟩ pre post s' he hpre
      cases pre with
      | nil => exact Option.some.inj hpre ▸ hs
      | cons e' pre =>
        obtain ⟨rfl, rfl⟩ := List.cons.inj he
        obtain ⟨u', hu', hpre⟩ := run_cons_eq_some.mp hpre
        obtain rfl := Option.some.inj (hu.symm.trans hu')
        have hI : I u := (hstep s e u hJ hs hu).mpr hok
        exact (ih' hok hI).mpr (halong u hu) pre post s' rfl hpre

theorem run_of_total (htotal : ∀ s e, (exec s e).isSome) (s : σ) (es : List ε) :
    ∃ t, run exec s es = some t := by
  induction es generalizing s with
  | nil => exact ⟨s, rfl⟩
  | cons e es ih =>
    obtain ⟨u, hu⟩ := Option.isSome_iff_exists.mp (htotal s e)
    obtain ⟨t, ht⟩ := ih u
    exact ⟨t, run_cons_eq_some.mpr ⟨u, hu, ht⟩⟩

/-- The same where every event is enabled. -/
theorem stays_iff_along {ok : σ → ε → Prop} {I : σ → Prop} (htotal : ∀ s e, (exec s e).isSome)
    (hstep : ∀ s e s', I s → exec s e = some s' → (I s' ↔ ok s e)) {s : σ} {es : List ε}
    (hs : I s) :
    (∀ pre post s', es = pre ++ post → run exec s pre = some s' → I s') ↔ Along exec ok s es := by
  obtain ⟨t, ht⟩ := run_of_total htotal s es
  exact stays_iff_along_of_run (J := fun _ => True) (A := fun _ => True) (fun _ _ _ _ _ _ _ => trivial)
    (fun s e s' _ => hstep s e s') (fun _ _ => trivial) trivial hs ht

/-- The same rule for a two-state property of the two ends of a run. -/
theorem run_relation {ok : σ → ε → Prop} {I : σ → Prop} {R : σ → σ → Prop}
    (hrefl : ∀ s, R s s) (htrans : ∀ s t u, R s t → R t u → R s u)
    (hstep : ∀ s e s', I s → ok s e → exec s e = some s' → I s' ∧ R s s')
    {s s' : σ} {es : List ε} (hs : I s) (hok : Along exec ok s es)
    (hrun : run exec s es = some s') : R s s' := by
  induction es generalizing s with
  | nil =>
    simp only [run, Option.some.injEq] at hrun
    exact hrun ▸ hrefl s
  | cons e es ih =>
    obtain ⟨t, he, ht⟩ := run_cons_eq_some.mp hrun
    obtain ⟨hI, hR⟩ := hstep s e t hs hok.1 he
    exact htrans s t s' hR (ih hI (hok.2 t he) ht)

theorem relation_always {R : σ → σ → Prop} (hrefl : ∀ s, R s s)
    (htrans : ∀ s t u, R s t → R t u → R s u) (hstep : ∀ s e s', exec s e = some s' → R s s')
    {s s' : σ} {es : List ε} (hrun : run exec s es = some s') : R s s' := by
  have hok : Along exec (fun _ _ => True) s es := along_of_forall (fun _ _ => trivial) s es
  have hkeep : ∀ t e t', True → True → exec t e = some t' → True ∧ R t t' :=
    fun t e t' _ _ he => ⟨trivial, hstep t e t' he⟩
  exact run_relation hrefl htrans hkeep trivial hok hrun

section Image

variable {τ : Type*} {exec' : τ → ε → Option τ} {f : σ → τ} {I : σ → Prop}

/-- A run, seen through a function of the state that the steps respect. -/
theorem run_image
    (hsim : ∀ s e s', I s → exec s e = some s' → I s' ∧ exec' (f s) e = some (f s'))
    {s s' : σ} {es : List ε} (hs : I s) (hrun : run exec s es = some s') :
    I s' ∧ run exec' (f s) es = some (f s') := by
  induction es generalizing s with
  | nil =>
    obtain rfl := Option.some.inj hrun
    exact ⟨hs, rfl⟩
  | cons e es ih =>
    obtain ⟨t, he, ht⟩ := run_cons_eq_some.mp hrun
    obtain ⟨hI, he'⟩ := hsim s e t hs he
    obtain ⟨hI', hrun'⟩ := ih hI ht
    exact ⟨hI', run_cons_eq_some.mpr ⟨f t, he', hrun'⟩⟩

theorem along_of_image {ok : σ → ε → Prop} {ok' : τ → ε → Prop}
    (hsim : ∀ s e s', I s → exec s e = some s' → I s' ∧ exec' (f s) e = some (f s'))
    (hok : ∀ s e, I s → ok' (f s) e → ok s e) {s : σ} {es : List ε} (hs : I s)
    (h : Along exec' ok' (f s) es) : Along exec ok s es := by
  induction es generalizing s with
  | nil => trivial
  | cons e es ih =>
    refine ⟨hok s e hs h.1, fun t ht => ?_⟩
    obtain ⟨hI, he'⟩ := hsim s e t hs ht
    exact ih hI (h.2 (f t) he')

end Image

end TransitionRun
