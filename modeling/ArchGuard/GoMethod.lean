import ArchGuard.TransitionRun
import Mathlib.Tactic.Common

/-! Methods on a pointer receiver: statements that change the receiver in place and may fail
between two changes. -/
namespace GoMethod
open TransitionRun

/-- A method that returns a value or an error; either way the receiver keeps what was changed. -/
abbrev Method (σ ε α : Type) := ExceptT ε (StateM σ) α

variable {σ ε α β : Type}

namespace Method

/-- What the call returns, and the receiver after it. -/
def call (m : Method σ ε α) (s : σ) : Except ε α × σ := m.run.run s

/-- A guard clause: the method returns the error where the test holds. -/
def refuseIf (p : Prop) [Decidable p] (err : ε) : Method σ ε Unit :=
  if p then throw err else pure ()

section Statements

variable (s : σ)

@[simp] theorem call_pure (a : α) : (pure a : Method σ ε α).call s = (.ok a, s) := rfl

@[simp] theorem call_get : (get : Method σ ε σ).call s = (.ok s, s) := rfl

@[simp] theorem call_modify (f : σ → σ) : (modify f : Method σ ε PUnit).call s = (.ok (), f s) :=
  rfl

@[simp] theorem call_throw (err : ε) : (throw err : Method σ ε α).call s = (.error err, s) := rfl

/-- A sequence goes on with the receiver that the first part leaves, unless that failed. -/
theorem call_bind (m : Method σ ε α) (f : α → Method σ ε β) : (m >>= f).call s =
    match m.call s with
    | (.ok a, s') => (f a).call s'
    | (.error err, s') => (.error err, s') := by
  simp only [call, ExceptT.run_bind, StateT.run_bind]
  rcases m.run.run s with ⟨⟨err⟩ | ⟨a⟩, s'⟩ <;> rfl

@[simp] theorem call_tryCatch (m : Method σ ε α) (h : ε → Method σ ε α) :
    (tryCatch m h).call s =
      match m.call s with
      | (.ok a, s') => (.ok a, s')
      | (.error err, s') => (h err).call s' := by
  simp only [call, tryCatch, tryCatchThe, MonadExceptOf.tryCatch, ExceptT.tryCatch, ExceptT.run,
    ExceptT.mk, StateT.run_bind]
  rcases StateT.run m s with ⟨⟨err⟩ | ⟨a⟩, s'⟩ <;> rfl

@[simp] theorem call_ite (p : Prop) [Decidable p] (m n : Method σ ε α) :
    (if p then m else n).call s = if p then m.call s else n.call s := by
  split <;> rfl

@[simp] theorem call_get_bind (f : σ → Method σ ε β) : (get >>= f).call s = (f s).call s := by
  rw [call_bind, call_get]

@[simp] theorem call_modify_bind (g : σ → σ) (f : PUnit → Method σ ε β) :
    (modify g >>= f).call s = (f ⟨⟩).call (g s) := by
  rw [call_bind, call_modify]

@[simp] theorem call_refuseIf_bind (p : Prop) [Decidable p] (err : ε)
    (f : Unit → Method σ ε β) : (refuseIf p err >>= f).call s =
      if p then (.error err, s) else (f ()).call s := by
  rw [call_bind, refuseIf, call_ite]
  by_cases hp : p
  · rw [if_pos hp, if_pos hp]
    rfl
  · rw [if_neg hp, if_neg hp]
    rfl

theorem bind_ok {m : Method σ ε α} {f : α → Method σ ε β} {b : β} {s'' : σ} :
    (m >>= f).call s = (.ok b, s'') ↔
      ∃ a s', m.call s = (.ok a, s') ∧ (f a).call s' = (.ok b, s'') := by
  rw [call_bind]
  rcases m.call s with ⟨⟨err⟩ | ⟨a⟩, s'⟩
  · constructor
    · intro h
      cases h
    · rintro ⟨a, t, h, -⟩
      cases h
  · constructor
    · exact fun h => ⟨a, s', rfl, h⟩
    · rintro ⟨a', t, h, hf⟩
      cases h
      exact hf

theorem refuseIf_bind_ok {p : Prop} [Decidable p] {err : ε} {f : Unit → Method σ ε β} {b : β}
    {s' : σ} : (refuseIf p err >>= f).call s = (.ok b, s') ↔ ¬p ∧ (f ()).call s = (.ok b, s') := by
  rw [call_refuseIf_bind]
  by_cases hp : p
  · rw [if_pos hp]
    refine ⟨fun h => ?_, fun h => absurd hp h.1⟩
    cases h
  · rw [if_neg hp]
    exact ⟨fun h => ⟨hp, h⟩, fun h => h.2⟩

theorem pure_ok {a b : α} {s' : σ} :
    (pure a : Method σ ε α).call s = (.ok b, s') ↔ a = b ∧ s = s' := by
  rw [call_pure, Prod.mk.injEq, Except.ok.injEq]

end Statements

/-- From every receiver the method returns a value that meets `P`. -/
def Returns (m : Method σ ε α) (P : α → Prop) : Prop :=
  ∀ s, ∃ a s', m.call s = (.ok a, s') ∧ P a

section Returns

variable {m : Method σ ε α} {f : α → Method σ ε β} {P : α → Prop} {Q : β → Prop}

theorem returns_pure {a : α} (h : P a) : (pure a : Method σ ε α).Returns P :=
  fun s => ⟨a, s, rfl, h⟩

theorem returns_modify (g : σ → σ) : (modify g : Method σ ε PUnit).Returns fun _ => True :=
  fun s => ⟨⟨⟩, g s, rfl, trivial⟩

theorem returns_refuseIf {p : Prop} [Decidable p] {err : ε} (h : ¬p) :
    (refuseIf p err : Method σ ε Unit).Returns fun _ => True := by
  intro s
  rw [refuseIf, if_neg h]
  exact ⟨(), s, rfl, trivial⟩

theorem Returns.bind (hm : m.Returns P) (hf : ∀ a, P a → (f a).Returns Q) :
    (m >>= f).Returns Q := by
  intro s
  obtain ⟨a, s', hcall, ha⟩ := hm s
  obtain ⟨b, s'', hcall', hb⟩ := hf a ha s'
  exact ⟨b, s'', (bind_ok s).mpr ⟨a, s', hcall, hcall'⟩, hb⟩

theorem returns_get_bind {f : σ → Method σ ε β} (hf : ∀ s, (f s).Returns Q) :
    (get >>= f).Returns Q := by
  intro s
  rw [call_get_bind]
  exact hf s s

end Returns

/-- A method on a part of the receiver, with its errors as the errors of the whole. -/
def within {τ δ : Type} (view : σ → τ) (put : σ → τ → σ) (wrap : δ → ε) (m : Method τ δ α) :
    Method σ ε α :=
  fun s => match m.call (view s) with
    | (.ok a, t) => (.ok a, put s t)
    | (.error err, t) => (.error (wrap err), put s t)

section Within

variable {τ δ : Type} {view : σ → τ} {put : σ → τ → σ} {wrap : δ → ε} {m : Method τ δ α}

theorem within_call (s : σ) : (within view put wrap m).call s =
    match m.call (view s) with
    | (.ok a, t) => (.ok a, put s t)
    | (.error err, t) => (.error (wrap err), put s t) := rfl

theorem within_ok {s s' : σ} {a : α} : (within view put wrap m).call s = (.ok a, s') ↔
    ∃ t, m.call (view s) = (.ok a, t) ∧ put s t = s' := by
  rw [within_call]
  rcases m.call (view s) with ⟨⟨err⟩ | ⟨b⟩, t⟩
  · simp only [Prod.mk.injEq, reduceCtorEq, false_and, exists_false]
  · simp only [Prod.mk.injEq, Except.ok.injEq, and_assoc]
    constructor
    · rintro ⟨rfl, rfl⟩
      exact ⟨t, rfl, rfl, rfl⟩
    · rintro ⟨t', rfl, rfl, rfl⟩
      exact ⟨rfl, rfl⟩

theorem Returns.within {P : α → Prop} (h : m.Returns P) :
    (Method.within view put wrap m).Returns P := by
  intro s
  obtain ⟨a, t, hcall, ha⟩ := h (view s)
  exact ⟨a, put s t, within_ok.mpr ⟨t, hcall, rfl⟩, ha⟩

end Within

/-- One call for each element, until one fails. -/
def forEach (f : α → Method σ ε Unit) : List α → Method σ ε Unit
  | [] => pure ()
  | a :: as => do
    f a
    forEach f as

theorem forEach_append (f : α → Method σ ε Unit) (as bs : List α) :
    forEach f (as ++ bs) = forEach f as >>= fun _ => forEach f bs := by
  induction as with
  | nil => rw [List.nil_append, forEach, pure_bind]
  | cons a as ih => simp only [List.cons_append, forEach, ih, bind_assoc]

theorem forEach_map (f : β → Method σ ε Unit) (g : α → β) (as : List α) :
    forEach f (as.map g) = forEach (fun a => f (g a)) as := by
  induction as with
  | nil => rfl
  | cons a as ih => simp only [List.map_cons, forEach, ih]

/-- From the receivers that meet `I` the method ends in one that does, failing or not, and what
it returns meets `P`. -/
def Yields (m : Method σ ε α) (I : σ → Prop) (P : α → Prop) : Prop :=
  ∀ s, I s → I (m.call s).2 ∧ ∀ a, (m.call s).1 = .ok a → P a

section Yields

variable {m : Method σ ε α} {f : α → Method σ ε β} {I : σ → Prop} {P : α → Prop} {Q : β → Prop}

theorem yields_pure {a : α} (h : P a) : (pure a : Method σ ε α).Yields I P := by
  intro s hs
  refine ⟨hs, fun b hb => ?_⟩
  rw [call_pure] at hb
  exact Except.ok.inj hb ▸ h

theorem yields_throw {err : ε} : (throw err : Method σ ε α).Yields I P := by
  intro s hs
  refine ⟨hs, fun b hb => ?_⟩
  rw [call_throw] at hb
  cases hb

theorem yields_modify {g : σ → σ} (h : ∀ s, I s → I (g s)) :
    (modify g : Method σ ε PUnit).Yields I fun _ => True :=
  fun s hs => ⟨h s hs, fun _ _ => trivial⟩

theorem yields_refuseIf {p : Prop} [Decidable p] {err : ε} :
    (refuseIf p err : Method σ ε Unit).Yields I fun _ => ¬p := by
  rw [refuseIf]
  split_ifs with h
  · exact yields_throw
  · exact yields_pure h

theorem Yields.bind (hm : m.Yields I P) (hf : ∀ a, P a → (f a).Yields I Q) :
    (m >>= f).Yields I Q := by
  intro s hs
  obtain ⟨hI, hP⟩ := hm s hs
  rw [call_bind]
  rcases hcall : m.call s with ⟨⟨err⟩ | ⟨a⟩, s'⟩
  · rw [hcall] at hI
    exact ⟨hI, fun b hb => by cases hb⟩
  · rw [hcall] at hI hP
    exact hf a (hP a rfl) s' hI

/-- What follows may use what is read. -/
theorem yields_get_bind {f : σ → Method σ ε β} (hf : ∀ s, I s → (f s).Yields (fun t => I t) Q) :
    (get >>= f).Yields I Q := by
  intro s hs
  rw [call_get_bind]
  exact hf s hs s hs

theorem Yields.forEach {f : α → Method σ ε Unit} {as : List α}
    (h : ∀ a ∈ as, (f a).Yields I fun _ => True) : (forEach f as).Yields I fun _ => True := by
  induction as with
  | nil => exact yields_pure trivial
  | cons a as ih =>
    apply (h a List.mem_cons_self).bind
    intro _ _
    exact ih fun a' ha' => h a' (List.mem_cons_of_mem a ha')

theorem Yields.within {τ δ : Type} {view : σ → τ} {put : σ → τ → σ} {wrap : δ → ε}
    {m : Method τ δ α} (hI : ∀ s t, I s → I (put s t))
    (hP : ∀ t a t', m.call t = (.ok a, t') → P a) : (Method.within view put wrap m).Yields I P := by
  intro s hs
  rw [within_call]
  rcases hcall : m.call (view s) with ⟨⟨err⟩ | ⟨a⟩, t⟩
  · exact ⟨hI s t hs, fun b hb => by cases hb⟩
  · refine ⟨hI s t hs, fun b hb => ?_⟩
    obtain rfl := Except.ok.inj hb
    exact hP _ _ _ hcall

theorem bind_snd {s : σ} {J : σ → Prop} (hm : I (m.call s).2) (herr : ∀ t, I t → J t)
    (hf : ∀ a t, I t → J ((f a).call t).2) : J ((m >>= f).call s).2 := by
  rw [call_bind]
  rcases hcall : m.call s with ⟨⟨err⟩ | ⟨a⟩, t⟩
  · rw [hcall] at hm
    exact herr t hm
  · rw [hcall] at hm
    exact hf a t hm

theorem forEach_ok {f : α → Method σ ε Unit} {R : σ → σ → Prop} (hrefl : ∀ s, R s s)
    (htrans : ∀ s t u, R s t → R t u → R s u) (hf : ∀ a s s', (f a).call s = (.ok (), s') → R s s')
    {as : List α} {s s' : σ} (h : (forEach f as).call s = (.ok (), s')) :
    R s s' ∧ ∀ a ∈ as, ∃ t t', (f a).call t = (.ok (), t') ∧ R t' s' := by
  induction as generalizing s with
  | nil =>
    obtain ⟨-, rfl⟩ := (pure_ok s).mp h
    exact ⟨hrefl s, fun a ha => absurd ha List.not_mem_nil⟩
  | cons a as ih =>
    obtain ⟨_, t, hcall, h⟩ := (bind_ok s).mp h
    obtain ⟨hR, hall⟩ := ih h
    refine ⟨htrans s t s' (hf a s t hcall) hR, fun a' ha' => ?_⟩
    rcases List.mem_cons.mp ha' with rfl | ha'
    · exact ⟨s, t, hcall, hR⟩
    · exact hall a' ha'

end Yields

/-- A call that fails leaves the receiver as it was. -/
def Atomic (m : Method σ ε α) : Prop := ∀ s s' err, m.call s = (.error err, s') → s' = s

section Edges

variable {m : Method σ ε α} {a : α} {edge : σ → σ → Prop}
  (hcases : ∀ s, (∃ err, m.call s = (.error err, s)) ∨ ∃ s', m.call s = (.ok a, s') ∧ edge s s')

include hcases

/-- A method that fails in place or goes along an edge is atomic. -/
theorem atomic_of_cases : m.Atomic := by
  intro s s' err h
  rcases hcases s with ⟨err', h'⟩ | ⟨t, h', -⟩
  · rw [h] at h'
    exact (Prod.mk.inj h').2
  · rw [h] at h'
    cases (Prod.mk.inj h').1

theorem edge_of_cases {s s' : σ} {b : α} (h : m.call s = (.ok b, s')) : edge s s' := by
  rcases hcases s with ⟨err, h'⟩ | ⟨t, h', hedge⟩
  · rw [h] at h'
    cases (Prod.mk.inj h').1
  · rw [h] at h'
    exact (Prod.mk.inj h').2 ▸ hedge

end Edges

end Method

section Calls

variable {ι : Type} (method : ι → Method σ ε Unit)

/-- The receiver after one more call, whether it fails or not. -/
def perform (s : σ) (i : ι) : Option σ := some ((method i).call s).2

def succeeds (s : σ) (i : ι) : Option ι :=
  match ((method i).call s).1 with
  | .ok _ => some i
  | .error _ => none

/-- The calls of a run that did not fail, in order. -/
def succeeded (s : σ) (is : List ι) : List ι := trace (perform method) (succeeds method) s is

def after (s : σ) (is : List ι) : σ := is.foldl (fun s i => ((method i).call s).2) s

variable {method}

theorem run_perform (s : σ) (is : List ι) : run (perform method) s is = some (after method s is) := by
  induction is generalizing s with
  | nil => rfl
  | cons i is ih => exact run_cons_eq_some.mpr ⟨_, rfl, ih _⟩

theorem after_append (s : σ) (is js : List ι) :
    after method s (is ++ js) = after method (after method s is) js := List.foldl_append ..

/-- The rule for runs of atomic methods: a relation between what has succeeded and the receiver
that every successful call keeps holds after every run of calls. -/
theorem calls_invariant (hatomic : ∀ i, (method i).Atomic) {I : List ι → σ → Prop}
    (hstep : ∀ is s i s', I is s → (method i).call s = (.ok (), s') → I (is ++ [i]) s')
    {s : σ} (hs : I [] s) (is : List ι) : I (succeeded method s is) (after method s is) := by
  apply trace_always (I := I) ?_ hs (run_perform s is)
  intro done s i s' hI hexec
  have hs' : ((method i).call s).2 = s' := Option.some.inj hexec
  rw [succeeds]
  match hc : (method i).call s with
  | (.ok _, t) =>
    rw [hc] at hs'
    exact hstep done s i s' hI (by rw [hc, ← hs'])
  | (.error err, t) =>
    rw [hc] at hs'
    rw [← hs', hatomic i s t err hc]
    simpa using hI

theorem calls_keep {P : σ → Prop} (hstep : ∀ s i, P s → P ((method i).call s).2) {s : σ} (hs : P s)
    (is : List ι) : P (after method s is) := by
  induction is generalizing s with
  | nil => exact hs
  | cons i is ih => exact ih (hstep s i hs)

end Calls

end GoMethod
