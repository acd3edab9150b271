import Mathlib.Order.FixedPoints
import Mathlib.Data.List.Basic

/-! Depth-first search for the least fixed point of a monotone, finitary operator on
predicates. The search cuts a goal whose key is on its path and may run out of depth;
when it answers, the answer is the least fixed point. -/
namespace PathSearch
open OmegaCompletePartialOrder

variable {α κ : Type*} (f : (α → Prop) →o (α → Prop))

/-- A conclusion drawn from the union of a chain is drawn from one of its members. -/
def Finitary : Prop :=
  ∀ c : ℕ → α → Prop, Monotone c → ∀ a, f (fun x => ∃ n, c n x) a → ∃ n, f (c n) a

/-- What `n` rounds of the operator derive. -/
def stage (n : ℕ) : α → Prop := f^[n] ⊥

variable {f}

theorem stage_succ (n : ℕ) : stage f (n+1) = f (stage f n) := Function.iterate_succ_apply' ..

theorem stage_mono : Monotone (stage f) := f.monotone.monotone_iterate_of_le_map bot_le

theorem lfp_iff_stage (hf : Finitary f) (a : α) : f.lfp a ↔ ∃ n, stage f n a := by
  have hcont : ωScottContinuous f := by
    refine ωScottContinuous_iff_map_ωSup_of_orderHom.mpr fun c => le_antisymm ?_ ?_
    · intro a ha
      have hsup : ωSup c ≤ fun x => ∃ n, c n x := ωSup_le _ _ fun n x hx => ⟨n, hx⟩
      obtain ⟨n, hn⟩ := hf c c.monotone a (f.monotone hsup a ha)
      exact le_ωSup (c.map f) n a hn
    · exact ωSup_le _ _ fun n => f.monotone (le_ωSup c n)
  rw [fixedPoints.lfp_eq_sSup_iterate f hcont, iSup_apply, iSup_Prop_eq]
  rfl

/-- A derived goal has a first round that derives it. -/
theorem exists_rank {n : ℕ} {a : α} (h : stage f n a) : ∃ m < n, ¬stage f m a ∧ stage f (m+1) a := by
  induction n with
  | zero => exact h.elim
  | succ n ih =>
    by_cases hn : stage f n a
    · obtain ⟨m, hm, hr⟩ := ih hn
      exact ⟨m, hm.trans n.lt_succ_self, hr⟩
    · exact ⟨n, n.lt_succ_self, hn, h⟩

/-- One unfolding of a search: out of depth it does not answer; otherwise its answer
is sound and complete for whatever its recursive calls are. -/
structure Unfolds (f : (α → Prop) →o (α → Prop)) (key : α → κ)
    (search : ℕ → List κ → α → Option Bool) : Prop where
  depth : ∀ p a, search 0 p a = none
  sound : ∀ n p a (P : α → Prop), search (n+1) p a = some true →
    (∀ x, search n (key a :: p) x = some true → P x) → f P a
  complete : ∀ n p a b (P : α → Prop), key a ∉ p → search (n+1) p a = some b →
    (∀ x b, P x → search n (key a :: p) x = some b → b = true) → f P a → b = true
  inj : ∀ a b (P Q : α → Prop), f P a → f Q b → key a = key b → a = b

variable {key : α → κ} {search : ℕ → List κ → α → Option Bool}

theorem Unfolds.sound_lfp (h : Unfolds f key search) {n : ℕ} {p : List κ} {a : α}
    (hs : search n p a = some true) : f.lfp a := by
  induction n generalizing p a with
  | zero =>
    rw [h.depth] at hs
    cases hs
  | succ n ih =>
    have ha : f f.lfp a := h.sound n p a f.lfp hs fun x hx => ih hx
    rwa [f.map_lfp] at ha

/-- The cut loses nothing: along a derivation by rounds every goal is derived before
the goals of the path above it. -/
theorem Unfolds.complete_stage (h : Unfolds f key search) {n m : ℕ} {p : List κ} {a : α} {b : Bool}
    (ha : stage f m a) (hp : ∀ x, stage f m x → key x ∉ p) (hs : search n p a = some b) :
    b = true := by
  induction n generalizing m p a b with
  | zero =>
    rw [h.depth] at hs
    cases hs
  | succ n ih =>
    -- take the round `r` in which `a` is first derived: it is derived from goals of round `r`,
    -- and no goal of that round is `a` itself or on the path
    obtain ⟨r, hr, hnot, hrank⟩ := exists_rank ha
    rw [stage_succ] at hrank
    refine h.complete n p a b (stage f r) (hp a ha) hs (fun x b hx hb => ih hx ?_ hb) hrank
    intro y hy hmem
    rcases List.mem_cons.mp hmem with hkey | hmem
    · obtain ⟨r', -, -, hy'⟩ := exists_rank hy
      rw [stage_succ] at hy'
      exact hnot (h.inj y a _ _ hy' hrank hkey ▸ hy)
    · exact hp y (stage_mono hr.le y hy) hmem

theorem Unfolds.answer_iff (h : Unfolds f key search) (hf : Finitary f) {n : ℕ} {a : α} {b : Bool}
    (hs : search n [] a = some b) : b = true ↔ f.lfp a := by
  constructor
  · rintro rfl
    exact h.sound_lfp hs
  · intro ha
    obtain ⟨m, hm⟩ := (lfp_iff_stage hf a).mp ha
    exact h.complete_stage hm (fun x _ => List.not_mem_nil) hs

end PathSearch
