import Mathlib.Data.List.Basic
import Mathlib.Tactic

/-! A flag over a sequence of events: set when a condition is reached, and cleared by a reset. What
fires is what reaches the condition while the flag is down. -/
namespace Latches

variable {α : Type*} (mine : α → Prop) (resets reaches : List α → α → Prop)

/-- From the events `r` on, none of the events of `p` resets the flag. -/
def Unbroken (r p : List α) : Prop :=
  ∀ s f, r <+: s → s ++ [f] <+: p → mine f → ¬ resets s f

/-- The flag is up after the events `p`. -/
def Latched (p : List α) : Prop :=
  ∃ q a, q ++ [a] <+: p ∧ mine a ∧ reaches q a ∧ Unbroken mine resets (q ++ [a]) p

/-- The event `e` fires after the events `p`. -/
def Fires (p : List α) (e : α) : Prop :=
  reaches p e ∧ (resets p e ∨ ¬ Latched mine resets reaches p)

variable {mine resets reaches} {p q r os : List α} {a e : α}

theorem unbroken_snoc : Unbroken mine resets r (p ++ [e]) ↔
    Unbroken mine resets r p ∧ (r <+: p → mine e → ¬ resets p e) := by
  constructor
  · intro h
    refine ⟨?_, fun hr => h p e hr (List.prefix_refl _)⟩
    intro s f hr hs
    exact h s f hr (hs.trans (List.prefix_append p [e]))
  · rintro ⟨hp, he⟩ s f hr hs
    rcases List.prefix_concat_iff.mp hs with heq | hlt
    · obtain ⟨rfl, hf⟩ := List.append_inj' heq rfl
      obtain rfl := List.singleton_inj.mp hf
      exact he hr
    · exact hp s f hr hlt

theorem unbroken_refl : Unbroken mine resets r r := by
  intro s f hr hs
  have hlen := (hs.trans hr).length_le
  rw [List.length_append, List.length_singleton] at hlen
  omega

theorem latched_snoc : Latched mine resets reaches (p ++ [e]) ↔
    (mine e ∧ reaches p e) ∨ (Latched mine resets reaches p ∧ (mine e → ¬ resets p e)) := by
  constructor
  · rintro ⟨q, a, hstart, ha, hreach, hunbroken⟩
    rcases List.prefix_concat_iff.mp hstart with heq | hlt
    · obtain ⟨rfl, hf⟩ := List.append_inj' heq rfl
      obtain rfl := List.singleton_inj.mp hf
      exact Or.inl ⟨ha, hreach⟩
    · obtain ⟨hp, he⟩ := unbroken_snoc.mp hunbroken
      exact Or.inr ⟨⟨q, a, hlt, ha, hreach, hp⟩, he hlt⟩
  · rintro (⟨he, hreach⟩ | ⟨⟨q, a, hstart, ha, hreach, hunbroken⟩, he⟩)
    · exact ⟨p, e, List.prefix_refl _, he, hreach, unbroken_refl⟩
    · exact ⟨q, a, hstart.trans (List.prefix_append p [e]), ha, hreach,
        unbroken_snoc.mpr ⟨hunbroken, fun _ => he⟩⟩

theorem not_latched_nil : ¬ Latched mine resets reaches [] := by
  rintro ⟨q, a, hstart, -⟩
  exact List.append_ne_nil_of_right_ne_nil q (List.cons_ne_nil a []) (List.prefix_nil.mp hstart)

/-- A flag that is up was put up by an event that fired. -/
theorem exists_fires (h : Latched mine resets reaches p) :
    ∃ q a, q ++ [a] <+: p ∧ mine a ∧ Fires mine resets reaches q a ∧
      Unbroken mine resets (q ++ [a]) p := by
  induction p using List.reverseRecOn with
  | nil => exact absurd h not_latched_nil
  | append_singleton p e ih =>
    have hearlier (hlatched : Latched mine resets reaches p) (he : mine e → ¬ resets p e) :
        ∃ q a, q ++ [a] <+: p ++ [e] ∧ mine a ∧ Fires mine resets reaches q a ∧
          Unbroken mine resets (q ++ [a]) (p ++ [e]) := by
      obtain ⟨q, a, hstart, ha, hfires, hunbroken⟩ := ih hlatched
      exact ⟨q, a, hstart.trans (List.prefix_append p [e]), ha, hfires,
        unbroken_snoc.mpr ⟨hunbroken, fun _ => he⟩⟩
    rcases latched_snoc.mp h with ⟨he, hreach⟩ | ⟨hlatched, he⟩
    · by_cases hfires : Fires mine resets reaches p e
      · exact ⟨p, e, List.prefix_refl _, he, hfires, unbroken_refl⟩
      · have hdown : ¬ (resets p e ∨ ¬ Latched mine resets reaches p) :=
          fun hor => hfires ⟨hreach, hor⟩
        rw [not_or, not_not] at hdown
        exact hearlier hdown.2 fun _ => hdown.1
    · exact hearlier hlatched he

theorem not_fires_of_unbroken (ha : mine a) (hreach : reaches q a) (hstart : q ++ [a] <+: p)
    (he : mine e) (hunbroken : Unbroken mine resets (q ++ [a]) (p ++ [e])) :
    ¬ Fires mine resets reaches p e := by
  obtain ⟨hp, hlast⟩ := unbroken_snoc.mp hunbroken
  rintro ⟨-, hreset | hdown⟩
  · exact hlast hstart he hreset
  · exact hdown ⟨q, a, hstart, ha, hreach, hp⟩

theorem Unbroken.of_prefix (h : Unbroken mine resets r p) (hq : q <+: p) :
    Unbroken mine resets r q := by
  intro s f hr hs
  exact h s f hr (hs.trans hq)

section Windows

variable (mine resets reaches) (instant : α → ℤ) (window : ℤ)

/-- Whatever reaches the condition fires, unless something fired within the window before it. -/
def Prompt (os : List α) : Prop :=
  ∀ p e, p ++ [e] <+: os → mine e → reaches p e →
    (∀ q a, q ++ [a] <+: p → mine a → Fires mine resets reaches q a → instant a < instant e - window) →
      Fires mine resets reaches p e

/-- Without a reset in between, the condition is reached within one window only. -/
def Brief (os : List α) : Prop :=
  ∀ p e, p ++ [e] <+: os → ∀ q a, q ++ [a] <+: p → mine a → mine e → reaches q a → reaches p e →
    Unbroken mine resets (q ++ [a]) (p ++ [e]) → instant e ≤ instant a + window

variable {mine resets reaches instant window}

/-- Among events in the order of their instants, the flag hides something exactly when the
condition is reached again later than a window after it was first reached. -/
theorem prompt_iff_brief (hsorted : os.Pairwise fun a b => instant a ≤ instant b) :
    Prompt mine resets reaches instant window os ↔ Brief mine resets reaches instant window os := by
  constructor
  · intro hprompt p e hp q a hq ha he hqa hpe hunbroken
    by_contra hlate
    apply not_fires_of_unbroken ha hqa hq he hunbroken
    apply hprompt p e hp he hpe
    intro q' a' hq' ha' hfires
    have hpos : p <+: os := (List.prefix_append p [e]).trans hp
    rcases List.prefix_or_prefix_of_prefix hq' hq with hbefore | hafter
    · -- what fired no later than the first event lies outside the window as well
      rcases List.prefix_concat_iff.mp hbefore with heq | hlt
      · obtain ⟨-, hsame⟩ := List.append_inj' heq rfl
        rw [List.singleton_inj.mp hsame]
        lia
      · have hle : instant a' ≤ instant a := by
          have hpair := hsorted.sublist ((hq.trans hpos).sublist)
          rw [List.pairwise_append] at hpair
          exact hpair.2.2 a' (hlt.subset (List.mem_append_right _ (List.mem_singleton_self a')))
            a (List.mem_singleton_self a)
        lia
    · -- and afterwards nothing fires
      rcases List.prefix_concat_iff.mp hafter with heq | hlt
      · obtain ⟨-, hsame⟩ := List.append_inj' heq rfl
        rw [← List.singleton_inj.mp hsame]
        lia
      · refine absurd hfires (not_fires_of_unbroken ha hqa hlt ha' ?_)
        exact hunbroken.of_prefix (hq'.trans (List.prefix_append p [e]))
  · intro hbrief p e hp he hpe hquiet
    by_contra hsilent
    have hup : ¬ (resets p e ∨ ¬ Latched mine resets reaches p) := fun hor => hsilent ⟨hpe, hor⟩
    rw [not_or, not_not] at hup
    obtain ⟨q, a, hq, ha, hfires, hunbroken⟩ := exists_fires hup.2
    have hlast := hquiet q a hq ha hfires
    have hwithin := hbrief p e hp q a hq ha he hfires.1 hpe
      (unbroken_snoc.mpr ⟨hunbroken, fun _ _ => hup.1⟩)
    lia

end Windows

end Latches
