import Mathlib.Data.List.Perm.Subperm
import Mathlib.Tactic.Common

/-! Chains of parents: which nodes have a root above them, and why such a chain has no cycle. -/
namespace ParentChains

variable {κ : Type*} (parent : κ → Option (Option κ))

/-- A root stands `n` steps above the node; `parent` has nothing for what is no node. -/
def RootAt : ℕ → κ → Prop
  | 0, k => parent k = some none
  | n+1, k => ∃ p, parent k = some (some p) ∧ RootAt n p

def EndsAtRoot (k : κ) : Prop := ∃ n, RootAt parent n k

/-- The node `n` steps above. -/
def ancestor : ℕ → κ → Option κ
  | 0, k => some k
  | n+1, k => ((parent k).bind id).bind (ancestor n)

variable {parent} {k p : κ} {m n : ℕ}

theorem rootAt_unique (hm : RootAt parent m k) (hn : RootAt parent n k) : m = n := by
  induction m generalizing k n with
  | zero =>
    cases n with
    | zero => rfl
    | succ n =>
      obtain ⟨p, hp, -⟩ := hn
      cases hp.symm.trans hm
  | succ m ih =>
    obtain ⟨p, hp, hm⟩ := hm
    cases n with
    | zero => cases hp.symm.trans hn
    | succ n =>
      obtain ⟨q, hq, hn⟩ := hn
      obtain rfl := Option.some.inj (Option.some.inj (hp.symm.trans hq))
      have hmn : m = n := ih hm hn
      omega

theorem EndsAtRoot.of_parent (hp : parent k = some (some p)) (h : EndsAtRoot parent p) :
    EndsAtRoot parent k := by
  obtain ⟨n, hn⟩ := h
  exact ⟨n+1, p, hp, hn⟩

theorem endsAtRoot_iff_parent (hp : parent k = some (some p)) :
    EndsAtRoot parent k ↔ EndsAtRoot parent p := by
  refine ⟨?_, .of_parent hp⟩
  rintro ⟨n, hn⟩
  cases n with
  | zero => cases hp.symm.trans hn
  | succ n =>
    obtain ⟨q, hq, hrest⟩ := hn
    obtain rfl := Option.some.inj (Option.some.inj (hp.symm.trans hq))
    exact ⟨n, hrest⟩

theorem not_endsAtRoot (hk : parent k = none) : ¬EndsAtRoot parent k := by
  rintro ⟨n, hn⟩
  cases n with
  | zero => cases hk.symm.trans hn
  | succ n =>
    obtain ⟨p, hp, -⟩ := hn
    cases hk.symm.trans hp

/-- An ancestor stands as many steps nearer to the root. -/
theorem rootAt_ancestor (hn : RootAt parent n k) (hup : ancestor parent m k = some p) :
    ∃ i, RootAt parent i p ∧ i + m = n := by
  induction m generalizing k n with
  | zero =>
    obtain rfl := Option.some.inj hup
    exact ⟨n, hn, rfl⟩
  | succ m ih =>
    cases n with
    | zero =>
      rw [ancestor, show parent k = some none from hn] at hup
      cases hup
    | succ n =>
      obtain ⟨q, hq, hrest⟩ := hn
      rw [ancestor, hq] at hup
      obtain ⟨i, hi, hsum⟩ := ih hrest hup
      exact ⟨i, hi, by omega⟩

theorem EndsAtRoot.ancestor_ne (h : EndsAtRoot parent k) (hm : 0 < m) :
    ancestor parent m k ≠ some k := by
  intro hup
  obtain ⟨n, hn⟩ := h
  obtain ⟨i, hi, hsum⟩ := rootAt_ancestor hn hup
  have hin : i = n := rootAt_unique hi hn
  omega

theorem ancestor_succ_eq_some {q : κ} : ancestor parent (m+1) k = some q ↔
    ∃ p, ancestor parent m k = some p ∧ parent p = some (some q) := by
  induction m generalizing k with
  | zero =>
    constructor
    · intro h
      obtain ⟨p, hp, hpq⟩ := Option.bind_eq_some_iff.mp h
      obtain rfl := Option.some.inj hpq
      obtain ⟨o, ho, hid⟩ := Option.bind_eq_some_iff.mp hp
      exact ⟨k, rfl, by rw [ho, show o = some p from hid]⟩
    · rintro ⟨p, hp, hq⟩
      obtain rfl := Option.some.inj hp
      rw [ancestor, hq]
      rfl
  | succ m ih =>
    rw [ancestor]
    constructor
    · intro h
      obtain ⟨r, hr, hup⟩ := Option.bind_eq_some_iff.mp h
      obtain ⟨p, hp, hq⟩ := ih.mp hup
      exact ⟨p, by rw [ancestor, hr]; exact hp, hq⟩
    · rintro ⟨p, hp, hq⟩
      obtain ⟨r, hr, hup⟩ := Option.bind_eq_some_iff.mp hp
      exact Option.bind_eq_some_iff.mpr ⟨r, hr, ih.mpr ⟨p, hup, hq⟩⟩

theorem rootAt_of_ancestor (hup : ancestor parent m k = some p) (hp : RootAt parent n p) :
    RootAt parent (n+m) k := by
  induction m generalizing p n with
  | zero =>
    obtain rfl := Option.some.inj hup
    exact hp
  | succ m ih =>
    obtain ⟨q, hq, hqp⟩ := ancestor_succ_eq_some.mp hup
    have hroot : RootAt parent (n+1) q := ⟨p, hqp, hp⟩
    rw [show n+(m+1) = n+1+m by omega]
    exact ih hq hroot

theorem RootAt.exists_top (hn : RootAt parent n k) :
    ∃ p, ancestor parent n k = some p ∧ parent p = some none := by
  induction n generalizing k with
  | zero => exact ⟨k, rfl, hn⟩
  | succ n ih =>
    obtain ⟨q, hq, hrest⟩ := hn
    obtain ⟨p, hp, htop⟩ := ih hrest
    exact ⟨p, by rw [ancestor, hq]; exact hp, htop⟩

/-- A node and its ancestors are all different. -/
theorem RootAt.exists_chain (hn : RootAt parent n k) :
    ∃ chain : List κ, chain.length = n+1 ∧ chain.Nodup ∧
      ∀ x ∈ chain, (parent x).isSome ∧ ∃ i ≤ n, RootAt parent i x := by
  induction n generalizing k with
  | zero =>
    have hk : parent k = some none := hn
    refine ⟨[k], rfl, by simp, fun x hx => ?_⟩
    obtain rfl := List.mem_singleton.mp hx
    exact ⟨by rw [hk]; rfl, 0, Nat.le_refl _, hn⟩
  | succ n ih =>
    obtain ⟨p, hp, hup⟩ := hn
    obtain ⟨chain, hlength, hnodup, hchain⟩ := ih hup
    have hk : k ∉ chain := by
      intro hmem
      obtain ⟨-, i, hi, hroot⟩ := hchain k hmem
      have heq : i = n+1 := rootAt_unique hroot ⟨p, hp, hup⟩
      omega
    refine ⟨k :: chain, by rw [List.length_cons, hlength], List.nodup_cons.mpr ⟨hk, hnodup⟩,
      fun x hx => ?_⟩
    rcases List.mem_cons.mp hx with rfl | hx
    · exact ⟨by rw [hp]; rfl, n+1, Nat.le_refl _, p, hp, hup⟩
    · obtain ⟨hsome, i, hi, hroot⟩ := hchain x hx
      exact ⟨hsome, i, by omega, hroot⟩

theorem RootAt.lt_length {nodes : List κ} (hnodes : ∀ x, (parent x).isSome → x ∈ nodes)
    (hn : RootAt parent n k) : n < nodes.length := by
  obtain ⟨chain, hlength, hnodup, hchain⟩ := hn.exists_chain
  have hle : chain.length ≤ nodes.length :=
    (List.subperm_of_subset hnodup fun x hx => hnodes x (hchain x hx).1).length_le
  omega

end ParentChains
