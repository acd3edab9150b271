import Mathlib.Data.List.Sort
import Mathlib.Data.List.Lex
import Mathlib.Data.Prod.Lex

/-! Stable sorting by a key in a linear order, where only a strict comparison is given: when the
order of the input makes no difference. -/
namespace KeyedSort

variable {α κ : Type*} [LinearOrder κ]

/-- The comparison is that of the keys. -/
def Keyed (less : α → α → Bool) (key : α → κ) : Prop := ∀ a b, less a b = true ↔ key a < key b

variable {less : α → α → Bool} {key : α → κ} {l l' : List α} {a b : α}

theorem Keyed.not_less (h : Keyed less key) (a b : α) : (!less b a) = true ↔ key a ≤ key b := by
  rw [Bool.not_eq_true', ← Bool.not_eq_true, h, not_lt]

theorem pairwise_sort (h : Keyed less key) (l : List α) :
    (l.insertionSort fun a b => !less b a).Pairwise fun a b => key a ≤ key b := by
  have htotal : Std.Total fun a b : α => (!less b a) = true :=
    ⟨fun a b => by
      rw [h.not_less, h.not_less]
      exact le_total (key a) (key b)⟩
  have htrans : IsTrans α fun a b => (!less b a) = true :=
    ⟨fun a b c hab hbc => by
      rw [h.not_less] at hab hbc ⊢
      exact hab.trans hbc⟩
  exact (List.pairwise_insertionSort _ l).imp fun {a b} hab => (h.not_less a b).mp hab

theorem eq_of_pairwise (hl : l.Pairwise fun a b => key a ≤ key b)
    (hl' : l'.Pairwise fun a b => key a ≤ key b) (hperm : l.Perm l')
    (hinj : ∀ a ∈ l, ∀ b ∈ l, key a = key b → a = b) : l = l' := by
  apply hperm.eq_of_pairwise _ hl hl'
  intro a b ha hb hab hba
  exact hinj a ha b (hperm.mem_iff.mpr hb) (le_antisymm hab hba)

theorem sort_eq_of_perm (h : Keyed less key) (hperm : l.Perm l')
    (hinj : ∀ a ∈ l, ∀ b ∈ l, key a = key b → a = b) :
    (l.insertionSort fun a b => !less b a) = l'.insertionSort fun a b => !less b a := by
  have hl := List.perm_insertionSort (fun a b => (!less b a) = true) l
  have hl' := List.perm_insertionSort (fun a b => (!less b a) = true) l'
  apply eq_of_pairwise (pairwise_sort h l) (pairwise_sort h l') ((hl.trans hperm).trans hl'.symm)
  intro a ha b hb
  exact hinj a (hl.mem_iff.mp ha) b (hl.mem_iff.mp hb)

theorem sublist_sort (h : Keyed less key) (hkey : key a = key b) (hsub : [a, b].Sublist l) :
    [a, b].Sublist (l.insertionSort fun a b => !less b a) :=
  List.pair_sublist_insertionSort ((h.not_less a b).mpr hkey.le) hsub

theorem pair_or_pair (ha : a ∈ l) (hb : b ∈ l) (hne : a ≠ b) :
    [a, b].Sublist l ∨ [b, a].Sublist l := by
  induction l with
  | nil => cases ha
  | cons c l ih =>
    rcases List.mem_cons.mp ha with rfl | hal
    · have hb : b ∈ l := (List.mem_cons.mp hb).resolve_left hne.symm
      exact Or.inl ((List.singleton_sublist.mpr hb).cons_cons a)
    · rcases List.mem_cons.mp hb with rfl | hbl
      · exact Or.inr ((List.singleton_sublist.mpr hal).cons_cons b)
      · exact (ih hal hbl).imp (List.Sublist.cons c) (List.Sublist.cons c)

theorem not_pair_and_pair (hnodup : l.Nodup) (hab : [a, b].Sublist l) : ¬[b, a].Sublist l := by
  induction l with
  | nil => cases hab
  | cons c l ih =>
    obtain ⟨hc, hnodup⟩ := List.nodup_cons.mp hnodup
    intro hba
    cases hab with
    | cons _ hab =>
      cases hba with
      | cons _ hba => exact ih hnodup hab hba
      | cons_cons _ hba => exact hc (hab.subset (List.mem_cons_of_mem a List.mem_cons_self))
    | cons_cons _ hab =>
      cases hba with
      | cons _ hba => exact hc (hba.subset (List.mem_cons_of_mem b List.mem_cons_self))
      | cons_cons _ hba => exact hc (List.singleton_sublist.mp hba)

end KeyedSort
