import Mathlib.Data.List.Nodup
import Mathlib.Tactic.Common

/-! Tables as lists of rows with distinct keys: which writes leave the rows of some keys as they are. -/
namespace KeyedRows

variable {α κ : Type*} [DecidableEq κ] (key : α → κ)

def rowAt (rows : List α) (k : κ) : Option α := rows.find? fun row => key row = k

def replaceAt (k : κ) (a : α) (rows : List α) : List α :=
  rows.map fun row => if key row = k then a else row

def Same (P : κ → Prop) (rows rows' : List α) : Prop := ∀ k, P k → rowAt key rows' k = rowAt key rows k

variable {key} {P : κ → Prop} {rows : List α}

theorem rowAt_eq_some (hnodup : (rows.map key).Nodup) {a : α} {k : κ} :
    rowAt key rows k = some a ↔ a ∈ rows ∧ key a = k := by
  constructor
  · intro h
    exact ⟨List.mem_of_find?_eq_some h, by simpa using List.find?_some h⟩
  · intro ⟨ha, hk⟩
    cases hrow : rowAt key rows k with
    | none => exact absurd (decide_eq_true hk) (List.find?_eq_none.mp hrow a ha)
    | some b =>
      have hkey : key b = k := by simpa using List.find?_some hrow
      rw [List.inj_on_of_nodup_map hnodup (List.mem_of_find?_eq_some hrow) ha (hkey.trans hk.symm)]

theorem rowAt_eq_none {k : κ} : rowAt key rows k = none ↔ k ∉ rows.map key := by
  simp only [rowAt, List.find?_eq_none, decide_eq_true_eq, List.mem_map, not_exists, not_and]

theorem rowAt_map {f : α → α} (hf : ∀ row ∈ rows, key (f row) = key row) (k : κ) :
    rowAt key (rows.map f) k = (rowAt key rows k).map f := by
  induction rows with
  | nil => rfl
  | cons row rows ih =>
    have hrow := hf row List.mem_cons_self
    have hrest := ih fun r hr => hf r (List.mem_cons_of_mem row hr)
    rw [rowAt] at hrest ⊢
    rw [List.map_cons, List.find?_cons, hrest, rowAt, rowAt, List.find?_cons, hrow]
    cases decide (key row = k) <;> rfl

theorem mem_replaceAt {k : κ} {a row : α} : row ∈ replaceAt key k a rows ↔
    (row ∈ rows ∧ key row ≠ k) ∨ (row = a ∧ k ∈ rows.map key) := by
  rw [replaceAt, List.mem_map]
  constructor
  · rintro ⟨old, hold, heq⟩
    split_ifs at heq with h
    · exact Or.inr ⟨heq.symm, List.mem_map.mpr ⟨old, hold, h⟩⟩
    · exact Or.inl (heq ▸ ⟨hold, h⟩)
  · rintro (⟨hrow, h⟩ | ⟨rfl, h⟩)
    · exact ⟨row, hrow, if_neg h⟩
    · obtain ⟨old, hold, h⟩ := List.mem_map.mp h
      exact ⟨old, hold, if_pos h⟩

/-- What the new row has in common with the row it replaces stays as it was. -/
theorem map_replaceAt {β : Type*} {f : α → β} {k : κ} {a : α}
    (hf : ∀ row ∈ rows, key row = k → f row = f a) : (replaceAt key k a rows).map f = rows.map f := by
  rw [replaceAt, List.map_map]
  apply List.map_congr_left
  intro row hrow
  rw [Function.comp_apply]
  split_ifs with h
  · exact (hf row hrow h).symm
  · rfl

theorem rowAt_replaceAt_self {k : κ} {a old : α} (hold : rowAt key rows k = some old)
    (ha : key a = k) : rowAt key (replaceAt key k a rows) k = some a := by
  have hkey : key old = k := by simpa using List.find?_some hold
  have hkeep : ∀ row ∈ rows, key (if key row = k then a else row) = key row := by
    intro row _
    split_ifs with h
    · exact ha.trans h.symm
    · rfl
  rw [replaceAt, rowAt_map hkeep, hold, Option.map_some, if_pos hkey]

theorem rowAt_replaceAt (hnodup : (rows.map key).Nodup) {k : κ} {a : α}
    (hnodup' : ((replaceAt key k a rows).map key).Nodup) (hk : k ∈ rows.map key) (k' : κ) :
    rowAt key (replaceAt key k a rows) k' =
      if k' = key a then some a else if k' = k then none else rowAt key rows k' := by
  obtain ⟨old, hold, hkey⟩ := List.mem_map.mp hk
  have hnew : a ∈ replaceAt key k a rows := List.mem_map.mpr ⟨old, hold, if_pos hkey⟩
  split_ifs with ha hk'
  · exact (rowAt_eq_some hnodup').mpr ⟨hnew, ha.symm⟩
  · rw [rowAt_eq_none]
    intro hmem
    obtain ⟨row, hrow, hrowkey⟩ := List.mem_map.mp hmem
    obtain ⟨before, _, hbefore⟩ := List.mem_map.mp hrow
    split_ifs at hbefore with h
    · exact ha (hrowkey.symm.trans (congrArg key hbefore).symm)
    · exact h ((congrArg key hbefore).trans (hrowkey.trans hk'))
  · ext b
    rw [rowAt_eq_some hnodup', rowAt_eq_some hnodup]
    constructor
    · intro ⟨hb, hbk⟩
      obtain ⟨before, hmem, hbefore⟩ := List.mem_map.mp hb
      split_ifs at hbefore with h
      · exact absurd (hbk.symm.trans (congrArg key hbefore).symm) ha
      · exact ⟨hbefore ▸ hmem, hbk⟩
    · intro ⟨hb, hbk⟩
      exact ⟨List.mem_map.mpr ⟨b, hb, if_neg fun h => hk' (hbk.symm.trans h)⟩, hbk⟩

omit [DecidableEq κ] in
theorem ne_of_not {k k' : κ} (h : ¬P k) (hk : P k') : k' ≠ k := fun heq => h (heq ▸ hk)

theorem Same.refl (P : κ → Prop) (rows : List α) : Same key P rows rows := fun _ _ => rfl

theorem same_append_iff {a : α} (ha : key a ∉ rows.map key) :
    Same key P rows (rows ++ [a]) ↔ ¬P (key a) := by
  constructor
  · intro h hp
    have hnone := (h (key a) hp).trans (rowAt_eq_none.mpr ha)
    rw [rowAt_eq_none, List.map_append, List.mem_append, not_or] at hnone
    exact hnone.2 (List.mem_map_of_mem (List.mem_singleton_self a))
  · intro hp k hk
    have hother : key a ≠ k := fun h => hp (h ▸ hk)
    rw [rowAt, List.find?_append, List.find?_singleton, decide_eq_false hother, if_neg Bool.false_ne_true,
      Option.or_none]
    rfl

theorem same_filter_iff {k : κ} :
    Same key P rows (rows.filter (key · ≠ k)) ↔ (P k → k ∉ rows.map key) := by
  have hgone : k ∉ (rows.filter (key · ≠ k)).map key := by
    intro hmem
    obtain ⟨row, hrow, hkey⟩ := List.mem_map.mp hmem
    exact of_decide_eq_true (List.mem_filter.mp hrow).2 hkey
  constructor
  · intro h hp
    rw [← rowAt_eq_none, ← h k hp]
    exact rowAt_eq_none.mpr hgone
  · intro h k' hk'
    by_cases heq : k' = k
    · rw [heq, rowAt_eq_none.mpr hgone, rowAt_eq_none.mpr (h (heq ▸ hk'))]
    · rw [rowAt, List.find?_filter, rowAt]
      congr 1
      funext row
      by_cases hrow : key row = k'
      · simp [hrow, heq]
      · simp [hrow]

theorem same_map_iff (hnodup : (rows.map key).Nodup) {f : α → α}
    (hf : ∀ row ∈ rows, key (f row) = key row) :
    Same key P rows (rows.map f) ↔ ∀ row ∈ rows, P (key row) → f row = row := by
  constructor
  · intro h row hrow hp
    have hfound := h (key row) hp
    rw [rowAt_map hf, (rowAt_eq_some hnodup).mpr ⟨hrow, rfl⟩] at hfound
    exact Option.some.inj hfound
  · intro h k hk
    rw [rowAt_map hf]
    cases hrow : rowAt key rows k with
    | none => rfl
    | some row =>
      obtain ⟨hmem, hkey⟩ := (rowAt_eq_some hnodup).mp hrow
      rw [Option.map_some, h row hmem (hkey ▸ hk)]

theorem nodup_replaceAt_iff (hnodup : (rows.map key).Nodup) {k : κ} {a : α} (hk : k ∈ rows.map key) :
    ((replaceAt key k a rows).map key).Nodup ↔ key a = k ∨ key a ∉ rows.map key := by
  obtain ⟨old, hold, hkey⟩ := List.mem_map.mp hk
  constructor
  · intro hnodup'
    rw [or_iff_not_imp_left]
    intro hak hmem
    obtain ⟨row, hrow, hrowkey⟩ := List.mem_map.mp hmem
    rw [replaceAt, List.map_map] at hnodup'
    have hsame : row = old := by
      apply List.inj_on_of_nodup_map hnodup' hrow hold
      rw [Function.comp_apply, Function.comp_apply, if_neg (hrowkey ▸ hak), if_pos hkey, hrowkey]
    exact hak (hrowkey.symm.trans (hsame ▸ hkey))
  · intro h
    rw [replaceAt, List.map_map]
    apply List.Nodup.map_on _ (List.Nodup.of_map key hnodup)
    intro row hrow row' hrow' heq
    rw [Function.comp_apply, Function.comp_apply] at heq
    apply List.inj_on_of_nodup_map hnodup hrow hrow'
    split_ifs at heq with hr hr' hr'
    · exact hr.trans hr'.symm
    · exact absurd (heq ▸ List.mem_map_of_mem hrow') (h.resolve_left fun h => hr' (heq.symm.trans h))
    · exact absurd (heq ▸ List.mem_map_of_mem hrow) (h.resolve_left fun h => hr (heq.trans h))
    · exact heq

theorem same_replaceAt_iff (hnodup : (rows.map key).Nodup) {k : κ} {a old : α}
    (hnodup' : ((replaceAt key k a rows).map key).Nodup) (hold : rowAt key rows k = some old) :
    Same key P rows (replaceAt key k a rows) ↔ a = old ∨ ¬P k ∧ ¬P (key a) := by
  have hkey : key old = k := ((rowAt_eq_some hnodup).mp hold).2
  have hk : k ∈ rows.map key := by
    by_contra hno
    rw [rowAt_eq_none.mpr hno] at hold
    cases hold
  have hrow := rowAt_replaceAt hnodup hnodup' hk
  constructor
  · intro h
    rw [or_iff_not_imp_left]
    intro hne
    refine ⟨fun hp => ?_, fun hp => ?_⟩
    · have hfound := h k hp
      rw [hrow k, hold, if_pos rfl] at hfound
      by_cases hak : k = key a
      · rw [if_pos hak] at hfound
        exact hne (Option.some.inj hfound)
      · rw [if_neg hak] at hfound
        cases hfound
    · have hfound := h (key a) hp
      rw [hrow (key a), if_pos rfl] at hfound
      obtain ⟨ha, _⟩ := (rowAt_eq_some hnodup).mp hfound.symm
      -- the new row was there before, so it has the key of the old one
      rcases (nodup_replaceAt_iff hnodup hk).mp hnodup' with hak | hfresh
      · exact hne (List.inj_on_of_nodup_map hnodup ha ((rowAt_eq_some hnodup).mp hold).1
          (hak.trans hkey.symm))
      · exact hfresh (List.mem_map_of_mem ha)
  · intro h k' hk'
    rcases h with h | h
    · have hself : replaceAt key k a rows = rows := by
        rw [replaceAt]
        conv_rhs => rw [← List.map_id rows]
        apply List.map_congr_left
        intro row hmem
        split_ifs with hrowkey
        · rw [h]
          exact List.inj_on_of_nodup_map hnodup ((rowAt_eq_some hnodup).mp hold).1 hmem
            (hkey.trans hrowkey.symm)
        · rfl
      rw [hself]
    · rw [hrow k', if_neg (ne_of_not h.2 hk'), if_neg (ne_of_not h.1 hk')]

theorem same_map_replaceAt_iff (hnodup : (rows.map key).Nodup) {f : α → α}
    (hf : ∀ row ∈ rows, key (f row) = key row) {k : κ} {a : α} (hak : key a ≠ k)
    (hnodup' : ((replaceAt key k a (rows.map f)).map key).Nodup) (hk : k ∈ rows.map key) :
    Same key P rows (replaceAt key k a (rows.map f)) ↔
      (¬P k ∧ ¬P (key a)) ∧ ∀ row ∈ rows, P (key row) → f row = row := by
  have hkeys : (rows.map f).map key = rows.map key := by
    rw [List.map_map]
    exact List.map_congr_left hf
  have hrow := rowAt_replaceAt (hkeys ▸ hnodup) hnodup' (hkeys ▸ hk)
  have hfresh : key a ∉ rows.map key :=
    hkeys ▸ ((nodup_replaceAt_iff (hkeys ▸ hnodup) (hkeys ▸ hk)).mp hnodup').resolve_left hak
  constructor
  · intro h
    have hfree : ¬P k ∧ ¬P (key a) := by
      refine ⟨fun hp => ?_, fun hp => ?_⟩
      · have hfound := h k hp
        rw [hrow k, if_neg hak.symm, if_pos rfl] at hfound
        exact rowAt_eq_none.mp hfound.symm hk
      · have hfound := h (key a) hp
        rw [hrow (key a), if_pos rfl, rowAt_eq_none.mpr hfresh] at hfound
        cases hfound
    refine ⟨hfree, ?_⟩
    rw [← same_map_iff hnodup hf]
    intro k' hk'
    rw [← h k' hk', hrow k', if_neg (ne_of_not hfree.2 hk'), if_neg (ne_of_not hfree.1 hk')]
  · intro ⟨hfree, hrows⟩ k' hk'
    rw [hrow k', if_neg (ne_of_not hfree.2 hk'), if_neg (ne_of_not hfree.1 hk')]
    exact (same_map_iff hnodup hf).mpr hrows k' hk'

end KeyedRows
