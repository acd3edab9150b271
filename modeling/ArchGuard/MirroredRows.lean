import Mathlib.Data.List.Nodup

/-! Rows that are stored for objects, as a second copy of them: every row carries the identifier of its
object, and an operation removes rows of objects and adds others. -/
namespace MirroredRows

variable {α ρ κ : Type*} (id : α → κ) (rows : α → List ρ)

/-- The stored rows are exactly those of the objects, whose identifiers differ. -/
structure Mirrors (objs : List α) (stored : List ρ) : Prop where
  apart : (objs.map id).Nodup
  mem_iff : ∀ r, r ∈ stored ↔ ∃ a ∈ objs, r ∈ rows a

/-- Every row carries the identifier of its object. -/
def Tagged (tag : ρ → κ) : Prop := ∀ a, ∀ r ∈ rows a, tag r = id a

variable {id rows} {tag : ρ → κ} {objs : List α} {stored : List ρ}

theorem mirrors_nil : Mirrors id rows [] [] where
  apart := List.nodup_nil
  mem_iff r := by simp

theorem Mirrors.eq_of_id (h : Mirrors id rows objs stored) {a b : α} (ha : a ∈ objs) (hb : b ∈ objs)
    (hid : id a = id b) : a = b := List.inj_on_of_nodup_map h.apart ha hb hid

theorem Mirrors.add (h : Mirrors id rows objs stored) {a : α} (hnew : ∀ b ∈ objs, id b ≠ id a) :
    Mirrors id rows (objs ++ [a]) (stored ++ rows a) where
  apart := by
    rw [List.map_append, List.map_singleton, List.nodup_append_comm]
    refine List.nodup_cons.mpr ⟨?_, h.apart⟩
    intro hmem
    obtain ⟨b, hb, hid⟩ := List.mem_map.mp hmem
    exact hnew b hb hid
  mem_iff r := by
    rw [List.mem_append, h.mem_iff]
    simp only [List.mem_append, List.mem_singleton, or_and_right, exists_or, exists_eq_left]

variable [DecidableEq ρ]

/-- The stored rows, less those of some objects. -/
def without (stored : List ρ) (gone : List ρ) : List ρ := stored.filter (· ∉ gone)

theorem mem_without {gone : List ρ} {r : ρ} : r ∈ without stored gone ↔ r ∈ stored ∧ r ∉ gone := by
  rw [without, List.mem_filter, decide_eq_true_eq]

theorem without_append (stored gone gone' : List ρ) :
    without stored (gone ++ gone') = without (without stored gone) gone' := by
  rw [without, without, without, List.filter_filter]
  apply List.filter_congr
  intro r _
  simp only [List.mem_append, not_or, Bool.decide_and, Bool.and_comm]

/-- An object goes, and rows of its identifier among which are its own. -/
theorem Mirrors.erase (htag : Tagged id rows tag) (h : Mirrors id rows objs stored) {a : α}
    (ha : a ∈ objs) (gone : List ρ) (hgone : ∀ r ∈ gone, tag r = id a)
    (hall : ∀ r ∈ rows a, r ∈ gone) (p : α → Bool) (hp : ∀ b ∈ objs, p b = true ↔ b ≠ a) :
    Mirrors id rows (objs.filter p) (without stored gone) where
  apart := h.apart.sublist (List.filter_sublist.map _)
  mem_iff r := by
    rw [mem_without, h.mem_iff]
    constructor
    · rintro ⟨⟨b, hb, hr⟩, hnot⟩
      refine ⟨b, List.mem_filter.mpr ⟨hb, (hp b hb).mpr ?_⟩, hr⟩
      rintro rfl
      exact hnot (hall r hr)
    · rintro ⟨b, hb, hr⟩
      obtain ⟨hb, hpb⟩ := List.mem_filter.mp hb
      refine ⟨⟨b, hb, hr⟩, fun hmem => ?_⟩
      -- a row that goes carries the identifier of the object that goes
      have hid : id b = id a := (htag b r hr).symm.trans (hgone r hmem)
      exact (hp b hb).mp hpb (h.eq_of_id hb ha hid)

/-- The objects change, the rows of some are dropped and those of some are added: of an object that is
not dropped the rows must stay the same, and one that is dropped must be added, or have none. -/
theorem Mirrors.update (htag : Tagged id rows tag) (h : Mirrors id rows objs stored) (f : α → α)
    (dropped added : List α) (hapart : ((objs.map f).map id).Nodup)
    (hdropped : ∀ a ∈ dropped, a ∈ objs) (hadded : ∀ a ∈ added, a ∈ objs.map f)
    (hkept : ∀ a ∈ objs, a ∉ dropped → rows (f a) = rows a)
    (hback : ∀ a ∈ dropped, rows (f a) = [] ∨ f a ∈ added) :
    Mirrors id rows (objs.map f) (without stored (dropped.flatMap rows) ++ added.flatMap rows) where
  apart := hapart
  mem_iff r := by
    rw [List.mem_append, mem_without, h.mem_iff, List.mem_flatMap, List.mem_flatMap]
    constructor
    · rintro (⟨⟨a, ha, hr⟩, hnot⟩ | ⟨b, hb, hr⟩)
      · have hstays : a ∉ dropped := fun hmem => hnot ⟨a, hmem, hr⟩
        exact ⟨f a, List.mem_map_of_mem ha, hkept a ha hstays ▸ hr⟩
      · exact ⟨b, hadded b hb, hr⟩
    · rintro ⟨b, hb, hr⟩
      obtain ⟨a, ha, rfl⟩ := List.mem_map.mp hb
      by_cases hmem : a ∈ dropped
      · rcases hback a hmem with hnone | hagain
        · rw [hnone] at hr
          exact absurd hr List.not_mem_nil
        · exact Or.inr ⟨f a, hagain, hr⟩
      · rw [hkept a ha hmem] at hr
        refine Or.inl ⟨⟨a, ha, hr⟩, ?_⟩
        rintro ⟨d, hd, hr'⟩
        have hid : id a = id d := (htag a r hr).symm.trans (htag d r hr')
        exact hmem (h.eq_of_id ha (hdropped d hd) hid ▸ hd)

end MirroredRows
