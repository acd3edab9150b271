import ArchGuard.AuditDeletion

/-! The ranges that the stored seals cover, and when one more range keeps them contiguous. -/
namespace ArchGuard.Audit
open ReadCommitted

section Ranges

def endOf : (prevEnd : ℕ) → List SealRow → ℕ
  | prevEnd, [] => prevEnd
  | _, s :: rest => endOf s.seqEnd rest

variable {n : ℕ} {rows rows' : List SealRow} {s : SealRow}

theorem tiles_concat : Tiles n (rows ++ [s]) ↔ Tiles n rows ∧ s.seqStart = endOf n rows+1 := by
  induction rows generalizing n with
  | nil => simp only [List.nil_append, Tiles, endOf, and_true, true_and]
  | cons r rows ih => simp only [List.cons_append, Tiles, endOf, ih, and_assoc]

variable (hrange : ∀ r ∈ rows, r.seqStart ≤ r.seqEnd)

include hrange

theorem le_endOf (h : Tiles n rows) : n ≤ endOf n rows ∧ ∀ r ∈ rows, r.seqEnd ≤ endOf n rows := by
  induction rows generalizing n with
  | nil => exact ⟨le_rfl, fun r hr => by cases hr⟩
  | cons r rows ih =>
    obtain ⟨hstart, htiles⟩ := h
    obtain ⟨hle, hmem⟩ := ih (fun r' hr' => hrange r' (List.mem_cons_of_mem r hr')) htiles
    have hr := hrange r List.mem_cons_self
    refine ⟨?_, ?_⟩
    · change n ≤ endOf r.seqEnd rows
      omega
    · intro r' hr'
      rcases List.mem_cons.mp hr' with rfl | hr'
      · exact hle
      · exact hmem r' hr'

theorem pairwise_of_tiles (h : Tiles n rows) :
    (∀ r ∈ rows, n < r.seqStart) ∧ rows.Pairwise fun a b => a.seqEnd < b.seqStart := by
  induction rows generalizing n with
  | nil => exact ⟨fun r hr => absurd hr List.not_mem_nil, List.Pairwise.nil⟩
  | cons r rows ih =>
    obtain ⟨hstart, htiles⟩ := h
    obtain ⟨hlt, hpw⟩ := ih (fun r' hr' => hrange r' (List.mem_cons_of_mem r hr')) htiles
    have hr := hrange r List.mem_cons_self
    refine ⟨?_, List.pairwise_cons.mpr ⟨hlt, hpw⟩⟩
    intro r' hr'
    rcases List.mem_cons.mp hr' with rfl | hr'
    · omega
    · have := hlt r' hr'
      omega

omit hrange in
theorem exists_range_of_tiles (h : Tiles n rows) {k : ℕ} (hn : n < k) (hk : k ≤ endOf n rows) :
    ∃ r ∈ rows, r.seqStart ≤ k ∧ k ≤ r.seqEnd := by
  induction rows generalizing n with
  | nil =>
    have : k ≤ n := hk
    omega
  | cons r rows ih =>
    obtain ⟨hstart, htiles⟩ := h
    by_cases hr : k ≤ r.seqEnd
    · exact ⟨r, List.mem_cons_self, by omega, hr⟩
    · obtain ⟨r', hr', hin⟩ := ih htiles (by omega) hk
      exact ⟨r', List.mem_cons_of_mem r hr', hin⟩

omit hrange in
theorem endOf_mem (n : ℕ) (rows : List SealRow) :
    endOf n rows = n ∨ ∃ r ∈ rows, r.seqEnd = endOf n rows := by
  induction rows generalizing n with
  | nil => exact Or.inl rfl
  | cons r rows ih =>
    apply Or.inr
    rcases ih r.seqEnd with heq | ⟨r', hr', heq⟩
    · exact ⟨r, List.mem_cons_self, heq.symm⟩
    · exact ⟨r', List.mem_cons_of_mem r hr', heq⟩

theorem eq_of_tiles (h : Tiles n rows) (hperm : rows'.Perm rows)
    (hsorted : rows'.Pairwise fun a b => a.seqStart ≤ b.seqStart) : rows' = rows := by
  have hlt : rows.Pairwise fun a b => a.seqStart < b.seqStart := by
    refine List.Pairwise.imp_of_mem ?_ (pairwise_of_tiles hrange h).2
    intro a b ha _ hab
    exact lt_of_le_of_lt (hrange a ha) hab
  have hnodup : (rows.map SealRow.seqStart).Nodup :=
    List.pairwise_map.mpr (hlt.imp fun h => Nat.ne_of_lt h)
  refine List.Perm.eq_of_pairwise (fun a b ha hb hab hba => ?_) hsorted (hlt.imp le_of_lt) hperm
  exact List.inj_on_of_nodup_map hnodup (hperm.mem_iff.mp ha) hb (Nat.le_antisymm hab hba)

/-- One more range, which does not begin past the end: the ranges still tile exactly if it
begins right behind it. -/
theorem tiles_insert_iff (h : Tiles n rows) (hs : s.seqStart ≤ s.seqEnd) (hn : n < s.seqStart)
    (hle : s.seqStart ≤ endOf n rows+1) (hperm : rows'.Perm (s :: rows))
    (hsorted : rows'.Pairwise fun a b => a.seqStart ≤ b.seqStart) :
    Tiles n rows' ↔ s.seqStart = endOf n rows+1 := by
  have hrange' : ∀ r ∈ rows', r.seqStart ≤ r.seqEnd := by
    intro r hr
    rcases List.mem_cons.mp (hperm.mem_iff.mp hr) with rfl | hr
    · exact hs
    · exact hrange r hr
  constructor
  · intro h'
    by_contra hne
    obtain ⟨r, hr, hlo, hhi⟩ := exists_range_of_tiles h hn (by omega)
    -- ranges that tile are disjoint, and `s` begins within `r`
    have hdisj : rows'.Pairwise fun a b => a.seqEnd < b.seqStart ∨ b.seqEnd < a.seqStart :=
      (pairwise_of_tiles hrange' h').2.imp fun hab => Or.inl hab
    have hcons := (hperm.pairwise_iff fun {a b} hab => hab.symm).mp hdisj
    have := (List.pairwise_cons.mp hcons).1 r hr
    omega
  · intro hstart
    have htiles : Tiles n (rows ++ [s]) := tiles_concat.mpr ⟨h, hstart⟩
    have hperm' : rows'.Perm (rows ++ [s]) := hperm.trans (List.perm_append_singleton s rows).symm
    have heq : rows' = rows ++ [s] :=
      eq_of_tiles (fun r hr => hrange' r (hperm'.mem_iff.mpr hr)) htiles hperm' hsorted
    rw [heq]
    exact htiles

end Ranges

section Seals

variable {db db' : Db} {org : Uuid}

theorem mem_seals {s : SealRow} :
    s ∈ seals db org ↔ (db.row (.sealed org s.seqEnd)).map Subtype.val = some s := by
  rw [seals, List.mem_filterMap]
  constructor
  · rintro ⟨k, -, hk⟩
    cases k with
    | sealed o n =>
      simp only [sealRow] at hk
      split_ifs at hk with ho
      obtain ⟨v, hv, rfl⟩ := Option.map_eq_some_iff.mp hk
      obtain ⟨v, rfl⟩ := v
      rw [← ho, hv]
      rfl
    | _ => cases hk
  · intro h
    obtain ⟨v, hv, -⟩ := Option.map_eq_some_iff.mp h
    refine ⟨.sealed org s.seqEnd, db.covers _ v hv, ?_⟩
    simp only [sealRow, ↓reduceIte, h]

theorem nodup_seals : (seals db org).Nodup := by
  apply db.nodup.filterMap
  intro k k' s hk hk'
  have hkey (k : Key) (hk : s ∈ sealRow db org k) : k = .sealed org s.seqEnd := by
    cases k with
    | sealed o n =>
      simp only [sealRow, Option.mem_def] at hk
      split_ifs at hk with ho
      obtain ⟨v, hv, rfl⟩ := Option.map_eq_some_iff.mp hk
      rw [ho, v.2]
    | _ => cases hk
  rw [hkey k hk, hkey k' hk']

theorem maxSealed_le_iff {m : ℕ} : maxSealed db org ≤ m ↔ ∀ s ∈ seals db org, s.seqEnd ≤ m := by
  unfold maxSealed
  induction seals db org with
  | nil => simp
  | cons s rows ih => simp only [List.map_cons, List.foldr_cons, max_le_iff, ih, List.forall_mem_cons]

theorem le_maxSealed {s : SealRow} (hs : s ∈ seals db org) : s.seqEnd ≤ maxSealed db org :=
  maxSealed_le_iff.mp le_rfl s hs

theorem maxSealed_mono (h : ∀ s ∈ seals db org, s ∈ seals db' org) :
    maxSealed db org ≤ maxSealed db' org :=
  maxSealed_le_iff.mpr fun s hs => le_maxSealed (h s hs)

theorem mem_sortedSeals {s : SealRow} : s ∈ sortedSeals org db ↔ s ∈ seals db org :=
  List.mem_insertionSort _

theorem sorted_sortedSeals :
    (sortedSeals org db).Pairwise fun a b => a.seqStart ≤ b.seqStart := by
  have : Std.Total fun a b : SealRow => a.seqStart ≤ b.seqStart :=
    ⟨fun a b => Nat.le_total a.seqStart b.seqStart⟩
  have : IsTrans SealRow fun a b => a.seqStart ≤ b.seqStart := ⟨fun _ _ _ => Nat.le_trans⟩
  exact List.pairwise_insertionSort _ _

theorem endOf_sortedSeals (hrange : ∀ s ∈ seals db org, s.seqStart ≤ s.seqEnd)
    (h : Tiles 0 (sortedSeals org db)) : endOf 0 (sortedSeals org db) = maxSealed db org := by
  have hrange' : ∀ s ∈ sortedSeals org db, s.seqStart ≤ s.seqEnd :=
    fun s hs => hrange s (mem_sortedSeals.mp hs)
  apply le_antisymm
  · rcases endOf_mem 0 (sortedSeals org db) with heq | ⟨s, hs, heq⟩
    · rw [heq]
      exact Nat.zero_le _
    · rw [← heq]
      exact le_maxSealed (mem_sortedSeals.mp hs)
  · rw [maxSealed_le_iff]
    exact fun s hs => (le_endOf hrange' h).2 s (mem_sortedSeals.mpr hs)

end Seals

/-- The seals of every organization cover contiguous ranges from 1 on. -/
def Contiguous (db : Db) : Prop := ∀ org, Tiles 0 (sortedSeals org db)

theorem tiles_congr {db db' : Db} {org : Uuid} (hrange : ∀ s ∈ seals db org, s.seqStart ≤ s.seqEnd)
    (hmem : ∀ s, s ∈ seals db' org ↔ s ∈ seals db org) (h : Tiles 0 (sortedSeals org db)) :
    Tiles 0 (sortedSeals org db') := by
  have hperm : (sortedSeals org db').Perm (sortedSeals org db) := by
    refine (List.perm_insertionSort _ _).trans (.trans ?_ (List.perm_insertionSort _ _).symm)
    exact (List.perm_ext_iff_of_nodup nodup_seals nodup_seals).mpr hmem
  rw [eq_of_tiles (fun s hs => hrange s (mem_sortedSeals.mp hs)) h hperm sorted_sortedSeals]
  exact h

end ArchGuard.Audit
