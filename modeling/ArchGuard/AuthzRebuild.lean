import ArchGuard.AuthzReconcile
import ArchGuard.AuthzWindows

/-! The reconstruction of a tenant's tuples from the source, and what the checks answer after
it. -/
namespace ArchGuard.Authz
open ReadCommitted

section Rebuild

inductive RebuildError
  | incomplete (t : RelationTuple)
  | foreign (org : Uuid) (t : RelationTuple)
  | failed (org : Uuid)
  deriving DecidableEq, Repr

/-- The `%+v` verb. -/
def RelationTuple.goText (t : RelationTuple) : String :=
  "\x7bUser:" ++ t.user ++ " Relation:" ++ t.relation ++ " Object:" ++ t.object ++ "\x7d"

def RebuildError.text : RebuildError → String
  | .incomplete t => "authz_bootstrap: tupla esperada incompleta: " ++ t.goText
  | .foreign org t =>
    "authz_bootstrap: tupla esperada fora do tenant " ++ org.text ++ ": " ++ t.goText
  | .failed org => "authz_bootstrap: reconstrução do tenant " ++ org.text ++ " falhou"

variable (org : Uuid)

/-- The loop of `RebuildTenant` over the expected tuples. -/
def checkExpected : List RelationTuple → Except RebuildError Unit
  | [] => .ok ()
  | t :: ts =>
    if !t.valid then .error (.incomplete t)
    else if refOrg t.object ≠ some org.text then .error (.foreign org t)
    else checkExpected ts

def deleteTenant (db : TenantDb) : TenantDb := db.filterRows fun k =>
  match k with
  | .tuple _ => fun row => row.organizationId ≠ org
  | _ => fun _ => true

/-- A tuple that is there already breaks the primary key. -/
def insertTuples : TenantDb → List RelationTuple → Except RebuildError TenantDb
  | db, [] => .ok db
  | db, t :: ts =>
    match db.row (.tuple t) with
    | some _ => .error (.failed org)
    | none => insertTuples (db.set (.tuple t) (some ⟨org, none⟩)) ts

/-- `RebuildTenant`; `range` is the order in which Go goes through the map. -/
def rebuildTenant (range : List RelationTuple → List RelationTuple) (db : TenantDb)
    (expected : List RelationTuple) : Except RebuildError (TenantDb × ℕ) := do
  checkExpected org expected
  let db' ← insertTuples org (deleteTenant org db) (range (byKey expected))
  return (db', (byKey expected).length)

end Rebuild

section Expected

variable {org : Uuid} {ts : List RelationTuple} {t u : RelationTuple}

theorem ExpectedForm.valid (h : ExpectedForm org t) : t.valid = true := by
  simp [RelationTuple.valid, ref_ne_empty h.user, ref_ne_empty h.object, h.relation_ne]

theorem checkExpected_ok (h : ∀ t ∈ ts, ExpectedForm org t) : checkExpected org ts = .ok () := by
  induction ts with
  | nil => rfl
  | cons t ts ih =>
    have hform := h t List.mem_cons_self
    rw [checkExpected, hform.valid]
    simp only [Bool.not_true, Bool.false_eq_true, ↓reduceIte, hform.object, ne_eq,
      not_true_eq_false]
    exact ih fun t ht => h t (List.mem_cons_of_mem _ ht)

/-- The nul character separates the parts of a key, as users and relations have none. -/
theorem tupleKey_inj (ht : ExpectedForm org t) (hu : ExpectedForm org u)
    (h : tupleKey t = tupleKey u) : t = u := by
  have hlist : t.user.toList ++ '\x00' :: (t.relation.toList ++ '\x00' :: t.object.toList) =
      u.user.toList ++ '\x00' :: (u.relation.toList ++ '\x00' :: u.object.toList) := by
    have hkeys := congrArg String.toList h
    simp only [tupleKey, String.toList_append, List.append_assoc] at hkeys
    exact hkeys
  obtain ⟨huser, hrest⟩ := cut_first_inj ht.user_nul hu.user_nul hlist
  obtain ⟨hrelation, hobject⟩ := cut_first_inj ht.relation_nul hu.relation_nul hrest
  cases t
  cases u
  simp only [RelationTuple.mk.injEq]
  exact ⟨String.toList_inj.mp huser, String.toList_inj.mp hrelation, String.toList_inj.mp hobject⟩

theorem nodup_byKey (ts : List RelationTuple) : (byKey ts).Nodup := by
  induction ts using List.reverseRecOn with
  | nil => exact List.nodup_nil
  | append_singleton ts x ih =>
    rw [byKey, List.foldl_append]
    apply List.Nodup.append (ih.filter _) (List.nodup_singleton x)
    intro t ht hx
    obtain rfl := List.mem_singleton.mp hx
    have hne := of_decide_eq_true (List.mem_filter.mp ht).2
    exact hne rfl

theorem exists_mem_byKey (h : t ∈ ts) : ∃ u ∈ byKey ts, tupleKey u = tupleKey t := by
  induction ts using List.reverseRecOn with
  | nil => cases h
  | append_singleton ts x ih =>
    rw [byKey, List.foldl_append]
    rcases List.mem_append.mp h with h | h
    · obtain ⟨u, hu, hkey⟩ := ih h
      by_cases hx : tupleKey u = tupleKey x
      · -- the later tuple takes the place of the one found before
        exact ⟨x, List.mem_append_right _ (List.mem_singleton_self x), hx.symm.trans hkey⟩
      · exact ⟨u, List.mem_append_left _ (List.mem_filter.mpr ⟨hu, decide_eq_true hx⟩), hkey⟩
    · rw [List.mem_singleton.mp h]
      exact ⟨x, List.mem_append_right _ (List.mem_singleton_self x), rfl⟩

theorem mem_byKey_iff (h : ∀ t ∈ ts, ExpectedForm org t) : t ∈ byKey ts ↔ t ∈ ts := by
  constructor
  · exact mem_of_mem_byKey
  · intro ht
    obtain ⟨u, hu, hkey⟩ := exists_mem_byKey ht
    rw [← tupleKey_inj (h u (mem_of_mem_byKey hu)) (h t ht) hkey]
    exact hu

end Expected

section Insert

variable (org : Uuid)

theorem insertTuples_ok {ts : List RelationTuple} {db : TenantDb} (hnodup : ts.Nodup)
    (hfree : ∀ t ∈ ts, db.row (.tuple t) = none) :
    ∃ db', insertTuples org db ts = .ok db' ∧ (∀ t ∈ ts, db'.row (.tuple t) = some ⟨org, none⟩) ∧
      ∀ k, (∀ t ∈ ts, k ≠ .tuple t) → db'.row k = db.row k := by
  induction ts generalizing db with
  | nil =>
    refine ⟨db, rfl, ?_, fun _ _ => rfl⟩
    intro t ht
    cases ht
  | cons t ts ih =>
    obtain ⟨hnew, hnodup'⟩ := List.nodup_cons.mp hnodup
    have hne {u : RelationTuple} (hu : u ∈ ts) : Key.tuple (κ := SourceKey) u ≠ .tuple t := by
      rintro heq
      cases heq
      exact hnew hu
    have hfree' : ∀ u ∈ ts, (db.set (.tuple t) (some ⟨org, none⟩)).row (.tuple u) = none := by
      intro u hu
      rw [Store.set_row_of_ne _ _ _ _ (hne hu)]
      exact hfree u (List.mem_cons_of_mem t hu)
    obtain ⟨db', hrun, hin, hout⟩ := ih hnodup' hfree'
    refine ⟨db', ?_, ?_, ?_⟩
    · rw [insertTuples, hfree t List.mem_cons_self]
      exact hrun
    · intro u hu
      rcases List.mem_cons.mp hu with rfl | hu
      · rw [hout _ fun v hv heq => hne hv heq.symm, Store.set_row_self]
      · exact hin u hu
    · intro k hk
      rw [hout k fun u hu => hk u (List.mem_cons_of_mem t hu)]
      exact Store.set_row_of_ne _ _ _ _ (hk t List.mem_cons_self)

end Insert

section Rows

def storedRows (db : TenantDb) : List StoredTuple := db.scan fun k =>
  match k with
  | .tuple t => fun row => some ⟨t, row⟩
  | _ => fun _ => none

variable {db : TenantDb} {org : Uuid}

theorem mem_storedRows {x : StoredTuple} :
    x ∈ storedRows db ↔ db.row (.tuple x.tuple) = some x.row := by
  rw [storedRows, Store.mem_scan]
  constructor
  · rintro ⟨k, v, hv, hx⟩
    cases k with
    | tuple t =>
      obtain rfl := Option.some.inj hx
      exact hv
    | _ => cases hx
  · intro h
    exact ⟨.tuple x.tuple, x.row, h, rfl⟩

theorem nodup_storedRows (db : TenantDb) : (storedRows db).Nodup := by
  apply List.Nodup.filterMap ?_ db.nodup
  intro k k' x hk hk'
  obtain ⟨v, -, hv⟩ := Option.bind_eq_some_iff.mp hk
  obtain ⟨v', -, hv'⟩ := Option.bind_eq_some_iff.mp hk'
  cases k with
  | tuple t =>
    cases k' with
    | tuple t' =>
      obtain rfl := Option.some.inj hv
      cases Option.some.inj hv'
      rfl
    | _ => cases hv'
  | _ => cases hv

theorem mem_storedTuples {t : RelationTuple} :
    t ∈ storedTuples db org ↔ ∃ row, db.row (.tuple t) = some row ∧ row.organizationId = org := by
  rw [storedTuples, Store.mem_scan]
  constructor
  · rintro ⟨k, v, hv, hk⟩
    cases k with
    | tuple u =>
      dsimp only at hk
      split_ifs at hk with horg
      obtain rfl := Option.some.inj hk
      exact ⟨v, hv, horg⟩
    | _ => cases hk
  · rintro ⟨row, hrow, horg⟩
    exact ⟨.tuple t, row, hrow, if_pos horg⟩

def StoredTuple.bare (org : Uuid) (x : StoredTuple) : StoredTuple :=
  if x.row.organizationId = org then ⟨x.tuple, ⟨org, none⟩⟩ else x

theorem StoredTuple.bare_tuple (org : Uuid) (x : StoredTuple) : (x.bare org).tuple = x.tuple := by
  unfold bare
  split_ifs <;> rfl

theorem StoredTuple.bare_org (org : Uuid) (x : StoredTuple) :
    (x.bare org).row.organizationId = x.row.organizationId := by
  unfold bare
  split_ifs with h
  · exact h.symm
  · rfl

variable {range : List RelationTuple → List RelationTuple}

theorem nodup_bare (org : Uuid) (db : TenantDb) :
    ((storedRows db).map (StoredTuple.bare org)).Nodup := by
  apply List.Nodup.map_on ?_ (nodup_storedRows db)
  intro x hx y hy heq
  have htuple : x.tuple = y.tuple := by
    rw [← x.bare_tuple org, heq, y.bare_tuple]
  have hrows := mem_storedRows.mp hx
  rw [htuple, mem_storedRows.mp hy] at hrows
  cases x
  cases y
  rw [StoredTuple.mk.injEq]
  exact ⟨htuple, (Option.some.inj hrows).symm⟩

/-- Where the store has the expected tuples, a rebuild succeeds, and all it does is to strip the
tuples of their conditions. -/
theorem rebuildTenant_ok (hrange : ∀ ts, (range ts).Perm ts)
    (hkeys : ∀ t, t ∈ storedTuples db org ↔ t ∈ expectedNow db org) :
    ∃ db' n, rebuildTenant org range db (expectedNow db org) = .ok (db', n) ∧
      (storedRows db').Perm ((storedRows db).map (StoredTuple.bare org)) := by
  have hform : ∀ t ∈ expectedNow db org, ExpectedForm org t := fun t ht => expectedForm_of_mem ht
  have hmem (t : RelationTuple) : t ∈ range (byKey (expectedNow db org)) ↔
      ∃ row, db.row (.tuple t) = some row ∧ row.organizationId = org := by
    rw [(hrange _).mem_iff, mem_byKey_iff hform, ← hkeys, mem_storedTuples]
  have hdeleted (t : RelationTuple) : (deleteTenant org db).row (.tuple t) =
      (db.row (.tuple t)).filter fun row => row.organizationId ≠ org := rfl
  have hfree : ∀ t ∈ range (byKey (expectedNow db org)),
      (deleteTenant org db).row (.tuple t) = none := by
    intro t ht
    obtain ⟨row, hrow, horg⟩ := (hmem t).mp ht
    rw [hdeleted, hrow]
    exact Option.filter_some_neg (by simpa using horg)
  obtain ⟨db', hrun, hin, hout⟩ := insertTuples_ok org
    ((hrange _).nodup_iff.mpr (nodup_byKey (expectedNow db org))) hfree
  refine ⟨db', (byKey (expectedNow db org)).length, ?_, ?_⟩
  · rw [rebuildTenant, checkExpected_ok hform]
    simp only [bind, Except.bind, hrun]
    rfl
  -- a tuple of the tenant is inserted anew without its condition, any other stays as it was
  have hrow (t : RelationTuple) (row : TupleRow) : db'.row (.tuple t) = some row ↔
      ∃ old, db.row (.tuple t) = some old ∧ StoredTuple.bare org ⟨t, old⟩ = ⟨t, row⟩ := by
    by_cases ht : t ∈ range (byKey (expectedNow db org))
    · obtain ⟨old, hold, horg⟩ := (hmem t).mp ht
      rw [hin t ht, hold]
      simp only [StoredTuple.bare, horg, Option.some.injEq, exists_eq_left', ↓reduceIte,
        StoredTuple.mk.injEq, true_and]
    · have hother : ∀ old, db.row (.tuple t) = some old → old.organizationId ≠ org :=
        fun old hold horg => ht ((hmem t).mpr ⟨old, hold, horg⟩)
      rw [hout (.tuple t) fun u hu heq => ht (Key.tuple.inj heq ▸ hu), hdeleted,
        Option.filter_eq_some_iff]
      constructor
      · rintro ⟨hold, horg⟩
        exact ⟨row, hold, if_neg (of_decide_eq_true horg)⟩
      · rintro ⟨old, hold, hbare⟩
        rw [StoredTuple.bare, if_neg (hother old hold), StoredTuple.mk.injEq] at hbare
        rw [← hbare.2]
        exact ⟨hold, decide_eq_true (hother old hold)⟩
  apply (List.perm_ext_iff_of_nodup (nodup_storedRows db') (nodup_bare org db)).mpr
  intro x
  rw [mem_storedRows, hrow, List.mem_map]
  constructor
  · rintro ⟨old, hold, hbare⟩
    exact ⟨⟨x.tuple, old⟩, mem_storedRows.mpr hold, hbare⟩
  · rintro ⟨y, hy, hbare⟩
    have htuple : x.tuple = y.tuple := by
      rw [← hbare, y.bare_tuple]
    refine ⟨y.row, htuple ▸ mem_storedRows.mp hy, ?_⟩
    rw [htuple]
    rw [show (⟨y.tuple, y.row⟩ : StoredTuple) = y from rfl, hbare, ← htuple]

end Rows

end ArchGuard.Authz
