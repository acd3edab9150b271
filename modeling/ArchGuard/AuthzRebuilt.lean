import ArchGuard.AuthzRebuild

/-! Whether the checks of a tenant answer the same before and after a rebuild. -/
namespace ArchGuard.Authz
open ReadCommitted Tenancy

section Graphs

variable {rows : List StoredTuple} {f : StoredTuple → StoredTuple} {object relation : String}

theorem mem_graphOf {sub : GraphSubject} : sub ∈ graphOf rows object relation ↔
    ∃ x ∈ rows, memKey x.tuple.object x.tuple.relation = memKey object relation ∧
      sub = ⟨x.tuple.user, x.window⟩ := by
  simp only [graphOf, memoryGraph, List.mem_map, List.mem_filter, decide_eq_true_eq]
  constructor
  · rintro ⟨t, ⟨⟨x, hx, rfl⟩, hkey⟩, rfl⟩
    exact ⟨x, hx, hkey, rfl⟩
  · rintro ⟨x, hx, hkey, rfl⟩
    exact ⟨⟨x.tuple, x.window⟩, ⟨⟨x, hx, rfl⟩, hkey⟩, rfl⟩

theorem graphOf_map_related (hf : ∀ x, (f x).tuple = x.tuple)
    {R : GraphSubject → GraphSubject → Prop}
    (h : ∀ x ∈ rows, memKey x.tuple.object x.tuple.relation = memKey object relation →
      R ⟨x.tuple.user, (f x).window⟩ ⟨x.tuple.user, x.window⟩) :
    List.Forall₂ R (graphOf (rows.map f) object relation) (graphOf rows object relation) := by
  induction rows with
  | nil => exact List.Forall₂.nil
  | cons x rows ih =>
    have hrest := ih fun y hy => h y (List.mem_cons_of_mem x hy)
    simp only [graphOf, memoryGraph, List.map_cons, List.filter_cons, hf] at hrest ⊢
    by_cases hkey : memKey x.tuple.object x.tuple.relation = memKey object relation
    · simp only [hkey, decide_true, if_true, List.map_cons]
      exact List.Forall₂.cons (h x List.mem_cons_self hkey) hrest
    · simp only [hkey, decide_false, Bool.false_eq_true, if_false]
      exact hrest

theorem memKey_inj {object' relation' : String} (hr : '\x00' ∉ relation.toList)
    (hr' : '\x00' ∉ relation'.toList) (h : memKey object relation = memKey object' relation') :
    object = object' ∧ relation = relation' := by
  have hkeys : object.toList ++ '\x00' :: relation.toList =
      object'.toList ++ '\x00' :: relation'.toList := by
    simpa [memKey] using congrArg String.toList h
  obtain ⟨hobject, hrelation⟩ := cut_last_inj hr hr' hkeys
  exact ⟨String.toList_inj.mp hobject, String.toList_inj.mp hrelation⟩

end Graphs

section Answers

variable {column : String → Option Uuid} {db db' : TenantDb} {org : Uuid}
  {rows : List StoredTuple} {req : CheckRequest}

/-- What a check can answer: the rows of a query come back in any order. -/
def Answers (column : String → Option Uuid) (db : TenantDb) (req : CheckRequest)
    (r : Except PdpError Decision) : Prop :=
  ∃ rows, rows.Perm (storedRows db) ∧ check column rows req = r

/-- No tuple of a grant on an asset of the organization has a window that is ever open. -/
def NoGrantOpens (db : TenantDb) (org : Uuid) : Prop :=
  ∀ x ∈ storedRows db, x.row.organizationId = org → x.tuple.relation = relHasActiveGrant →
    refType x.tuple.object = ObjectType.asset.text → ∀ w, x.window = some w →
      w.expiresAt ≤ w.notBefore

theorem bare_window (x : StoredTuple) (h : x.row.organizationId = org) :
    (x.bare org).window = none := by
  rw [StoredTuple.bare, if_pos h]
  rfl

theorem bare_of_ne {x : StoredTuple} (h : x.row.organizationId ≠ org) : x.bare org = x :=
  if_neg h

theorem tenantRows_bare (text : String) : tenantRows column (rows.map (StoredTuple.bare org)) text =
    (tenantRows column rows text).map fun found => found.map (StoredTuple.bare org) := by
  unfold tenantRows
  cases column text with
  | none => rfl
  | some id =>
    simp only [Except.map, List.filter_map, Except.ok.injEq]
    congr 1
    apply List.filter_congr
    intro x _
    simp only [Function.comp_apply, x.bare_org]

theorem evalCondition_never {w : Option ValidityWindow} {ctx : CheckContext}
    (h : ∀ v, w = some v → v.expiresAt ≤ v.notBefore) :
    evalCondition conditionValidWindow w ctx = false := by
  apply Bool.eq_false_iff.mpr
  intro hopen
  obtain ⟨v, hv, hcontains⟩ := evalCondition_window.mp hopen
  have hle := h v hv
  simp only [ValidityWindow.contains, Bool.and_eq_true, Bool.not_eq_true', decide_eq_false_iff_not,
    decide_eq_true_eq, not_lt] at hcontains
  exact absurd (lt_of_le_of_lt hcontains.1 hcontains.2) (not_lt.mpr hle)

theorem check_bare (hform : ∀ x ∈ rows, x.row.organizationId = org → ExpectedForm org x.tuple)
    (hnever : ∀ x ∈ rows, x.row.organizationId = org → x.tuple.relation = relHasActiveGrant →
      refType x.tuple.object = ObjectType.asset.text → ∀ w, x.window = some w →
        w.expiresAt ≤ w.notBefore) :
    check column (rows.map (StoredTuple.bare org)) req = check column rows req := by
  have hsame (id : Uuid) : SameOpen req.context req.context
      (graphOf ((rows.filter fun x => x.row.organizationId = id).map (StoredTuple.bare org)))
      (graphOf (rows.filter fun x => x.row.organizationId = id)) := by
    constructor
    · intro o r
      exact graphOf_map_related (fun x => x.bare_tuple org) fun x _ _ => rfl
    · intro o hasset
      apply graphOf_map_related fun x => x.bare_tuple org
      intro x hx hkey
      refine ⟨rfl, ?_⟩
      have hmem := (List.mem_filter.mp hx).1
      -- only the rows of the tenant lose their conditions, and none of these ever opened
      by_cases horg : x.row.organizationId = org
      · obtain ⟨rfl, hrelation⟩ := memKey_inj (hform x hmem horg).relation_nul (by decide) hkey
        have hclosed := hnever x hmem horg hrelation hasset
        rw [bare_window x horg, evalCondition_never hclosed]
        rfl
      · rw [bare_of_ne horg]
  unfold check
  rw [tenantRows_bare]
  split_ifs
  · rfl
  · cases guardSameTenant req.tuple.user req.tuple.object with
    | error err => rfl
    | ok _ =>
      dsimp only
      unfold tenantRows
      cases column ((refOrg req.tuple.object).getD "") with
      | none => rfl
      | some id =>
        simp only [Except.map, bind, Except.bind, evaluate_congr (hsame id)]

theorem check_of_form {t : RelationTuple} (rows : List StoredTuple) (at' : Time)
    (hcolumn : ∀ u : Uuid, column u.text = some u) (hform : ExpectedForm org t) :
    check column rows ⟨t, ⟨at'⟩⟩ =
      (evaluate (graphOf (rows.filter fun x => x.row.organizationId = org)) t.object t.relation
        t.user ⟨at'⟩).mapError .resolver :=
  check_of_column hform.relation_ne hform.user hform.object (hcolumn org)

theorem check_grant {x : StoredTuple} (at' : Time) (hcolumn : ∀ u : Uuid, column u.text = some u)
    (hform : ∀ y ∈ rows, y.row.organizationId = org → ExpectedForm org y.tuple)
    (hx : ExpectedForm org x.tuple) (hrelation : x.tuple.relation = relHasActiveGrant)
    (hasset : refType x.tuple.object = ObjectType.asset.text) :
    ∃ d, check column rows ⟨x.tuple, ⟨at'⟩⟩ = .ok d ∧ (d.allowed = true ↔
      ∃ y ∈ rows, y.row.organizationId = org ∧ y.tuple = x.tuple ∧
        ∃ w, y.window = some w ∧ w.contains at' = true) := by
  have hmem (sub : GraphSubject) : sub ∈ graphOf (rows.filter fun x => x.row.organizationId = org)
      x.tuple.object relHasActiveGrant ↔ ∃ y ∈ rows, y.row.organizationId = org ∧
        (y.tuple.object = x.tuple.object ∧ y.tuple.relation = relHasActiveGrant) ∧
          sub = ⟨y.tuple.user, y.window⟩ := by
    simp only [mem_graphOf, List.mem_filter, decide_eq_true_eq]
    constructor
    · rintro ⟨y, ⟨hy, horg⟩, hkey, rfl⟩
      exact ⟨y, hy, horg, memKey_inj (hform y hy horg).relation_nul (by decide) hkey, rfl⟩
    · rintro ⟨y, hy, horg, ⟨hobject, hrel⟩, rfl⟩
      exact ⟨y, ⟨hy, horg⟩, by rw [hobject, hrel], rfl⟩
  have hconcrete : ∀ sub ∈ graphOf (rows.filter fun x => x.row.organizationId = org)
      x.tuple.object relHasActiveGrant, splitUserset sub.ref = none := by
    intro sub hsub
    obtain ⟨y, hy, horg, ⟨-, hrel⟩, rfl⟩ := (hmem sub).mp hsub
    exact (hform y hy horg).grantee hrel
  obtain ⟨why, hans⟩ := evaluate_hasActiveGrant x.tuple.user at' hasset hconcrete
  have hcheck := check_of_form rows at' hcolumn hx
  rw [hrelation, hans] at hcheck
  refine ⟨_, hcheck, ?_⟩
  rw [List.any_eq_true]
  constructor
  · rintro ⟨sub, hsub, htest⟩
    obtain ⟨y, hy, horg, ⟨hobject, hrel⟩, rfl⟩ := (hmem sub).mp hsub
    rw [Bool.and_eq_true, decide_eq_true_eq, evalCondition_window] at htest
    refine ⟨y, hy, horg, ?_, htest.1⟩
    rw [RelationTuple.mk.injEq]
    exact ⟨htest.2, hrel.trans hrelation.symm, hobject⟩
  · rintro ⟨y, hy, horg, htuple, hwindow⟩
    refine ⟨⟨y.tuple.user, y.window⟩, (hmem _).mpr ⟨y, hy, horg, ?_, rfl⟩, ?_⟩
    · rw [htuple]
      exact ⟨rfl, hrelation⟩
    · rw [Bool.and_eq_true, decide_eq_true_eq, evalCondition_window, htuple]
      exact ⟨hwindow, rfl⟩

theorem answers_bare_iff (hcolumn : ∀ u : Uuid, column u.text = some u)
    (hform : ∀ x ∈ storedRows db, x.row.organizationId = org → ExpectedForm org x.tuple)
    (hperm : (storedRows db').Perm ((storedRows db).map (StoredTuple.bare org))) :
    (∀ req r, Answers column db' req r ↔ Answers column db req r) ↔ NoGrantOpens db org := by
  constructor
  · intro h x hx horg hrelation hasset w hw
    by_contra hlt
    have hopen : w.contains w.notBefore = true := by
      simp only [ValidityWindow.contains, lt_self_iff_false, decide_false, Bool.not_false,
        Bool.true_and, decide_eq_true_eq]
      exact not_le.mp hlt
    -- the check on the grant at the beginning of its window
    obtain ⟨d, hd, hallowed⟩ := check_grant w.notBefore hcolumn hform (hform x hx horg)
      hrelation hasset
    have hyes : d.allowed = true := hallowed.mpr ⟨x, hx, horg, rfl, w, hw, hopen⟩
    obtain ⟨rows, hrows, hcheck⟩ := (h _ _).mpr ⟨storedRows db, List.Perm.refl _, hd⟩
    have hbare : ∀ y ∈ rows, ∃ z ∈ storedRows db, z.bare org = y := fun y hy =>
      List.mem_map.mp ((hrows.trans hperm).mem_iff.mp hy)
    have hform' : ∀ y ∈ rows, y.row.organizationId = org → ExpectedForm org y.tuple := by
      intro y hy hy'
      obtain ⟨z, hz, rfl⟩ := hbare y hy
      rw [z.bare_org] at hy'
      rw [z.bare_tuple]
      exact hform z hz hy'
    obtain ⟨d', hd', hallowed'⟩ := check_grant w.notBefore hcolumn hform' (hform x hx horg)
      hrelation hasset
    rw [hcheck] at hd'
    obtain rfl := Except.ok.inj hd'
    obtain ⟨y, hy, hy', -, v, hv, -⟩ := hallowed'.mp hyes
    obtain ⟨z, -, rfl⟩ := hbare y hy
    rw [z.bare_org] at hy'
    rw [bare_window z hy'] at hv
    cases hv
  · intro hnever req r
    have hcheck (rows : List StoredTuple) (hrows : rows.Perm (storedRows db)) :
        check column (rows.map (StoredTuple.bare org)) req = check column rows req :=
      check_bare (fun x hx => hform x (hrows.mem_iff.mp hx))
        (fun x hx => hnever x (hrows.mem_iff.mp hx))
    constructor
    · rintro ⟨rows, hrows, hr⟩
      have hrel : List.Forall₂ (fun a b => a = StoredTuple.bare org b)
          ((storedRows db).map (StoredTuple.bare org)) (storedRows db) := by
        rw [List.forall₂_map_left_iff]
        exact List.forall₂_same.mpr fun _ _ => rfl
      obtain ⟨rows', hforall, hperm'⟩ := List.perm_comp_forall₂ (hrows.trans hperm) hrel
      have hmap : rows = rows'.map (StoredTuple.bare org) := by
        have heq := List.forall₂_map_right_iff.mpr hforall
        rwa [List.forall₂_eq_eq_eq] at heq
      refine ⟨rows', hperm', ?_⟩
      rw [← hcheck rows' hperm', ← hmap]
      exact hr
    · rintro ⟨rows, hrows, hr⟩
      refine ⟨rows.map (StoredTuple.bare org), (hrows.map _).trans hperm.symm, ?_⟩
      rw [hcheck rows hrows]
      exact hr

end Answers

/-- A rebuild of a tenant whose store has the expected tuples keeps what every check can answer,
exactly when none of its grants ever opens: the conditions of the tuples are lost. -/
theorem rebuild_keeps_answers_iff {column : String → Option Uuid}
    {range : List RelationTuple → List RelationTuple} {db : TenantDb} {org : Uuid}
    (hcolumn : ∀ u : Uuid, column u.text = some u) (hrange : ∀ ts, (range ts).Perm ts)
    (hkeys : ∀ t, t ∈ storedTuples db org ↔ t ∈ expectedNow db org) :
    ∃ db' n, rebuildTenant org range db (expectedNow db org) = .ok (db', n) ∧
      ((∀ req r, Answers column db' req r ↔ Answers column db req r) ↔ NoGrantOpens db org) := by
  obtain ⟨db', n, hrun, hperm⟩ := rebuildTenant_ok hrange hkeys
  refine ⟨db', n, hrun, answers_bare_iff hcolumn ?_ hperm⟩
  intro x hx horg
  exact expectedForm_of_mem
    ((hkeys x.tuple).mp (mem_storedTuples.mpr ⟨x.row, mem_storedRows.mp hx, horg⟩))

namespace Sample

def activeMembership : Membership := ⟨3, 5, 1, .active, none⟩

def openGrant : PrivilegedGrant :=
  ⟨6, 1, 3, server, .breakglass, .active, 0, [], 1000000, 9000000, "outage", "INC-1"⟩

def openWindow : ValidityWindow := ⟨1000000, 9000000⟩

/-- A tenant whose outbox is drained: its one tuple is the grant's. -/
def grantedTenant : TenantDb :=
  ((Store.empty.set (.source (.tenancy (.membership 3))) (some ⟨activeMembership, rfl⟩)).set
    (.source (.tenancy (.grant 6))) (some ⟨openGrant, rfl, rfl⟩)).set
      (.tuple (grantTuple 1 3 7)) (some ⟨1, some ⟨conditionValidWindow, openWindow⟩⟩)

theorem grantedTenant_keys (t : RelationTuple) :
    t ∈ storedTuples grantedTenant 1 ↔ t ∈ expectedNow grantedTenant 1 := by
  have hstored : storedTuples grantedTenant 1 = [grantTuple 1 3 7] := by decide
  have hexpected : expectedNow grantedTenant 1 = [grantTuple 1 3 7] := by decide
  rw [hstored, hexpected]

theorem grantedTenant_drained (id : Uuid) (row : OutboxRow)
    (h : grantedTenant.row (.outbox id) = some row) : row.published = true := by
  have hnone : grantedTenant.row (.outbox id) = none := rfl
  rw [hnone] at h
  cases h

theorem grantedTenant_opens : ¬NoGrantOpens grantedTenant 1 := by
  intro h
  have hmem : (⟨grantTuple 1 3 7, 1, some ⟨conditionValidWindow, openWindow⟩⟩ : StoredTuple) ∈
      storedRows grantedTenant := mem_storedRows.mpr rfl
  have hle := h _ hmem rfl rfl (refType_qualify 1 .asset 7) openWindow rfl
  exact absurd hle (by decide)

end Sample

theorem rebuild_keeps_answers_granted :
    ∃ db' n, rebuildTenant 1 id Sample.grantedTenant (expectedNow Sample.grantedTenant 1) =
        .ok (db', n) ∧
      ((∀ req r, Answers Uuid.ofText db' req r ↔ Answers Uuid.ofText Sample.grantedTenant req r) ↔
        NoGrantOpens Sample.grantedTenant 1) :=
  rebuild_keeps_answers_iff Uuid.ofText_text (fun _ => List.Perm.refl _) Sample.grantedTenant_keys

/-- The window of an active grant does not survive the rebuild. -/
theorem rebuild_loses_window : ¬∀ (db : TenantDb) (org : Uuid),
    (∀ id row, db.row (.outbox id) = some row → row.published = true) →
    (∀ t, t ∈ storedTuples db org ↔ t ∈ expectedNow db org) →
    ∀ db' n, rebuildTenant org id db (expectedNow db org) = .ok (db', n) →
      ∀ req r, Answers Uuid.ofText db' req r ↔ Answers Uuid.ofText db req r := by
  intro h
  obtain ⟨db', n, hrun, hperm⟩ := rebuildTenant_ok (fun _ => List.Perm.refl _)
    Sample.grantedTenant_keys
  have hform : ∀ x ∈ storedRows Sample.grantedTenant, x.row.organizationId = 1 →
      ExpectedForm 1 x.tuple := by
    intro x hx horg
    have hstored := mem_storedTuples.mpr ⟨x.row, mem_storedRows.mp hx, horg⟩
    exact expectedForm_of_mem ((Sample.grantedTenant_keys x.tuple).mp hstored)
  have hsame := h Sample.grantedTenant 1 Sample.grantedTenant_drained Sample.grantedTenant_keys db' n
    hrun
  exact Sample.grantedTenant_opens ((answers_bare_iff Uuid.ofText_text hform hperm).mp hsame)

end ArchGuard.Authz
