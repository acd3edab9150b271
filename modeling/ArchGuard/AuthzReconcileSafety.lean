import ArchGuard.AuthzReconcileHolds
import ArchGuard.AuthzConvergence

/-! What a pass of the reconciler removes, while publishers and source transactions run. -/
namespace ArchGuard.Authz
open ReadCommitted TransitionRun Tenancy

section Commits

variable {parse column : String → Option Uuid} {c c' : SiteCfg} {i j : ℕ} {p q : SitePc}
  {e : Event SiteReq} {org : Uuid} {t : RelationTuple}

theorem next_commit_cases {n : Option SitePc} (h : (siteProgram parse column).next p = .commit n) :
    (∃ start queued, p = .outbox (.business start queued .commit)) ∨
      (∃ r rest, p = .outbox (.marked r rest)) ∨ (∃ rows, p = .outbox (.fetched rows)) ∨
      p.tenant ≠ none := by
  cases p with
  | outbox l =>
    cases l with
    | business start queued s =>
      cases s with
      | commit => exact Or.inl ⟨start, queued, rfl⟩
      | enqueue updates next =>
        cases updates with
        | nil => cases h
        | cons u updates =>
          simp only [siteProgram, outboxProgram, businessNext] at h
          cases horg : enqueueOrg parse u.2 <;> rw [horg] at h <;> cases h
      | _ => cases h
    | marked r rest => exact Or.inr (Or.inl ⟨r, rest, rfl⟩)
    | fetched rows => exact Or.inr (Or.inr (Or.inl ⟨rows, rfl⟩))
    | apply r rest =>
      simp only [siteProgram, outboxProgram, applyTupleUpdate] at h
      cases hop : r.row.op with
      | write =>
        rw [hop] at h
        dsimp only at h
        cases horg : (refOrg r.row.tuple.object).bind column <;> rw [horg] at h <;> cases h
      | delete =>
        rw [hop] at h
        cases h
    | skip r rest => cases rest <;> cases h
    | _ => cases h
  | _ => exact Or.inr (Or.inr (Or.inr (Option.some_ne_none _)))

theorem clean_of_pass (hp : p.tenant = some org) (h : SiteHolds c i p) : Clean c i := by
  cases p with
  | outbox l => cases hp
  | query org found rest => exact h.1
  | load org expected => exact h.1
  | loaded org extra => exact h.1
  | remove org extra rest => exact h.1

theorem sameSource_of_clean (h : ∀ k r, c.lock (.source k) ≠ some (i, r)) :
    SameSource c.db (c.view i) :=
  fun k => Cfg.viewRow_other (h k)

theorem PendingWrite.of_clean (hp : PendingWrite c.db t)
    (h : ∀ id r, c.lock (.outbox id) = some (i, r) → c.db.row (.outbox id) = none) :
    PendingWrite (c.view i) t := by
  obtain ⟨id, row, hrow, hpub⟩ := hp
  refine ⟨id, row, ?_, hpub⟩
  rw [← hrow]
  apply Cfg.viewRow_other
  intro r hr
  rw [h id r hr] at hrow
  cases hrow

theorem Safe.congr {db db' : TenantDb} (h : Safe db org t) (hs : SameSource db db')
    (hp : PendingWrite db t → PendingWrite db' t) : Safe db' org t :=
  fun ht => hp (h ((mem_expectedNow_congr hs).mp ht))

/-- What the steps of others must not do to a tuple that a pass may still remove: no transaction
commits that makes the source expect it without a pending write, and no publisher takes the last
pending write of it while the source expects it. -/
def Undisturbed (c : SiteCfg) (e : Event SiteReq) : Prop :=
  ∀ i j p org t, e = .step i → c.proc j = some p → p.tenant = some org → p.due t →
    (∀ start queued, c.proc i = some (.outbox (.business start queued .commit)) →
      t ∈ expectedNow (c.view i) org → t ∈ expectedNow c.db org ∨ PendingWrite (c.view i) t) ∧
    ∀ r rest row, c.proc i = some (.outbox (.marked r rest)) →
      c.db.row (.outbox r.id) = some row → row.op = .write → row.tuple = t →
      t ∈ expectedNow c.db org → PendingWrite (c.view i) t

/-- A commit of a pass takes no tuple from the store that the source expects, unless a pending row
will write it again. -/
def RemovesStale (parse column : String → Option Uuid) (c : SiteCfg) (e : Event SiteReq) : Prop :=
  ∀ i p n org t, e = .step i → c.proc i = some p → p.tenant = some org →
    (siteProgram parse column).next p = .commit n → c.db.row (.tuple t) ≠ none →
    (c.view i).row (.tuple t) = none → t ∉ expectedNow c.db org ∨ PendingWrite c.db t

structure SiteInv (c : SiteCfg) : Prop where
  live : OwnersLive c
  holds : ∀ i p, c.proc i = some p → SiteHolds c i p
  safe : ∀ i p org t, c.proc i = some p → p.tenant = some org → p.due t → Safe c.db org t

theorem siteHolds_entry (hlive : OwnersLive c) (hi : c.proc i = none) (r : SiteReq) :
    SiteHolds c i ((siteProgram parse column).entry r) := by
  have hclean : Clean c i := ⟨fun k v hl => hlive _ i v hl hi, fun id v hl => hlive _ i v hl hi⟩
  cases r with
  | outbox r =>
    cases r with
    | business start s => exact fun id v hl => absurd hi (hlive _ i v hl)
    | publish batch => exact hclean
  | reconcile org => exact ⟨hclean, fun t v hl => hlive _ i v hl hi⟩

theorem SiteInv.holds_step (hc : SiteInv c) (h : exec (siteProgram parse column) c e = some c')
    (hq : c'.proc j = some q) : SiteHolds c' j q := by
  by_cases hj : j = e.actor
  swap
  · obtain ⟨hframe, hproc⟩ := frame_of_exec h hj
    exact (hc.holds j q (hproc ▸ hq)).frame hframe
  rcases exec_cases h with ⟨i, r, rfl, hi, rfl⟩ | ⟨i, rfl, -, rfl⟩ | ⟨i, p, rfl, hp, ha⟩
  · change j = i at hj
    subst hj
    exact siteHolds_goto ((siteHolds_entry hc.live hi r).frame (.goto _)) hq
  · change j = i at hj
    rw [hj, Cfg.rollback_proc, Function.update_self] at hq
    cases hq
  · change j = i at hj
    subst hj
    have hold := hc.holds j p hp
    cases htenant : p.tenant with
    | some org => exact siteHolds_pass htenant hold ha hq
    | none =>
      -- what is no pass is a business transaction or a drain
      cases p with
      | outbox l =>
        cases l with
        | business start queued s => exact siteHolds_business hold ha hq
        | _ => exact siteHolds_publisher hold (fun _ _ _ hl => by cases hl) ha hq
      | _ => cases htenant

theorem outbox_of_nested {a : Action (Row SourceRow) (Pc SourceRow)}
    (h : Reaches c i (nested SitePc.outbox a) q) : ∃ l, q = .outbox l := by
  generalize hb : nested SitePc.outbox a = b at h
  cases a with
  | read next =>
    cases hb
    cases h
    exact ⟨_, rfl⟩
  | update k absent present =>
    cases hb
    cases h <;> exact ⟨_, rfl⟩
  | insert k v inserted conflict =>
    cases hb
    cases h <;> exact ⟨_, rfl⟩
  | commit next =>
    cases next with
    | none =>
      cases hb
      cases h
    | some l =>
      cases hb
      cases h
      exact ⟨l, rfl⟩
  | rollback next =>
    cases hb
    cases h
    exact ⟨_, rfl⟩
  | abort =>
    cases hb
    cases h

theorem not_mem_of_extra {expected actual : List RelationTuple}
    (h : t ∈ (reconcileDiff expected actual).1) : t ∉ expected := by
  intro hmem
  rw [reconcileDiff, sortTuples, List.mem_mergeSort, List.mem_filter] at h
  have hany : (expected.any fun x => tupleKey x = tupleKey t) = true :=
    List.any_eq_true.mpr ⟨t, hmem, decide_eq_true rfl⟩
  rw [hany] at h
  cases h.2

theorem due_step (hholds : SiteHolds c i p)
    (ha : c.act i ((siteProgram parse column).next p) = some c') (hq : c'.proc i = some q)
    (htenant : q.tenant = some org) (hdue : q.due t) :
    p.tenant = some org ∧ (p.due t ∨ t ∉ expectedNow c.db org) := by
  have hr := proc_of_act ha hq
  cases p with
  | outbox l =>
    obtain ⟨l', rfl⟩ := outbox_of_nested hr
    cases htenant
  | query o found rest =>
    cases rest with
    | nil =>
      cases hr with
      | commit => exact ⟨htenant, Or.inl ⟨hdue, List.not_mem_nil⟩⟩
    | cons k rest =>
      cases hr with
      | read =>
        refine ⟨htenant, ?_⟩
        obtain ⟨hfound, hrest⟩ := hdue
        have hold : t ∉ found := fun hmem => hfound (List.mem_append_left _ hmem)
        have hnow : t ∉ k.run (tenantState (c.view i)) o :=
          fun hmem => hfound (List.mem_append_right _ hmem)
        have horg : o = org := Option.some.inj htenant
        by_cases hk : TenantQuery.of t = k
        · -- the query that has just been run is the one that would list it
          right
          rw [← hk, mem_run_congr (sameSource_of_clean hholds.1.source), horg] at hnow
          exact not_expected_of_run hnow
        · refine Or.inl ⟨hold, fun hmem => ?_⟩
          rcases List.mem_cons.mp hmem with hkt | hmem
          · exact hk hkt
          · exact hrest hmem
  | load o expected =>
    cases hr with
    | read =>
      exact ⟨htenant, Or.inl (not_mem_of_extra hdue)⟩
  | loaded o extra =>
    obtain rfl := act_commit ha
    rw [Cfg.commit_proc, Function.update_self] at hq
    obtain rfl := mem_removals hq
    exact ⟨htenant, Or.inl hdue⟩
  | remove o extra rest =>
    cases rest with
    | nil => cases hr
    | cons u rest =>
      cases hr with
      | absent hk => exact ⟨htenant, Or.inl hdue⟩
      | present hv => exact ⟨htenant, Or.inl hdue⟩

theorem safe_commit {n : Option SitePc} {pj : SitePc} (hc : SiteInv c) (hp : c.proc i = some p)
    (hn : (siteProgram parse column).next p = .commit n) (hok : Undisturbed c (.step i))
    (hj : c.proc j = some pj) (htenant : pj.tenant = some org) (hdue : pj.due t)
    (hsafe : Safe c.db org t) : Safe (c.view i) org t := by
  have hholds := hc.holds i p hp
  have hclean (h : Clean c i) : Safe (c.view i) org t := by
    apply hsafe.congr (sameSource_of_clean h.source)
    intro hpending
    exact hpending.of_clean fun id r hr => absurd hr (h.outbox id r)
  obtain ⟨hbusiness, hmarked⟩ := hok i j pj org t rfl hj htenant hdue
  rcases next_commit_cases hn with ⟨start, queued, rfl⟩ | ⟨r, rest, rfl⟩ | ⟨rows, rfl⟩ | hpass
  · intro hnow
    rcases hbusiness start queued hp hnow with hbefore | hpending
    · exact (hsafe hbefore).of_clean fun id r hr => (hholds id r hr).2
    · exact hpending
  · obtain ⟨hsource, honly, row, hrow, hlock⟩ := hholds
    intro hnow
    rw [mem_expectedNow_congr (sameSource_of_clean hsource)] at hnow
    obtain ⟨id, row', hrow', hpub, hop, htuple⟩ := hsafe hnow
    by_cases hid : id = r.id
    · -- the row that is marked writes the tuple
      subst hid
      exact hmarked r rest row' hp hrow' hop htuple hnow
    · refine ⟨id, row', ?_, hpub, hop, htuple⟩
      rw [← hrow']
      exact Cfg.viewRow_other fun v hv => hid (honly id v hv)
  · exact hclean hholds
  · obtain ⟨o, ho⟩ := Option.ne_none_iff_exists'.mp hpass
    exact hclean (clean_of_pass ho hholds)

theorem SiteInv.due_before (hc : SiteInv c) (h : exec (siteProgram parse column) c e = some c')
    (hq : c'.proc j = some q) (htenant : q.tenant = some org) (hdue : q.due t) :
    (∃ p, c.proc j = some p ∧ p.tenant = some org ∧ p.due t) ∨
      (t ∉ expectedNow c.db org ∧ ∃ p, e = .step j ∧ c.proc j = some p ∧ p.tenant = some org) := by
  rcases proc_of_exec h hq with ⟨hold, -⟩ | ⟨r, rfl, -, rfl⟩ | ⟨p, rfl, hp, -⟩
  · exact Or.inl ⟨q, hold, htenant, hdue⟩
  · -- a pass that has just begun has still to run every query
    cases r with
    | outbox r => cases htenant
    | reconcile o => exact absurd (TenantQuery.mem_all _) hdue.2
  · have ha : c.act j ((siteProgram parse column).next p) = some c' := by
      rw [exec, hp] at h
      exact h
    obtain ⟨hp', hold | hnot⟩ := due_step (hc.holds j p hp) ha hq htenant hdue
    · exact Or.inl ⟨p, hp, hp', hold⟩
    · exact Or.inr ⟨hnot, p, rfl, hp, hp'⟩

theorem SiteInv.safe_step (hc : SiteInv c) (hok : Undisturbed c e)
    (h : exec (siteProgram parse column) c e = some c') (hq : c'.proc j = some q)
    (htenant : q.tenant = some org) (hdue : q.due t) : Safe c'.db org t := by
  have hbefore := hc.due_before h hq htenant hdue
  have hsafe : Safe c.db org t := by
    rcases hbefore with ⟨p, hp, hp', hold⟩ | ⟨hnot, -⟩
    · exact hc.safe j p org t hp hp' hold
    · exact fun hmem => absurd hmem hnot
  rcases row_of_exec h with hrow | ⟨i, l, n, rfl, hi, hn, rfl⟩
  · apply hsafe.congr
    · intro k
      rw [hrow]
    · rintro ⟨id, row, hid, hwrites⟩
      refine ⟨id, row, ?_, hwrites⟩
      rw [hrow]
      exact hid
  · rcases hbefore with ⟨p, hp, hp', hold⟩ | ⟨hnot, p, he, hp, hp'⟩
    · exact safe_commit hc hi hn hok hp hp' hold hsafe
    · -- the pass itself commits, and it holds nothing of the source
      obtain rfl : i = j := Event.step.inj he
      intro hmem
      have hclean := clean_of_pass hp' (hc.holds i p hp)
      rw [Cfg.commit] at hmem
      rw [mem_expectedNow_congr (sameSource_of_clean hclean.source)] at hmem
      exact absurd hmem hnot

theorem SiteInv.step (hc : SiteInv c) (hok : Undisturbed c e)
    (h : exec (siteProgram parse column) c e = some c') : SiteInv c' where
  live := hc.live.step h
  holds _ _ hq := hc.holds_step h hq
  safe _ _ _ _ hq htenant hdue := hc.safe_step hok h hq htenant hdue

theorem siteInv_idle (db : TenantDb) : SiteInv (Cfg.idle db) where
  live := ownersLive_idle db
  holds _ _ hp := by cases hp
  safe _ _ _ _ hp := by cases hp

theorem due_of_removed (hholds : SiteHolds c i p) (htenant : p.tenant = some org)
    (hrow : c.db.row (.tuple t) ≠ none) (hview : (c.view i).row (.tuple t) = none) : p.due t := by
  have hown : ∃ r, c.lock (.tuple t) = some (i, r) := by
    by_contra hnone
    have hother : ∀ r, c.lock (.tuple t) ≠ some (i, r) := fun r hr => hnone ⟨r, hr⟩
    rw [Cfg.view_row, Cfg.viewRow_other hother] at hview
    exact hrow hview
  obtain ⟨r, hr⟩ := hown
  cases p with
  | outbox l => cases htenant
  | query o found rest => exact absurd hr (hholds.2 t r)
  | load o expected => exact absurd hr (hholds.2 t r)
  | loaded o extra => exact absurd hr (hholds.2 t r)
  | remove o extra rest => exact hholds.2.1 t r hr

theorem SiteInv.removesStale (hc : SiteInv c) : RemovesStale parse column c e := by
  intro i p n org t he hp htenant hn hrow hview
  have hdue := due_of_removed (hc.holds i p hp) htenant hrow hview
  have hsafe := hc.safe i p org t hp htenant hdue
  by_cases hmem : t ∈ expectedNow c.db org
  · exact Or.inr (hsafe hmem)
  · exact Or.inl hmem

/-- While no transaction disturbs what a pass is about to remove, the passes remove nothing that
the source expects and that no pending row would write again. -/
theorem reconcile_removes_stale (db : TenantDb) {es : List (Event SiteReq)}
    (h : Along (exec (siteProgram parse column)) Undisturbed (Cfg.idle db) es) :
    Along (exec (siteProgram parse column)) (RemovesStale parse column) (Cfg.idle db) es := by
  apply along_imp (I := SiteInv) ?_ ?_ (siteInv_idle db) h
  · exact fun _ _ _ hc hok he => hc.step hok he
  · exact fun _ _ hc _ => hc.removesStale

end Commits

namespace Sample

/-- Asset group 4 of organization 1, and a subgroup of it. -/
def parentGroup : AssetGroup := ⟨4, 1, "dc-south", none⟩

def childGroup : AssetGroup := ⟨3, 1, "db", some 4⟩

def parentTuple : RelationTuple :=
  ⟨qualify 1 .assetGroup (Uuid.text 4), relParent, qualify 1 .assetGroup (Uuid.text 3)⟩

def oneGroup : TenantDb := Store.empty.set (.source (.assetGroup 4)) (some ⟨parentGroup, rfl⟩)

/-- The tuple of a subgroup that the source does not have. -/
def staleTuple : TenantDb := oneGroup.set (.tuple parentTuple) (some ⟨1, none⟩)

def nestGroup : Script SourceRow :=
  .insert (.assetGroup 3) ⟨childGroup, rfl⟩
    (.enqueue [(9, ⟨.write, parentTuple, none⟩)] .commit) .fail

def site : Program (Row SourceRow) SiteReq SitePc := siteProgram Uuid.ofText Uuid.ofText

def alonePass : List (Event SiteReq) :=
  [.start 1 (.reconcile 1), .step 1, .step 1, .step 1, .step 1, .step 1, .step 1, .step 1, .step 1,
    .step 1, .step 1, .step 1, .step 1]

/-- A pass asks the source; then the subgroup is created, and a drain brings its tuple into the
store; then the pass reads the store. -/
def staleExpected : List (Event SiteReq) :=
  [.start 1 (.reconcile 1), .step 1, .step 1, .step 1, .step 1, .step 1, .step 1, .step 1, .step 1,
    .start 2 (.outbox (.business 0 nestGroup)), .step 2, .step 2, .step 2, .step 2,
    .start 3 (.outbox (.publish 10)), .step 3, .step 3, .step 3, .step 3, .step 3,
    .step 1, .step 1, .step 1]

/-- The step commits neither a change of the source nor a publication. -/
def onlyPasses (c : SiteCfg) : Event SiteReq → Bool
  | .step i =>
    match c.proc i with
    | some (.outbox (.business _ _ _)) => false
    | some (.outbox (.marked _ _)) => false
    | _ => true
  | _ => true

/-- The pass is about to take the tuple from the store, and nobody will write it again. -/
def losesTuple (c : SiteCfg) : Bool :=
  (match c.proc 1 with
    | some (.remove org _ rest) => decide (org = 1) && rest.isEmpty
    | _ => false) &&
  (c.db.row (.tuple parentTuple)).isSome && ((c.view 1).row (.tuple parentTuple)).isNone &&
  parentTuple ∈ expectedNow c.db 1 && (outboxRows c.db).all fun e => e.row.published

end Sample

theorem undisturbed_of_onlyPasses {c : SiteCfg} {e : Event SiteReq}
    (h : Sample.onlyPasses c e = true) : Undisturbed c e := by
  intro i j p org t he hp htenant hdue
  subst he
  constructor
  · intro start queued hi
    simp only [Sample.onlyPasses, hi] at h
    cases h
  · intro r rest row hi
    simp only [Sample.onlyPasses, hi] at h
    cases h

/-- Left alone, a pass removes the tuple that the source does not expect. -/
theorem reconcile_removes_stale_alone :
    (∃ c, run (exec Sample.site) (Cfg.idle Sample.staleTuple) Sample.alonePass = some c ∧
      c.db.row (.tuple Sample.parentTuple) = none) ∧
    Along (exec Sample.site) (RemovesStale Uuid.ofText Uuid.ofText) (Cfg.idle Sample.staleTuple)
      Sample.alonePass := by
  constructor
  · have hrun : (run (exec Sample.site) (Cfg.idle Sample.staleTuple) Sample.alonePass).any
        (fun c => (c.db.row (.tuple Sample.parentTuple)).isNone) = true := by
      decide +kernel
    obtain ⟨c, hc, hnone⟩ := (Option.any_eq_true _ _).mp hrun
    exact ⟨c, hc, Option.isNone_iff_eq_none.mp hnone⟩
  · apply reconcile_removes_stale
    apply along_of_check (fun _ _ h => undisturbed_of_onlyPasses h)
    decide +kernel

/-- A tuple that is created and drained between the two reads of a pass is lost. -/
theorem reconcile_removes_expected : ¬∀ db es,
    Along (exec Sample.site) (RemovesStale Uuid.ofText Uuid.ofText) (Cfg.idle db) es := by
  intro h
  have hrun : (run (exec Sample.site) (Cfg.idle Sample.oneGroup) Sample.staleExpected).any
      Sample.losesTuple = true := by
    decide +kernel
  obtain ⟨c, hc, hloses⟩ := (Option.any_eq_true _ _).mp hrun
  have hlast := (along_append.mp (h Sample.oneGroup (Sample.staleExpected ++ [.step 1]))).2 c hc
  obtain ⟨⟨⟨⟨hproc, hrow⟩, hview⟩, hmem⟩, hpublished⟩ : ((((_ ∧ _) ∧ _) ∧ _) ∧ _) := by
    simpa only [Sample.losesTuple, Bool.and_eq_true] using hloses
  have hpending : ¬PendingWrite c.db Sample.parentTuple := by
    rintro ⟨id, row, hid, hunpublished, -, -⟩
    have hdone := List.all_eq_true.mp hpublished ⟨id, row⟩ (mem_outboxRows.mpr hid)
    rw [hunpublished] at hdone
    cases hdone
  split at hproc
  · rename_i org extra rest hp
    obtain ⟨horg, hrest⟩ := Bool.and_eq_true_iff.mp hproc
    obtain rfl : rest = [] := List.isEmpty_iff.mp hrest
    have hstale := hlast.1 1 _ none org Sample.parentTuple rfl hp rfl rfl
      (Option.isSome_iff_ne_none.mp hrow) (Option.isNone_iff_eq_none.mp hview)
    rw [of_decide_eq_true horg] at hstale
    rcases hstale with hnot | hwill
    · exact hnot (of_decide_eq_true hmem)
    · exact hpending hwill
  · cases hproc

end ArchGuard.Authz
