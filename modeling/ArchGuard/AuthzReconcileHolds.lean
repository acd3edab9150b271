import ArchGuard.AuthzReconcile

/-! What the transactions of the reconciler, of the publisher and of the source hold of the source,
the outbox and the store, statement by statement. -/
namespace ArchGuard.Authz
open ReadCommitted TransitionRun Tenancy

section Source

variable {db db' : TenantDb} {org : Uuid} {t : RelationTuple}

def SameSource (db db' : TenantDb) : Prop := ∀ k, db'.row (.source k) = db.row (.source k)

theorem mem_scan_source {α : Type} {f : (k : Key SourceKey) → Row SourceRow k → Option α}
    (hf : ∀ k v, (f k v).isSome → ∃ s, k = .source s) (h : SameSource db db') {x : α} :
    x ∈ db'.scan f ↔ x ∈ db.scan f := by
  rw [Store.mem_scan, Store.mem_scan]
  refine exists_congr fun k => exists_congr fun v => and_congr_left fun hk => ?_
  obtain ⟨s, rfl⟩ := hf k v (by rw [hk]; rfl)
  rw [h s]

theorem activeMember_congr (h : SameSource db db') (m : Uuid) :
    activeMember (tenancyDb db') org m = activeMember (tenancyDb db) org m := by
  have hrow : (tenancyDb db').row (.membership m) = (tenancyDb db).row (.membership m) :=
    h (.tenancy (.membership m))
  rw [activeMember, activeMember, membershipAt, membershipAt, hrow]

theorem grantAt_congr (h : SameSource db db') (g : Uuid) :
    grantAt (tenancyDb db') g = grantAt (tenancyDb db) g := by
  have hrow : (tenancyDb db').row (.grant g) = (tenancyDb db).row (.grant g) :=
    h (.tenancy (.grant g))
  rw [grantAt, grantAt, hrow]

theorem mem_run_congr (h : SameSource db db') {q : TenantQuery} :
    t ∈ q.run (tenantState db') org ↔ t ∈ q.run (tenantState db) org := by
  have hgroups (g : AssetGroup) : g ∈ (tenantState db').assetGroups ↔
      g ∈ (tenantState db).assetGroups := by
    apply mem_scan_source ?_ h
    intro k v hv
    cases k with
    | source s => exact ⟨s, rfl⟩
    | _ => cases hv
  have hassets (a : Asset) : a ∈ (tenantState db').assets ↔ a ∈ (tenantState db).assets := by
    apply mem_scan_source ?_ h
    intro k v hv
    cases k with
    | source s => exact ⟨s, rfl⟩
    | _ => cases hv
  have hassignments (a : AssetAccessAssignment) : a ∈ (tenantState db').assignments ↔
      a ∈ (tenantState db).assignments := by
    apply mem_scan_source ?_ h
    intro k v hv
    cases k with
    | source s => exact ⟨s, rfl⟩
    | _ => cases hv
  have hmembers (g : GroupMembership) : g ∈ (tenantState db').groupMemberships ↔
      g ∈ (tenantState db).groupMemberships := by
    apply mem_scan_source ?_ h
    intro k v hv
    cases k with
    | source s => exact ⟨s, rfl⟩
    | _ => cases hv
  have hactive (m : Uuid) : activeMember (tenantState db').db org m =
      activeMember (tenantState db).db org m := activeMember_congr h m
  have hgrant (g : Uuid) : grantAt (tenantState db').db g = grantAt (tenantState db).db g :=
    grantAt_congr h g
  cases q <;> simp only [TenantQuery.run, List.mem_map, List.mem_filter, List.mem_filterMap,
    mem_listGrants, hgroups, hassets, hassignments, hmembers, hactive, hgrant]

theorem mem_expectedNow_congr (h : SameSource db db') :
    t ∈ expectedNow db' org ↔ t ∈ expectedNow db org := by
  rw [expectedNow, expectedNow, TenantQuery.mem_expected_iff, TenantQuery.mem_expected_iff]
  exact exists_congr fun q => mem_run_congr h

theorem not_expected_of_run (h : t ∉ (TenantQuery.of t).run (tenantState db) org) :
    t ∉ expectedNow db org := by
  rw [expectedNow, TenantQuery.mem_expected_iff]
  rintro ⟨q, hq⟩
  rw [TenantQuery.of_mem org hq] at h
  exact h hq

end Source

section Passes

/-- The organization of a pass. -/
def SitePc.tenant : SitePc → Option Uuid
  | .query org _ _ | .load org _ | .loaded org _ | .remove org _ _ => some org
  | .outbox _ => none

/-- The tuples a pass may still remove: the source did not list them when it was asked, and they
have not been found absent from the store. -/
def SitePc.due : SitePc → RelationTuple → Prop
  | .query _ found rest, t => t ∉ found ∧ TenantQuery.of t ∉ rest
  | .load _ expected, t => t ∉ expected
  | .loaded _ extra, t => t ∈ extra
  | .remove _ extra _, t => t ∈ extra
  | .outbox _, _ => False

/-- The source does not expect the tuple, or a pending row will write it. -/
def Safe (db : TenantDb) (org : Uuid) (t : RelationTuple) : Prop :=
  t ∈ expectedNow db org → PendingWrite db t

variable {c c' : SiteCfg} {i : ℕ} {p : SitePc}

structure Clean (c : SiteCfg) (i : ℕ) : Prop where
  source : ∀ k r, c.lock (.source k) ≠ some (i, r)
  outbox : ∀ id r, c.lock (.outbox id) ≠ some (i, r)

/-- What an open transaction holds of the source, the outbox and the store. -/
def SiteHolds (c : SiteCfg) (i : ℕ) : SitePc → Prop
  | .outbox (.business _ _ _) => ∀ id r, c.lock (.outbox id) = some (i, r) →
      r ≠ none ∧ c.db.row (.outbox id) = none
  | .outbox (.marked e _) => (∀ k r, c.lock (.source k) ≠ some (i, r)) ∧
      (∀ id r, c.lock (.outbox id) = some (i, r) → id = e.id) ∧
      ∃ row, c.db.row (.outbox e.id) = some row ∧
        c.lock (.outbox e.id) = some (i, some { row with published := true })
  | .outbox (.skip _ _) => True
  | .outbox .fail => True
  | .outbox _ => Clean c i
  | .remove _ extra rest => Clean c i ∧ (∀ t r, c.lock (.tuple t) = some (i, r) → t ∈ extra) ∧
      ∀ t ∈ rest, t ∈ extra
  | .query _ _ _ => Clean c i ∧ ∀ t r, c.lock (.tuple t) ≠ some (i, r)
  | .load _ _ => Clean c i ∧ ∀ t r, c.lock (.tuple t) ≠ some (i, r)
  | .loaded _ _ => Clean c i ∧ ∀ t r, c.lock (.tuple t) ≠ some (i, r)

theorem Clean.frame (h : Clean c i) (hf : Frame c c' i) : Clean c' i :=
  ⟨fun k r hl => h.source k r ((hf.lock _ _).mp hl), fun id r hl => h.outbox id r ((hf.lock _ _).mp hl)⟩

theorem SiteHolds.frame (h : SiteHolds c i p) (hf : Frame c c' i) : SiteHolds c' i p := by
  have htuple (hn : ∀ t r, c.lock (.tuple t) ≠ some (i, r)) (t : RelationTuple)
      (r : Option TupleRow) : c'.lock (.tuple t) ≠ some (i, r) :=
    fun hl => hn t r ((hf.lock _ _).mp hl)
  cases p with
  | outbox l =>
    cases l with
    | business start queued s =>
      intro id r hl
      obtain ⟨hr, hrow⟩ := h id r ((hf.lock _ _).mp hl)
      exact ⟨hr, (hf.row _ _ ((hf.lock _ _).mp hl)).trans hrow⟩
    | marked e rest =>
      obtain ⟨hsource, honly, row, hrow, hl⟩ := h
      exact ⟨fun k r hk => hsource k r ((hf.lock _ _).mp hk),
        fun id r hid => honly id r ((hf.lock _ _).mp hid), row, (hf.row _ _ hl).trans hrow,
        (hf.lock _ _).mpr hl⟩
    | skip e rest => trivial
    | fail => trivial
    | _ => exact Clean.frame h hf
  | query org found rest => exact ⟨h.1.frame hf, htuple h.2⟩
  | load org expected => exact ⟨h.1.frame hf, htuple h.2⟩
  | loaded org extra => exact ⟨h.1.frame hf, htuple h.2⟩
  | remove org extra rest =>
    exact ⟨h.1.frame hf, fun t r hl => h.2.1 t r ((hf.lock _ _).mp hl), h.2.2⟩

theorem Clean.goto (h : Clean c i) (q : SitePc) : Clean (c.goto i q) i := ⟨h.source, h.outbox⟩

theorem Clean.write (h : Clean c i) {t : RelationTuple} {r : Option TupleRow} (q : SitePc) :
    Clean ((c.write i (.tuple t) r).goto i q) i := by
  constructor
  · intro k r' hl
    rcases lock_write hl with hold | ⟨-, hk, -⟩
    · exact h.source k r' hold
    · cases hk
  · intro id r' hl
    rcases lock_write hl with hold | ⟨-, hk, -⟩
    · exact h.outbox id r' hold
    · cases hk

theorem clean_release {d : SiteCfg} (hlock : ∀ k, d.lock k = c.releaseLock i k) : Clean d i := by
  constructor
  · intro k r hl
    rw [hlock] at hl
    exact (Cfg.releaseLock_eq_some.mp hl).2 rfl
  · intro id r hl
    rw [hlock] at hl
    exact (Cfg.releaseLock_eq_some.mp hl).2 rfl

theorem noTuple_release {d : SiteCfg} (hlock : ∀ k, d.lock k = c.releaseLock i k)
    (t : RelationTuple) (r : Option TupleRow) : d.lock (.tuple t) ≠ some (i, r) := by
  intro hl
  rw [hlock] at hl
  exact (Cfg.releaseLock_eq_some.mp hl).2 rfl

theorem noTuple_of_commit {n : Option SitePc} (t : RelationTuple) (r : Option TupleRow) :
    (c.commit i n).lock (.tuple t) ≠ some (i, r) := noTuple_release (fun _ => rfl) t r

theorem siteHolds_next {d : SiteCfg} {q : SitePc} {rows : List OutboxEntry}
    (hlock : ∀ k, d.lock k = c.releaseLock i k)
    (hq : (nextRow rows).map SitePc.outbox = some q) : SiteHolds d i q := by
  cases rows with
  | nil => cases hq
  | cons r rest =>
    rw [← Option.some.inj hq]
    exact clean_release hlock

variable {parse column : String → Option Uuid}

theorem siteHolds_goto {l q : SitePc} (h : SiteHolds (c.goto i l) i l)
    (hq : (c.goto i l).proc i = some q) : SiteHolds (c.goto i l) i q := by
  rw [Cfg.goto_proc, Function.update_self] at hq
  rwa [← Option.some.inj hq]

theorem siteHolds_business {start : Time} {queued : List OutboxEntry} {s : Script SourceRow}
    {q : SitePc} (h : SiteHolds c i (.outbox (.business start queued s)))
    (ha : c.act i ((siteProgram parse column).next (.outbox (.business start queued s))) = some c')
    (hq : c'.proc i = some q) : SiteHolds c' i q := by
  have hsource {k : SourceKey} {r : Option (SourceRow k)} {queued' : List OutboxEntry}
      {s' : Script SourceRow} : SiteHolds ((c.write i (.source k) r).goto i
        (.outbox (.business start queued' s'))) i (.outbox (.business start queued' s')) := by
    intro id r' hl
    rcases lock_write hl with hold | ⟨-, hk, -⟩
    · exact h id r' hold
    · cases hk
  cases s with
  | select next =>
    obtain rfl := act_read ha
    exact siteHolds_goto h hq
  | update k absent set next =>
    rcases act_update ha with ⟨-, rfl⟩ | ⟨v, -, -, rfl⟩
    · exact siteHolds_goto h hq
    · exact siteHolds_goto hsource hq
  | insert k v inserted conflict =>
    rcases act_insert ha with ⟨-, -, rfl⟩ | ⟨-, rfl⟩
    · exact siteHolds_goto hsource hq
    · exact siteHolds_goto h hq
  | enqueue updates next =>
    cases updates with
    | nil =>
      obtain rfl := act_read ha
      exact siteHolds_goto h hq
    | cons u updates =>
      obtain ⟨id, u⟩ := u
      simp only [siteProgram, outboxProgram, businessNext] at ha
      cases horg : enqueueOrg parse u with
      | error err =>
        rw [horg] at ha
        obtain rfl := act_abort ha
        rw [Cfg.rollback_proc, Function.update_self] at hq
        cases hq
      | ok org =>
        rw [horg] at ha
        rcases act_insert ha with ⟨hrow, -, rfl⟩ | ⟨-, rfl⟩
        · -- the row that is inserted was not there, neither committed nor its own
          refine siteHolds_goto (fun id' r' hl => ?_) hq
          rcases lock_write hl with hold | ⟨-, hk, hr⟩
          · exact h id' r' hold
          · obtain rfl : id = id' := Key.outbox.inj hk
            have hown : ∀ r, c.lock (.outbox id) ≠ some (i, r) := by
              intro r hr
              obtain ⟨hne, -⟩ := h id r hr
              rw [Cfg.viewRow_own hr] at hrow
              exact hne hrow
            rw [Cfg.viewRow_other hown] at hrow
            refine ⟨?_, hrow⟩
            rw [← hr]
            exact Option.some_ne_none _
        · exact siteHolds_goto trivial hq
  | commit =>
    obtain rfl := act_commit ha
    rw [Cfg.commit_proc, Function.update_self] at hq
    cases hq
  | fail =>
    obtain rfl := act_abort ha
    rw [Cfg.rollback_proc, Function.update_self] at hq
    cases hq

theorem siteHolds_publisher {l : Pc SourceRow} {q : SitePc} (h : SiteHolds c i (.outbox l))
    (hl : ∀ start queued s, l ≠ .business start queued s)
    (ha : c.act i ((siteProgram parse column).next (.outbox l)) = some c')
    (hq : c'.proc i = some q) : SiteHolds c' i q := by
  have hnone {d : SiteCfg} (hp : (d.rollback i).proc i = some q) : False := by
    rw [Cfg.rollback_proc, Function.update_self] at hp
    cases hp
  cases l with
  | business start queued s => exact absurd rfl (hl start queued s)
  | readOutbox batch =>
    obtain rfl := act_read ha
    exact siteHolds_goto (Clean.goto h _) hq
  | fetched rows =>
    obtain rfl := act_commit ha
    rw [Cfg.commit_proc, Function.update_self] at hq
    exact siteHolds_next (fun _ => rfl) hq
  | apply r rest =>
    simp only [siteProgram, outboxProgram, applyTupleUpdate] at ha
    cases hop : r.row.op with
    | write =>
      rw [hop] at ha
      dsimp only at ha
      cases horg : (refOrg r.row.tuple.object).bind column with
      | none =>
        rw [horg] at ha
        obtain rfl := act_abort ha
        exact (hnone hq).elim
      | some org =>
        rw [horg] at ha
        rcases act_insert ha with ⟨-, -, rfl⟩ | ⟨-, rfl⟩
        · exact siteHolds_goto (Clean.write h _) hq
        · exact siteHolds_goto (Clean.goto h _) hq
    | delete =>
      rw [hop] at ha
      rcases act_update ha with ⟨-, rfl⟩ | ⟨v, -, -, rfl⟩
      · exact siteHolds_goto (Clean.goto h _) hq
      · exact siteHolds_goto (Clean.write h _) hq
  | refresh r rest =>
    rcases act_update ha with ⟨-, rfl⟩ | ⟨v, -, -, rfl⟩
    · exact siteHolds_goto (Clean.goto h _) hq
    · exact siteHolds_goto (Clean.write h _) hq
  | mark r rest =>
    rcases act_update ha with ⟨-, rfl⟩ | ⟨v, hv, -, rfl⟩
    · exact siteHolds_goto trivial hq
    · dsimp only at hq ⊢
      by_cases hpub : v.published = true
      · rw [if_pos hpub] at hq ⊢
        exact siteHolds_goto trivial hq
      · rw [if_neg hpub] at hq ⊢
        -- the row that is marked was committed unpublished, and is the only one it then holds
        rw [Cfg.viewRow_other (Clean.outbox h r.id)] at hv
        refine siteHolds_goto ⟨fun k r' hl => ?_, fun id r' hl => ?_, v, hv, ?_⟩ hq
        · rcases lock_write hl with hold | ⟨-, hk, -⟩
          · exact Clean.source h k r' hold
          · cases hk
        · rcases lock_write hl with hold | ⟨-, hk, -⟩
          · exact absurd hold (Clean.outbox h id r')
          · exact (Key.outbox.inj hk).symm
        · exact Function.update_self ..
  | marked r rest =>
    obtain rfl := act_commit ha
    rw [Cfg.commit_proc, Function.update_self] at hq
    exact siteHolds_next (fun _ => rfl) hq
  | skip r rest =>
    cases rest with
    | nil =>
      obtain rfl := act_abort ha
      exact (hnone hq).elim
    | cons r' rest =>
      obtain rfl := act_rollback ha
      exact siteHolds_goto (clean_release fun _ => rfl) hq
  | fail =>
    obtain rfl := act_abort ha
    exact (hnone hq).elim

theorem mem_removals {org : Uuid} {extra : List RelationTuple} {q : SitePc}
    (h : removals org extra = some q) : q = .remove org extra extra := by
  unfold removals at h
  split_ifs at h
  exact (Option.some.inj h).symm

/-- The statements of a pass: it only writes to the store, and only what it found extra. -/
theorem siteHolds_pass {q : SitePc} {org : Uuid} (hp : p.tenant = some org) (h : SiteHolds c i p)
    (ha : c.act i ((siteProgram parse column).next p) = some c') (hq : c'.proc i = some q) :
    SiteHolds c' i q := by
  cases p with
  | outbox l => cases hp
  | query org found rest =>
    cases rest with
    | nil =>
      obtain rfl := act_commit ha
      rw [Cfg.commit_proc, Function.update_self] at hq
      rw [← Option.some.inj hq]
      exact ⟨clean_release fun _ => rfl, noTuple_of_commit⟩
    | cons k rest =>
      obtain rfl := act_read ha
      exact siteHolds_goto ⟨h.1.goto _, h.2⟩ hq
  | load org expected =>
    obtain rfl := act_read ha
    exact siteHolds_goto ⟨h.1.goto _, h.2⟩ hq
  | loaded org extra =>
    obtain rfl := act_commit ha
    rw [Cfg.commit_proc, Function.update_self] at hq
    rw [mem_removals hq]
    exact ⟨clean_release fun _ => rfl, fun t r hl => absurd hl (noTuple_of_commit t r),
      fun _ ht => ht⟩
  | remove org extra rest =>
    cases rest with
    | nil =>
      obtain rfl := act_commit ha
      rw [Cfg.commit_proc, Function.update_self] at hq
      cases hq
    | cons t rest =>
      -- a removal holds the rows that it has deleted, all of them among the extra ones
      obtain ⟨hclean, hlocks, hrest⟩ := h
      have hrest' : ∀ u ∈ rest, u ∈ extra := fun u hu => hrest u (List.mem_cons_of_mem t hu)
      rcases act_update ha with ⟨-, rfl⟩ | ⟨v, -, -, rfl⟩
      · exact siteHolds_goto ⟨hclean.goto _, hlocks, hrest'⟩ hq
      · refine siteHolds_goto ⟨hclean.write _, fun u r hl => ?_, hrest'⟩ hq
        rcases lock_write hl with hold | ⟨-, hk, -⟩
        · exact hlocks u r hold
        · rw [← Key.tuple.inj hk]
          exact hrest t List.mem_cons_self

end Passes

end ArchGuard.Authz
