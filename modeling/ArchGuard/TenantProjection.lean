import ArchGuard.GrantProjection
import ArchGuard.TenantExpected

/-! The keys that the published outbox holds against the expected tuples: how admissions,
removals and moves of grants keep them equal. -/
namespace ArchGuard.Authz
open Tenancy

section Held

variable {us vs : List TupleUpdate} {t : RelationTuple}

/-- The tuple is in the store once the mutations are published. -/
def Held (us : List TupleUpdate) (t : RelationTuple) : Prop := (outcome us t).isSome = true

theorem held_snoc {u : TupleUpdate} :
    Held (us ++ [u]) t ↔ if u.tuple = t then u.op = .write else Held us t := by
  by_cases ht : u.tuple = t
  · subst ht
    rw [if_pos rfl, Held, outcome_self]
    unfold TupleUpdate.effect
    cases u.op <;> simp
  · rw [if_neg ht, Held, outcome_other ht]
    rfl

theorem held_append_writes (h : ∀ u ∈ vs, u.op = .write) :
    Held (us ++ vs) t ↔ Held us t ∨ ∃ u ∈ vs, u.tuple = t := by
  induction vs using List.reverseRecOn with
  | nil => simp
  | append_singleton vs v ih =>
    rw [← List.append_assoc, held_snoc, ih fun u hu => h u (List.mem_append_left _ hu)]
    have hv : v.op = .write := h v (by simp)
    by_cases ht : v.tuple = t
    · simp [ht, hv]
    · simp [ht, or_and_right, exists_or]

theorem held_append_deletes (h : ∀ u ∈ vs, u.op = .delete) :
    Held (us ++ vs) t ↔ Held us t ∧ ∀ u ∈ vs, u.tuple ≠ t := by
  induction vs using List.reverseRecOn with
  | nil => simp
  | append_singleton vs v ih =>
    rw [← List.append_assoc, held_snoc, ih fun u hu => h u (List.mem_append_left _ hu)]
    have hv : v.op = .delete := h v (by simp)
    by_cases ht : v.tuple = t
    · simp [ht, hv]
    · simp [ht, or_imp, forall_and]

end Held

section Users

variable {s : TenantState} {org : Uuid} {t : RelationTuple}

theorem membershipRef_inj {a b : Uuid}
    (h : qualify org .membership a.text = qualify org .membership b.text) : a = b :=
  Uuid.text_injective (qualify_inj h)

theorem assetGroupRef_ne (a b : Uuid) :
    qualify org .assetGroup a.text ≠ qualify org .membership b.text := by
  intro h
  have htype := congrArg refType h
  rw [refType_qualify, refType_qualify] at htype
  exact absurd htype (by decide)

theorem groupUserset_ne (a b : Uuid) :
    groupUserset org a.text ≠ qualify org .membership b.text := by
  intro h
  have hhash := qualify_no_hash org .membership b
  rw [← h, groupUserset, String.toList_append] at hhash
  exact hhash (List.mem_append_right _ (by decide))

theorem Hierarchy.user_ne (h : Hierarchy s org t) (m : Uuid) :
    t.user ≠ qualify org .membership m.text := by
  rcases h with ⟨g, -, horg, ht⟩ | ⟨a, -, -, p, -, rfl⟩ | ⟨a, -, horg, htype, rfl⟩
  · obtain ⟨p, -, rfl⟩ := (mem_groupTuples horg).mp ht
    exact assetGroupRef_ne p m
  · exact assetGroupRef_ne p m
  · rw [access_of_group horg htype]
    exact groupUserset_ne a.subjectId m

theorem Hierarchy.relation_ne (hassign : Assignable s) (h : Hierarchy s org t) :
    t.relation ≠ relHasActiveGrant := by
  rcases h with ⟨g, -, horg, ht⟩ | ⟨a, -, -, p, -, rfl⟩ | ⟨a, ha, -, -, rfl⟩
  · exact (structural_assetGroup horg ht).relation.2
  · exact relParent_ne.2
  · exact (assignableRelation_ne (hassign a ha)).2

theorem user_of_accessTuples {m : Uuid} (h : t ∈ accessTuples s org m) :
    t.user = qualify org .membership m.text := by
  rcases mem_accessTuples_iff.mp h with ⟨a, -, -, -, rfl⟩ | ⟨g, -, -, -, rfl⟩ | ⟨a, -, -, -, -, rfl⟩
  · rfl
  · rfl
  · rfl

end Users

/-- Every key in the store is expected and every expected one is there; and what that rests
on: the access rows are of memberships that exist, and the active grants on assets are of
active members, their target ids in canonical form. -/
structure Projected (org : Uuid) (s : TenantState) : Prop where
  inv : TenantInv org s
  keys : ∀ t, Held s.outbox t ↔ t ∈ tenantExpectedTuples s org
  known : ∀ m t, t ∈ accessTuples s org m → (membershipAt s.db m).isSome = true
  grants : ∀ g, AssetGrant s.db org g → activeMember s.db org g.subjectMembershipId = true ∧
    ∃ u : Uuid, g.target.id = u.text

/-- The store after a drain, and what a reconcile pass right after it takes away. -/
structure ProjectionMet (org : Uuid) (s : TenantState) (store : List StoredTuple) : Prop where
  keys : ∀ t, t ∈ loadTenantTuples store org ↔ t ∈ tenantExpectedTuples s org
  active : ∀ t ∈ loadTenantTuples store org, ∀ m : Uuid, t.user = qualify org .membership m.text →
    activeMember s.db org m = true
  reconciled : (reconcileDiff (tenantExpectedTuples s org) (loadTenantTuples store org)).1 = []

def MeetsExpectation (column : String → Option Uuid) (org : Uuid) (s : TenantState) : Prop :=
  ∃ store, drain column s.outbox = some store ∧ ProjectionMet org s store

theorem activeMember_of_expected {s : TenantState} {org m : Uuid} {t : RelationTuple}
    (h : t ∈ tenantExpectedTuples s org) (hm : t.user = qualify org .membership m.text) :
    activeMember s.db org m = true := by
  rcases mem_tenantExpectedTuples.mp h with h | ⟨m', hact, h⟩ | ⟨g, -, hact, rfl⟩
  · exact absurd hm (h.user_ne m)
  · rw [user_of_accessTuples h] at hm
    exact membershipRef_inj hm ▸ hact
  · exact membershipRef_inj hm ▸ hact

theorem mem_loadTenantTuples {org : Uuid} {us : List TupleUpdate} {store : List StoredTuple}
    {t : RelationTuple} (h : Publishes org us store) : t ∈ loadTenantTuples store org ↔ Held us t := by
  rw [Held, Option.isSome_iff_exists]
  simp only [loadTenantTuples, List.mem_map, List.mem_filter, decide_eq_true_eq]
  constructor
  · rintro ⟨x, ⟨hx, -⟩, rfl⟩
    exact ⟨x.row.condition, (h.held _ _).mp ⟨x, hx, rfl, rfl⟩⟩
  · rintro ⟨c, hc⟩
    obtain ⟨x, hx, ht, -⟩ := (h.held t c).mpr hc
    exact ⟨x, ⟨hx, h.organization x hx⟩, ht⟩

theorem Projected.meetsExpectation {column : String → Option Uuid} {org : Uuid} {s : TenantState}
    (h : Projected org s) (hcolumn : ∀ u : Uuid, column u.text = some u) :
    MeetsExpectation column org s := by
  obtain ⟨store, hdrain, hpub⟩ := drain_publishes hcolumn h.inv.outbox
  have hkeys (t : RelationTuple) :
      t ∈ loadTenantTuples store org ↔ t ∈ tenantExpectedTuples s org := by
    rw [mem_loadTenantTuples hpub, h.keys]
  refine ⟨store, hdrain, hkeys, fun t ht m hm => ?_, ?_⟩
  · exact activeMember_of_expected ((hkeys t).mp ht) hm
  · exact reconcileDiff_nothing fun t ht => (hkeys t).mp ht

section Changes

variable {s s' : TenantState} {org : Uuid} {us : List TupleUpdate}

theorem keys_of_writes (h : Projected org s) (hout : s'.outbox = s.outbox ++ us)
    (hus : ∀ u ∈ us, u.op = .write)
    (hexp : ∀ t, t ∈ tenantExpectedTuples s' org ↔
      t ∈ tenantExpectedTuples s org ∨ ∃ u ∈ us, u.tuple = t) (t : RelationTuple) :
    Held s'.outbox t ↔ t ∈ tenantExpectedTuples s' org := by
  rw [hout, held_append_writes hus, h.keys, hexp]

theorem keys_of_deletes (h : Projected org s) (hout : s'.outbox = s.outbox ++ us)
    (hus : ∀ u ∈ us, u.op = .delete)
    (hexp : ∀ t, t ∈ tenantExpectedTuples s' org ↔
      t ∈ tenantExpectedTuples s org ∧ ∀ u ∈ us, u.tuple ≠ t) (t : RelationTuple) :
    Held s'.outbox t ↔ t ∈ tenantExpectedTuples s' org := by
  rw [hout, held_append_deletes hus, h.keys, hexp]

variable {db' : Db} {outbox' : List TupleUpdate}

/-- Memberships become active, and get the access they have been given. -/
theorem Projected.afterAdmission (h : Projected org s) {into : Uuid → Prop}
    (hs' : s' = { s with db := db', outbox := s.outbox ++ us }) (hinv : TenantInv org s')
    (hgrant : grantAt db' = grantAt s.db)
    (hknown : ∀ k, (membershipAt s.db k).isSome = true → (membershipAt db' k).isSome = true)
    (hactive : ∀ k, activeMember db' org k = true ↔ activeMember s.db org k = true ∨ into k)
    (hus : ∀ u ∈ us, u.op = .write)
    (htuples : ∀ t, (∃ u ∈ us, u.tuple = t) ↔ ∃ k, into k ∧ t ∈ accessTuples s org k) :
    Projected org s' := by
  subst hs'
  have hassets (g : PrivilegedGrant) : AssetGrant db' org g ↔ AssetGrant s.db org g := by
    unfold AssetGrant
    rw [hgrant]
  refine ⟨hinv, keys_of_writes h rfl hus fun t => ?_, fun m t ht => hknown m (h.known m t ht),
    fun g hg => ?_⟩
  · rw [mem_tenantExpectedTuples, mem_tenantExpectedTuples, htuples]
    constructor
    · rintro (ht | ⟨m, hm, ht⟩ | ⟨g, hg, hm, rfl⟩)
      · exact Or.inl (Or.inl ht)
      · rcases (hactive m).mp hm with hm | hm
        · exact Or.inl (Or.inr (Or.inl ⟨m, hm, ht⟩))
        · exact Or.inr ⟨m, hm, ht⟩
      · -- the subject of an active grant was active before
        have hg' := (hassets g).mp hg
        exact Or.inl (Or.inr (Or.inr ⟨g, hg', (h.grants g hg').1, rfl⟩))
    · rintro ((ht | ⟨m, hm, ht⟩ | ⟨g, hg, hm, rfl⟩) | ⟨m, hm, ht⟩)
      · exact Or.inl ht
      · exact Or.inr (Or.inl ⟨m, (hactive m).mpr (Or.inl hm), ht⟩)
      · exact Or.inr (Or.inr ⟨g, (hassets g).mpr hg, (hactive _).mpr (Or.inl hm), rfl⟩)
      · exact Or.inr (Or.inl ⟨m, (hactive m).mpr (Or.inr hm), ht⟩)
  · obtain ⟨hact, hid⟩ := h.grants g ((hassets g).mp hg)
    exact ⟨(hactive _).mpr (Or.inl hact), hid⟩

theorem Projected.remove (h : Projected org s) (out : Uuid → Prop)
    (hs' : s' = { s with db := db', outbox := s.outbox ++ us }) (hinv : TenantInv org s')
    (hgrants : ∀ g, AssetGrant db' org g ↔ AssetGrant s.db org g ∧ ¬out g.subjectMembershipId)
    (hknown : ∀ k, (membershipAt s.db k).isSome = true → (membershipAt db' k).isSome = true)
    (hactive : ∀ k, activeMember db' org k = true ↔ activeMember s.db org k = true ∧ ¬out k)
    (hus : ∀ u ∈ us, u.op = .delete)
    (hown : ∀ u ∈ us, ∃ k, out k ∧ u.tuple.user = qualify org .membership k.text)
    (haccess : ∀ k, out k → activeMember s.db org k = true → ∀ t ∈ accessTuples s org k,
      ∃ u ∈ us, u.tuple = t)
    (hheld : ∀ g, AssetGrant s.db org g → out g.subjectMembershipId → ∃ u ∈ us,
      u.tuple = ⟨qualify org .membership g.subjectMembershipId.text, relHasActiveGrant,
        qualify org .asset g.target.id⟩) :
    Projected org s' := by
  subst hs'
  -- the tuples of the others are left alone
  have hothers {t : RelationTuple} {m : Uuid} (hm : ¬out m)
      (ht : t.user = qualify org .membership m.text) : ∀ u ∈ us, u.tuple ≠ t := by
    rintro u hu rfl
    obtain ⟨k, hk, huser⟩ := hown u hu
    exact hm (membershipRef_inj (ht.symm.trans huser) ▸ hk)
  refine ⟨hinv, keys_of_deletes h rfl hus fun t => ?_, fun m t ht => hknown m (h.known m t ht),
    fun g hg => ?_⟩
  · rw [mem_tenantExpectedTuples, mem_tenantExpectedTuples]
    constructor
    · rintro (ht | ⟨m, hm, ht⟩ | ⟨g, hg, hm, rfl⟩)
      · refine ⟨Or.inl ht, ?_⟩
        rintro u hu rfl
        obtain ⟨k, -, huser⟩ := hown u hu
        exact ht.user_ne k huser
      · obtain ⟨hm, hout⟩ := (hactive m).mp hm
        exact ⟨Or.inr (Or.inl ⟨m, hm, ht⟩), hothers hout (user_of_accessTuples ht)⟩
      · obtain ⟨hm, hout⟩ := (hactive _).mp hm
        exact ⟨Or.inr (Or.inr ⟨g, ((hgrants g).mp hg).1, hm, rfl⟩), hothers hout rfl⟩
    · rintro ⟨ht | ⟨m, hm, ht⟩ | ⟨g, hg, hm, rfl⟩, hkeep⟩
      · exact Or.inl ht
      · have hout : ¬out m := by
          intro hout
          obtain ⟨u, hu, hut⟩ := haccess m hout hm t ht
          exact hkeep u hu hut
        exact Or.inr (Or.inl ⟨m, (hactive m).mpr ⟨hm, hout⟩, ht⟩)
      · have hout : ¬out g.subjectMembershipId := by
          intro hout
          obtain ⟨u, hu, hut⟩ := hheld g hg hout
          exact hkeep u hu hut
        exact Or.inr (Or.inr ⟨g, (hgrants g).mpr ⟨hg, hout⟩, (hactive _).mpr ⟨hm, hout⟩, rfl⟩)
  · obtain ⟨hg, hout⟩ := (hgrants g).mp hg
    obtain ⟨hact, hid⟩ := h.grants g hg
    exact ⟨(hactive _).mpr ⟨hact, hout⟩, hid⟩

end Changes

end ArchGuard.Authz
