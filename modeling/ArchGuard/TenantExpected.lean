import ArchGuard.CatalogSpec

/-! The tuples that a tenant should have, computed from its rows in one batch, and the
reconciler that compares them with the ones published. -/
namespace ArchGuard.Authz
open Tenancy

section Expected

variable (s : TenantState) (org : Uuid)

/-- `JOIN membership m ... AND m.organization_id = $1 AND m.status = 'active'`. -/
def activeMember (db : Db) (org id : Uuid) : Bool :=
  (membershipAt db id).any fun m => m.organizationId = org && m.status = .active

def groupUserset (id : String) : String := qualify org .group id ++ "#member"

/-- `tenantExpectedTuples`, query after query. -/
def tenantExpectedTuples : List RelationTuple :=
  let asset (id : String) := qualify org .asset id
  let group (id : String) := qualify org .assetGroup id
  let member (id : String) := qualify org .membership id
  let assets := s.assets.filter fun a => a.organizationId = org
  ((s.assetGroups.filter fun g => g.organizationId = org).filterMap fun g =>
      g.parentGroupId.map fun p => ⟨group p.text, relParent, group g.id.text⟩) ++
    (assets.filterMap fun a => a.parentGroupId.map fun p => ⟨group p.text, relParent, asset a.id.text⟩) ++
    (assets.filterMap fun a => (a.ownerMembershipId.filter fun m => activeMember s.db org m).map
      fun m => ⟨member m.text, relOwner, asset a.id.text⟩) ++
    ((s.assignments.filter fun a => a.organizationId = org && a.subjectType = .membership &&
      activeMember s.db org a.subjectId).map fun a =>
        ⟨member a.subjectId.text, a.relation, qualify org a.objectType a.objectId.text⟩) ++
    -- a group is expanded through its members, which are gated on their own
    ((s.assignments.filter fun a => a.organizationId = org && a.subjectType = .group).map fun a =>
        ⟨groupUserset org a.subjectId.text, a.relation, qualify org a.objectType a.objectId.text⟩) ++
    ((s.groupMemberships.filter fun g => g.organizationId = org &&
      activeMember s.db org g.membershipId).map fun g =>
        ⟨member g.membershipId.text, relMember, qualify org .group g.groupId.text⟩) ++
    -- the target id goes in as the row has it
    (listGrants s.db org fun g => g.status = .active && g.target.type = ObjectType.asset.text &&
      activeMember s.db org g.subjectMembershipId).map fun g =>
        ⟨member g.subjectMembershipId.text, relHasActiveGrant, asset g.target.id⟩

end Expected

section Reconcile

def tupleKey (t : RelationTuple) : String := t.user ++ "\x00" ++ t.relation ++ "\x00" ++ t.object

/-- The values of a map from keys to tuples: of two tuples with one key the later one stays. -/
def byKey (ts : List RelationTuple) : List RelationTuple :=
  ts.foldl (fun m t => (m.filter fun x => tupleKey x ≠ tupleKey t) ++ [t]) []

def sortTuples (ts : List RelationTuple) : List RelationTuple :=
  ts.mergeSort fun a b => tupleKey a ≤ tupleKey b

/-- `ReconcileDiff`: what is there and not expected, and what is expected and not there. -/
def reconcileDiff (expected actual : List RelationTuple) : List RelationTuple × List RelationTuple :=
  (sortTuples ((byKey actual).filter fun t => !expected.any fun x => tupleKey x = tupleKey t),
    sortTuples ((byKey expected).filter fun t => !actual.any fun x => tupleKey x = tupleKey t))

theorem mem_of_mem_byKey {ts : List RelationTuple} {t : RelationTuple} (h : t ∈ byKey ts) :
    t ∈ ts := by
  induction ts using List.reverseRecOn with
  | nil => exact h
  | append_singleton ts x ih =>
    rw [byKey, List.foldl_append] at h
    rcases List.mem_append.mp h with h | h
    · exact List.mem_append_left _ (ih (List.mem_filter.mp h).1)
    · exact List.mem_append_right _ h

/-- A store that holds expected tuples only loses none to the reconciler. -/
theorem reconcileDiff_nothing {expected actual : List RelationTuple}
    (h : ∀ t ∈ actual, t ∈ expected) : (reconcileDiff expected actual).1 = [] := by
  have hnone : ((byKey actual).filter fun t => !expected.any fun x => tupleKey x = tupleKey t) = [] := by
    rw [List.filter_eq_nil_iff]
    intro t ht
    have hany : (expected.any fun x => tupleKey x = tupleKey t) = true :=
      List.any_eq_true.mpr ⟨t, h t (mem_of_mem_byKey ht), decide_eq_true rfl⟩
    simp [hany]
  rw [reconcileDiff, hnone]
  exact List.mergeSort_nil

end Reconcile

section Kinds

variable {s : TenantState} {org : Uuid} {t : RelationTuple}

/-- The tuples that no membership is the user of: hierarchy, and access of groups. -/
def Hierarchy (s : TenantState) (org : Uuid) (t : RelationTuple) : Prop :=
  (∃ g ∈ s.assetGroups, g.organizationId = org ∧ t ∈ g.tuples) ∨
    (∃ a ∈ s.assets, a.organizationId = org ∧ ∃ p, a.parentGroupId = some p ∧
      t = ⟨qualify org .assetGroup p.text, relParent, qualify org .asset a.id.text⟩) ∨
      ∃ a ∈ s.assignments, a.organizationId = org ∧ a.subjectType = .group ∧ t = a.access

/-- The access that active memberships have been given. -/
def MemberAccess (s : TenantState) (org : Uuid) (t : RelationTuple) : Prop :=
  ∃ m, activeMember s.db org m = true ∧ t ∈ accessTuples s org m

def AssetGrant (db : Db) (org : Uuid) (g : PrivilegedGrant) : Prop :=
  grantAt db g.id = some g ∧ g.organizationId = org ∧ g.status = .active ∧
    g.target.type = ObjectType.asset.text

def GrantAccess (db : Db) (org : Uuid) (t : RelationTuple) : Prop :=
  ∃ g, AssetGrant db org g ∧ activeMember db org g.subjectMembershipId = true ∧
    t = ⟨qualify org .membership g.subjectMembershipId.text, relHasActiveGrant,
      qualify org .asset g.target.id⟩

theorem mem_accessTuples_iff {m : Uuid} : t ∈ accessTuples s org m ↔
    (∃ a ∈ s.assets, a.organizationId = org ∧ a.ownerMembershipId = some m ∧
      t = ⟨qualify org .membership m.text, relOwner, qualify org .asset a.id.text⟩) ∨
    (∃ g ∈ s.groupMemberships, g.organizationId = org ∧ g.membershipId = m ∧
      t = ⟨qualify org .membership m.text, relMember, qualify org .group g.groupId.text⟩) ∨
    ∃ a ∈ s.assignments, a.organizationId = org ∧ a.subjectType = .membership ∧ a.subjectId = m ∧
      t = ⟨qualify org .membership m.text, a.relation, qualify org a.objectType a.objectId.text⟩ := by
  simp only [accessTuples, List.mem_append, List.mem_map, List.mem_filter, Bool.and_eq_true,
    decide_eq_true_eq, or_assoc]
  refine or_congr ?_ (or_congr ?_ ?_)
  · constructor
    · rintro ⟨a, ⟨ha, horg, howner⟩, rfl⟩
      exact ⟨a, ha, horg, howner, rfl⟩
    · rintro ⟨a, ha, horg, howner, rfl⟩
      exact ⟨a, ⟨ha, horg, howner⟩, rfl⟩
  · constructor
    · rintro ⟨g, ⟨hg, horg, hm⟩, rfl⟩
      exact ⟨g, hg, horg, hm, rfl⟩
    · rintro ⟨g, hg, horg, hm, rfl⟩
      exact ⟨g, ⟨hg, horg, hm⟩, rfl⟩
  · constructor
    · rintro ⟨a, ⟨ha, ⟨horg, htype⟩, hm⟩, rfl⟩
      exact ⟨a, ha, horg, htype, hm, rfl⟩
    · rintro ⟨a, ha, horg, htype, hm, rfl⟩
      exact ⟨a, ⟨ha, ⟨horg, htype⟩, hm⟩, rfl⟩

theorem mem_groupTuples {g : AssetGroup} (hg : g.organizationId = org) : t ∈ g.tuples ↔
    ∃ p, g.parentGroupId = some p ∧
      t = ⟨qualify org .assetGroup p.text, relParent, qualify org .assetGroup g.id.text⟩ := by
  unfold AssetGroup.tuples AssetGroup.ref
  rw [hg]
  cases g.parentGroupId with
  | none => simp
  | some p => simp

theorem access_of_group {a : AssetAccessAssignment} (ha : a.organizationId = org)
    (htype : a.subjectType = .group) : a.access =
      ⟨groupUserset org a.subjectId.text, a.relation, qualify org a.objectType a.objectId.text⟩ := by
  simp [AssetAccessAssignment.access, AssetAccessAssignment.subjectRef,
    AssetAccessAssignment.objectRef, groupUserset, htype, ha]

theorem access_of_membership {a : AssetAccessAssignment} (ha : a.organizationId = org)
    (htype : a.subjectType = .membership) : a.access =
      ⟨qualify org .membership a.subjectId.text, a.relation,
        qualify org a.objectType a.objectId.text⟩ := by
  simp [AssetAccessAssignment.access, AssetAccessAssignment.subjectRef,
    AssetAccessAssignment.objectRef, htype, ha]

/-- The batch queries, kind by kind. -/
theorem mem_tenantExpectedTuples : t ∈ tenantExpectedTuples s org ↔
    Hierarchy s org t ∨ MemberAccess s org t ∨ GrantAccess s.db org t := by
  simp only [tenantExpectedTuples, List.mem_append, List.mem_map, List.mem_filter,
    List.mem_filterMap, Option.map_eq_some_iff, Option.filter_eq_some_iff, Bool.and_eq_true,
    decide_eq_true_eq, mem_listGrants]
  constructor
  · rintro ((((((⟨g, ⟨hg, horg⟩, p, hp, rfl⟩ | ⟨a, ⟨ha, horg⟩, p, hp, rfl⟩) |
      ⟨a, ⟨ha, horg⟩, m, ⟨hm, hact⟩, rfl⟩) | ⟨a, ⟨ha, ⟨horg, htype⟩, hact⟩, rfl⟩) |
      ⟨a, ⟨ha, horg, htype⟩, rfl⟩) | ⟨g, ⟨hg, horg, hact⟩, rfl⟩) |
      ⟨g, ⟨hg, horg, ⟨hst, htype⟩, hact⟩, rfl⟩)
    · exact Or.inl (Or.inl ⟨g, hg, horg, (mem_groupTuples horg).mpr ⟨p, hp, rfl⟩⟩)
    · exact Or.inl (Or.inr (Or.inl ⟨a, ha, horg, p, hp, rfl⟩))
    · exact Or.inr (Or.inl ⟨m, hact, mem_accessTuples_iff.mpr (Or.inl ⟨a, ha, horg, hm, rfl⟩)⟩)
    · exact Or.inr (Or.inl ⟨a.subjectId, hact,
        mem_accessTuples_iff.mpr (Or.inr (Or.inr ⟨a, ha, horg, htype, rfl, rfl⟩))⟩)
    · exact Or.inl (Or.inr (Or.inr ⟨a, ha, horg, htype, (access_of_group horg htype).symm⟩))
    · exact Or.inr (Or.inl ⟨g.membershipId, hact,
        mem_accessTuples_iff.mpr (Or.inr (Or.inl ⟨g, hg, horg, rfl, rfl⟩))⟩)
    · exact Or.inr (Or.inr ⟨g, ⟨hg, horg, hst, htype⟩, hact, rfl⟩)
  · rintro ((⟨g, hg, horg, ht⟩ | ⟨a, ha, horg, p, hp, rfl⟩ | ⟨a, ha, horg, htype, rfl⟩) |
      ⟨m, hact, ht⟩ | ⟨g, ⟨hg, horg, hst, htype⟩, hact, rfl⟩)
    · obtain ⟨p, hp, rfl⟩ := (mem_groupTuples horg).mp ht
      exact Or.inl (Or.inl (Or.inl (Or.inl (Or.inl (Or.inl ⟨g, ⟨hg, horg⟩, p, hp, rfl⟩)))))
    · exact Or.inl (Or.inl (Or.inl (Or.inl (Or.inl (Or.inr ⟨a, ⟨ha, horg⟩, p, hp, rfl⟩)))))
    · exact Or.inl (Or.inl (Or.inr
        ⟨a, ⟨ha, horg, htype⟩, (access_of_group horg htype).symm⟩))
    · rcases mem_accessTuples_iff.mp ht with ⟨a, ha, horg, hm, rfl⟩ | ⟨g, hg, horg, rfl, rfl⟩ |
        ⟨a, ha, horg, htype, rfl, rfl⟩
      · exact Or.inl (Or.inl (Or.inl (Or.inl (Or.inr ⟨a, ⟨ha, horg⟩, m, ⟨hm, hact⟩, rfl⟩))))
      · exact Or.inl (Or.inr ⟨g, ⟨hg, horg, hact⟩, rfl⟩)
      · exact Or.inl (Or.inl (Or.inl (Or.inr ⟨a, ⟨ha, ⟨horg, htype⟩, hact⟩, rfl⟩)))
    · exact Or.inr ⟨g, ⟨hg, horg, ⟨hst, htype⟩, hact⟩, rfl⟩

end Kinds

end ArchGuard.Authz
