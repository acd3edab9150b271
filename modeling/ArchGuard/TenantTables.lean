import ArchGuard.TenantExpected

/-! The tables that the tuples of a tenant are computed from, and the computation query by query. -/
namespace ArchGuard.Authz
open ReadCommitted Tenancy

/-- The tables of the directory, and those of the catalog. -/
inductive SourceKey
  | tenancy (k : Tenancy.Key)
  | assetGroup (id : Uuid)
  | asset (id : Uuid)
  | assignment (id : Uuid)
  | groupMembership (id : Uuid)
  deriving DecidableEq, Repr

/-- The columns of an assignment are checked: only `operator` and `auditor` are assigned. -/
abbrev SourceRow : SourceKey → Type
  | .tenancy k => Tenancy.Row k
  | .assetGroup id => {g : AssetGroup // g.id = id}
  | .asset id => {a : Asset // a.id = id}
  | .assignment id => {a : AssetAccessAssignment // a.id = id ∧ assignableRelation a.relation = true}
  | .groupMembership id => {g : GroupMembership // g.id = id}

abbrev TenantDb := Store (Row SourceRow)

section Tables

variable (db : TenantDb)

def tenancyKey : Key SourceKey → Option Tenancy.Key
  | .source (.tenancy k) => some k
  | _ => none

theorem tenancyKey_eq_some {k : Key SourceKey} {t : Tenancy.Key} :
    tenancyKey k = some t ↔ k = .source (.tenancy t) := by
  cases k with
  | source k => cases k <;> simp [tenancyKey]
  | _ => simp [tenancyKey]

theorem nodup_tenancyKeys : (db.keys.filterMap tenancyKey).Nodup :=
  db.nodup.filterMap fun _ _ _ hk hk' =>
    (tenancyKey_eq_some.mp hk).trans (tenancyKey_eq_some.mp hk').symm

theorem covers_tenancy (k : Tenancy.Key) (v : Tenancy.Row k)
    (h : db.row (.source (.tenancy k)) = some v) : k ∈ db.keys.filterMap tenancyKey :=
  List.mem_filterMap.mpr ⟨.source (.tenancy k), db.covers _ v h, rfl⟩

/-- The directory. -/
def tenancyDb : Tenancy.Db where
  row k := db.row (.source (.tenancy k))
  keys := db.keys.filterMap tenancyKey
  nodup := nodup_tenancyKeys db
  covers := covers_tenancy db

/-- The rows of the source. -/
def tenantState : TenantState where
  db := tenancyDb db
  assetGroups := db.scan fun
    | .source (.assetGroup _), g => some g.1
    | _, _ => none
  assets := db.scan fun
    | .source (.asset _), a => some a.1
    | _, _ => none
  assignments := db.scan fun
    | .source (.assignment _), a => some a.1
    | _, _ => none
  groupMemberships := db.scan fun
    | .source (.groupMembership _), g => some g.1
    | _, _ => none
  outbox := []

end Tables

/-- The queries of `tenantExpectedTuples`. -/
inductive TenantQuery
  | groupParents | assetParents | owners | memberAccess | groupAccess | members | activeGrants
  deriving DecidableEq, Repr

namespace TenantQuery

variable (s : TenantState) (org : Uuid)

def run : TenantQuery → List RelationTuple
  | groupParents => (s.assetGroups.filter fun g => g.organizationId = org).filterMap fun g =>
      g.parentGroupId.map fun p =>
        ⟨qualify org .assetGroup p.text, relParent, qualify org .assetGroup g.id.text⟩
  | assetParents => (s.assets.filter fun a => a.organizationId = org).filterMap fun a =>
      a.parentGroupId.map fun p =>
        ⟨qualify org .assetGroup p.text, relParent, qualify org .asset a.id.text⟩
  | owners => (s.assets.filter fun a => a.organizationId = org).filterMap fun a =>
      (a.ownerMembershipId.filter fun m => activeMember s.db org m).map fun m =>
        ⟨qualify org .membership m.text, relOwner, qualify org .asset a.id.text⟩
  | memberAccess => (s.assignments.filter fun a => a.organizationId = org &&
      a.subjectType = .membership && activeMember s.db org a.subjectId).map fun a =>
        ⟨qualify org .membership a.subjectId.text, a.relation,
          qualify org a.objectType a.objectId.text⟩
  | groupAccess => (s.assignments.filter fun a => a.organizationId = org &&
      a.subjectType = .group).map fun a =>
        ⟨groupUserset org a.subjectId.text, a.relation, qualify org a.objectType a.objectId.text⟩
  | members => (s.groupMemberships.filter fun g => g.organizationId = org &&
      activeMember s.db org g.membershipId).map fun g =>
        ⟨qualify org .membership g.membershipId.text, relMember, qualify org .group g.groupId.text⟩
  | activeGrants => (listGrants s.db org fun g => g.status = .active &&
      g.target.type = ObjectType.asset.text && activeMember s.db org g.subjectMembershipId).map
        fun g => ⟨qualify org .membership g.subjectMembershipId.text, relHasActiveGrant,
          qualify org .asset g.target.id⟩

/-- In the order in which they are run. -/
def all : List TenantQuery :=
  [groupParents, assetParents, owners, memberAccess, groupAccess, members, activeGrants]

theorem mem_all (q : TenantQuery) : q ∈ all := by
  cases q <;> decide

/-- Over one snapshot the queries give the expected tuples. -/
theorem expected_eq : tenantExpectedTuples s org = all.flatMap fun q => q.run s org := by
  simp only [tenantExpectedTuples, all, run, List.flatMap_cons, List.flatMap_nil, List.append_nil,
    List.append_assoc]

theorem mem_expected_iff {t : RelationTuple} :
    t ∈ tenantExpectedTuples s org ↔ ∃ q : TenantQuery, t ∈ q.run s org := by
  rw [expected_eq, List.mem_flatMap]
  constructor
  · rintro ⟨q, -, hq⟩
    exact ⟨q, hq⟩
  · rintro ⟨q, hq⟩
    exact ⟨q, mem_all q, hq⟩

def of (t : RelationTuple) : TenantQuery :=
  if t.relation = relParent then
    if refType t.object = ObjectType.assetGroup.text then groupParents else assetParents
  else if t.relation = relOwner then owners
  else if t.relation = relMember then members
  else if t.relation = relHasActiveGrant then activeGrants
  else if '#' ∈ t.user.toList then groupAccess
  else memberAccess

theorem assignable_ne {relation : String} (h : assignableRelation relation = true) :
    relation ≠ relParent ∧ relation ≠ relOwner ∧ relation ≠ relMember ∧
      relation ≠ relHasActiveGrant := by
  have hcases : relation = relOperator ∨ relation = relAuditor := by
    simpa [assignableRelation] using h
  rcases hcases with rfl | rfl <;> decide

theorem owner_ne : relOwner ≠ relParent := by decide

theorem member_ne : relMember ≠ relParent ∧ relMember ≠ relOwner := by decide

theorem hasActiveGrant_ne : relHasActiveGrant ≠ relParent ∧ relHasActiveGrant ≠ relOwner ∧
    relHasActiveGrant ≠ relMember := by decide

theorem assignable_of_mem {db : TenantDb} {a : AssetAccessAssignment}
    (h : a ∈ (tenantState db).assignments) : assignableRelation a.relation = true := by
  obtain ⟨k, v, -, hk⟩ := (Store.mem_scan db).mp h
  cases k with
  | source k =>
    cases k with
    | assignment id => exact Option.some.inj hk ▸ v.2.2
    | _ => cases hk
  | _ => cases hk

theorem of_mem {db : TenantDb} {q : TenantQuery} {t : RelationTuple}
    (h : t ∈ q.run (tenantState db) org) : of t = q := by
  cases q with
  | groupParents =>
    obtain ⟨g, -, hg⟩ := List.mem_filterMap.mp h
    obtain ⟨p, -, rfl⟩ := Option.map_eq_some_iff.mp hg
    rw [of, if_pos rfl, if_pos (refType_qualify org .assetGroup g.id)]
  | assetParents =>
    obtain ⟨a, -, ha⟩ := List.mem_filterMap.mp h
    obtain ⟨p, -, rfl⟩ := Option.map_eq_some_iff.mp ha
    rw [of, if_pos rfl, if_neg]
    rw [refType_qualify org .asset a.id]
    decide
  | owners =>
    obtain ⟨a, -, ha⟩ := List.mem_filterMap.mp h
    obtain ⟨m, -, rfl⟩ := Option.map_eq_some_iff.mp ha
    rw [of, if_neg owner_ne, if_pos rfl]
  | memberAccess =>
    obtain ⟨a, ha, rfl⟩ := List.mem_map.mp h
    obtain ⟨hp, ho, hm, hg⟩ := assignable_ne (assignable_of_mem (List.mem_filter.mp ha).1)
    rw [of, if_neg hp, if_neg ho, if_neg hm, if_neg hg,
      if_neg (qualify_no_hash org .membership a.subjectId)]
  | groupAccess =>
    obtain ⟨a, ha, rfl⟩ := List.mem_map.mp h
    obtain ⟨hp, ho, hm, hg⟩ := assignable_ne (assignable_of_mem (List.mem_filter.mp ha).1)
    rw [of, if_neg hp, if_neg ho, if_neg hm, if_neg hg, if_pos]
    rw [groupUserset, String.toList_append]
    exact List.mem_append_right _ (by decide)
  | members =>
    obtain ⟨g, -, rfl⟩ := List.mem_map.mp h
    rw [of, if_neg member_ne.1, if_neg member_ne.2, if_pos rfl]
  | activeGrants =>
    obtain ⟨g, -, rfl⟩ := List.mem_map.mp h
    rw [of, if_neg hasActiveGrant_ne.1, if_neg hasActiveGrant_ne.2.1, if_neg hasActiveGrant_ne.2.2,
      if_pos rfl]

end TenantQuery

/-- What the tuples of the source look like. -/
structure ExpectedForm (org : Uuid) (t : RelationTuple) : Prop where
  user : refOrg t.user = some org.text
  object : refOrg t.object = some org.text
  user_nul : '\x00' ∉ t.user.toList
  relation_nul : '\x00' ∉ t.relation.toList
  relation_ne : t.relation ≠ ""
  grantee : t.relation = relHasActiveGrant → splitUserset t.user = none

/-- The relations that the tuples of the source are on. -/
def storedRelations : List String :=
  [relParent, relOwner, relOperator, relAuditor, relMember, relHasActiveGrant]

theorem storedRelations_plain {relation : String} (h : relation ∈ storedRelations) :
    '\x00' ∉ relation.toList ∧ relation ≠ "" := by
  have hall : ∀ r ∈ storedRelations, '\x00' ∉ r.toList ∧ r ≠ "" := by decide
  exact hall relation h

theorem assignable_stored {relation : String} (h : assignableRelation relation = true) :
    relation ∈ storedRelations := by
  have hcases : relation = relOperator ∨ relation = relAuditor := by
    simpa [assignableRelation] using h
  rcases hcases with rfl | rfl <;> decide

theorem expectedForm_of_object {org id : Uuid} {typ typ' : ObjectType} {relation s : String}
    (h : relation ∈ storedRelations) :
    ExpectedForm org ⟨qualify org typ id.text, relation, qualify org typ' s⟩ where
  user := refOrg_qualify org typ id
  object := refOrg_qualify_text org typ' s
  user_nul := qualify_no_nul org typ id
  relation_nul := (storedRelations_plain h).1
  relation_ne := (storedRelations_plain h).2
  grantee _ := splitUserset_qualify org typ id

theorem groupUserset_eq (org id : Uuid) :
    groupUserset org id.text = qualifyUserset org .group id.text relMember := by
  rw [groupUserset, qualifyUserset, String.append_assoc]
  rfl

theorem expectedForm_of_group {org id : Uuid} {typ : ObjectType} {relation s : String}
    (h : assignableRelation relation = true) :
    ExpectedForm org ⟨groupUserset org id.text, relation, qualify org typ s⟩ where
  user := by
    rw [groupUserset_eq]
    exact refOrg_userset org .group id relMember
  object := refOrg_qualify_text org typ s
  user_nul := by
    rw [groupUserset, String.toList_append, List.mem_append, not_or]
    exact ⟨qualify_no_nul org .group id, by decide⟩
  relation_nul := (storedRelations_plain (assignable_stored h)).1
  relation_ne := (storedRelations_plain (assignable_stored h)).2
  grantee hgrant := absurd hgrant (TenantQuery.assignable_ne h).2.2.2

theorem expectedForm_of_mem {db : TenantDb} {org : Uuid} {t : RelationTuple}
    (h : t ∈ tenantExpectedTuples (tenantState db) org) : ExpectedForm org t := by
  obtain ⟨q, hq⟩ := (TenantQuery.mem_expected_iff _ org).mp h
  cases q with
  | groupParents =>
    obtain ⟨g, -, hg⟩ := List.mem_filterMap.mp hq
    obtain ⟨p, -, rfl⟩ := Option.map_eq_some_iff.mp hg
    exact expectedForm_of_object (by decide)
  | assetParents =>
    obtain ⟨a, -, ha⟩ := List.mem_filterMap.mp hq
    obtain ⟨p, -, rfl⟩ := Option.map_eq_some_iff.mp ha
    exact expectedForm_of_object (by decide)
  | owners =>
    obtain ⟨a, -, ha⟩ := List.mem_filterMap.mp hq
    obtain ⟨m, -, rfl⟩ := Option.map_eq_some_iff.mp ha
    exact expectedForm_of_object (by decide)
  | memberAccess =>
    obtain ⟨a, ha, rfl⟩ := List.mem_map.mp hq
    have hassigned := TenantQuery.assignable_of_mem (List.mem_filter.mp ha).1
    exact expectedForm_of_object (assignable_stored hassigned)
  | groupAccess =>
    obtain ⟨a, ha, rfl⟩ := List.mem_map.mp hq
    exact expectedForm_of_group (TenantQuery.assignable_of_mem (List.mem_filter.mp ha).1)
  | members =>
    obtain ⟨g, -, rfl⟩ := List.mem_map.mp hq
    exact expectedForm_of_object (by decide)
  | activeGrants =>
    obtain ⟨g, -, rfl⟩ := List.mem_map.mp hq
    exact expectedForm_of_object (by decide)

end ArchGuard.Authz
