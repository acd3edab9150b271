import ArchGuard.TenantSpec

/-! What the calls on the catalog of assets and groups leave, and enqueue. -/
namespace ArchGuard.Authz
open Tenancy

variable {parse : String → Option Uuid} {c : Collaborators} {org : Uuid} {s : TenantState}

theorem relParent_ne : relParent ≠ "" ∧ relParent ≠ relHasActiveGrant := by decide

/-- A tuple between two objects of the tenant, of a relation that no grant gives. -/
structure Structural (org : Uuid) (t : RelationTuple) : Prop where
  user : refOrg t.user = some org.text
  object : refOrg t.object = some org.text
  relation : t.relation ≠ "" ∧ t.relation ≠ relHasActiveGrant

theorem Structural.inTenant {t : RelationTuple} (h : Structural org t) (op : TupleOp)
    (condition : Option TupleCondition) : WithinTenant org ⟨op, t, condition⟩ :=
  ⟨h.user, h.object, h.relation.1⟩

theorem structural_accessTuples (hassign : Assignable s) {membershipId : Uuid} {t : RelationTuple}
    (h : t ∈ accessTuples s org membershipId) : Structural org t := by
  obtain ⟨huser, hne, hgrant, typ, id, hobject⟩ := mem_accessTuples hassign h
  constructor
  · rw [huser]
    exact refOrg_qualify _ _ _
  · rw [hobject]
    exact refOrg_qualify _ _ _
  · exact ⟨hne, hgrant⟩

theorem structural_assetGroup {g : AssetGroup} (hg : g.organizationId = org) {t : RelationTuple}
    (h : t ∈ g.tuples) : Structural org t := by
  unfold AssetGroup.tuples at h
  split at h
  · cases h
  · obtain rfl := List.mem_singleton.mp h
    rw [AssetGroup.ref, hg]
    exact ⟨refOrg_qualify _ _ _, refOrg_qualify _ _ _, relParent_ne⟩

theorem structural_asset {a : Asset} (ha : a.organizationId = org) {t : RelationTuple}
    (h : t ∈ a.tuples) : Structural org t := by
  rcases List.mem_append.mp h with h | h
  · split at h
    · cases h
    · obtain rfl := List.mem_singleton.mp h
      rw [Asset.ref, ha]
      exact ⟨refOrg_qualify _ _ _, refOrg_qualify _ _ _, relParent_ne⟩
  · split at h
    · cases h
    · obtain rfl := List.mem_singleton.mp h
      rw [Asset.ref, ha]
      exact ⟨refOrg_qualify _ _ _, refOrg_qualify _ _ _, relOwner_ne⟩

def AssetAccessAssignment.access (a : AssetAccessAssignment) : RelationTuple :=
  ⟨a.subjectRef, a.relation, a.objectRef⟩

theorem hash_member : "#" ++ "member" = "#member" := by decide

theorem qualifyUserset_member (typ : ObjectType) (id : String) :
    qualifyUserset org typ id "member" = qualify org typ id ++ "#member" := by
  rw [qualifyUserset, String.append_assoc, hash_member]

theorem refOrg_subjectRef (a : AssetAccessAssignment) :
    refOrg a.subjectRef = some a.organizationId.text := by
  unfold AssetAccessAssignment.subjectRef
  split_ifs
  · rw [← qualifyUserset_member]
    exact refOrg_userset _ _ _ _
  · exact refOrg_qualify _ _ _

theorem structural_access {a : AssetAccessAssignment} (ha : a.organizationId = org)
    (hrel : assignableRelation a.relation = true) : Structural org a.access := by
  constructor
  · rw [← ha]
    exact refOrg_subjectRef a
  · rw [← ha]
    exact refOrg_qualify _ _ _
  · exact assignableRelation_ne hrel

def GroupMembership.edge (g : GroupMembership) : RelationTuple :=
  ⟨qualify g.organizationId .membership g.membershipId.text, relMember,
    qualify g.organizationId .group g.groupId.text⟩

theorem structural_edge {g : GroupMembership} (hg : g.organizationId = org) :
    Structural org g.edge := by
  unfold GroupMembership.edge
  rw [hg]
  exact ⟨refOrg_qualify _ _ _, refOrg_qualify _ _ _, relMember_ne⟩

theorem enqueue_structural (hparse : ∀ u : Uuid, parse u.text = some u) {ts : List RelationTuple}
    {op : TupleOp} (hts : ∀ t ∈ ts, Structural org t) :
    enqueue parse (ts.map fun t => ⟨op, t, none⟩) = .ok (ts.map fun t => ⟨op, t, none⟩) := by
  have hin : ∀ u ∈ ts.map fun t => (⟨op, t, none⟩ : TupleUpdate), WithinTenant org u := by
    intro u hu
    obtain ⟨t, ht, rfl⟩ := List.mem_map.mp hu
    exact (hts t ht).inTenant op none
  exact enqueue_ok hparse hin

theorem orElse_cases (r : Except CatalogError TenantState) :
    orElse s r = s ∨ ∃ s', r = .ok s' ∧ orElse s r = s' := by
  cases r with
  | error err => exact Or.inl rfl
  | ok s' => exact Or.inr ⟨s', rfl, rfl⟩

theorem createAssetGroup_cases (hparse : ∀ u : Uuid, parse u.text = some u) (id : Uuid)
    (name : String) (parent : Option Uuid) :
    performTenant parse c org s (.createAssetGroup id name parent) = s ∨
      ∃ g : AssetGroup, g.organizationId = org ∧
        performTenant parse c org s (.createAssetGroup id name parent) = { s with
          assetGroups := s.assetGroups ++ [g]
          outbox := s.outbox ++ g.tuples.map fun t => ⟨.write, t, none⟩ } := by
  apply (orElse_cases _).imp_right
  rintro ⟨s', hok, hs'⟩
  obtain ⟨g, -, hok⟩ := bind_eq_ok.mp hok
  unfold createAssetGroup at hok
  split at hok
  · cases hok
  rename_i horg
  split at hok
  · cases hok
  have hg : g.organizationId = org := not_not.mp horg
  rw [enqueue_structural hparse fun t ht => structural_assetGroup hg ht] at hok
  exact ⟨g, hg, hs'.trans (Except.ok.inj hok).symm⟩

/-- A new asset whose parent group and owner exist. -/
theorem createAsset_accepted (hparse : ∀ u : Uuid, parse u.text = some u) {a : Asset}
    (ha : a.organizationId = org) (hkeys : ¬((s.assets.any fun r => r.id = a.id) ∨
      (a.parentGroupId.any fun p => !s.assetGroups.any fun r => r.id = p) ∨
      (a.ownerMembershipId.any fun m => (membershipAt s.db m).isNone))) :
    createAsset parse s org a = .ok { s with
      assets := s.assets ++ [a]
      outbox := s.outbox ++ a.tuples.map fun t => ⟨.write, t, none⟩ } := by
  rw [createAsset, if_neg (not_not.mpr ha), if_neg hkeys, projectAsset,
    show opFor true = .write from rfl, enqueue_structural hparse fun t ht => structural_asset ha ht]
  rfl

theorem createAsset_cases (hparse : ∀ u : Uuid, parse u.text = some u) (id : Uuid)
    (kind name externalRef : String) (parent owner : Option Uuid) :
    performTenant parse c org s (.createAsset id kind name externalRef parent owner) = s ∨
      ∃ a : Asset, a.organizationId = org ∧ a.ownerMembershipId = owner ∧
        (∃ s', newAsset id org kind name externalRef parent owner = .ok a ∧
          createAsset parse s org a = .ok s') ∧
        performTenant parse c org s (.createAsset id kind name externalRef parent owner) = { s with
          assets := s.assets ++ [a]
          outbox := s.outbox ++ a.tuples.map fun t => ⟨.write, t, none⟩ } := by
  apply (orElse_cases _).imp_right
  rintro ⟨s', hok, hs'⟩
  obtain ⟨a, hnew, hok⟩ := bind_eq_ok.mp hok
  have howner : a.ownerMembershipId = owner := by
    unfold newAsset at hnew
    split_ifs at hnew
    exact Except.ok.inj hnew ▸ rfl
  have hcall := hok
  unfold createAsset at hok
  split at hok
  · cases hok
  rename_i horg
  split at hok
  · cases hok
  rename_i hkeys
  have ha : a.organizationId = org := not_not.mp horg
  have haccepted := createAsset_accepted hparse ha hkeys
  exact ⟨a, ha, howner, ⟨s', hnew, hcall⟩,
    hs'.trans (Except.ok.inj (hcall.symm.trans haccepted))⟩

theorem createAssetAccess_cases (hparse : ∀ u : Uuid, parse u.text = some u) (id : Uuid)
    (subjectType : ObjectType) (subjectId : Uuid) (relation : String) (objectType : ObjectType)
    (objectId : Uuid) :
    performTenant parse c org s
        (.createAssetAccess id subjectType subjectId relation objectType objectId) = s ∨
      ∃ a : AssetAccessAssignment, a.organizationId = org ∧ a.subjectType = subjectType ∧
        a.subjectId = subjectId ∧ (subjectType = .membership ∨ subjectType = .group) ∧
        assignableRelation a.relation = true ∧
        (∃ s', newAssetAccessAssignment id org subjectType subjectId relation objectType objectId =
          .ok a ∧ createAssetAccess parse s org a = .ok s') ∧
        performTenant parse c org s
          (.createAssetAccess id subjectType subjectId relation objectType objectId) = { s with
            assignments := s.assignments ++ [a]
            outbox := s.outbox ++ [⟨.write, a.access, none⟩] } := by
  apply (orElse_cases _).imp_right
  rintro ⟨s', hok, hs'⟩
  obtain ⟨a, hnew, hok⟩ := bind_eq_ok.mp hok
  have hrow : a.subjectType = subjectType ∧ a.subjectId = subjectId ∧
      (subjectType = .membership ∨ subjectType = .group) := by
    unfold newAssetAccessAssignment at hnew
    split_ifs at hnew with hnil hsubject
    refine Except.ok.inj hnew ▸ ⟨rfl, rfl, ?_⟩
    by_contra hno
    exact hsubject (not_or.mp hno)
  have hcall := hok
  unfold createAssetAccess at hok
  split at hok
  · cases hok
  rename_i horg
  split at hok
  · cases hok
  have ha : a.organizationId = org := not_not.mp horg
  obtain ⟨update, hupdate, hok⟩ := bind_eq_ok.mp hok
  have hrel : assignableRelation a.relation = true := by
    unfold AssetAccessAssignment.tuple projectRoleAssignment at hupdate
    split at hupdate
    · cases hupdate
    rename_i hno
    simpa using hno
  have hobject : refOrg a.objectRef = some a.organizationId.text := refOrg_qualify _ _ _
  rw [AssetAccessAssignment.tuple, projectRoleAssignment_ok hrel hobject (refOrg_subjectRef a)] at hupdate
  obtain rfl := Except.ok.inj hupdate
  have hin : ∀ u ∈ [TupleUpdate.mk (opFor true) a.access none], WithinTenant org u := by
    intro u hu
    obtain rfl := List.mem_singleton.mp hu
    exact (structural_access ha hrel).inTenant _ none
  change (enqueue parse [TupleUpdate.mk (opFor true) a.access none] >>= _) = _ at hok
  rw [enqueue_ok hparse hin] at hok
  exact ⟨a, ha, hrow.1, hrow.2.1, hrow.2.2, hrel, ⟨s', hnew, hcall⟩, hs'.trans (Except.ok.inj hok).symm⟩

theorem createGroupMembership_cases (hparse : ∀ u : Uuid, parse u.text = some u)
    (id groupId membershipId : Uuid) :
    performTenant parse c org s (.createGroupMembership id groupId membershipId) = s ∨
      ∃ g : GroupMembership, g.organizationId = org ∧ g.membershipId = membershipId ∧
        (∃ s', newGroupMembership id org groupId membershipId = .ok g ∧
          createGroupMembership parse s org g = .ok s') ∧
        performTenant parse c org s (.createGroupMembership id groupId membershipId) = { s with
          groupMemberships := s.groupMemberships ++ [g]
          outbox := s.outbox ++ [⟨.write, g.edge, none⟩] } := by
  apply (orElse_cases _).imp_right
  rintro ⟨s', hok, hs'⟩
  obtain ⟨g, hnew, hok⟩ := bind_eq_ok.mp hok
  have hmember : g.membershipId = membershipId := by
    unfold newGroupMembership at hnew
    split_ifs at hnew
    exact Except.ok.inj hnew ▸ rfl
  have hcall := hok
  unfold createGroupMembership at hok
  split at hok
  · cases hok
  rename_i horg
  split at hok
  · cases hok
  have hg : g.organizationId = org := not_not.mp horg
  have hin : ∀ u ∈ [g.tuple true], WithinTenant org u := by
    intro u hu
    obtain rfl := List.mem_singleton.mp hu
    exact (structural_edge hg).inTenant _ none
  rw [enqueue_ok hparse hin] at hok
  exact ⟨g, hg, hmember, ⟨s', hnew, hcall⟩, hs'.trans (Except.ok.inj hok).symm⟩

theorem deleteGroupMembership_eq (hparse : ∀ u : Uuid, parse u.text = some u)
    (groupId membershipId : Uuid) :
    performTenant parse c org s (.deleteGroupMembership groupId membershipId) = { s with
      groupMemberships := s.groupMemberships.filter fun r =>
        !(r.organizationId = org && r.groupId = groupId && r.membershipId = membershipId)
      outbox := s.outbox ++
        [⟨.delete, (GroupMembership.mk Uuid.nil org groupId membershipId).edge, none⟩] } := by
  set g : GroupMembership := ⟨Uuid.nil, org, groupId, membershipId⟩ with hg
  have hin : ∀ u ∈ [g.tuple false], WithinTenant org u := by
    intro u hu
    obtain rfl := List.mem_singleton.mp hu
    exact (structural_edge (g := g) rfl).inTenant _ none
  have hok : deleteGroupMembership parse s org g = .ok { s with
      groupMemberships := s.groupMemberships.filter fun r =>
        !(r.organizationId = org && r.groupId = groupId && r.membershipId = membershipId)
      outbox := s.outbox ++ [g.tuple false] } := by
    unfold deleteGroupMembership
    rw [if_neg (not_not.mpr rfl), enqueue_ok hparse hin]
    rfl
  rw [performTenant, ← hg, hok]
  rfl

end ArchGuard.Authz
