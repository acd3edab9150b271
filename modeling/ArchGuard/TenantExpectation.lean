import ArchGuard.TenantMembers

/-! Projection equals expectation over the runs of a tenant, and the calls that break it. -/
namespace ArchGuard.Authz
open Tenancy TransitionRun

def GrantFree (db : Db) (org membershipId : Uuid) : Prop :=
  ∀ g, AssetGrant db org g → g.subjectMembershipId ≠ membershipId

/-- The active memberships of the identity have no access of their own and no active grant on
an asset. -/
def HoldsNoAccess (s : TenantState) (org identityId : Uuid) : Prop :=
  ∀ k m, membershipAt s.db k = some m → m.identityId = identityId →
    activeMember s.db org k = true → accessTuples s org k = [] ∧ GrantFree s.db org k

/-- A grant on an asset becomes active for an active member only, and with a target id in
canonical form; and where it is not active afterwards, no other grant of its subject on its
asset stays active. -/
def GrantsProjected (parse : String → Option Uuid) (c : Collaborators) (org : Uuid)
    (s : TenantState) (op : TenantOp) : Prop :=
  ∀ g ∈ transitions c org s op, g.target.type = ObjectType.asset.text →
    (g.status = .active → activeMember s.db org g.subjectMembershipId = true ∧
      ∃ u : Uuid, g.target.id = u.text) ∧
    (g.status ≠ .active → ∀ asset, namedAsset parse g.target = some asset →
      ∀ r, AssetGrant s.db org r → OnPair parse g.subjectMembershipId asset r →
        ∃ g' ∈ transitions c org s op, g'.id = r.id)

/-- What a call has to meet. Access is given to active memberships only, no membership is
suspended from under its grants, and the cascades of an identity find nothing to take away. -/
def KeepsExpected (parse : String → Option Uuid) (c : Collaborators) (org : Uuid)
    (s : TenantState) : TenantOp → Prop
  | .createAsset id kind name externalRef parent owner => ∀ a s',
      newAsset id org kind name externalRef parent owner = .ok a →
        createAsset parse s org a = .ok s' → ∀ m, owner = some m → activeMember s.db org m = true
  | .createAssetAccess id subjectType subjectId relation objectType objectId => ∀ a s',
      newAssetAccessAssignment id org subjectType subjectId relation objectType objectId = .ok a →
        createAssetAccess parse s org a = .ok s' → subjectType = .membership →
          activeMember s.db org subjectId = true
  | .createGroupMembership id groupId membershipId => ∀ g s',
      newGroupMembership id org groupId membershipId = .ok g →
        createGroupMembership parse s org g = .ok s' → activeMember s.db org membershipId = true
  | .suspendForDeactivation membershipId =>
      activeMember s.db org membershipId = true → GrantFree s.db org membershipId
  | .suspendIdentity identityId => ∀ i, getIdentity s.db identityId = some i →
      i.status ≠ .deprovisioned → HoldsNoAccess s org identityId
  | .deprovisionIdentity identityId =>
      (getIdentity s.db identityId).isSome = true → HoldsNoAccess s org identityId
  | op => GrantsProjected parse c org s op

section Removals

variable {parse : String → Option Uuid} {org : Uuid} {s : TenantState}

theorem isSome_edited {db db' : Db} {test : Membership → Bool} {status : MembershipStatus}
    (htab : ∀ k, membershipAt db' k = (membershipAt db k).map (edit test (Membership.setStatus status)))
    (k : Uuid) (hk : (membershipAt db k).isSome = true) : (membershipAt db' k).isSome = true := by
  rw [htab, Option.isSome_map]
  exact hk

theorem accessUpdates_removed {m : Uuid} {u : TupleUpdate}
    (hu : u ∈ accessUpdates s org m false) :
    u.op = .delete ∧ u.tuple.user = qualify org .membership m.text := by
  obtain ⟨t, ht, rfl⟩ := List.mem_map.mp hu
  exact ⟨rfl, user_of_accessTuples ht⟩

theorem projected_suspendForDeactivation (c : Collaborators)
    (hparse : ∀ u : Uuid, parse u.text = some u) (h : Projected org s) {membershipId : Uuid}
    (hok : KeepsExpected parse c org s (.suspendForDeactivation membershipId)) :
    Projected org (performTenant parse c org s (.suspendForDeactivation membershipId)) := by
  have ho : (TenantOp.suspendForDeactivation membershipId).service org =
      some (.suspendForDeactivation org membershipId) := rfl
  obtain ⟨hs', hinv⟩ := service_step c hparse h ho
  simp only [perform, lifecycleUpdates, transitions, List.flatMap_nil, List.append_nil] at hs'
  by_cases hidle : ∀ m, getMembership s.db org membershipId = some m → m.status ≠ .active
  · have hno : ¬((getMembership s.db org membershipId).any fun m => m.status = .active) = true := by
      intro hany
      obtain ⟨m, hm, hact⟩ := (Option.any_eq_true _ _).mp hany
      exact hidle m hm (of_decide_eq_true hact)
    rw [suspendForDeactivation_idle hidle, if_neg hno] at hs'
    exact projected_of_quiet h hs' hinv (admits_of_same rfl rfl) fun k hk => hk.elim
  simp only [not_forall, ne_eq, not_not] at hidle
  obtain ⟨m, hm, hact⟩ := hidle
  have hany : ((getMembership s.db org membershipId).any fun m => m.status = .active) = true := by
    rw [hm]
    exact decide_eq_true hact
  rw [if_pos hany] at hs'
  obtain ⟨hrow, horg⟩ := getMembership_some hm
  have hfree : GrantFree s.db org membershipId := hok (activeMember_iff.mpr ⟨m, hrow, horg, hact⟩)
  obtain ⟨sessions, htab⟩ := tables_suspendForDeactivation hm hact
  have hmember (k : Uuid) : membershipAt (suspendForDeactivation s.db org membershipId).2 k =
      (membershipAt s.db k).map (edit (fun r => r.id = membershipId && r.organizationId = org &&
        r.status = .active) (Membership.setStatus .suspended)) :=
    congrFun (congrArg Tables.membership htab) k
  have hgrant : grantAt (suspendForDeactivation s.db org membershipId).2 = grantAt s.db :=
    congrArg Tables.grant htab
  refine h.remove (fun k => k = membershipId) hs' hinv ?_ (isSome_edited hmember) ?_ ?_ ?_ ?_ ?_
  · intro g
    unfold AssetGrant
    rw [hgrant]
    exact ⟨fun hg => ⟨hg, hfree g hg⟩, fun hg => hg.1⟩
  · intro k
    rw [activeMember_stopped (hmember k) (by decide)]
    refine and_congr_right fun hk => not_congr ?_
    obtain ⟨r, hr, hrorg, hract⟩ := activeMember_iff.mp hk
    have hid := membershipAt_id hr
    constructor
    · rintro ⟨r', hr', htest⟩
      obtain rfl := Option.some.inj (hr.symm.trans hr')
      simp only [Bool.and_eq_true, decide_eq_true_eq] at htest
      exact hid.symm.trans htest.1.1
    · rintro rfl
      exact ⟨r, hr, by simp [hid, hrorg, hract]⟩
  · exact fun u hu => (accessUpdates_removed hu).1
  · exact fun u hu => ⟨membershipId, rfl, (accessUpdates_removed hu).2⟩
  · rintro k rfl - t ht
    exact ⟨_, List.mem_map.mpr ⟨t, ht, rfl⟩, rfl⟩
  · exact fun g hg hout => absurd hout (hfree g hg)

theorem projected_cascade (h : Projected org s) {identityId : Uuid} {i i' : Identity}
    {transition : Identity → Except DirectoryError Identity} {moved : Membership → Bool}
    {status : MembershipStatus} {s' : TenantState} (hi : getIdentity s.db identityId = some i)
    (hs' : s' = { s with
      db := (inTx s.db (cascade s.db identityId transition moved status)).2
      outbox := s.outbox ++ [] }) (hinv : TenantInv org s')
    (ht : transition i = .ok i') (hid : i'.id = i.id)
    (hmoved : ∀ m, m.status = .active → moved m = true) (hstatus : status ≠ .active)
    (hbare : HoldsNoAccess s org identityId) : Projected org s' := by
  have htab : tables (inTx s.db (cascade s.db identityId transition moved status)).2 = _ :=
    tables_cascade hi ht hid
  have hmember (k : Uuid) : membershipAt
      (inTx s.db (cascade s.db identityId transition moved status)).2 k = (membershipAt s.db k).map
        (edit (fun m => m.identityId = identityId && moved m) (Membership.setStatus status)) :=
    congrFun (congrArg Tables.membership htab) k
  have hgrant : grantAt (inTx s.db (cascade s.db identityId transition moved status)).2 =
      grantAt s.db := congrArg Tables.grant htab
  have hout {k : Uuid} (hk : ∃ m, membershipAt s.db k = some m ∧ m.identityId = identityId ∧
      m.organizationId = org ∧ m.status = .active) :
      accessTuples s org k = [] ∧ GrantFree s.db org k := by
    obtain ⟨m, hm, hown, horg, hact⟩ := hk
    exact hbare k m hm hown (activeMember_iff.mpr ⟨m, hm, horg, hact⟩)
  refine h.remove (fun k => ∃ m, membershipAt s.db k = some m ∧ m.identityId = identityId ∧
      m.organizationId = org ∧ m.status = .active) hs' hinv (fun g => ?_) (isSome_edited hmember)
    (fun k => ?_) (fun u hu => absurd hu List.not_mem_nil) (fun u hu => absurd hu List.not_mem_nil)
    ?_ ?_
  · unfold AssetGrant
    rw [hgrant]
    exact ⟨fun hg => ⟨hg, fun hk => (hout hk).2 g hg rfl⟩, fun hg => hg.1⟩
  · rw [activeMember_stopped (hmember k) hstatus]
    refine and_congr_right fun hk => not_congr ?_
    obtain ⟨r, hr, hrorg, hract⟩ := activeMember_iff.mp hk
    constructor
    · rintro ⟨r', hr', htest⟩
      obtain rfl := Option.some.inj (hr.symm.trans hr')
      simp only [Bool.and_eq_true, decide_eq_true_eq] at htest
      exact ⟨r, hr, htest.1, hrorg, hract⟩
    · rintro ⟨r', hr', hown, -, hact'⟩
      exact ⟨r', hr', by simp [hown, hmoved r' hact']⟩
  · intro k hk _ t ht
    rw [(hout hk).1] at ht
    cases ht
  · exact fun g hg hk => absurd rfl ((hout hk).2 g hg)

theorem namedAsset_of_canonical (hparse : ∀ u : Uuid, parse u.text = some u) {t : GrantTarget}
    {u : Uuid} (htype : t.type = ObjectType.asset.text) (hid : t.id = u.text) :
    namedAsset parse t = some u := by
  rw [namedAsset, if_pos htype, hid]
  exact hparse u

theorem grantUpdate_op {g : PrivilegedGrant} {asset : Uuid} :
    (grantUpdate g asset).op = if g.status = .active then .write else .delete := by
  unfold grantUpdate
  by_cases hs : g.status = .active <;> simp [hs]

theorem mem_transitionUpdates {gs : List PrivilegedGrant} {u : TupleUpdate} :
    u ∈ gs.flatMap (grantUpdates parse) ↔
      ∃ g ∈ gs, ∃ asset, namedAsset parse g.target = some asset ∧ u = grantUpdate g asset := by
  simp only [List.mem_flatMap, grantUpdates, List.mem_map, Option.mem_toList,
    eq_comm]

theorem projected_revokeMembership (c : Collaborators)
    (hparse : ∀ u : Uuid, parse u.text = some u) (h : Projected org s) (membershipId : Uuid) :
    Projected org (performTenant parse c org s (.revokeMembership membershipId)) := by
  have ho : (TenantOp.revokeMembership membershipId).service org =
      some (.revokeMembership org membershipId) := rfl
  obtain ⟨hs', hinv⟩ := service_step c hparse h ho
  simp only [perform, lifecycleUpdates, transitions] at hs'
  cases hm : getMembership s.db org membershipId with
  | none =>
    rw [revokeMembership_unknown hm] at hs'
    simp only [hm, Option.isSome_none, Bool.false_eq_true, if_false, List.flatMap_nil,
      List.append_nil] at hs'
    refine projected_of_quiet h ?_ hinv (admits_of_same rfl rfl) fun k hk => hk.elim
    rw [hs', List.append_nil]
  | some m =>
    simp only [hm, Option.isSome_some, if_true] at hs'
    obtain ⟨hrow, horg⟩ := getMembership_some hm
    obtain ⟨sessions, htab⟩ := tables_revokeMembership hm
    have hmember (k : Uuid) : membershipAt (revokeMembership s.db org membershipId).2 k =
        (membershipAt s.db k).map (edit (fun r => r.id = membershipId && r.organizationId = org)
          (Membership.setStatus .revoked)) := congrFun (congrArg Tables.membership htab) k
    have hgrant (k : Uuid) : grantAt (revokeMembership s.db org membershipId).2 k =
        (grantAt s.db k).map (edit (heldIn org membershipId) (PrivilegedGrant.setStatus .revoked)) :=
      congrFun (congrArg Tables.grant htab) k
    have hlisted {g : PrivilegedGrant} : g ∈ listActiveByMembership s.db org membershipId ↔
        grantAt s.db g.id = some g ∧ g.organizationId = org ∧
          g.subjectMembershipId = membershipId ∧ g.status = .active := by
      simp only [listActiveByMembership, mem_listGrants, Bool.and_eq_true, decide_eq_true_eq]
    refine h.remove (fun k => k = membershipId) hs' hinv (fun g => ?_) (isSome_edited hmember)
      (fun k => ?_) (fun u hu => ?_) (fun u hu => ?_) ?_ ?_
    · unfold AssetGrant
      rw [hgrant]
      constructor
      · rintro ⟨hg, hgorg, hact, htype⟩
        obtain ⟨g₀, hg₀, rfl⟩ := Option.map_eq_some_iff.mp hg
        have hheld : ¬heldIn org membershipId g₀ = true := by
          intro hheld
          rw [edit, if_pos hheld] at hact
          cases hact
        rw [edit, if_neg hheld] at hg₀ hgorg hact htype ⊢
        refine ⟨⟨hg₀, hgorg, hact, htype⟩, fun hsub => hheld ?_⟩
        simp [heldIn, hgorg, hsub, hact]
      · rintro ⟨⟨hg, hgorg, hact, htype⟩, hsub⟩
        refine ⟨?_, hgorg, hact, htype⟩
        rw [hg, Option.map_some, edit, if_neg]
        simp [heldIn, hsub]
    · rw [activeMember_stopped (hmember k) (by decide)]
      refine and_congr_right fun hk => not_congr ?_
      obtain ⟨r, hr, hrorg, -⟩ := activeMember_iff.mp hk
      have hid := membershipAt_id hr
      constructor
      · rintro ⟨r', hr', htest⟩
        obtain rfl := Option.some.inj (hr.symm.trans hr')
        simp only [Bool.and_eq_true, decide_eq_true_eq] at htest
        exact hid.symm.trans htest.1
      · rintro rfl
        exact ⟨r, hr, by simp [hid, hrorg]⟩
    · rcases List.mem_append.mp hu with hu | hu
      · exact (accessUpdates_removed hu).1
      · obtain ⟨g', hg', asset, -, rfl⟩ := mem_transitionUpdates.mp hu
        obtain ⟨g, -, rfl⟩ := List.mem_map.mp hg'
        exact grantUpdate_op.trans (if_neg (by simp [PrivilegedGrant.setStatus]))
    · refine ⟨membershipId, rfl, ?_⟩
      rcases List.mem_append.mp hu with hu | hu
      · exact (accessUpdates_removed hu).2
      · obtain ⟨g', hg', asset, -, rfl⟩ := mem_transitionUpdates.mp hu
        obtain ⟨g, hg, rfl⟩ := List.mem_map.mp hg'
        obtain ⟨-, hgorg, hsub, -⟩ := hlisted.mp hg
        rw [grantUpdate_tuple]
        simp only [grantTuple, PrivilegedGrant.setStatus, hgorg, hsub]
    · rintro k rfl - t ht
      exact ⟨_, List.mem_append_left _ (List.mem_map.mpr ⟨t, ht, rfl⟩), rfl⟩
    · intro g hg hsub
      obtain ⟨-, asset, hid⟩ := h.grants g hg
      obtain ⟨hrow, hgorg, hact, htype⟩ := hg
      refine ⟨grantUpdate (g.setStatus .revoked) asset, List.mem_append_right _
        (mem_transitionUpdates.mpr ⟨g.setStatus .revoked, List.mem_map.mpr
          ⟨g, hlisted.mpr ⟨hrow, hgorg, hsub, hact⟩, rfl⟩, asset, ?_, rfl⟩), ?_⟩
      · exact namedAsset_of_canonical hparse htype hid
      · rw [grantUpdate_tuple, hid]
        simp only [grantTuple, PrivilegedGrant.setStatus, hgorg]

end Removals

section Decisions

variable {parse : String → Option Uuid} {c : Collaborators} {org : Uuid} {s s' : TenantState}
  {op : TenantOp} {db' : Db}

/-- The tuple that an active grant on an asset is expected to have. -/
def assetGrantTuple (org : Uuid) (g : PrivilegedGrant) : RelationTuple :=
  ⟨qualify org .membership g.subjectMembershipId.text, relHasActiveGrant,
    qualify org .asset g.target.id⟩

theorem assetGrantTuple_eq {g : PrivilegedGrant} {u : Uuid} (hid : g.target.id = u.text) :
    assetGrantTuple org g = grantTuple org g.subjectMembershipId u := by
  rw [assetGrantTuple, hid, grantTuple]

/-- Decisions on grants leave the memberships, and every tuple but those of grants. -/
theorem expected_of_moves (hmember : membershipAt db' = membershipAt s.db)
    {outbox' : List TupleUpdate} {t : RelationTuple} :
    t ∈ tenantExpectedTuples { s with db := db', outbox := outbox' } org ↔
      (Hierarchy s org t ∨ MemberAccess s org t) ∨ ∃ g, AssetGrant db' org g ∧
        activeMember s.db org g.subjectMembershipId = true ∧ t = assetGrantTuple org g := by
  have hactive (k : Uuid) : activeMember db' org k = activeMember s.db org k := by
    unfold activeMember
    rw [hmember]
  rw [mem_tenantExpectedTuples, or_assoc]
  simp only [MemberAccess, GrantAccess, hactive]
  rfl

theorem relation_ne_of_access (h : Projected org s) {t : RelationTuple}
    (ht : Hierarchy s org t ∨ MemberAccess s org t) : t.relation ≠ relHasActiveGrant := by
  rcases ht with ht | ⟨m, -, ht⟩
  · exact ht.relation_ne h.inv.assignable
  · exact (mem_accessTuples h.inv.assignable ht).2.2.1

theorem projected_of_ended (hparse : ∀ u : Uuid, parse u.text = some u) (h : Projected org s)
    (hs' : s' = { s with
      db := db'
      outbox := s.outbox ++ (transitions c org s op).flatMap (grantUpdates parse) })
    (hinv : TenantInv org s') (hmember : membershipAt db' = membershipAt s.db)
    (hmoves : Moves org s.db db' (transitions c org s op))
    (hended : ∀ g ∈ transitions c org s op, g.status ≠ .active)
    (hok : GrantsProjected parse c org s op) : Projected org s' := by
  subst hs'
  have hactive (k : Uuid) : activeMember db' org k = activeMember s.db org k := by
    unfold activeMember
    rw [hmember]
  have hgrants (g : PrivilegedGrant) : AssetGrant db' org g ↔
      AssetGrant s.db org g ∧ ∀ g' ∈ transitions c org s op, g'.id ≠ g.id := by
    constructor
    · rintro ⟨hg, hrest⟩
      have hkept : ∀ g' ∈ transitions c org s op, g'.id ≠ g.id := by
        intro g' hg' hid
        have hrow := hmoves.moved g' hg'
        rw [hid, hg, Option.some.injEq] at hrow
        rw [hrow] at hrest
        exact hended g' hg' hrest.2.1
      rw [hmoves.kept g.id hkept] at hg
      exact ⟨⟨hg, hrest⟩, hkept⟩
    · rintro ⟨⟨hg, hrest⟩, hkept⟩
      refine ⟨?_, hrest⟩
      rw [hmoves.kept g.id hkept, hg]
  refine ⟨hinv, keys_of_deletes h rfl (fun u hu => ?_) fun t => ?_,
    fun m t ht => ?_, fun g hg => ?_⟩
  · obtain ⟨g, hg, asset, -, rfl⟩ := mem_transitionUpdates.mp hu
    exact grantUpdate_op.trans (if_neg (hended g hg))
  · rw [expected_of_moves hmember, show s = { s with db := s.db, outbox := s.outbox } from rfl,
      expected_of_moves rfl]
    constructor
    · rintro (ht | ⟨g, hg, hact, rfl⟩)
      · refine ⟨Or.inl ht, ?_⟩
        rintro u hu rfl
        obtain ⟨g, -, asset, -, rfl⟩ := mem_transitionUpdates.mp hu
        apply relation_ne_of_access h ht
        rw [grantUpdate_tuple]
        rfl
      · obtain ⟨hg, hkept⟩ := (hgrants g).mp hg
        obtain ⟨-, u, hid⟩ := h.grants g hg
        refine ⟨Or.inr ⟨g, hg, hact, rfl⟩, ?_⟩
        rintro x hx ht
        obtain ⟨g', hg', asset, hasset, rfl⟩ := mem_transitionUpdates.mp hx
        -- the tuple would be that of a moved grant on the same asset
        rw [grantUpdate_tuple, hmoves.organization hg', assetGrantTuple_eq hid] at ht
        obtain ⟨hsub, rfl⟩ := grantTuple_inj ht
        have htype : g'.target.type = ObjectType.asset.text := by
          by_contra hno
          rw [namedAsset, if_neg hno] at hasset
          cases hasset
        obtain ⟨a, ha, haid⟩ := (hok g' hg' htype).2 (hended g' hg') _ hasset g hg
          ⟨hsub.symm, namedAsset_of_canonical hparse hg.2.2.2 hid⟩
        exact hkept a ha haid
    · rintro ⟨ht | ⟨g, hg, hact, rfl⟩, huntouched⟩
      · exact Or.inl ht
      · refine Or.inr ⟨g, (hgrants g).mpr ⟨hg, fun g' hg' hid => ?_⟩, hact, rfl⟩
        obtain ⟨-, u, hcanonical⟩ := h.grants g hg
        obtain ⟨hsub, htarget⟩ := hmoves.same g' hg' g (by rw [hid]; exact hg.1)
        refine huntouched (grantUpdate g' u) (mem_transitionUpdates.mpr ⟨g', hg', u, ?_, rfl⟩) ?_
        · rw [← htarget]
          exact namedAsset_of_canonical hparse hg.2.2.2 hcanonical
        · rw [grantUpdate_tuple, hmoves.organization hg', assetGrantTuple_eq hcanonical, hsub]
  · rw [hmember]
    exact h.known m t ht
  · rw [hactive]
    exact h.grants g ((hgrants g).mp hg).1

theorem projected_of_activated (hparse : ∀ u : Uuid, parse u.text = some u) (h : Projected org s)
    {g : PrivilegedGrant}
    (hs' : s' = { s with db := db', outbox := s.outbox ++ grantUpdates parse g })
    (hinv : TenantInv org s') (hmember : membershipAt db' = membershipAt s.db)
    (hmoves : Moves org s.db db' [g]) (hactive : g.status = .active)
    (hok : g.target.type = ObjectType.asset.text →
      activeMember s.db org g.subjectMembershipId = true ∧ ∃ u : Uuid, g.target.id = u.text) :
    Projected org s' := by
  subst hs'
  have hsame (k : Uuid) : activeMember db' org k = activeMember s.db org k := by
    unfold activeMember
    rw [hmember]
  have hg : g ∈ [g] := List.mem_singleton.mpr rfl
  have hgrants (r : PrivilegedGrant) : AssetGrant db' org r ↔ (AssetGrant s.db org r ∧ r.id ≠ g.id) ∨
      (r = g.stored ∧ g.target.type = ObjectType.asset.text) := by
    constructor
    · rintro ⟨hr, hrest⟩
      by_cases hid : g.id = r.id
      · have hrow := hmoves.moved g hg
        rw [hid, hr, Option.some.injEq] at hrow
        subst hrow
        exact Or.inr ⟨rfl, hrest.2.2⟩
      · have hkept : ∀ g' ∈ [g], g'.id ≠ r.id := by
          intro g' hg'
          obtain rfl := List.mem_singleton.mp hg'
          exact hid
        rw [hmoves.kept r.id hkept] at hr
        exact Or.inl ⟨⟨hr, hrest⟩, fun he => hid he.symm⟩
    · rintro (⟨⟨hr, hrest⟩, hid⟩ | ⟨rfl, htype⟩)
      · refine ⟨?_, hrest⟩
        rw [hmoves.kept r.id fun g' hg' he => ?_, hr]
        obtain rfl := List.mem_singleton.mp hg'
        exact hid he.symm
      · exact ⟨hmoves.moved g hg, (hmoves.row g hg).organization, hactive, htype⟩
  refine ⟨hinv, keys_of_writes h rfl (fun u hu => ?_) fun t => ?_, fun m t ht => ?_, fun r hr => ?_⟩
  · obtain ⟨asset, -, rfl⟩ := List.mem_map.mp hu
    exact grantUpdate_op.trans (if_pos hactive)
  · rw [expected_of_moves hmember, show s = { s with db := s.db, outbox := s.outbox } from rfl,
      expected_of_moves rfl]
    refine Iff.trans (or_congr_right ?_) or_assoc.symm
    constructor
    · rintro ⟨r, hr, hact, rfl⟩
      rcases (hgrants r).mp hr with ⟨hr, -⟩ | ⟨rfl, htype⟩
      · exact Or.inl ⟨r, hr, hact, rfl⟩
      · obtain ⟨-, u, hid⟩ := hok htype
        refine Or.inr ⟨grantUpdate g u, List.mem_map.mpr ⟨u, ?_, rfl⟩, ?_⟩
        · exact Option.mem_toList.mpr (namedAsset_of_canonical hparse htype hid)
        · rw [grantUpdate_tuple, hmoves.organization hg]
          exact (assetGrantTuple_eq hid).symm
    · rintro (⟨r, hr, hact, rfl⟩ | ⟨u, hu, rfl⟩)
      · by_cases hid : r.id = g.id
        · -- the same grant, as it was before
          obtain ⟨hsub, htarget⟩ := hmoves.same g hg r (by rw [← hid]; exact hr.1)
          have htype : g.target.type = ObjectType.asset.text := htarget ▸ hr.2.2.2
          refine ⟨g.stored, (hgrants g.stored).mpr (Or.inr ⟨rfl, htype⟩), (hok htype).1, ?_⟩
          rw [assetGrantTuple, assetGrantTuple, hsub, htarget]
          rfl
        · exact ⟨r, (hgrants r).mpr (Or.inl ⟨hr, hid⟩), hact, rfl⟩
      · obtain ⟨asset, hasset, rfl⟩ := List.mem_map.mp hu
        have hnamed : namedAsset parse g.target = some asset := Option.mem_toList.mp hasset
        have htype : g.target.type = ObjectType.asset.text := by
          by_contra hno
          rw [namedAsset, if_neg hno] at hnamed
          cases hnamed
        obtain ⟨hact, u, hid⟩ := hok htype
        obtain rfl := Option.some.inj ((namedAsset_of_canonical hparse htype hid).symm.trans hnamed)
        refine ⟨g.stored, (hgrants g.stored).mpr (Or.inr ⟨rfl, htype⟩), hact, ?_⟩
        rw [grantUpdate_tuple, hmoves.organization hg]
        exact (assetGrantTuple_eq hid).symm
  · rw [hmember]
    exact h.known m t ht
  · rw [hsame]
    rcases (hgrants r).mp hr with ⟨hr, -⟩ | ⟨rfl, htype⟩
    · exact h.grants r hr
    · exact hok htype

theorem projected_decision (hparse : ∀ u : Uuid, parse u.text = some u) (h : Projected org s)
    {o : Op} (ho : op.service org = some o) (hleaves : o.leavesDirectory = true)
    (hlife : lifecycleUpdates c org s op = []) (hok : GrantsProjected parse c org s op) :
    Projected org (performTenant parse c org s op) := by
  obtain ⟨hs', hinv⟩ := service_step c hparse h ho
  rw [hlife, List.nil_append] at hs'
  have hmember : membershipAt (perform c s.db o) = membershipAt s.db :=
    (perform_leavesDirectory hleaves).2
  have hmoves := moves_perform (c := c) h.inv.grants ho
  by_cases hended : ∀ g ∈ transitions c org s op, g.status ≠ .active
  · exact projected_of_ended hparse h hs' hinv hmember hmoves hended hok
  · obtain ⟨g, hg⟩ := hmoves.alike.resolve_right hended
    have hactive : g.status = .active := by
      rw [hg] at hended
      simpa using hended
    rw [hg] at hs' hmoves
    refine projected_of_activated hparse h ?_ hinv hmember hmoves hactive fun htype => ?_
    · rw [hs', List.flatMap_cons, List.flatMap_nil, List.append_nil]
    · exact (hok g (by rw [hg]; exact List.mem_singleton.mpr rfl) htype).1 hactive

end Decisions

section Catalog

variable {parse : String → Option Uuid} {c : Collaborators} {org : Uuid} {s s' : TenantState}

theorem projected_of_added (h : Projected org s) {us : List TupleUpdate} (hdb : s'.db = s.db)
    (hinv : TenantInv org s') (hout : s'.outbox = s.outbox ++ us) (hus : ∀ u ∈ us, u.op = .write)
    (hknown : ∀ m t, t ∈ accessTuples s' org m →
      t ∈ accessTuples s org m ∨ activeMember s.db org m = true)
    (hadded : ∀ t, (Hierarchy s' org t ∨ MemberAccess s' org t) ↔
      (Hierarchy s org t ∨ MemberAccess s org t) ∨ ∃ u ∈ us, u.tuple = t) : Projected org s' := by
  refine ⟨hinv, keys_of_writes h hout hus fun t => ?_, fun m t ht => ?_, fun g hg => ?_⟩
  · rw [mem_tenantExpectedTuples, mem_tenantExpectedTuples, ← or_assoc, ← or_assoc, hadded, hdb,
      or_right_comm]
  · rw [hdb]
    rcases hknown m t ht with ht | hact
    · exact h.known m t ht
    · obtain ⟨r, hr, -⟩ := activeMember_iff.mp hact
      rw [hr]
      rfl
  · rw [hdb] at hg ⊢
    exact h.grants g hg

theorem exists_write {ts : List RelationTuple} {t : RelationTuple} :
    (∃ u ∈ ts.map fun t => (⟨.write, t, none⟩ : TupleUpdate), u.tuple = t) ↔ t ∈ ts := by
  constructor
  · rintro ⟨u, hu, rfl⟩
    obtain ⟨t, ht, rfl⟩ := List.mem_map.mp hu
    exact ht
  · exact fun ht => ⟨_, List.mem_map.mpr ⟨t, ht, rfl⟩, rfl⟩

theorem write_of_mem {ts : List RelationTuple} :
    ∀ u ∈ ts.map fun t => (⟨.write, t, none⟩ : TupleUpdate), u.op = .write := by
  intro u hu
  obtain ⟨t, -, rfl⟩ := List.mem_map.mp hu
  rfl

theorem projected_createAssetGroup (hparse : ∀ u : Uuid, parse u.text = some u)
    (h : Projected org s) (id : Uuid) (name : String) (parent : Option Uuid) :
    Projected org (performTenant parse c org s (.createAssetGroup id name parent)) := by
  have hinv := (tenantStep_perform (c := c) hparse h.inv
    (.createAssetGroup id name parent)).tenantInv h.inv
  rcases createAssetGroup_cases (c := c) hparse id name parent with he | ⟨g, hg, he⟩
  · rw [he]
    exact h
  rw [he] at hinv ⊢
  refine projected_of_added h rfl hinv rfl write_of_mem (fun m t ht => Or.inl ht) fun t => ?_
  rw [exists_write]
  constructor
  · rintro ((⟨r, hr, horg, ht⟩ | hrest) | hmember)
    · rcases List.mem_append.mp hr with hr | hr
      · exact Or.inl (Or.inl (Or.inl ⟨r, hr, horg, ht⟩))
      · obtain rfl := List.mem_singleton.mp hr
        exact Or.inr ht
    · exact Or.inl (Or.inl (Or.inr hrest))
    · exact Or.inl (Or.inr hmember)
  · rintro (((⟨r, hr, horg, ht⟩ | hrest) | hmember) | ht)
    · exact Or.inl (Or.inl ⟨r, List.mem_append_left _ hr, horg, ht⟩)
    · exact Or.inl (Or.inr hrest)
    · exact Or.inr hmember
    · exact Or.inl (Or.inl ⟨g, List.mem_append_right _ (List.mem_singleton.mpr rfl), hg, ht⟩)

theorem mem_assetTuples {a : Asset} (ha : a.organizationId = org) {t : RelationTuple} :
    t ∈ a.tuples ↔
      (∃ p, a.parentGroupId = some p ∧
        t = ⟨qualify org .assetGroup p.text, relParent, qualify org .asset a.id.text⟩) ∨
      ∃ m, a.ownerMembershipId = some m ∧
        t = ⟨qualify org .membership m.text, relOwner, qualify org .asset a.id.text⟩ := by
  unfold Asset.tuples Asset.ref
  rw [ha, List.mem_append]
  refine or_congr ?_ ?_
  · cases a.parentGroupId with
    | none => simp
    | some p => simp
  · cases a.ownerMembershipId with
    | none => simp
    | some m => simp

theorem projected_createAsset (hparse : ∀ u : Uuid, parse u.text = some u) (h : Projected org s)
    {id : Uuid} {kind name externalRef : String} {parent owner : Option Uuid}
    (hok : KeepsExpected parse c org s (.createAsset id kind name externalRef parent owner)) :
    Projected org (performTenant parse c org s (.createAsset id kind name externalRef parent owner)) := by
  have hinv := (tenantStep_perform (c := c) hparse h.inv
    (.createAsset id kind name externalRef parent owner)).tenantInv h.inv
  rcases createAsset_cases (c := c) hparse id kind name externalRef parent owner with
    he | ⟨a, ha, howner, ⟨s₁, hnew, hcall⟩, he⟩
  · rw [he]
    exact h
  have hactive : ∀ m, a.ownerMembershipId = some m → activeMember s.db org m = true := by
    rw [howner]
    exact hok a s₁ hnew hcall
  rw [he] at hinv ⊢
  set s' : TenantState := { s with
    assets := s.assets ++ [a]
    outbox := s.outbox ++ a.tuples.map fun t => ⟨.write, t, none⟩ } with hs'
  have hmem (m : Uuid) (t : RelationTuple) : t ∈ accessTuples s' org m ↔
      t ∈ accessTuples s org m ∨ (a.ownerMembershipId = some m ∧
        t = ⟨qualify org .membership m.text, relOwner, qualify org .asset a.id.text⟩) := by
    rw [mem_accessTuples_iff, mem_accessTuples_iff, or_right_comm]
    apply or_congr_left
    simp only [hs', List.mem_append, List.mem_singleton, or_and_right, exists_or]
    refine or_congr_right ⟨?_, ?_⟩
    · rintro ⟨r, rfl, -, hm, rfl⟩
      exact ⟨hm, rfl⟩
    · rintro ⟨hm, rfl⟩
      exact ⟨a, rfl, ha, hm, rfl⟩
  refine projected_of_added h rfl hinv rfl write_of_mem (fun m t ht => ?_) fun t => ?_
  · rcases (hmem m t).mp ht with ht | ⟨hm, -⟩
    · exact Or.inl ht
    · exact Or.inr (hactive m hm)
  · rw [exists_write, mem_assetTuples ha]
    constructor
    · rintro ((hgroup | ⟨r, hr, horg, p, hp, rfl⟩ | hrest) | ⟨m, hm, ht⟩)
      · exact Or.inl (Or.inl (Or.inl hgroup))
      · rcases List.mem_append.mp hr with hr | hr
        · exact Or.inl (Or.inl (Or.inr (Or.inl ⟨r, hr, horg, p, hp, rfl⟩)))
        · obtain rfl := List.mem_singleton.mp hr
          exact Or.inr (Or.inl ⟨p, hp, rfl⟩)
      · exact Or.inl (Or.inl (Or.inr (Or.inr hrest)))
      · rcases (hmem m t).mp ht with ht | ⟨hown, rfl⟩
        · exact Or.inl (Or.inr ⟨m, hm, ht⟩)
        · exact Or.inr (Or.inr ⟨m, hown, rfl⟩)
    · rintro (((hgroup | ⟨r, hr, horg, p, hp, rfl⟩ | hrest) | ⟨m, hm, ht⟩) | ⟨p, hp, rfl⟩ | ⟨m, hm, rfl⟩)
      · exact Or.inl (Or.inl hgroup)
      · exact Or.inl (Or.inr (Or.inl ⟨r, List.mem_append_left _ hr, horg, p, hp, rfl⟩))
      · exact Or.inl (Or.inr (Or.inr hrest))
      · exact Or.inr ⟨m, hm, (hmem m t).mpr (Or.inl ht)⟩
      · exact Or.inl (Or.inr (Or.inl
          ⟨a, List.mem_append_right _ (List.mem_singleton.mpr rfl), ha, p, hp, rfl⟩))
      · exact Or.inr ⟨m, hactive m hm, (hmem m _).mpr (Or.inr ⟨hm, rfl⟩)⟩

theorem projected_createAssetAccess (hparse : ∀ u : Uuid, parse u.text = some u)
    (h : Projected org s) {id : Uuid} {subjectType : ObjectType} {subjectId : Uuid}
    {relation : String} {objectType : ObjectType} {objectId : Uuid}
    (hok : KeepsExpected parse c org s
      (.createAssetAccess id subjectType subjectId relation objectType objectId)) :
    Projected org (performTenant parse c org s
      (.createAssetAccess id subjectType subjectId relation objectType objectId)) := by
  have hinv := (tenantStep_perform (c := c) hparse h.inv
    (.createAssetAccess id subjectType subjectId relation objectType objectId)).tenantInv h.inv
  rcases createAssetAccess_cases (c := c) hparse id subjectType subjectId relation objectType
    objectId with he | ⟨a, ha, hst, hsid, hkind, hrel, ⟨s₁, hnew, hcall⟩, he⟩
  · rw [he]
    exact h
  have hactive : a.subjectType = .membership → activeMember s.db org a.subjectId = true := by
    rw [hst, hsid]
    exact hok a s₁ hnew hcall
  rw [← hst] at hkind
  rw [he] at hinv ⊢
  set s' : TenantState := { s with
    assignments := s.assignments ++ [a]
    outbox := s.outbox ++ [⟨.write, a.access, none⟩] } with hs'
  have hmem (m : Uuid) (t : RelationTuple) : t ∈ accessTuples s' org m ↔
      t ∈ accessTuples s org m ∨ (a.subjectType = .membership ∧ a.subjectId = m ∧ t = a.access) := by
    rw [mem_accessTuples_iff, mem_accessTuples_iff]
    simp only [hs', List.mem_append, List.mem_singleton, or_and_right, exists_or, or_assoc]
    refine or_congr_right (or_congr_right (or_congr_right ⟨?_, ?_⟩))
    · rintro ⟨r, rfl, -, htype, rfl, rfl⟩
      exact ⟨htype, rfl, (access_of_membership ha htype).symm⟩
    · rintro ⟨htype, rfl, rfl⟩
      exact ⟨a, rfl, ha, htype, rfl, access_of_membership ha htype⟩
  have hwrite : ∀ u ∈ [(⟨.write, a.access, none⟩ : TupleUpdate)], u.op = .write := by
    intro u hu
    obtain rfl := List.mem_singleton.mp hu
    rfl
  refine projected_of_added h rfl hinv rfl hwrite (fun m t ht => ?_) fun t => ?_
  · rcases (hmem m t).mp ht with ht | ⟨htype, rfl, -⟩
    · exact Or.inl ht
    · exact Or.inr (hactive htype)
  · constructor
    · rintro ((hgroup | hasset | ⟨r, hr, horg, htype, rfl⟩) | ⟨m, hm, ht⟩)
      · exact Or.inl (Or.inl (Or.inl hgroup))
      · exact Or.inl (Or.inl (Or.inr (Or.inl hasset)))
      · rcases List.mem_append.mp hr with hr | hr
        · exact Or.inl (Or.inl (Or.inr (Or.inr ⟨r, hr, horg, htype, rfl⟩)))
        · obtain rfl := List.mem_singleton.mp hr
          exact Or.inr ⟨_, List.mem_singleton.mpr rfl, rfl⟩
      · rcases (hmem m t).mp ht with ht | ⟨-, -, rfl⟩
        · exact Or.inl (Or.inr ⟨m, hm, ht⟩)
        · exact Or.inr ⟨_, List.mem_singleton.mpr rfl, rfl⟩
    · rintro (((hgroup | hasset | ⟨r, hr, horg, htype, rfl⟩) | ⟨m, hm, ht⟩) | ⟨u, hu, rfl⟩)
      · exact Or.inl (Or.inl hgroup)
      · exact Or.inl (Or.inr (Or.inl hasset))
      · exact Or.inl (Or.inr (Or.inr ⟨r, List.mem_append_left _ hr, horg, htype, rfl⟩))
      · exact Or.inr ⟨m, hm, (hmem m t).mpr (Or.inl ht)⟩
      · obtain rfl := List.mem_singleton.mp hu
        rcases hkind with htype | htype
        · exact Or.inr ⟨a.subjectId, hactive htype, (hmem _ _).mpr (Or.inr ⟨htype, rfl, rfl⟩)⟩
        · exact Or.inl (Or.inr (Or.inr
            ⟨a, List.mem_append_right _ (List.mem_singleton.mpr rfl), ha, htype, rfl⟩))

theorem projected_createGroupMembership (hparse : ∀ u : Uuid, parse u.text = some u)
    (h : Projected org s) {id groupId membershipId : Uuid}
    (hok : KeepsExpected parse c org s (.createGroupMembership id groupId membershipId)) :
    Projected org (performTenant parse c org s (.createGroupMembership id groupId membershipId)) := by
  have hinv := (tenantStep_perform (c := c) hparse h.inv
    (.createGroupMembership id groupId membershipId)).tenantInv h.inv
  rcases createGroupMembership_cases (c := c) hparse id groupId membershipId with
    he | ⟨g, hg, hgm, ⟨s₁, hnew, hcall⟩, he⟩
  · rw [he]
    exact h
  have hactive : activeMember s.db org g.membershipId = true := by
    rw [hgm]
    exact hok g s₁ hnew hcall
  rw [he] at hinv ⊢
  set s' : TenantState := { s with
    groupMemberships := s.groupMemberships ++ [g]
    outbox := s.outbox ++ [⟨.write, g.edge, none⟩] } with hs'
  have hedge : g.edge = ⟨qualify org .membership g.membershipId.text, relMember,
      qualify org .group g.groupId.text⟩ := by
    rw [GroupMembership.edge, hg]
  have hmem (m : Uuid) (t : RelationTuple) : t ∈ accessTuples s' org m ↔
      t ∈ accessTuples s org m ∨ (g.membershipId = m ∧ t = g.edge) := by
    rw [mem_accessTuples_iff, mem_accessTuples_iff, or_assoc]
    apply or_congr_right
    rw [or_right_comm]
    apply or_congr_left
    simp only [hs', List.mem_append, List.mem_singleton, or_and_right, exists_or]
    refine or_congr_right ⟨?_, ?_⟩
    · rintro ⟨r, rfl, -, rfl, rfl⟩
      exact ⟨rfl, hedge.symm⟩
    · rintro ⟨rfl, rfl⟩
      exact ⟨g, rfl, hg, rfl, hedge⟩
  have hwrite : ∀ u ∈ [(⟨.write, g.edge, none⟩ : TupleUpdate)], u.op = .write := by
    intro u hu
    obtain rfl := List.mem_singleton.mp hu
    rfl
  refine projected_of_added h rfl hinv rfl hwrite (fun m t ht => ?_) fun t => ?_
  · rcases (hmem m t).mp ht with ht | ⟨rfl, -⟩
    · exact Or.inl ht
    · exact Or.inr hactive
  · rw [or_assoc]
    apply or_congr_right
    constructor
    · rintro ⟨m, hm, ht⟩
      rcases (hmem m t).mp ht with ht | ⟨-, rfl⟩
      · exact Or.inl ⟨m, hm, ht⟩
      · exact Or.inr ⟨_, List.mem_singleton.mpr rfl, rfl⟩
    · rintro (⟨m, hm, ht⟩ | ⟨u, hu, rfl⟩)
      · exact ⟨m, hm, (hmem m t).mpr (Or.inl ht)⟩
      · obtain rfl := List.mem_singleton.mp hu
        exact ⟨g.membershipId, hactive, (hmem _ _).mpr (Or.inr ⟨rfl, rfl⟩)⟩

theorem relMember_ne_owner : relMember ≠ relOwner := by decide

theorem projected_deleteGroupMembership (hparse : ∀ u : Uuid, parse u.text = some u)
    (h : Projected org s) (groupId membershipId : Uuid) :
    Projected org (performTenant parse c org s (.deleteGroupMembership groupId membershipId)) := by
  have hinv := (tenantStep_perform (c := c) hparse h.inv
    (.deleteGroupMembership groupId membershipId)).tenantInv h.inv
  rw [deleteGroupMembership_eq (c := c) hparse groupId membershipId] at hinv ⊢
  set edge := (GroupMembership.mk Uuid.nil org groupId membershipId).edge with hedge
  set s' : TenantState := { s with
    groupMemberships := s.groupMemberships.filter fun r =>
      !(r.organizationId = org && r.groupId = groupId && r.membershipId = membershipId)
    outbox := s.outbox ++ [⟨.delete, edge, none⟩] } with hs'
  have hmem (m : Uuid) (t : RelationTuple) :
      t ∈ accessTuples s' org m ↔ t ∈ accessTuples s org m ∧ edge ≠ t := by
    rw [mem_accessTuples_iff, mem_accessTuples_iff]
    constructor
    · rintro (⟨a, ha, horg, hm, rfl⟩ | ⟨g, hg, horg, rfl, rfl⟩ | ⟨a, ha, horg, htype, hm, rfl⟩)
      · refine ⟨Or.inl ⟨a, ha, horg, hm, rfl⟩, fun he => ?_⟩
        have hrel : relMember = relOwner := congrArg RelationTuple.relation he
        exact absurd hrel relMember_ne_owner
      · obtain ⟨hg, hkeep⟩ := List.mem_filter.mp hg
        refine ⟨Or.inr (Or.inl ⟨g, hg, horg, rfl, rfl⟩), fun he => ?_⟩
        have hgroup : groupId = g.groupId :=
          Uuid.text_injective (qualify_inj (congrArg RelationTuple.object he))
        have hmember : membershipId = g.membershipId :=
          membershipRef_inj (congrArg RelationTuple.user he)
        simp [horg, hgroup, hmember] at hkeep
      · refine ⟨Or.inr (Or.inr ⟨a, ha, horg, htype, hm, rfl⟩), fun he => ?_⟩
        have hrel : relMember = a.relation := congrArg RelationTuple.relation he
        have hassign := h.inv.assignable a ha
        rw [← hrel] at hassign
        exact absurd hassign (by decide)
    · rintro ⟨⟨a, ha, horg, hm, rfl⟩ | ⟨g, hg, horg, rfl, rfl⟩ | ⟨a, ha, horg, htype, hm, rfl⟩, hne⟩
      · exact Or.inl ⟨a, ha, horg, hm, rfl⟩
      · refine Or.inr (Or.inl ⟨g, List.mem_filter.mpr ⟨hg, ?_⟩, horg, rfl, rfl⟩)
        rw [Bool.not_eq_true', Bool.eq_false_iff]
        intro htest
        simp only [Bool.and_eq_true, decide_eq_true_eq] at htest
        apply hne
        rw [hedge, GroupMembership.edge, htest.1.2, htest.2]
      · exact Or.inr (Or.inr ⟨a, ha, horg, htype, hm, rfl⟩)
  have hdelete : ∀ u ∈ [(⟨.delete, edge, none⟩ : TupleUpdate)], u.op = .delete := by
    intro u hu
    obtain rfl := List.mem_singleton.mp hu
    rfl
  refine ⟨hinv, keys_of_deletes h rfl hdelete fun t => ?_,
    fun m t ht => h.known m t ((hmem m t).mp ht).1, h.grants⟩
  rw [mem_tenantExpectedTuples, mem_tenantExpectedTuples]
  simp only [List.forall_mem_singleton]
  constructor
  · rintro (ht | ⟨m, hm, ht⟩ | ⟨g, hg, hact, rfl⟩)
    · exact ⟨Or.inl ht, fun he => ht.user_ne membershipId (congrArg RelationTuple.user he).symm⟩
    · obtain ⟨ht, hne⟩ := (hmem m t).mp ht
      exact ⟨Or.inr (Or.inl ⟨m, hm, ht⟩), hne⟩
    · refine ⟨Or.inr (Or.inr ⟨g, hg, hact, rfl⟩), fun he => ?_⟩
      have hrel : relMember = relHasActiveGrant := congrArg RelationTuple.relation he
      exact absurd hrel relMember_ne.2
  · rintro ⟨ht | ⟨m, hm, ht⟩ | hgrant, hne⟩
    · exact Or.inl ht
    · exact Or.inr (Or.inl ⟨m, hm, (hmem m t).mpr ⟨ht, hne⟩⟩)
    · exact Or.inr (Or.inr hgrant)

end Catalog

section Runs

variable {parse column : String → Option Uuid} {c : Collaborators} {org : Uuid} {s : TenantState}

theorem projected_fresh (org : Uuid) : Projected org .fresh := by
  refine ⟨tenantInv_fresh org, fun t => ?_, fun m t ht => ?_, fun g hg => ?_⟩
  · apply iff_of_false (fun h => by cases h)
    intro h
    cases h
  · cases ht
  · cases hg.1

theorem projected_perform (hparse : ∀ u : Uuid, parse u.text = some u) (h : Projected org s)
    {op : TenantOp} (hok : KeepsExpected parse c org s op) :
    Projected org (performTenant parse c org s op) := by
  cases op with
  | suspendIdentity identityId =>
    have ho : (TenantOp.suspendIdentity identityId).service org =
        some (.suspendIdentity identityId) := rfl
    obtain ⟨hs', hinv⟩ := service_step c hparse h ho
    simp only [perform, lifecycleUpdates, transitions, List.flatMap_nil, List.append_nil] at hs'
    rw [← List.append_nil s.outbox] at hs'
    by_cases hex : ∃ i, getIdentity s.db identityId = some i ∧ i.status ≠ .deprovisioned
    · obtain ⟨i, hi, hne⟩ := hex
      have ht : i.suspend = .ok { i with status := .suspended } := by simp [Identity.suspend, hne]
      exact projected_cascade h hi hs' hinv ht rfl (fun m hm => decide_eq_true hm) (by decide)
        (hok i hi hne)
    · have hrefused : (suspendIdentity s.db identityId).2 = s.db := by
        refine cascade_refused fun i i' hi ht => hex ⟨i, hi, fun hst => ?_⟩
        simp [Identity.suspend, hst] at ht
      rw [hrefused] at hs'
      exact projected_of_quiet h hs' hinv (admits_of_same rfl rfl) fun k hk => hk.elim
  | deprovisionIdentity identityId =>
    have ho : (TenantOp.deprovisionIdentity identityId).service org =
        some (.deprovisionIdentity identityId) := rfl
    obtain ⟨hs', hinv⟩ := service_step c hparse h ho
    simp only [perform, lifecycleUpdates, transitions, List.flatMap_nil, List.append_nil] at hs'
    rw [← List.append_nil s.outbox] at hs'
    cases hi : getIdentity s.db identityId with
    | some i =>
      refine projected_cascade h hi hs' hinv rfl rfl (fun m hm => ?_) (by decide)
        (hok (by rw [hi]; rfl))
      simp [hm]
    | none =>
      have hrefused : (deprovisionIdentity s.db identityId).2 = s.db := by
        apply cascade_refused
        intro i i' hi' ht
        rw [hi] at hi'
        cases hi'
      rw [hrefused] at hs'
      exact projected_of_quiet h hs' hinv (admits_of_same rfl rfl) fun k hk => hk.elim
  | inviteByEmail email invitedBy id => exact projected_inviteByEmail c hparse h email invitedBy id
  | accept membershipId identityId => exact projected_accept c hparse h membershipId identityId
  | provisionUser email draw => exact projected_provisionUser c hparse h email draw
  | provisionFederated email draw => exact projected_provisionFederated c hparse h email draw
  | revokeMembership id => exact projected_revokeMembership c hparse h id
  | suspendForDeactivation id => exact projected_suspendForDeactivation c hparse h hok
  | requestBreakglass id subject target n justification incidentRef notBefore expiresAt =>
    exact projected_decision hparse h rfl rfl rfl hok
  | passStepUp grantId aal phishingResistant => exact projected_decision hparse h rfl rfl rfl hok
  | approve grantId approver => exact projected_decision hparse h rfl rfl rfl hok
  | revokeGrant grantId => exact projected_decision hparse h rfl rfl rfl hok
  | expireDue now => exact projected_decision hparse h rfl rfl rfl hok
  | createAssetGroup id name parent => exact projected_createAssetGroup hparse h id name parent
  | createAsset id kind name externalRef parent owner => exact projected_createAsset hparse h hok
  | createAssetAccess id subjectType subjectId relation objectType objectId =>
    exact projected_createAssetAccess hparse h hok
  | createGroupMembership id groupId membershipId =>
    exact projected_createGroupMembership hparse h hok
  | deleteGroupMembership groupId membershipId =>
    exact projected_deleteGroupMembership hparse h groupId membershipId

/-- After every run whose calls meet the condition, the drained outbox holds the expected keys,
none of them of a membership that is not active, and a reconcile pass takes nothing away. -/
theorem projection_meets_expectation (hparse : ∀ u : Uuid, parse u.text = some u)
    (hcolumn : ∀ u : Uuid, column u.text = some u) {ops : List TenantOp}
    (hok : Along (callTenant parse c org) (KeepsExpected parse c org) .fresh ops)
    (hrun : run (callTenant parse c org) .fresh ops = some s) : MeetsExpectation column org s := by
  have hprojected : Projected org s := by
    refine run_invariant (fun s op s' hs hop he => ?_) (projected_fresh org) hok hrun
    obtain rfl := Option.some.inj he
    exact projected_perform hparse hs hop
  exact hprojected.meetsExpectation hcolumn

end Runs

namespace Sample

def provisioned : TenantOp := .provisionUser "ana@cli.com" ⟨2, "s2", 3⟩

def serverCreated : TenantOp := .createAsset 7 "host" "db-1" "" none (some 3)

def ownedServer : Asset := ⟨7, 1, "host", "db-1", "", none, some 3⟩

def ownership : RelationTuple :=
  ⟨qualify 1 .membership (Uuid.text 3), relOwner, qualify 1 .asset (Uuid.text 7)⟩

end Sample

theorem ownedServer_run : ∃ s, run (callTenant Uuid.ofText Tenancy.Sample.collaborators 1) .fresh
      [Sample.provisioned, Sample.serverCreated] = some s ∧
    Along (callTenant Uuid.ofText Tenancy.Sample.collaborators 1)
      (KeepsExpected Uuid.ofText Tenancy.Sample.collaborators 1) .fresh
        [Sample.provisioned, Sample.serverCreated] ∧
    Sample.ownership ∈ tenantExpectedTuples s 1 := by
  set c := Tenancy.Sample.collaborators
  have ho : Sample.provisioned.service 1 = some (.provisionUser 1 "ana@cli.com" ⟨2, "s2", 3⟩) := rfl
  set s₁ := performTenant Uuid.ofText c 1 .fresh Sample.provisioned
  have hs₁ := (service_step c Uuid.ofText_text (projected_fresh 1) ho).1
  have hassets : s₁.assets = [] := congrArg TenantState.assets hs₁
  have hdb : s₁.db = perform c TenantState.fresh.db (.provisionUser 1 "ana@cli.com" ⟨2, "s2", 3⟩) :=
    congrArg TenantState.db hs₁
  have hactive : activeMember s₁.db 1 3 = true := by
    rw [hdb]
    decide
  obtain ⟨m, hm, -⟩ := activeMember_iff.mp hactive
  have hcreate : createAsset Uuid.ofText s₁ 1 Sample.ownedServer = .ok { s₁ with
      assets := s₁.assets ++ [Sample.ownedServer]
      outbox := s₁.outbox ++ Sample.ownedServer.tuples.map fun t => ⟨.write, t, none⟩ } := by
    apply createAsset_accepted Uuid.ofText_text rfl
    rintro (hid | hparent | howner)
    · rw [hassets] at hid
      cases hid
    · cases hparent
    · change (membershipAt s₁.db 3).isNone = true at howner
      rw [hm] at howner
      cases howner
  have hrun₂ : callTenant Uuid.ofText c 1 s₁ Sample.serverCreated = some { s₁ with
      assets := s₁.assets ++ [Sample.ownedServer]
      outbox := s₁.outbox ++ Sample.ownedServer.tuples.map fun t => ⟨.write, t, none⟩ } := by
    have hnew : newAsset 7 1 "host" "db-1" "" none (some 3) = .ok Sample.ownedServer := by
      unfold newAsset
      rw [if_neg (by decide), if_neg (by decide), if_neg (by decide), if_neg (by decide),
        if_neg (by decide)]
      rfl
    simp only [callTenant, Sample.serverCreated, performTenant, hnew, bind, Except.bind, hcreate,
      orElse]
  refine ⟨_, run_cons_eq_some.mpr ⟨s₁, rfl, run_cons_eq_some.mpr ⟨_, hrun₂, rfl⟩⟩, ?_, ?_⟩
  · refine ⟨fun g hg => absurd hg List.not_mem_nil, fun s' hs' => ?_⟩
    obtain rfl := Option.some.inj hs'
    refine ⟨fun a s' _ _ m hm => ?_, fun _ _ => trivial⟩
    obtain rfl := Option.some.inj hm
    exact hactive
  · refine mem_tenantExpectedTuples.mpr (Or.inr (Or.inl ⟨3, hactive, ?_⟩))
    exact mem_accessTuples_iff.mpr (Or.inl ⟨Sample.ownedServer,
      List.mem_append_right _ (List.mem_singleton.mpr rfl), rfl, rfl, rfl⟩)

theorem ownedServer_meetsExpectation : ∃ s,
    run (callTenant Uuid.ofText Tenancy.Sample.collaborators 1) .fresh
      [Sample.provisioned, Sample.serverCreated] = some s ∧
        MeetsExpectation Uuid.ofText 1 s ∧ Sample.ownership ∈ tenantExpectedTuples s 1 := by
  obtain ⟨s, hrun, halong, howner⟩ := ownedServer_run
  exact ⟨s, hrun, projection_meets_expectation Uuid.ofText_text Uuid.ofText_text halong hrun, howner⟩

/-- The suspension of the owner's identity enqueues nothing: the tuple stays. -/
theorem suspended_identity_keeps_tuple : ∃ s,
    run (callTenant Uuid.ofText Tenancy.Sample.collaborators 1) .fresh
      ([Sample.provisioned, Sample.serverCreated] ++ [.suspendIdentity 2]) = some s ∧
        ¬MeetsExpectation Uuid.ofText 1 s := by
  set c := Tenancy.Sample.collaborators
  obtain ⟨s, hrun, halong, howner⟩ := ownedServer_run
  have hprojected : Projected 1 s := by
    refine run_invariant (fun s op s' hs hop he => ?_) (projected_fresh 1) halong hrun
    obtain rfl := Option.some.inj he
    exact projected_perform Uuid.ofText_text hs hop
  have hheld : Held s.outbox Sample.ownership := (hprojected.keys _).mpr howner
  have ho : (TenantOp.suspendIdentity 2).service 1 = some (.suspendIdentity 2) := rfl
  obtain ⟨hs', hinv'⟩ := service_step c Uuid.ofText_text hprojected ho
  set s' := performTenant Uuid.ofText c 1 s (.suspendIdentity 2)
  have hrun' : run (callTenant Uuid.ofText c 1) .fresh
      ([Sample.provisioned, Sample.serverCreated] ++ [.suspendIdentity 2]) = some s' :=
    run_append.mpr ⟨s, hrun, rfl⟩
  have houtbox : s'.outbox = s.outbox := by
    rw [hs']
    exact List.append_nil _
  obtain ⟨-, hrows⟩ := run_image (I := TenantInv 1) (f := TenantState.db)
    (fun s op s' => callTenant_rows Uuid.ofText_text s op s') (tenantInv_fresh 1) hrun'
  have hinactive : activeMember s'.db 1 3 = false := by
    have htest : (run (rowsAfter c 1) TenantState.fresh.db ([Sample.provisioned,
        Sample.serverCreated] ++ [.suspendIdentity 2])).any (fun db => !activeMember db 1 3) = true := by
      decide +kernel
    rw [hrows, Option.any_some] at htest
    simpa using htest
  refine ⟨s', hrun', ?_⟩
  rintro ⟨store, hdrain, hmet⟩
  obtain ⟨store', hdrain', hpub⟩ := drain_publishes Uuid.ofText_text hinv'.outbox
  obtain rfl := Option.some.inj (hdrain.symm.trans hdrain')
  have hmem : Sample.ownership ∈ loadTenantTuples store 1 := by
    rw [mem_loadTenantTuples hpub, houtbox]
    exact hheld
  rw [hmet.active _ hmem 3 rfl] at hinactive
  cases hinactive

end ArchGuard.Authz
