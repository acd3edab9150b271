import ArchGuard.TenantProjection

/-! Which memberships the calls of the directory make active, or stop: the store follows. -/
namespace ArchGuard.Authz
open Tenancy ReadCommitted

section Active

variable {db db' : Db} {org k : Uuid}

theorem activeMember_iff : activeMember db org k = true ↔
    ∃ m, membershipAt db k = some m ∧ m.organizationId = org ∧ m.status = .active := by
  simp only [activeMember, Option.any_eq_true, Bool.and_eq_true, decide_eq_true_eq]

theorem activeMember_stopped {test : Membership → Bool} {status : MembershipStatus}
    (htab : membershipAt db' k = (membershipAt db k).map (edit test (Membership.setStatus status)))
    (hstatus : status ≠ .active) : activeMember db' org k = true ↔
      activeMember db org k = true ∧ ¬∃ m, membershipAt db k = some m ∧ test m = true := by
  rw [activeMember_iff, activeMember_iff, htab]
  constructor
  · rintro ⟨m', hm', horg, hact⟩
    obtain ⟨m, hm, rfl⟩ := Option.map_eq_some_iff.mp hm'
    have htest : ¬test m = true := by
      intro ht
      rw [edit, if_pos ht] at hact
      exact hstatus hact
    rw [edit, if_neg htest] at horg hact
    refine ⟨⟨m, hm, horg, hact⟩, ?_⟩
    rintro ⟨r, hr, ht⟩
    obtain rfl := Option.some.inj (hm.symm.trans hr)
    exact htest ht
  · rintro ⟨⟨m, hm, horg, hact⟩, hno⟩
    have htest : ¬test m = true := fun ht => hno ⟨m, hm, ht⟩
    exact ⟨m, by rw [hm, Option.map_some, edit, if_neg htest], horg, hact⟩

theorem activeMember_started {test : Membership → Bool}
    (htab : membershipAt db' k = (membershipAt db k).map (edit test (Membership.setStatus .active))) :
    activeMember db' org k = true ↔ activeMember db org k = true ∨
      ∃ m, membershipAt db k = some m ∧ m.organizationId = org ∧ test m = true := by
  rw [activeMember_iff, activeMember_iff, htab]
  constructor
  · rintro ⟨m', hm', horg, hact⟩
    obtain ⟨m, hm, rfl⟩ := Option.map_eq_some_iff.mp hm'
    by_cases ht : test m = true
    · rw [edit, if_pos ht] at horg
      exact Or.inr ⟨m, hm, horg, ht⟩
    · rw [edit, if_neg ht] at horg hact
      exact Or.inl ⟨m, hm, horg, hact⟩
  · rintro (⟨m, hm, horg, hact⟩ | ⟨m, hm, horg, ht⟩)
    · refine ⟨_, by rw [hm, Option.map_some], ?_⟩
      unfold edit
      split
      · exact ⟨horg, rfl⟩
      · exact ⟨horg, hact⟩
    · refine ⟨Membership.setStatus .active m, ?_, horg, rfl⟩
      rw [hm, Option.map_some, edit, if_pos ht]

end Active

/-- Memberships of the organization become active, and grants are left alone. -/
structure Admits (org : Uuid) (db db' : Db) (into : Uuid → Prop) : Prop where
  grant : grantAt db' = grantAt db
  known : ∀ k, (membershipAt db k).isSome = true → (membershipAt db' k).isSome = true
  active : ∀ k, activeMember db' org k = true ↔ activeMember db org k = true ∨ into k

section Admits

variable {db db' : Db} {org : Uuid}

theorem admits_of_same (hmember : membershipAt db' = membershipAt db)
    (hgrant : grantAt db' = grantAt db) : Admits org db db' fun _ => False := by
  refine ⟨hgrant, fun k hk => by rw [hmember]; exact hk, fun k => ?_⟩
  rw [activeMember_iff, activeMember_iff, hmember, or_false]

theorem admits_resolved (h : Resolved db db') : Admits org db db' fun _ => False := by
  rcases h with rfl | ⟨i, rfl⟩
  · exact admits_of_same rfl rfl
  · exact admits_of_same (congrArg Tables.membership tables_insertIdentity)
      (congrArg Tables.grant tables_insertIdentity)

theorem membershipAt_resolved (h : Resolved db db') : membershipAt db' = membershipAt db := by
  rcases h with rfl | ⟨i, rfl⟩
  · rfl
  · exact congrArg Tables.membership tables_insertIdentity

theorem Admits.trans {db'' : Db} {into : Uuid → Prop} (h : Admits org db db' fun _ => False)
    (h' : Admits org db' db'' into) : Admits org db db'' into := by
  refine ⟨h'.grant.trans h.grant, fun k hk => h'.known k (h.known k hk), fun k => ?_⟩
  rw [h'.active, h.active, or_false]

theorem admits_insertMembership {m : Membership} (hnew : membershipAt db m.id = none) :
    Admits org db (insertMembership db m) fun k =>
      k = m.id ∧ m.organizationId = org ∧ m.status = .active := by
  have htab : membershipAt (insertMembership db m) =
      Function.update (membershipAt db) m.id (some m) :=
    congrArg Tables.membership tables_insertMembership
  constructor
  · exact congrArg Tables.grant tables_insertMembership
  · intro k hk
    rw [htab]
    by_cases he : k = m.id
    · rw [he, Function.update_self]
      rfl
    · rw [Function.update_of_ne he]
      exact hk
  · intro k
    rw [activeMember_iff, activeMember_iff, htab]
    by_cases he : k = m.id
    · subst he
      simp [hnew]
    · simp [he]

theorem admits_activate {m : Membership} {source : MembershipStatus}
    (hm : membershipAt db m.id = some m) (horg : m.organizationId = org) (hs : m.status = source) :
    Admits org db (updateMemberships db
      (fun r => r.id = m.id && r.organizationId = org && r.status = source) .active)
        fun k => k = m.id := by
  have htab : tables (updateMemberships db (fun r => r.id = m.id && r.organizationId = org &&
      r.status = source) .active) = (tables db).setMemberships (fun r => r.id = m.id &&
        r.organizationId = org && r.status = source) .active := tables_updateMemberships
  constructor
  · exact congrArg Tables.grant htab
  · intro k hk
    obtain ⟨r, hr⟩ := Option.isSome_iff_exists.mp hk
    rw [show membershipAt (updateMemberships db _ .active) k = (membershipAt db k).map _ from
      congrFun (congrArg Tables.membership htab) k, hr]
    rfl
  · intro k
    rw [activeMember_started (congrFun (congrArg Tables.membership htab) k)]
    refine or_congr_right ⟨?_, ?_⟩
    · rintro ⟨r, hr, -, htest⟩
      simp only [Bool.and_eq_true, decide_eq_true_eq] at htest
      exact (membershipAt_id hr).symm.trans htest.1.1
    · rintro rfl
      exact ⟨m, hm, horg, by simp [horg, hs]⟩

theorem findByIdentity_resolved {identityId : Uuid} (h : Resolved db db') :
    findByIdentity db' org identityId = findByIdentity db org identityId := by
  rcases h with rfl | ⟨i, rfl⟩
  · rfl
  · have hlist : listByIdentity (insertIdentity db i) identityId = listByIdentity db identityId :=
      Store.scan_set db _ _ fun _ => rfl
    rw [findByIdentity, findByIdentity, hlist]

end Admits

section Calls

variable {parse : String → Option Uuid} {c : Collaborators} {org : Uuid} {s : TenantState}

theorem projected_of_admits (h : Projected org s) {db' : Db} {into : Uuid → Prop}
    {us : List TupleUpdate} {s' : TenantState}
    (hs' : s' = { s with db := db', outbox := s.outbox ++ us }) (hinv : TenantInv org s')
    (hadmits : Admits org s.db db' into) (hus : ∀ u ∈ us, u.op = .write)
    (htuples : ∀ t, (∃ u ∈ us, u.tuple = t) ↔ ∃ k, into k ∧ t ∈ accessTuples s org k) :
    Projected org s' :=
  h.afterAdmission hs' hinv hadmits.grant hadmits.known hadmits.active hus htuples

theorem projected_of_quiet (h : Projected org s) {db' : Db} {into : Uuid → Prop} {s' : TenantState}
    (hs' : s' = { s with db := db', outbox := s.outbox ++ [] }) (hinv : TenantInv org s')
    (hadmits : Admits org s.db db' into) (hnew : ∀ k, into k → membershipAt s.db k = none) :
    Projected org s' := by
  apply projected_of_admits h hs' hinv hadmits (fun u hu => absurd hu List.not_mem_nil)
  intro t
  constructor
  · rintro ⟨u, hu, -⟩
    exact absurd hu List.not_mem_nil
  · rintro ⟨k, hk, ht⟩
    have hknown := h.known k t ht
    rw [hnew k hk] at hknown
    cases hknown

theorem projected_of_return (h : Projected org s) {db' : Db} {m : Uuid} {s' : TenantState}
    (hs' : s' = { s with db := db', outbox := s.outbox ++ accessUpdates s org m true })
    (hinv : TenantInv org s') (hadmits : Admits org s.db db' fun k => k = m) : Projected org s' := by
  refine projected_of_admits h hs' hinv hadmits ?_ fun t => ?_
  · intro u hu
    obtain ⟨t, -, rfl⟩ := List.mem_map.mp hu
    rfl
  · constructor
    · rintro ⟨u, hu, rfl⟩
      obtain ⟨t, ht, rfl⟩ := List.mem_map.mp hu
      exact ⟨m, rfl, ht⟩
    · rintro ⟨k, rfl, ht⟩
      exact ⟨_, List.mem_map.mpr ⟨t, ht, rfl⟩, rfl⟩

theorem service_step (c : Collaborators) (hparse : ∀ u : Uuid, parse u.text = some u)
    (h : Projected org s) {op : TenantOp} {o : Op} (ho : op.service org = some o) :
    performTenant parse c org s op = { s with
      db := perform c s.db o
      outbox := s.outbox ++ (lifecycleUpdates c org s op ++
        (transitions c org s op).flatMap (grantUpdates parse)) } ∧
      TenantInv org (performTenant parse c org s op) :=
  ⟨performTenant_service hparse h.inv.assignable ho, (tenantStep_perform hparse h.inv op).tenantInv h.inv⟩

theorem projected_inviteByEmail (c : Collaborators) (hparse : ∀ u : Uuid, parse u.text = some u)
    (h : Projected org s) (email : String) (invitedBy id : Uuid) :
    Projected org (performTenant parse c org s (.inviteByEmail email invitedBy id)) := by
  have ho : (TenantOp.inviteByEmail email invitedBy id).service org =
      some (.inviteByEmail org email invitedBy id) := rfl
  obtain ⟨hs', hinv⟩ := service_step c hparse h ho
  rw [perform] at hs'
  rcases inviteByEmail_cases org email invitedBy id with hdb | ⟨m, hinvited, hnew, hdb⟩
  · rw [hdb] at hs'
    exact projected_of_quiet h hs' hinv (admits_of_same rfl rfl) fun k hk => hk.elim
  · rw [hdb] at hs'
    apply projected_of_quiet h hs' hinv (admits_insertMembership hnew)
    intro k hk
    rw [hinvited] at hk
    cases hk.2.2

theorem projected_accept (c : Collaborators) (hparse : ∀ u : Uuid, parse u.text = some u)
    (h : Projected org s) (membershipId identityId : Uuid) :
    Projected org (performTenant parse c org s (.accept membershipId identityId)) := by
  have ho : (TenantOp.accept membershipId identityId).service org =
      some (.accept org membershipId identityId) := rfl
  obtain ⟨hs', hinv⟩ := service_step c hparse h ho
  simp only [perform, lifecycleUpdates, transitions, List.flatMap_nil, List.append_nil] at hs'
  rcases accept_eq org membershipId identityId with ⟨err, he⟩ | ⟨m, i, hm, horg, hs, -, -, he⟩
  · rw [he] at hs'
    exact projected_of_quiet h hs' hinv (admits_of_same rfl rfl) fun k hk => hk.elim
  · rw [he] at hs'
    exact projected_of_return h hs' hinv (admits_activate hm horg hs)

theorem projected_provisionUser (c : Collaborators) (hparse : ∀ u : Uuid, parse u.text = some u)
    (h : Projected org s) (email : String) (draw : ProvisionDraw) :
    Projected org (performTenant parse c org s (.provisionUser email draw)) := by
  have ho : (TenantOp.provisionUser email draw).service org = some (.provisionUser org email draw) :=
    rfl
  obtain ⟨hs', hinv⟩ := service_step c hparse h ho
  simp only [perform, lifecycleUpdates, transitions, List.flatMap_nil, List.append_nil] at hs'
  have hquiet {db' : Db} (hdb : (provisionUser c s.db org email draw).2 = db')
      (hresolved : Resolved s.db db') :
      Projected org (performTenant parse c org s (.provisionUser email draw)) := by
    rw [hdb] at hs'
    refine projected_of_quiet h ?_ hinv (admits_resolved hresolved) fun k hk => hk.elim
    rw [hs', List.append_nil]
  by_cases hemail : email = ""
  · exact hquiet (by rw [provisionUser, if_pos hemail]) (Or.inl rfl)
  obtain ⟨db₁, hdb₁, ⟨err, he⟩ | ⟨id, db₂, hensure, he⟩⟩ := provision_eq c s.db email draw
    fun db id => (ensureMembership db org id draw.membershipId).mapError .ensureMembership
  · exact hquiet (by rw [provisionUser, if_neg hemail, he]) hdb₁
  have hres : (provisionUser c s.db org email draw).2 = db₂ := by
    rw [provisionUser, if_neg hemail, he]
  have hok := mapError_eq_ok.mp hensure
  rcases ensureMembership_ok hok with hjoins | rfl
  · obtain rfl := Except.ok.inj ((ensureMembership_joins hjoins).symm.trans hok)
    rw [hres] at hs'
    have hinsert : Admits org db₁
        (insertMembership db₁ ⟨draw.membershipId, id, org, .active, none⟩) _ :=
      admits_insertMembership hjoins.2.2.2
    refine projected_of_quiet h ?_ hinv ((admits_resolved hdb₁).trans hinsert) fun k hk => ?_
    · rw [hs', List.append_nil]
    · rw [hk.1, ← membershipAt_resolved hdb₁]
      exact hjoins.2.2.2
  · exact hquiet hres hdb₁

theorem projected_provisionFederated (c : Collaborators)
    (hparse : ∀ u : Uuid, parse u.text = some u) (h : Projected org s) (email : String)
    (draw : ProvisionDraw) :
    Projected org (performTenant parse c org s (.provisionFederated email draw)) := by
  have ho : (TenantOp.provisionFederated email draw).service org =
      some (.provisionFederated org email draw) := rfl
  obtain ⟨hs', hinv⟩ := service_step c hparse h ho
  simp only [perform, lifecycleUpdates, transitions, List.flatMap_nil, List.append_nil] at hs'
  have hfails {err : ServiceError} {db' : Db}
      (he : provisionFederated c s.db org email draw = (.error err, db'))
      (hresolved : Resolved s.db db') :
      Projected org (performTenant parse c org s (.provisionFederated email draw)) := by
    rw [he] at hs'
    exact projected_of_quiet h hs' hinv (admits_resolved hresolved) fun k hk => hk.elim
  by_cases hemail : email = ""
  · exact hfails (by rw [provisionFederated, if_pos hemail]) (Or.inl rfl)
  obtain ⟨db₁, hdb₁, ⟨err, he⟩ | ⟨id, db₂, hensure, he⟩⟩ := provision_eq c s.db email draw
    fun db id => (ensureActiveMembership db org id draw.membershipId).mapError .ensureActiveMembership
  · exact hfails (by rw [provisionFederated, if_neg hemail, he]) hdb₁
  have hres : provisionFederated c s.db org email draw = (.ok id, db₂) := by
    rw [provisionFederated, if_neg hemail, he]
  rw [hres] at hs'
  simp only [enqueuedBy] at hs'
  -- the membership is looked up in the rows before the call
  rw [← findByIdentity_resolved hdb₁] at hs'
  have hok := mapError_eq_ok.mp hensure
  rcases ensureActiveMembership_ok hok with hjoins | ⟨m, hreturns⟩ | ⟨m, hm, hactive, rfl⟩
  · obtain rfl := Except.ok.inj ((ensureActiveMembership_joins hjoins).symm.trans hok)
    simp only [hjoins.2.2.1] at hs'
    have hinsert : Admits org db₁
        (insertMembership db₁ ⟨draw.membershipId, id, org, .active, none⟩) _ :=
      admits_insertMembership hjoins.2.2.2
    apply projected_of_quiet h hs' hinv ((admits_resolved hdb₁).trans hinsert)
    intro k hk
    rw [hk.1, ← membershipAt_resolved hdb₁]
    exact hjoins.2.2.2
  · obtain rfl := Except.ok.inj ((ensureActiveMembership_returns hreturns).symm.trans hok)
    obtain ⟨hrow, -, horg⟩ := findByIdentity_some hreturns.2.1
    simp only [hreturns.2.1, hreturns.2.2, if_true] at hs'
    exact projected_of_return h hs' hinv
      ((admits_resolved hdb₁).trans (admits_activate hrow horg rfl))
  · simp only [hm, hactive, reduceCtorEq, or_self, if_false] at hs'
    exact projected_of_quiet h hs' hinv (admits_resolved hdb₁) fun k hk => hk.elim

end Calls

end ArchGuard.Authz
