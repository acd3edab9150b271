import ArchGuard.PolicyStore

/-! When the stored policy rows stay those of the permissions, over runs of operations. -/
namespace ArchGuard.Permissions
open GoText MirroredRows Object TransitionRun

section Condition

variable (casbin : Casbin)

/-- The permission has resources and actions, so that its subjects have policies. -/
def Permission.Grants (p : Permission) : Prop := p.resources ≠ [] ∧ p.actions ≠ []

/-- None of the references has the name, in whatever organization. -/
def NoneNamed (name : GoString) (refs : List GoString) : Prop :=
  ∀ ref ∈ refs, ∀ parts ∈ getOwnerAndNameFromIdWithError ref, parts.2 ≠ name

/-- The references with the name are of the organization. -/
def NamedOnlyIn (owner name : GoString) (refs : List GoString) : Prop :=
  ∀ ref ∈ refs, ∀ parts ∈ getOwnerAndNameFromIdWithError ref, parts.2 = name → parts.1 = owner

/-- The rename of a role finds a permission that lists it, under the old and under the new name, and
does not touch one that lists a role of the old name in another organization. -/
def RoleFound (id owner name : GoString) (role : Role) (p : Permission) : Prop :=
  NamedOnlyIn owner name p.roles ∧ (id ∈ p.roles → role.owner = owner ∧
    finds casbin.like Permission.roles id p = true ∧
    finds casbin.like Permission.roles (getId owner role.name)
      { p with roles := p.roles.map (renamed owner name role.name) } = true)

/-- The operations after which the policies are those of the permissions. -/
def Fit (s : PolicyStore) : Operation → Prop
  | .addPermission permission => ∀ p ∈ s.db.permissions, p.getId ≠ permission.getId
  | .updatePermission id permission _ => ∀ p ∈ s.db.permissions,
    getOwnerAndNameFromIdNoCheck id ≠ some p.key → p.getId ≠ permission.getId
  | .deletePermission permission => ∀ p ∈ s.db.permissions, p.key = permission.key →
    ∀ r ∈ policyRows casbin p, r ∈ policyRows casbin permission
  | .updateRole id role _ => ∀ key ∈ getOwnerAndNameFromIdNoCheck id, key.2 ≠ role.name →
    ∀ p ∈ s.db.permissions, p.Grants → RoleFound casbin id key.1 key.2 role p
  | .deleteRole _ => True
  | .renameUser _ oldName _ => ∀ p ∈ s.db.permissions, p.Grants → NoneNamed oldName p.users

instance (p : Permission) : Decidable p.Grants :=
  inferInstanceAs (Decidable (p.resources ≠ [] ∧ p.actions ≠ []))

instance (name : GoString) (refs : List GoString) : Decidable (NoneNamed name refs) :=
  inferInstanceAs (Decidable (∀ ref ∈ refs, ∀ parts ∈ getOwnerAndNameFromIdWithError ref,
    parts.2 ≠ name))

instance (owner name : GoString) (refs : List GoString) : Decidable (NamedOnlyIn owner name refs) :=
  inferInstanceAs (Decidable (∀ ref ∈ refs, ∀ parts ∈ getOwnerAndNameFromIdWithError ref,
    parts.2 = name → parts.1 = owner))

instance (id owner name : GoString) (role : Role) (p : Permission) :
    Decidable (RoleFound casbin id owner name role p) :=
  inferInstanceAs (Decidable (NamedOnlyIn owner name p.roles ∧ (id ∈ p.roles → role.owner = owner ∧
    finds casbin.like Permission.roles id p = true ∧
    finds casbin.like Permission.roles (getId owner role.name)
      { p with roles := p.roles.map (renamed owner name role.name) } = true)))

instance (s : PolicyStore) : (op : Operation) → Decidable (Fit casbin s op)
  | .addPermission permission =>
    inferInstanceAs (Decidable (∀ p ∈ s.db.permissions, p.getId ≠ permission.getId))
  | .updatePermission id permission _ =>
    inferInstanceAs (Decidable (∀ p ∈ s.db.permissions,
      getOwnerAndNameFromIdNoCheck id ≠ some p.key → p.getId ≠ permission.getId))
  | .deletePermission permission =>
    inferInstanceAs (Decidable (∀ p ∈ s.db.permissions, p.key = permission.key →
      ∀ r ∈ policyRows casbin p, r ∈ policyRows casbin permission))
  | .updateRole id role _ =>
    inferInstanceAs (Decidable (∀ key ∈ getOwnerAndNameFromIdNoCheck id, key.2 ≠ role.name →
      ∀ p ∈ s.db.permissions, p.Grants → RoleFound casbin id key.1 key.2 role p))
  | .deleteRole _ => inferInstanceAs (Decidable True)
  | .renameUser _ oldName _ =>
    inferInstanceAs (Decidable (∀ p ∈ s.db.permissions, p.Grants → NoneNamed oldName p.users))

end Condition

/-- The rows that carry an identifier are the policies of the permission that has it. -/
def PoliciesExact (casbin : Casbin) (s : PolicyStore) : Prop :=
  ∀ id r, (r ∈ s.policies ∧ PolicyRow.permissionId r = id) ↔
    ∃ p ∈ s.db.permissions, p.getId = id ∧ r ∈ policyRows casbin p

section Steps

variable {casbin : Casbin} {s s' : PolicyStore}

theorem policyRows_of_not_grants {p : Permission} (p' : Permission) (h : ¬ p.Grants)
    (hresources : p'.resources = p.resources) (hactions : p'.actions = p.actions) :
    policyRows casbin p' = [] := by
  apply policyRows_eq_nil
  rw [hresources, hactions]
  by_contra hnone
  rw [not_or] at hnone
  exact h hnone

theorem checkPermissionValid_key {permission valid : Permission}
    (h : checkPermissionValid casbin permission = some valid) : valid.key = permission.key := by
  rw [checkPermissionValid] at h
  by_cases haccepts : casbin.accepts permission = true
  · rw [if_pos haccepts] at h
    obtain rfl := Option.some.inj h
    rfl
  · rw [if_neg haccepts] at h
    cases h

theorem getId_of_key {p q : Permission} (h : p.key = q.key) : p.getId = q.getId := by
  obtain ⟨howner, hname⟩ := Prod.mk.inj h
  rw [Permission.getId, Permission.getId, howner, hname]

theorem mirrored_addPermission (h : Mirrored casbin s) {permission : Permission}
    (hnew : ∀ p ∈ s.db.permissions, p.getId ≠ permission.getId)
    (hstep : addPermission casbin s permission = some s') : Mirrored casbin s' := by
  obtain ⟨valid, hvalid, hstep⟩ := Option.bind_eq_some_iff.mp hstep
  obtain ⟨db, hdb, hstep⟩ := Option.bind_eq_some_iff.mp hstep
  obtain rfl := Option.some.inj hstep
  have hid := getId_of_key (checkPermissionValid_key hvalid)
  have hadd := h.add fun p hp => hid.symm ▸ hnew p hp
  rw [← (withRows?_eq_some hdb).2.1] at hadd
  exact hadd

/-- What a successful update of a permission does: nothing, or the row of the key is replaced and its
policies with it. -/
theorem updatePermission_cases {id : GoString} {permission : Permission} {affected : Bool}
    (hstep : updatePermission casbin s id permission affected = some s') :
    s' = s ∨ ∃ valid old, checkPermissionValid casbin permission = some valid ∧
      old ∈ s.db.permissions ∧ getOwnerAndNameFromIdNoCheck id = some old.key ∧
      s'.db.permissions = (s.db.permissions.map fun p => if p.key = old.key then valid else p) ∧
      s'.policies = without s.policies (policyRows casbin old) ++ policyRows casbin valid := by
  obtain ⟨valid, hvalid, hstep⟩ := Option.bind_eq_some_iff.mp hstep
  obtain ⟨⟨owner, name⟩, hid, hstep⟩ := Option.bind_eq_some_iff.mp hstep
  simp only at hstep
  cases hold : getPermission s.db owner name with
  | none =>
    rw [hold] at hstep
    exact Or.inl (Option.some.inj hstep).symm
  | some old =>
    rw [hold] at hstep
    simp only at hstep
    split_ifs at hstep
    · exact Or.inl (Option.some.inj hstep).symm
    · obtain ⟨db, hdb, hstep⟩ := Option.bind_eq_some_iff.mp hstep
      obtain rfl := Option.some.inj hstep
      rw [getPermission] at hold
      split_ifs at hold
      obtain ⟨hmem, hkey⟩ := (rowOf_eq_some s.db.nodup_permissions).mp hold
      refine Or.inr ⟨valid, old, hvalid, hmem, hkey ▸ hid, ?_, rfl⟩
      rw [hkey]
      exact (withRows?_eq_some hdb).2.1

theorem mirrored_updatePermission (h : Mirrored casbin s) {id : GoString} {permission : Permission}
    {affected : Bool}
    (hnew : ∀ p ∈ s.db.permissions, getOwnerAndNameFromIdNoCheck id ≠ some p.key →
      p.getId ≠ permission.getId)
    (hstep : updatePermission casbin s id permission affected = some s') : Mirrored casbin s' := by
  rcases updatePermission_cases hstep with rfl | ⟨valid, old, hvalid, hold, hcut, hperms, hpolicies⟩
  · exact h
  have hvalidId := getId_of_key (checkPermissionValid_key hvalid)
  have hunique {p : Permission} (hp : p ∈ s.db.permissions) (hkey : p.key = old.key) : p = old :=
    eq_of_key s.db.nodup_permissions hp hold hkey
  have hapart : ((s.db.permissions.map fun p => if p.key = old.key then valid else p).map
      Permission.getId).Nodup := by
    rw [List.map_map]
    apply List.Nodup.map_on ?_ (List.Nodup.of_map _ s.db.nodup_permissions)
    intro p hp q hq heq
    rw [Function.comp_apply, Function.comp_apply] at heq
    split_ifs at heq with hpkey hqkey hqkey
    · exact (hunique hp hpkey).trans (hunique hq hqkey).symm
    · exact absurd (heq.symm.trans hvalidId)
        (hnew q hq fun hcut' => hqkey (Option.some.inj (hcut'.symm.trans hcut)))
    · exact absurd (heq.trans hvalidId)
        (hnew p hp fun hcut' => hpkey (Option.some.inj (hcut'.symm.trans hcut)))
    · exact h.eq_of_id hp hq heq
  have hupdate := h.update tagged_policyRows _ [old] [valid] hapart
    (fun a ha => List.mem_singleton.mp ha ▸ hold)
    (fun a ha => ?_) (fun a ha hne => ?_) (fun a ha => ?_)
  · rw [Mirrored, hperms, hpolicies]
    simpa only [List.flatMap_singleton] using hupdate
  · rw [List.mem_singleton.mp ha]
    exact List.mem_map.mpr ⟨old, hold, if_pos rfl⟩
  · rw [if_neg fun hkey => hne (List.mem_singleton.mpr (hunique ha hkey))]
  · rw [List.mem_singleton.mp ha, if_pos rfl]
    exact Or.inr List.mem_cons_self

theorem mirrored_deletePermission (h : Mirrored casbin s) {permission : Permission}
    (hall : ∀ p ∈ s.db.permissions, p.key = permission.key →
      ∀ r ∈ policyRows casbin p, r ∈ policyRows casbin permission)
    (hstep : deletePermission casbin s permission = some s') : Mirrored casbin s' := by
  obtain ⟨db, hdb, hstep⟩ := Option.bind_eq_some_iff.mp hstep
  have hperms := (withRows?_eq_some hdb).2.1
  split_ifs at hstep with hmem
  · obtain rfl := Option.some.inj hstep
    obtain ⟨p, hp, hkey⟩ := List.mem_map.mp hmem
    have herase := h.erase tagged_policyRows hp (policyRows casbin permission) (fun r hr => ?_)
      (hall p hp hkey) (fun q => q.key ≠ permission.key) (fun q hq => ?_)
    · rw [← hperms] at herase
      exact herase
    · rw [tagged_policyRows permission r hr, getId_of_key hkey]
    · rw [decide_eq_true_eq, ← hkey, not_iff_not]
      exact ⟨eq_of_key s.db.nodup_permissions hq hp, congrArg Permission.key⟩
  · obtain rfl := Option.some.inj hstep
    have hsame : s.db.permissions.filter (fun p => p.key ≠ permission.key) = s.db.permissions := by
      rw [List.filter_eq_self]
      intro p hp
      rw [decide_eq_true_eq]
      rintro hkey
      exact hmem (hkey ▸ List.mem_map_of_mem hp)
    rw [Mirrored, hperms, hsame]
    exact h

theorem mirrored_updateOwn (h : Mirrored casbin s) {permission : Permission} {affected : Bool}
    {id : GoString} (hstep : updatePermission casbin s id permission affected = some s')
    (hmem : permission.key ∈ s.db.permissions.map Permission.key) :
    Mirrored casbin s' ∧
      s'.db.permissions.map Permission.key = s.db.permissions.map Permission.key := by
  obtain ⟨p, hp, hkey⟩ := List.mem_map.mp hmem
  rcases updatePermission_cases hstep with rfl | ⟨valid, old, hvalid, hold, hcut, hperms, -⟩
  · exact ⟨h, rfl⟩
  have hvalidKey := checkPermissionValid_key hvalid
  -- another row would have got the key of the permission, which has it already
  have hown : old.key = permission.key := by
    by_contra hother
    have hnodup := s'.db.nodup_permissions
    rw [hperms, List.map_map] at hnodup
    have hsame : p = old := by
      apply List.inj_on_of_nodup_map hnodup hp hold
      rw [Function.comp_apply, Function.comp_apply, if_pos rfl,
        if_neg fun h => hother (h.symm.trans hkey), hvalidKey, hkey]
    exact hother (hsame ▸ hkey)
  constructor
  · apply mirrored_updatePermission h ?_ hstep
    intro q hq hne hid
    have hpq : q = p := h.eq_of_id hq hp (hid.trans (getId_of_key hkey).symm)
    exact hne (by rw [hcut, hown, hpq, hkey])
  · rw [hperms, List.map_map]
    apply List.map_congr_left
    intro q _
    rw [Function.comp_apply]
    split_ifs with hq
    · rw [hvalidKey, hq, hown]
    · rfl

theorem mirrored_deleteRole (h : Mirrored casbin s) {role : Role}
    (hstep : deleteRole casbin s role = some s') : Mirrored casbin s' := by
  obtain ⟨t, hfold, hstep⟩ := Option.bind_eq_some_iff.mp hstep
  obtain ⟨db, hdb, hstep⟩ := Option.bind_eq_some_iff.mp hstep
  obtain rfl := Option.some.inj hstep
  have hloop : ∀ (permissions : List Permission) (u : PolicyStore),
      (∀ p ∈ permissions, p.key ∈ u.db.permissions.map Permission.key) → Mirrored casbin u →
      permissions.foldlM (fun s permission => updatePermission casbin s permission.getId
        { permission with roles := permission.roles.filter (· ≠ role.getId) } true) u = some t →
      Mirrored casbin t := by
    intro permissions
    induction permissions with
    | nil =>
      intro u _ hu hfold
      obtain rfl := Option.some.inj hfold
      exact hu
    | cons permission permissions ih =>
      intro u hmem hu hfold
      rw [List.foldlM_cons] at hfold
      obtain ⟨v, hv, hfold⟩ := Option.bind_eq_some_iff.mp hfold
      obtain ⟨hmirrored, hkeys⟩ := mirrored_updateOwn hu hv (hmem permission List.mem_cons_self)
      refine ih v (fun p hp => ?_) hmirrored hfold
      rw [hkeys]
      exact hmem p (List.mem_cons_of_mem permission hp)
  have ht := hloop _ s (fun p hp => List.mem_map_of_mem (List.mem_filter.mp hp).1) h hfold
  rw [Mirrored, (withRows?_eq_some hdb).2.1]
  exact ht

theorem mirrored_renameUser (h : Mirrored casbin s) {owner oldName newName : GoString}
    (hnone : ∀ p ∈ s.db.permissions, p.Grants → NoneNamed oldName p.users)
    (hstep : renameUser s owner oldName newName = some s') : Mirrored casbin s' := by
  obtain ⟨db, hdb, rfl⟩ := Option.map_eq_some_iff.mp hstep
  have hperms := userChangeTrigger_permissions hdb
  -- a permission that grants anything keeps its users
  let f : Permission → Permission := fun p =>
    { p with users := (rewriteIds oldName newName true p.users).getD [] }
  have hmap : db.permissions = s.db.permissions.map f := by
    apply eq_map_of_mapM hperms
    intro p _ p' hp'
    obtain ⟨users, husers, rfl⟩ := Option.map_eq_some_iff.mp hp'
    simp only [f, husers, Option.getD_some]
  have hkept : ∀ p ∈ s.db.permissions, p ∉ ([] : List Permission) →
      policyRows casbin (f p) = policyRows casbin p := by
    intro p hp _
    by_cases hgrants : p.Grants
    · obtain ⟨p', hp'⟩ := isSome_of_mapM hperms p hp
      obtain ⟨users, husers, -⟩ := Option.map_eq_some_iff.mp hp'
      have hself := rewriteIds_eq_self husers (hnone p hp hgrants)
      simp only [f, husers, Option.getD_some, hself]
    · rw [policyRows_of_not_grants (f p) hgrants rfl rfl,
        policyRows_of_not_grants _ hgrants rfl rfl]
  have hapart : ((s.db.permissions.map f).map Permission.getId).Nodup := by
    rw [List.map_map]
    exact h.apart
  have hupdate := h.update tagged_policyRows f [] [] hapart
    (fun _ ha => absurd ha List.not_mem_nil) (fun _ ha => absurd ha List.not_mem_nil) hkept
    (fun _ ha => absurd ha List.not_mem_nil)
  rw [Mirrored, hmap]
  simpa [without] using hupdate

theorem mirrored_updateRole (h : Mirrored casbin s) {id : GoString} {role : Role}
    {isGlobalAdmin : Bool}
    (hfound : ∀ key ∈ getOwnerAndNameFromIdNoCheck id, key.2 ≠ role.name →
      ∀ p ∈ s.db.permissions, p.Grants → RoleFound casbin id key.1 key.2 role p)
    (hstep : updateRole casbin s id role isGlobalAdmin = some s') : Mirrored casbin s' := by
  obtain ⟨⟨owner, name⟩, hid, hstep⟩ := Option.bind_eq_some_iff.mp hstep
  simp only at hstep
  cases hold : getRole s.db owner name with
  | none =>
    rw [hold] at hstep
    exact Option.some.inj hstep ▸ h
  | some oldRole =>
    rw [hold] at hstep
    simp only at hstep
    split_ifs at hstep with _ hname
    · -- without a rename, no permission changes
      obtain ⟨db, hdb, hstep⟩ := Option.bind_eq_some_iff.mp hstep
      obtain rfl := Option.some.inj hstep
      rw [Mirrored, (withRows?_eq_some hdb).2.1]
      exact h
    · rw [policies_foldl_removePolicies] at hstep
      obtain ⟨db₁, hdb₁, hstep⟩ := Option.bind_eq_some_iff.mp hstep
      obtain ⟨db, hdb, hstep⟩ := Option.bind_eq_some_iff.mp hstep
      rw [policies_foldl_addPolicies] at hstep
      obtain rfl := Option.some.inj hstep
      have htrigger := roleChangeTrigger_permissions hdb₁
      have hperms : db.permissions = db₁.permissions := (withRows?_eq_some hdb).2.1
      have hmoved := hfound (owner, name) hid hname
      obtain rfl : id = getId owner name := getOwnerAndNameFromIdNoCheck_ok hid
      let f : Permission → Permission := fun p =>
        { p with roles := (rewriteIds name role.name true p.roles).getD [] }
      have hmap : db₁.permissions = s.db.permissions.map f := by
        apply eq_map_of_mapM htrigger
        intro p _ p' hp'
        obtain ⟨roles, hroles, rfl⟩ := Option.map_eq_some_iff.mp hp'
        simp only [f, hroles, Option.getD_some]
      -- of a permission that grants anything, the roles of the one organization get the new name
      have hrenamed : ∀ p ∈ s.db.permissions, p.Grants →
          f p = { p with roles := p.roles.map (renamed owner name role.name) } := by
        intro p hp hgrants
        obtain ⟨p', hp'⟩ := isSome_of_mapM htrigger p hp
        obtain ⟨roles, hroles, -⟩ := Option.map_eq_some_iff.mp hp'
        have honly := onlyOf_of_rewriteIds hroles (hmoved p hp hgrants).1
        simp only [f, hroles, Option.getD_some, (rewriteIds_eq_renamed hname hroles).mpr honly]
      have hkept : ∀ p ∈ s.db.permissions,
          p ∉ getPermissionsByRole casbin.like s.db.toTables (getId owner name) →
          policyRows casbin (f p) = policyRows casbin p := by
        intro p hp hnot
        by_cases hgrants : p.Grants
        · have hlists : getId owner name ∉ p.roles := fun hlists =>
            hnot (List.mem_filter.mpr ⟨hp, ((hmoved p hp hgrants).2 hlists).2.1⟩)
          have hself : p.roles.map (renamed owner name role.name) = p.roles := by
            conv_rhs => rw [← List.map_id p.roles]
            apply List.map_congr_left
            intro ref href
            exact if_neg fun (heq : ref = getId owner name) => hlists (heq ▸ href)
          rw [hrenamed p hp hgrants, hself]
        · rw [policyRows_of_not_grants (f p) hgrants rfl rfl,
            policyRows_of_not_grants _ hgrants rfl rfl]
      have hback : ∀ p ∈ getPermissionsByRole casbin.like s.db.toTables (getId owner name),
          policyRows casbin (f p) = [] ∨
            f p ∈ getPermissionsByRole casbin.like db.toTables role.getId := by
        intro p hp
        obtain ⟨hp, hfinds⟩ := List.mem_filter.mp hp
        by_cases hgrants : p.Grants
        · have hlists : getId owner name ∈ p.roles := by
            simpa using (Bool.and_eq_true_iff.mp hfinds).2
          obtain ⟨howner, -, hnew⟩ := (hmoved p hp hgrants).2 hlists
          refine Or.inr (List.mem_filter.mpr ⟨?_, ?_⟩)
          · rw [hperms, hmap]
            exact List.mem_map_of_mem hp
          · rw [Role.getId, howner, hrenamed p hp hgrants]
            exact hnew
        · exact Or.inl (policyRows_of_not_grants _ hgrants rfl rfl)
      have hapart : ((s.db.permissions.map f).map Permission.getId).Nodup := by
        rw [List.map_map]
        exact h.apart
      have hupdate := h.update tagged_policyRows f _ _ hapart
        (fun p hp => (List.mem_filter.mp hp).1)
        (fun p hp => hmap ▸ hperms ▸ (List.mem_filter.mp hp).1) hkept hback
      rw [← hmap, ← hperms] at hupdate
      exact hupdate

theorem Mirrored.step (h : Mirrored casbin s) {op : Operation} (hfit : Fit casbin s op)
    (hstep : perform casbin s op = some s') : Mirrored casbin s' := by
  cases op with
  | addPermission permission => exact mirrored_addPermission h hfit hstep
  | updatePermission id permission affected => exact mirrored_updatePermission h hfit hstep
  | deletePermission permission => exact mirrored_deletePermission h hfit hstep
  | updateRole id role isGlobalAdmin => exact mirrored_updateRole h hfit hstep
  | deleteRole role => exact mirrored_deleteRole h hstep
  | renameUser owner oldName newName => exact mirrored_renameUser h hfit hstep

theorem Mirrored.exact (h : Mirrored casbin s) : PoliciesExact casbin s := by
  intro id r
  rw [h.mem_iff]
  constructor
  · rintro ⟨⟨p, hp, hr⟩, hid⟩
    exact ⟨p, hp, (tagged_policyRows p r hr).symm.trans hid, hr⟩
  · rintro ⟨p, hp, hid, hr⟩
    exact ⟨⟨p, hp, hr⟩, (tagged_policyRows p r hr).trans hid⟩

/-- In a run whose operations are all fit, the rows that carry the identifier of a permission are
exactly its policies. -/
theorem policiesExact_of_fit {ops : List Operation} (h : Mirrored casbin s)
    (hfit : Along (perform casbin) (Fit casbin) s ops)
    (hrun : run (perform casbin) s ops = some s') : PoliciesExact casbin s' := by
  have hend : Mirrored casbin s' :=
    run_invariant (fun _ _ _ ht hok hstep => ht.step hok hstep) h hfit hrun
  exact hend.exact

end Steps

section Example

/-- Models with roles and domains that accept everything, and no adapters. -/
def plainCasbin : Casbin where
  lower := Char.toLower
  like := sqlLike
  adapterTable _ _ := none
  accepts _ := true
  hasRoleDefinition _ := true
  hasDomainDefinition _ := true
  policyParts _ := some 3

/-- A role, and no permissions yet. -/
def unpermitted : PolicyStore where
  db := staffed [utf8 "acme/ana"]
  policies := []

/-- A permission for a user and for the members of a role. -/
def readLedger (user role : GoString) : Permission :=
  { granting (utf8 "acme") (utf8 "read") [user] [] with roles := [role] }

def renamedAdmin : Role := ⟨utf8 "acme", utf8 "owner", [], [utf8 "acme/ana"], [], [], [], true⟩

/-- A permission is added, its role gets another name, and the permission changes and goes. -/
def maintenance : List Operation :=
  [.addPermission (readLedger (utf8 "acme/ana") (utf8 "acme/admin")),
    .updateRole (utf8 "acme/admin") renamedAdmin false,
    .updatePermission (utf8 "acme/read") (readLedger (utf8 "acme/rui") (utf8 "acme/owner")) true,
    .deleteRole renamedAdmin]

theorem mirrored_unpermitted : Mirrored plainCasbin unpermitted := mirrors_nil

theorem policiesExact_maintenance :
    ∃ s', run (perform plainCasbin) unpermitted maintenance = some s' ∧
      PoliciesExact plainCasbin s' := by
  obtain ⟨s', hrun⟩ := Option.isSome_iff_exists.mp
    (by decide +kernel : (run (perform plainCasbin) unpermitted maintenance).isSome = true)
  have htest : ∀ s op, decide (Fit plainCasbin s op) = true → Fit plainCasbin s op :=
    fun s op h => of_decide_eq_true h
  have hfit : Along (perform plainCasbin) (Fit plainCasbin) unpermitted maintenance :=
    along_of_check htest (by decide +kernel)
  exact ⟨s', hrun, policiesExact_of_fit mirrored_unpermitted hfit hrun⟩

/-- A user with a permission is renamed: the policy of the old name stays. -/
theorem renamed_user_keeps_policy :
    ∃ s', run (perform plainCasbin) unpermitted
        [.addPermission (readLedger (utf8 "acme/ana") (utf8 "acme/admin")),
          .renameUser (utf8 "acme") (utf8 "ana") (utf8 "anna")] = some s' ∧
      ¬ PoliciesExact plainCasbin s' := by
  obtain ⟨s', hrun⟩ := Option.isSome_iff_exists.mp
    (by decide +kernel : (run (perform plainCasbin) unpermitted
        [.addPermission (readLedger (utf8 "acme/ana") (utf8 "acme/admin")),
          .renameUser (utf8 "acme") (utf8 "ana") (utf8 "anna")]).isSome = true)
  refine ⟨s', hrun, fun hexact => ?_⟩
  have hstale : (run (perform plainCasbin) unpermitted
      [.addPermission (readLedger (utf8 "acme/ana") (utf8 "acme/admin")),
        .renameUser (utf8 "acme") (utf8 "ana") (utf8 "anna")]).all (fun s =>
          s.policies.any fun r => r ∉ s.db.permissions.flatMap (policyRows plainCasbin)) = true := by
    decide +kernel
  rw [hrun, Option.all_some, List.any_eq_true] at hstale
  obtain ⟨r, hr, hnot⟩ := hstale
  rw [decide_eq_true_eq] at hnot
  obtain ⟨p, hp, -, hrow⟩ := (hexact _ r).mp ⟨hr, rfl⟩
  exact hnot (List.mem_flatMap.mpr ⟨p, hp, hrow⟩)

end Example

end ArchGuard.Permissions
