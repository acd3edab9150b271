import ArchGuard.RoleEndpointRows

/-! What the update of a permission and the deletion of a role leave of the rows of other
organizations. -/
namespace ArchGuard.LegacyApi
open GoText KeyedRows Object Permissions

variable {casbin : Enforcers} {org : GoString} {db : Database}

section UpdatePermission

variable {s : PolicyStore} {id : GoString} {permission valid old : Permission} {k : Key}

theorem updatePermission_eq_none (h : checkPermissionValid casbin.toCasbin permission = none) :
    updatePermission casbin.toCasbin s id permission true = none := by rw [updatePermission, h]; rfl

theorem updatePermission_eq (hvalid : checkPermissionValid casbin.toCasbin permission = some valid)
    (hid : getOwnerAndNameFromIdNoCheck id = some k) :
    updatePermission casbin.toCasbin s id permission true =
      match Permissions.getPermission s.db k.1 k.2 with
      | none => some s
      | some old =>
        if ModelFits casbin valid then
          (s.db.withRows? s.db.roles (replaceAt Permission.key k valid s.db.permissions)).map
            fun db => addPolicies casbin.toCasbin (removePolicies casbin.toCasbin { s with db := db } old) valid
        else none := by
  rw [updatePermission, hvalid, hid]
  show (match Permissions.getPermission s.db k.1 k.2 with
    | none => some s
    | some oldPermission => _) = _
  cases hold : Permissions.getPermission s.db k.1 k.2 with
  | none => rfl
  | some old =>
    simp only
    by_cases hmodel : ModelFits casbin valid
    · rw [if_neg fun h => h.2.2 (hmodel h.1 h.2.1), if_pos hmodel, if_neg Bool.noConfusion,
        Option.map_eq_bind]
      rfl
    · rw [if_neg hmodel]
      apply if_pos
      rw [ModelFits] at hmodel
      tauto

theorem updatePermissionRows_keeps_iff (c : Call) (permission : Permission) :
    Keeps org db c.differs (updatePermissionRows casbin db c.id permission) ↔
      ∀ valid ∈ checkPermissionValid casbin.toCasbin permission, ∀ k ∈ getOwnerAndNameFromIdNoCheck c.id,
        ∀ old ∈ Permissions.getPermission db k.1 k.2,
          UpdatePermissionFits casbin org c db k valid old := by
  rw [updatePermissionRows]
  cases hvalid : checkPermissionValid casbin.toCasbin permission with
  | none =>
    rw [updatePermission_eq_none hvalid]
    exact iff_of_true (keeps_self org db c.differs) fun valid h => by cases h
  | some valid =>
    cases hid : getOwnerAndNameFromIdNoCheck c.id with
    | none =>
      have hnone : updatePermission casbin.toCasbin ⟨db, []⟩ c.id permission true = none := by
        rw [updatePermission, hvalid, hid]
        rfl
      rw [hnone]
      exact iff_of_true (keeps_self org db c.differs) fun _ _ k hk => by cases hk
    | some k =>
      rw [updatePermission_eq hvalid hid]
      simp only [Option.mem_def, Option.some.injEq, forall_eq']
      cases hold : Permissions.getPermission db k.1 k.2 with
      | none =>
        rw [Option.filter_some, hold, if_neg Bool.noConfusion]
        exact iff_of_true (keeps_self org db c.differs) fun old h => by cases h
      | some old =>
        simp only [Option.some.injEq, forall_eq']
        obtain ⟨hrow, hkey⟩ := getPermission_eq_some hold
        have hmem := mem_keys_of_rowAt db.nodup_permissions hrow
        have hnodup := nodup_replaceAt_iff db.nodup_permissions hmem (a := valid)
        rw [UpdatePermissionFits]
        by_cases hmodel : ModelFits casbin valid
        · rw [if_pos hmodel, forall_prop_of_true hmodel]
          by_cases hfree : valid.key = k ∨ valid.key ∉ db.permissions.map Permission.key
          · obtain ⟨db', hdb', hroles, hpermissions⟩ := withRows?_of_nodup db db.nodup_roles
              (hnodup.mpr hfree)
            rw [hdb', Option.map_some, Option.filter_some, hold, if_pos Option.isSome_some,
              forall_prop_of_true hfree, Keeps, hit_own_iff]
            show Untouched org db db' ∧ _ ↔ _
            rw [Untouched, hroles, hpermissions,
              same_replaceAt_iff db.nodup_permissions (hnodup.mpr hfree) hrow,
              and_iff_right (Same.refl _ _), not_not, not_not]
            show _ ↔ (k.1 = org ∧ valid.key.1 = org) ∨ _
            cases c.differs
            · simp only [Bool.false_eq_true, false_imp_iff, and_true]
              exact or_comm
            · simp only [true_imp_iff, Bool.true_eq_false, and_false, or_false]
              constructor
              · rintro ⟨h, hk⟩
                rcases h with h | h
                · exact ⟨hk, by rw [h, hkey]; exact hk⟩
                · exact h
              · intro h
                exact ⟨Or.inr h, h.1⟩
          · have hnone : db.withRows? db.roles (replaceAt Permission.key k valid db.permissions) =
                none := withRows?_eq_none fun h => hfree (hnodup.mp h.2)
            rw [hnone, Option.map_none]
            exact iff_of_true (keeps_self org db c.differs) fun h => absurd h hfree
        · rw [if_neg hmodel]
          exact iff_of_true (keeps_self org db c.differs) fun h => absurd h hmodel

end UpdatePermission

section Detach

variable {roleId : GoString}

theorem detached_ne_self {p : Permission} (h : roleId ∈ p.roles) : detached casbin roleId p ≠ p := by
  intro heq
  have heq' : (if casbin.hasRoleDefinition p.model then p.roles.filter (· ≠ roleId) else []) = p.roles :=
    congrArg Permission.roles heq
  have hroles := h
  rw [← heq'] at hroles
  split_ifs at hroles
  · exact of_decide_eq_true (List.mem_filter.mp hroles).2 rfl
  · cases hroles

theorem astray_congr {db' : Database}
    (h : db'.permissions.map Permission.key = db.permissions.map Permission.key) (p : Permission) :
    Astray db' p ↔ Astray db p := by rw [Astray, Astray, h]

theorem detachable_congr {db' : Database}
    (h : db'.permissions.map Permission.key = db.permissions.map Permission.key) (p : Permission) :
    Detachable casbin db' roleId p ↔ Detachable casbin db roleId p := by
  rw [Detachable, Detachable, astray_congr h]

theorem follows_congr {db' : Database}
    (h : db'.permissions.map Permission.key = db.permissions.map Permission.key) (p : Permission) :
    Follows casbin db' roleId p ↔ Follows casbin db roleId p := by
  rw [Follows, Follows, astray_congr h]

theorem reached_congr {db' : Database}
    (h : db'.permissions.map Permission.key = db.permissions.map Permission.key)
    (ps : List Permission) : reached casbin db' roleId ps = reached casbin db roleId ps := by
  induction ps with
  | nil => rfl
  | cons p ps ih => simp only [reached, detachable_congr h, follows_congr h, ih]

theorem reached_sublist (ps : List Permission) : (reached casbin db roleId ps).Sublist ps := by
  induction ps with
  | nil => exact List.Sublist.slnil
  | cons p ps ih =>
    rw [reached]
    split_ifs
    · exact ih.cons_cons p
    · exact (List.nil_sublist ps).cons_cons p
    · exact List.nil_sublist _

theorem getPermission_nonempty {owner name : GoString} {permission : Permission}
    (h : Permissions.getPermission db owner name = some permission) : owner ≠ [] ∧ name ≠ [] := by
  rw [Permissions.getPermission] at h
  split_ifs at h with hempty
  exact not_or.mp hempty

/-- The identifier leads astray exactly where no row is read by it. -/
theorem astray_iff {p : Permission} {k : Key} (hid : getOwnerAndNameFromIdNoCheck p.getId = some k) :
    Astray db p ↔ Permissions.getPermission db k.1 k.2 = none := by
  constructor
  · intro hastray
    by_contra hsome
    obtain ⟨old, hold⟩ := Option.ne_none_iff_exists'.mp hsome
    obtain ⟨hrow, -⟩ := getPermission_eq_some hold
    have hnonempty := getPermission_nonempty hold
    rcases hastray k hid with h | h | h
    · exact hnonempty.1 h
    · exact hnonempty.2 h
    · exact h (mem_keys_of_rowAt db.nodup_permissions hrow)
  · intro hnone k' hk'
    obtain rfl := Option.some.inj (hid.symm.trans hk')
    rw [Permissions.getPermission] at hnone
    split_ifs at hnone with hempty
    · exact hempty.elim Or.inl fun h => Or.inr (Or.inl h)
    · exact Or.inr (Or.inr (rowAt_eq_none.mp hnone))

theorem Direct.not_astray {p : Permission} (h : Direct p) (hp : p ∈ db.permissions) :
    ¬Astray db p := by
  intro hastray
  rcases hastray p.key h.1 with h' | h' | h'
  · exact h.2.1 h'
  · exact h.2.2 h'
  · exact h' (List.mem_map_of_mem hp)

/-- The row of a permission, with the role taken off if the identifier leads there. -/
def detachRow (casbin : Enforcers) (roleId : GoString) (ps : List Permission) (row : Permission) :
    Permission := if row ∈ ps ∧ Direct row then detached casbin roleId row else row

theorem detachRow_key (ps : List Permission) (row : Permission) :
    (detachRow casbin roleId ps row).key = row.key := by
  rw [detachRow]
  split_ifs <;> rfl

theorem map_detachRow_astray (casbin : Enforcers) {p : Permission} (h : Astray db p) :
    db.permissions.map (detachRow casbin roleId [p]) = db.permissions := by
  conv_rhs => rw [← List.map_id db.permissions]
  apply List.map_congr_left
  intro row hrow
  rw [detachRow, if_neg]
  · rfl
  · intro ⟨hmem, hdirect⟩
    rw [List.mem_singleton] at hmem
    exact hdirect.not_astray hrow (hmem ▸ h)

theorem replaceAt_detached (casbin : Enforcers) {p : Permission} (h : Direct p)
    (hp : p ∈ db.permissions) :
    replaceAt Permission.key p.key (detached casbin roleId p) db.permissions =
      db.permissions.map (detachRow casbin roleId [p]) := by
  apply List.map_congr_left
  intro row hrow
  rw [detachRow]
  by_cases hrowp : row = p
  · rw [hrowp, if_pos rfl, if_pos ⟨List.mem_singleton_self p, h⟩]
  · rw [if_neg fun hkey => hrowp (eq_of_key db.nodup_permissions hrow hp hkey),
      if_neg fun hmem => hrowp (List.mem_singleton.mp hmem.1)]

/-- Where the identifier leads to a row and all is well, that is the permission's own. -/
theorem detach_step (casbin : Enforcers) (roleId : GoString) {s : PolicyStore} {p : Permission}
    (hp : p ∈ s.db.permissions) :
    match updatePermission casbin.toCasbin s p.getId { p with roles := p.roles.filter (· ≠ roleId) } true with
    | none => ¬Detachable casbin s.db roleId p
    | some s' => Detachable casbin s.db roleId p ∧ s'.db.roles = s.db.roles ∧
        s'.db.permissions = s.db.permissions.map (detachRow casbin roleId [p]) := by
  by_cases haccepts : casbin.accepts { p with roles := p.roles.filter (· ≠ roleId) }
  · have hvalid : checkPermissionValid casbin.toCasbin { p with roles := p.roles.filter (· ≠ roleId) } =
        some (detached casbin roleId p) := by rw [checkPermissionValid, if_pos haccepts]; rfl
    obtain ⟨k, hid⟩ := Option.isSome_iff_exists.mp (getOwnerAndNameFromIdNoCheck_getId p.owner p.name)
    change getOwnerAndNameFromIdNoCheck p.getId = some k at hid
    rw [updatePermission_eq hvalid hid]
    cases hold : Permissions.getPermission s.db k.1 k.2 with
    | none =>
      have hastray : Astray s.db p := (astray_iff hid).mpr hold
      exact ⟨⟨haccepts, Or.inl hastray⟩, rfl, (map_detachRow_astray casbin hastray).symm⟩
    | some old =>
      obtain ⟨hrow, hkey⟩ := getPermission_eq_some hold
      have hmem := mem_keys_of_rowAt s.db.nodup_permissions hrow
      have hnonempty := getPermission_nonempty hold
      have hnotastray : ¬Astray s.db p := by
        rw [astray_iff hid, hold]
        exact Option.some_ne_none old
      have hdirect : Direct p ↔ k = p.key := by
        constructor
        · intro h
          exact Option.some.inj (hid.symm.trans h.1)
        · intro h
          rw [h] at hid hnonempty
          exact ⟨hid, hnonempty⟩
      have hnodup := nodup_replaceAt_iff s.db.nodup_permissions hmem (a := detached casbin roleId p)
      simp only
      by_cases hmodel : ModelFits casbin p
      · rw [if_pos (show ModelFits casbin (detached casbin roleId p) from hmodel)]
        by_cases hk : k = p.key
        · obtain ⟨db', hdb', hroles, hpermissions⟩ := withRows?_of_nodup s.db s.db.nodup_roles
            (hnodup.mpr (Or.inl hk.symm))
          have hdb'' : s.db.withRows? s.db.roles
              (replaceAt Permission.key k (detached casbin roleId p) s.db.permissions) = some db' :=
            hdb'
          rw [hdb'']
          refine ⟨⟨haccepts, Or.inr ⟨hdirect.mpr hk, hmodel⟩⟩, hroles, hpermissions.trans ?_⟩
          rw [hk]
          exact replaceAt_detached casbin (hdirect.mpr hk) hp
        · -- the row of another permission would get the key of this one
          have hnone : s.db.withRows? s.db.roles
              (replaceAt Permission.key k (detached casbin roleId p) s.db.permissions) = none := by
            apply withRows?_eq_none
            intro h
            rcases hnodup.mp h.2 with h' | h'
            · exact hk h'.symm
            · exact h' (show p.key ∈ _ from List.mem_map_of_mem hp)
          rw [hnone]
          intro h
          exact h.2.elim hnotastray fun h => hk (hdirect.mp h.1)
      · rw [if_neg (show ¬ModelFits casbin (detached casbin roleId p) from hmodel)]
        intro h
        exact h.2.elim hnotastray fun h => hmodel h.2
  · have hvalid : checkPermissionValid casbin.toCasbin { p with roles := p.roles.filter (· ≠ roleId) } = none := by
      rw [checkPermissionValid, if_neg haccepts]
    rw [updatePermission_eq_none hvalid]
    exact fun h => haccepts h.1

theorem detachRow_ne_self_iff {ps : List Permission} {row : Permission} (h : ∀ p ∈ ps, roleId ∈ p.roles) :
    detachRow casbin roleId ps row = row ↔ ¬(row ∈ ps ∧ Direct row) := by
  rw [detachRow]
  split_ifs with hrow
  · exact iff_of_false (detached_ne_self (h row hrow.1)) (not_not.mpr hrow)
  · exact iff_of_true rfl hrow

theorem detachRow_cons {p : Permission} {ps : List Permission}
    (hnodup : ((p :: ps).map Permission.key).Nodup) (row : Permission) :
    detachRow casbin roleId ps (detachRow casbin roleId [p] row) = detachRow casbin roleId (p :: ps) row := by
  rw [List.map_cons, List.nodup_cons] at hnodup
  by_cases hrow : row = p ∧ Direct row
  · have hother : detached casbin roleId row ∉ ps := by
      intro hmem
      apply hnodup.1
      rw [← hrow.1]
      have hkey := List.mem_map_of_mem (f := Permission.key) hmem
      exact hkey
    have hfirst : detachRow casbin roleId [p] row = detached casbin roleId row :=
      if_pos ⟨List.mem_singleton.mpr hrow.1, hrow.2⟩
    have hboth : detachRow casbin roleId (p :: ps) row = detached casbin roleId row :=
      if_pos ⟨hrow.1 ▸ List.mem_cons_self, hrow.2⟩
    rw [hfirst, hboth]
    exact if_neg fun h => hother h.1
  · have hfirst : detachRow casbin roleId [p] row = row :=
      if_neg fun h => hrow ⟨List.mem_singleton.mp h.1, h.2⟩
    rw [hfirst, detachRow, detachRow]
    congr 1
    rw [List.mem_cons, eq_iff_iff]
    constructor
    · intro h
      exact ⟨Or.inr h.1, h.2⟩
    · intro h
      exact ⟨h.1.resolve_left fun heq => hrow ⟨heq, h.2⟩, h.2⟩

/-- Whether the policies follow, of a permission that the loop can update. -/
theorem policiesFollow_iff {p : Permission} (hp : p ∈ db.permissions)
    (h : Detachable casbin db roleId p) :
    policiesFollow casbin db p.getId { p with roles := p.roles.filter (· ≠ roleId) } = true ↔
      Follows casbin db roleId p := by
  obtain ⟨haccepts, hleads⟩ := h
  have hvalid : checkPermissionValid casbin.toCasbin { p with roles := p.roles.filter (· ≠ roleId) } =
      some (detached casbin roleId p) := by rw [checkPermissionValid, if_pos haccepts]; rfl
  rw [policiesFollow, hvalid, Option.all_some, Follows]
  rcases hleads with hastray | ⟨hdirect, -⟩
  · refine iff_of_true ?_ (Or.inl hastray)
    rw [Option.all_eq_true]
    intro old hold
    obtain ⟨k, hk, hold⟩ := Option.bind_eq_some_iff.mp hold
    exact absurd (((astray_iff hk).mp hastray).symm.trans hold) (Option.some_ne_none old).symm
  · have hown : Permissions.getPermission db p.key.1 p.key.2 = some p := by
      rw [Permissions.getPermission]
      refine (if_neg (not_or.mpr hdirect.2)).trans ?_
      exact (rowAt_eq_some db.nodup_permissions).mpr ⟨hp, rfl⟩
    rw [hdirect.1, Option.bind_some]
    simp only [hown]
    rw [Option.all_some, Bool.and_eq_true, or_iff_right (hdirect.not_astray hp)]

/-- The whole loop. -/
theorem detach_run (casbin : Enforcers) (roleId : GoString) {ps : List Permission} {s : PolicyStore}
    (hps : ∀ p ∈ ps, p ∈ s.db.permissions) (hnodup : (ps.map Permission.key).Nodup) :
    (detach casbin roleId ps s).1.db.roles = s.db.roles ∧
      (detach casbin roleId ps s).1.db.permissions =
        s.db.permissions.map (detachRow casbin roleId (reached casbin s.db roleId ps)) ∧
      ((detach casbin roleId ps s).2 = true ↔
        ∀ p ∈ ps, Detachable casbin s.db roleId p ∧ Follows casbin s.db roleId p) := by
  have hnone (s : PolicyStore) : s.db.permissions = s.db.permissions.map (detachRow casbin roleId []) := by
    conv_lhs => rw [← List.map_id s.db.permissions]
    apply List.map_congr_left
    intro row _
    exact (if_neg fun h => List.not_mem_nil h.1).symm
  induction ps generalizing s with
  | nil => exact ⟨rfl, hnone s, iff_of_true rfl fun p hp => absurd hp List.not_mem_nil⟩
  | cons p ps ih =>
    have hp := hps p List.mem_cons_self
    have hstep := detach_step casbin roleId hp
    rw [detach, reached]
    cases hupdate : updatePermission casbin.toCasbin s p.getId
        { p with roles := p.roles.filter (· ≠ roleId) } true with
    | none =>
      rw [hupdate] at hstep
      rw [if_neg hstep]
      refine ⟨rfl, hnone s, iff_of_false Bool.false_ne_true ?_⟩
      intro h
      exact hstep (h p List.mem_cons_self).1
    | some s' =>
      rw [hupdate] at hstep
      obtain ⟨hdetachable, hroles, hpermissions⟩ := hstep
      have hfollows := policiesFollow_iff hp hdetachable
      simp only
      rw [if_pos hdetachable]
      by_cases hfollow : Follows casbin s.db roleId p
      · rw [if_pos (hfollows.mpr hfollow), if_pos hfollow]
        have hkeys : s'.db.permissions.map Permission.key = s.db.permissions.map Permission.key := by
          rw [hpermissions, List.map_map]
          exact List.map_congr_left fun row _ => detachRow_key [p] row
        have hps' : ∀ q ∈ ps, q ∈ s'.db.permissions := by
          intro q hq
          rw [hpermissions]
          refine List.mem_map.mpr ⟨q, hps q (List.mem_cons_of_mem p hq), if_neg ?_⟩
          intro h
          rw [List.map_cons, List.nodup_cons] at hnodup
          apply hnodup.1
          rw [← List.mem_singleton.mp h.1]
          exact List.mem_map_of_mem hq
        obtain ⟨hr, hperms, hended⟩ := ih hps' (List.nodup_cons.mp hnodup).2
        refine ⟨hr.trans hroles, ?_, ?_⟩
        · rw [hperms, hpermissions, List.map_map, reached_congr hkeys]
          apply List.map_congr_left
          intro row _
          apply detachRow_cons
          exact hnodup.sublist ((reached_sublist ps).cons_cons p |>.map Permission.key)
        · rw [hended, List.forall_mem_cons, and_iff_right ⟨hdetachable, hfollow⟩]
          exact forall₂_congr fun q _ =>
            and_congr (detachable_congr hkeys q) (follows_congr hkeys q)
      · rw [if_neg (mt hfollows.mp hfollow), if_neg hfollow]
        refine ⟨hroles, hpermissions, iff_of_false Bool.false_ne_true ?_⟩
        intro h
        exact hfollow (h p List.mem_cons_self).2

theorem deleteRoleRows_untouched_iff (role : Role) :
    Untouched org db (deleteRoleRows casbin db role) ↔
      (∀ p ∈ reached casbin db role.getId (getPermissionsByRole casbin.like db.toTables role.getId),
        Direct p → p.owner = org) ∧
        ((∀ p ∈ getPermissionsByRole casbin.like db.toTables role.getId,
          Detachable casbin db role.getId p ∧ Follows casbin db role.getId p) →
        role.owner = org ∨ role.key ∉ db.roles.map Role.key) := by
  have hfound : ∀ p ∈ getPermissionsByRole casbin.like db.toTables role.getId,
      p ∈ db.permissions ∧ role.getId ∈ p.roles := by
    intro p hp
    obtain ⟨hmem, hfinds⟩ := List.mem_filter.mp hp
    rw [finds, Bool.and_eq_true] at hfinds
    exact ⟨hmem, of_decide_eq_true hfinds.2⟩
  obtain ⟨hroles, hpermissions, hended⟩ := detach_run casbin role.getId
    (s := ⟨db, []⟩) (fun p hp => (hfound p hp).1)
    (db.nodup_permissions.sublist (List.filter_sublist.map Permission.key))
  have hkept : Same Permission.key (fun k => k.1 ≠ org) db.permissions
      (detach casbin role.getId (getPermissionsByRole casbin.like db.toTables role.getId)
        ⟨db, []⟩).1.db.permissions ↔
        ∀ p ∈ reached casbin db role.getId (getPermissionsByRole casbin.like db.toTables role.getId),
          Direct p → p.owner = org := by
    have hreached : ∀ p ∈ reached casbin db role.getId
        (getPermissionsByRole casbin.like db.toTables role.getId),
        p ∈ db.permissions ∧ role.getId ∈ p.roles :=
      fun p hp => hfound p ((reached_sublist _).subset hp)
    rw [hpermissions, same_map_iff db.nodup_permissions fun row _ => detachRow_key _ row]
    constructor
    · intro h p hp hdirect
      by_contra hforeign
      have hkeep := h p (hreached p hp).1 hforeign
      exact (detachRow_ne_self_iff fun q hq => (hreached q hq).2).mp hkeep ⟨hp, hdirect⟩
    · intro h p _ hforeign
      apply (detachRow_ne_self_iff fun q hq => (hreached q hq).2).mpr
      intro ⟨hp, hdirect⟩
      exact hforeign (h p hp hdirect)
  rw [deleteRoleRows]
  generalize detach casbin role.getId (getPermissionsByRole casbin.like db.toTables role.getId)
    ⟨db, []⟩ = out at hroles hended hkept
  by_cases hall : ∀ p ∈ getPermissionsByRole casbin.like db.toTables role.getId,
      Detachable casbin db role.getId p ∧ Follows casbin db role.getId p
  · obtain ⟨db', hdb', hroles', hpermissions'⟩ := withRows?_of_nodup out.1.db
      (nodup_without out.1.db.nodup_roles role.key) out.1.db.nodup_permissions
    simp only [hended.mpr hall, if_true, hdb', Option.getD_some]
    rw [Untouched, hroles', hpermissions', hroles, hkept, same_filter_iff, forall_prop_of_true hall,
      and_comm, or_iff_not_imp_left]
    rfl
  · have hstopped := Bool.eq_false_of_not_eq_true (mt hended.mp hall)
    simp only [hstopped, Bool.false_eq_true, if_false]
    rw [Untouched, hroles, hkept, and_iff_right (Same.refl _ _), and_iff_left fun h => absurd h hall]

end Detach

end ArchGuard.LegacyApi
