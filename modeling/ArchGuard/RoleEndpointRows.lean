import ArchGuard.RoleEndpoints

/-! Which endpoint leaves the rows of other organizations as they are. -/
namespace ArchGuard.LegacyApi
open GoText KeyedRows Object Permissions

variable {casbin : Enforcers} {org : GoString} {db : Database}

theorem Untouched.refl (org : GoString) (db : Database) : Untouched org db db :=
  ⟨Same.refl _ _, Same.refl _ _⟩

theorem withRows?_of_nodup (db : Database) {roles : List Role} {permissions : List Permission}
    (hr : (roles.map Role.key).Nodup) (hp : (permissions.map Permission.key).Nodup) :
    ∃ db', db.withRows? roles permissions = some db' ∧ db'.roles = roles ∧
      db'.permissions = permissions := by
  rw [Database.withRows?, dif_pos ⟨hr, hp⟩]
  exact ⟨_, rfl, rfl, rfl⟩

theorem withRows?_eq_none {roles : List Role} {permissions : List Permission}
    (h : ¬((roles.map Role.key).Nodup ∧ (permissions.map Permission.key).Nodup)) :
    db.withRows? roles permissions = none := by rw [Database.withRows?, dif_neg h]

section Writes

theorem nodup_concat_iff {α : Type} {key : α → Key} {rows : List α} (hnodup : (rows.map key).Nodup)
    (a : α) : ((rows ++ [a]).map key).Nodup ↔ key a ∉ rows.map key := by
  rw [List.map_append, List.map_singleton, ← List.concat_eq_append, List.nodup_concat]
  exact and_iff_left hnodup

theorem addRoleRows_untouched_iff (role : Role) :
    Untouched org db (addRoleRows db role) ↔ role.owner = org ∨ role.key ∈ db.roles.map Role.key := by
  by_cases hmem : role.key ∈ db.roles.map Role.key
  · have hnone : db.withRows? (db.roles ++ [role]) db.permissions = none :=
      withRows?_eq_none fun h => (nodup_concat_iff db.nodup_roles role).mp h.1 hmem
    rw [addRoleRows, hnone]
    exact iff_of_true (Untouched.refl org db) (Or.inr hmem)
  · obtain ⟨db', hdb', hroles, hpermissions⟩ := withRows?_of_nodup db
      ((nodup_concat_iff db.nodup_roles role).mpr hmem) db.nodup_permissions
    rw [addRoleRows, hdb', Option.getD_some, Untouched, hroles, hpermissions, same_append_iff hmem,
      not_not, or_iff_left hmem]
    exact and_iff_left (Same.refl _ _)

theorem addPermissionRows_untouched_iff (permission : Permission) :
    Untouched org db (addPermissionRows casbin db permission) ↔
      (casbin.accepts permission → permission.owner = org ∨
        permission.key ∈ db.permissions.map Permission.key) := by
  rw [addPermissionRows, addPermission]
  cases hvalid : checkPermissionValid casbin.toCasbin permission with
  | none =>
    have hrefused : ¬casbin.accepts permission := by
      intro haccepts
      rw [checkPermissionValid, if_pos haccepts] at hvalid
      cases hvalid
    exact iff_of_true (Untouched.refl org db) fun h => absurd h hrefused
  | some valid =>
    have haccepts : casbin.accepts permission := by
      by_contra hrefused
      rw [checkPermissionValid, if_neg hrefused] at hvalid
      cases hvalid
    have hkey := checkPermissionValid_key hvalid
    rw [forall_prop_of_true haccepts, Option.bind_eq_bind, Option.bind_some]
    by_cases hmem : permission.key ∈ db.permissions.map Permission.key
    · have hnone : db.withRows? db.roles (db.permissions ++ [valid]) = none := by
        apply withRows?_eq_none
        intro h
        exact (nodup_concat_iff db.nodup_permissions valid).mp h.2 (hkey ▸ hmem)
      rw [hnone]
      exact iff_of_true (Untouched.refl org db) (Or.inr hmem)
    · have hfresh : valid.key ∉ db.permissions.map Permission.key := hkey ▸ hmem
      obtain ⟨db', hdb', hroles, hpermissions⟩ := withRows?_of_nodup db db.nodup_roles
        ((nodup_concat_iff db.nodup_permissions valid).mpr hfresh)
      rw [hdb', or_iff_left hmem]
      show Untouched org db db' ↔ permission.owner = org
      rw [Untouched, hroles, hpermissions, same_append_iff hfresh, not_not, hkey]
      exact and_iff_right (Same.refl _ _)

theorem nodup_without {α : Type} {key : α → Key} {rows : List α} (hnodup : (rows.map key).Nodup)
    (k : Key) : ((rows.filter (key · ≠ k)).map key).Nodup :=
  hnodup.sublist (List.filter_sublist.map key)

theorem deletePermissionRows_untouched_iff (permission : Permission) :
    Untouched org db (deletePermissionRows casbin db permission) ↔
      permission.owner = org ∨ permission.key ∉ db.permissions.map Permission.key := by
  obtain ⟨db', hdb', hroles, hpermissions⟩ := withRows?_of_nodup db db.nodup_roles
    (nodup_without db.nodup_permissions permission.key)
  have hrows : deletePermissionRows casbin db permission = db' := by
    rw [deletePermissionRows, deletePermission, hdb', Option.bind_eq_bind, Option.bind_some]
    split_ifs <;> rfl
  rw [hrows, Untouched, hroles, hpermissions, same_filter_iff, and_iff_right (Same.refl _ _),
    or_iff_not_imp_left]
  rfl

end Writes

section Rename

variable {oldName newName : GoString}

/-- A reference as a rename leaves it. -/
def rewritten (oldName newName u : GoString) : GoString := (rewriteId oldName newName true u).getD u

theorem rewriteId_isSome_iff (oldName newName : GoString) {u : GoString} :
    (rewriteId oldName newName true u).isSome ↔ Legible u := by
  rw [rewriteId, Legible]
  by_cases hstar : u = star
  · rw [if_pos ⟨rfl, hstar⟩]
    exact iff_of_true rfl (Or.inl hstar)
  · rw [if_neg fun h => hstar h.2, Option.isSome_map, or_iff_right hstar]

theorem rewritten_eq_self_iff (hne : oldName ≠ newName) {u : GoString} :
    rewritten oldName newName u = u ↔
      ∀ parts ∈ getOwnerAndNameFromIdWithError u, parts.2 ≠ oldName := by
  rw [rewritten, rewriteId]
  by_cases hstar : u = star
  · rw [if_pos ⟨rfl, hstar⟩]
    refine iff_of_true rfl ?_
    intro parts hparts
    have hid := (getOwnerAndNameFromId_eq_some.mp hparts).1
    exact absurd (hid.symm.trans hstar) (getId_ne_star parts.1 parts.2)
  · rw [if_neg fun h => hstar h.2]
    cases hid : getOwnerAndNameFromIdWithError u with
    | none =>
      refine iff_of_true rfl ?_
      intro parts hparts
      cases hparts
    | some parts =>
      have hu := (getOwnerAndNameFromId_eq_some.mp hid).1
      simp only [Option.map_some, Option.getD_some, Option.mem_def, Option.some.injEq,
        forall_eq']
      by_cases hname : parts.2 = oldName
      · rw [if_pos hname]
        refine iff_of_false ?_ fun h => h hname
        rw [hu, hname]
        exact getId_ne_of_name hne.symm
      · rw [if_neg hname]
        exact iff_of_true rfl hname

theorem map_rewritten_eq_self_iff (hne : oldName ≠ newName) (refs : List GoString) :
    refs.map (rewritten oldName newName) = refs ↔ NoneNamed oldName refs := by
  have hself : refs.map id = refs := List.map_id refs
  conv_lhs => rw [← hself]
  rw [List.map_map, List.map_inj_left]
  exact forall₂_congr fun u _ => rewritten_eq_self_iff hne

theorem rewriteIds_eq {us : List GoString} (h : ∀ u ∈ us, Legible u) :
    rewriteIds oldName newName true us = some (us.map (rewritten oldName newName)) := by
  rw [rewriteIds]
  induction us with
  | nil => rfl
  | cons u us ih =>
    rw [List.forall_mem_cons] at h
    obtain ⟨u', hu'⟩ := Option.isSome_iff_exists.mp
      ((rewriteId_isSome_iff oldName newName).mpr h.1)
    rw [List.mapM_cons, hu', ih h.2, List.map_cons, rewritten, hu']
    rfl

theorem mapM_rewriteIds {α : Type} {refs : α → List GoString} {withRefs : α → List GoString → α}
    {rows : List α} (h : ∀ row ∈ rows, ∀ u ∈ refs row, Legible u) :
    rows.mapM (fun row => (rewriteIds oldName newName true (refs row)).map (withRefs row)) =
      some (rows.map fun row => withRefs row ((refs row).map (rewritten oldName newName))) := by
  induction rows with
  | nil => rfl
  | cons row rows ih =>
    rw [List.forall_mem_cons] at h
    rw [List.mapM_cons, rewriteIds_eq h.1, ih h.2]
    rfl

theorem legible_of_mapM {α : Type} {refs : α → List GoString} {withRefs : α → List GoString → α}
    {rows rows' : List α}
    (h : rows.mapM (fun row => (rewriteIds oldName newName true (refs row)).map (withRefs row)) =
      some rows') : ∀ row ∈ rows, ∀ u ∈ refs row, Legible u := by
  intro row hrow u hu
  obtain ⟨row', hrow'⟩ := isSome_of_mapM h row hrow
  obtain ⟨us, hus, _⟩ := Option.map_eq_some_iff.mp hrow'
  obtain ⟨u', hu'⟩ := isSome_of_mapM hus u hu
  exact (rewriteId_isSome_iff oldName newName).mp (Option.isSome_iff_exists.mpr ⟨u', hu'⟩)

/-- A role or a permission as a rename leaves it. -/
def rewriteRole (oldName newName : GoString) (role : Role) : Role :=
  { role with roles := role.roles.map (rewritten oldName newName) }

def rewritePermission (oldName newName : GoString) (permission : Permission) : Permission :=
  { permission with roles := permission.roles.map (rewritten oldName newName) }

theorem rewriteRole_eq_self_iff (hne : oldName ≠ newName) (role : Role) :
    rewriteRole oldName newName role = role ↔ NoneNamed oldName role.roles := by
  rw [← map_rewritten_eq_self_iff hne]
  exact ⟨congrArg Role.roles, fun h => by rw [rewriteRole, h]⟩

theorem rewritePermission_eq_self_iff (hne : oldName ≠ newName) (permission : Permission) :
    rewritePermission oldName newName permission = permission ↔ NoneNamed oldName permission.roles := by
  rw [← map_rewritten_eq_self_iff hne]
  exact ⟨congrArg Permission.roles, fun h => by rw [rewritePermission, h]⟩

theorem roleChangeTrigger_eq (oldName newName : GoString) (h : AllLegible db) :
    ∃ db', roleChangeTrigger oldName newName db = some db' ∧
      db'.roles = db.roles.map (rewriteRole oldName newName) ∧
      db'.permissions = db.permissions.map (rewritePermission oldName newName) := by
  have hroles : ((db.roles.map (rewriteRole oldName newName)).map Role.key).Nodup := by
    rw [List.map_map]
    exact db.nodup_roles
  have hpermissions : ((db.permissions.map (rewritePermission oldName newName)).map
      Permission.key).Nodup := by
    rw [List.map_map]
    exact db.nodup_permissions
  obtain ⟨db', hdb', hrows⟩ := withRows?_of_nodup db hroles hpermissions
  refine ⟨db', ?_, hrows⟩
  rw [roleChangeTrigger, mapM_rewriteIds h.1, mapM_rewriteIds h.2]
  exact hdb'

theorem roleChangeTrigger_eq_none (h : ¬AllLegible db) : roleChangeTrigger oldName newName db = none := by
  apply Option.eq_none_iff_forall_ne_some.mpr
  intro db' hdb'
  rw [roleChangeTrigger] at hdb'
  obtain ⟨roles, hroles, hrest⟩ := Option.bind_eq_some_iff.mp hdb'
  obtain ⟨permissions, hpermissions, _⟩ := Option.bind_eq_some_iff.mp hrest
  exact h ⟨legible_of_mapM hroles, legible_of_mapM hpermissions⟩

theorem foreign_roles_kept_iff (hne : oldName ≠ newName) :
    (∀ role ∈ db.roles, role.key.1 ≠ org → rewriteRole oldName newName role = role) ↔
      ∀ role ∈ db.roles, role.owner ≠ org → NoneNamed oldName role.roles :=
  forall₃_congr fun role _ _ => rewriteRole_eq_self_iff hne role

theorem rewritten_roles_same_iff (hne : oldName ≠ newName) :
    Same Role.key (fun k => k.1 ≠ org) db.roles (db.roles.map (rewriteRole oldName newName)) ↔
      ∀ role ∈ db.roles, role.owner ≠ org → NoneNamed oldName role.roles := by
  rw [same_map_iff (f := rewriteRole oldName newName) db.nodup_roles fun _ _ => rfl]
  exact foreign_roles_kept_iff hne

theorem rewritten_permissions_same_iff (hne : oldName ≠ newName) :
    Same Permission.key (fun k => k.1 ≠ org) db.permissions
        (db.permissions.map (rewritePermission oldName newName)) ↔
      ∀ permission ∈ db.permissions, permission.owner ≠ org → NoneNamed oldName permission.roles := by
  rw [same_map_iff (f := rewritePermission oldName newName) db.nodup_permissions fun _ _ => rfl]
  exact forall₃_congr fun permission _ _ => rewritePermission_eq_self_iff hne permission

end Rename

section Updates

theorem getRole_eq_some {owner name : GoString} {role : Role} (h : getRole db owner name = some role) :
    rowAt Role.key db.roles (owner, name) = some role ∧ role.key = (owner, name) := by
  rw [getRole] at h
  split_ifs at h
  exact ⟨h, ((rowAt_eq_some db.nodup_roles).mp h).2⟩

theorem getPermission_eq_some {owner name : GoString} {permission : Permission}
    (h : Permissions.getPermission db owner name = some permission) :
    rowAt Permission.key db.permissions (owner, name) = some permission ∧
      permission.key = (owner, name) := by
  rw [Permissions.getPermission] at h
  split_ifs at h
  exact ⟨h, ((rowAt_eq_some db.nodup_permissions).mp h).2⟩

theorem mem_keys_of_rowAt {α : Type} {key : α → Key} {rows : List α} (hnodup : (rows.map key).Nodup)
    {k : Key} {a : α} (h : rowAt key rows k = some a) : k ∈ rows.map key := by
  obtain ⟨hmem, hkey⟩ := (rowAt_eq_some hnodup).mp h
  exact hkey ▸ List.mem_map_of_mem hmem

/-- An update leaves the other organizations alone, in the columns of the tables and in the others. -/
def Keeps (org : GoString) (db : Database) (differs : Bool) (r : Database × Option Key) : Prop :=
  Untouched org db r.1 ∧ ∀ k ∈ (if differs then r.2 else none), k.1 = org

theorem keeps_self (org : GoString) (db : Database) (differs : Bool) :
    Keeps org db differs (db, none) := by
  refine ⟨Untouched.refl org db, ?_⟩
  intro k hk
  split_ifs at hk
  · cases hk
  · cases hk

theorem hit_own_iff {differs : Bool} {k : Key} :
    (∀ k' ∈ (if differs then some k else none), k'.1 = org) ↔ (differs = true → k.1 = org) := by
  cases differs
  · exact iff_of_true (fun k' hk => by cases hk) fun h => by cases h
  · simp

variable {differs : Bool} {role old : Role} {k : Key}

theorem updateRoleRows_eq {id : GoString} (hid : getOwnerAndNameFromIdNoCheck id = some k)
    (hold : getRole db k.1 k.2 = some old) (howner : old.owner = role.owner)
    (hremoved : k.2 ≠ role.name →
      ∀ p ∈ getPermissionsByRole casbin.like db.toTables id, casbin.removes p = true) :
    updateRoleRows casbin db id role false =
      match if k.2 = role.name then some db else roleChangeTrigger k.2 role.name db with
      | none => (db, none)
      | some db =>
        match db.withRows? (replaceAt Role.key k role db.roles) db.permissions with
        | none => (db, none)
        | some db => (db, some k) := by
  simp only [updateRoleRows, hid, hold]
  rw [if_neg fun h => h.2 howner]
  refine if_neg ?_
  rintro ⟨hname, p, hp, hfails⟩
  exact Bool.false_ne_true (hfails.symm.trans (hremoved hname p hp))

theorem updateRoleRows_same_name {id : GoString} (hid : getOwnerAndNameFromIdNoCheck id = some k)
    (hold : getRole db k.1 k.2 = some old) (howner : old.owner = role.owner) (hname : k.2 = role.name) :
    Keeps org db differs (updateRoleRows casbin db id role false) ↔
      k.1 = org ∨ role = old ∧ differs = false := by
  obtain ⟨hrow, hkey⟩ := getRole_eq_some hold
  have hk : role.key = k := by
    rw [Role.key, ← howner, ← hname]
    exact Prod.ext (congrArg (fun key => key.1) hkey) rfl
  have hnodup : ((replaceAt Role.key k role db.roles).map Role.key).Nodup :=
    (nodup_replaceAt_iff db.nodup_roles (mem_keys_of_rowAt db.nodup_roles hrow)).mpr (Or.inl hk)
  obtain ⟨db', hdb', hroles, hpermissions⟩ := withRows?_of_nodup db hnodup db.nodup_permissions
  have hrows : updateRoleRows casbin db id role false = (db', some k) := by
    rw [updateRoleRows_eq hid hold howner fun h => absurd hname h, if_pos hname]
    simp only [hdb']
  rw [hrows, Keeps, hit_own_iff, Untouched, hroles, hpermissions,
    same_replaceAt_iff db.nodup_roles hnodup hrow, and_iff_left (Same.refl _ _), not_not, not_not, hk,
    and_self]
  cases differs
  · simp only [Bool.false_eq_true, false_imp_iff, and_true]
    exact or_comm
  · simp only [true_imp_iff, Bool.true_eq_false, and_false, or_false]
    exact and_iff_right_of_imp Or.inr

theorem updateRoleRows_renamed {id : GoString} (hid : getOwnerAndNameFromIdNoCheck id = some k)
    (hold : getRole db k.1 k.2 = some old) (howner : old.owner = role.owner) (hname : k.2 ≠ role.name)
    (hremoved : ∀ p ∈ getPermissionsByRole casbin.like db.toTables id, casbin.removes p = true) :
    Keeps org db differs (updateRoleRows casbin db id role false) ↔
      (AllLegible db → NoForeignReference org db k.2 ∧
        (k.1 = org ∨ role.key ∈ db.roles.map Role.key)) := by
  by_cases hlegible : AllLegible db
  · obtain ⟨hrow, hkey⟩ := getRole_eq_some hold
    obtain ⟨db₁, htrigger, hroles₁, hpermissions₁⟩ := roleChangeTrigger_eq k.2 role.name
      hlegible
    have hrole : role.key.1 = k.1 := howner.symm.trans (congrArg (fun key => key.1) hkey)
    have hrolek : role.key ≠ k := fun h => hname (congrArg (fun key => key.2) h).symm
    have hkeys₁ : db₁.roles.map Role.key = db.roles.map Role.key := by
      rw [hroles₁, List.map_map]
      rfl
    have hmem := mem_keys_of_rowAt db.nodup_roles hrow
    have hnodup := nodup_replaceAt_iff db₁.nodup_roles (hkeys₁ ▸ hmem) (a := role)
    rw [hkeys₁] at hnodup
    rw [forall_prop_of_true hlegible]
    by_cases htaken : role.key ∈ db.roles.map Role.key
    · have hnone : db₁.withRows? (replaceAt Role.key k role db₁.roles) db₁.permissions = none :=
        withRows?_eq_none fun h => (hnodup.mp h.1).elim hrolek fun h => h htaken
      have hrows : updateRoleRows casbin db id role false = (db₁, none) := by
        rw [updateRoleRows_eq hid hold howner fun _ => hremoved, if_neg hname, htrigger]
        simp only [hnone]
      rw [hrows, Keeps, Untouched, hroles₁, hpermissions₁, rewritten_roles_same_iff hname,
        rewritten_permissions_same_iff hname, NoForeignReference]
      exact and_congr Iff.rfl (iff_of_true (keeps_self org db differs).2 (Or.inr htaken))
    · have hnodup' := hnodup.mpr (Or.inr htaken)
      obtain ⟨db₂, hdb₂, hroles₂, hpermissions₂⟩ := withRows?_of_nodup db₁ hnodup'
        db₁.nodup_permissions
      have hrows : updateRoleRows casbin db id role false = (db₂, some k) := by
        rw [updateRoleRows_eq hid hold howner fun _ => hremoved, if_neg hname, htrigger]
        simp only [hdb₂]
      rw [hroles₁] at hroles₂ hnodup'
      rw [hrows, Keeps, hit_own_iff, Untouched, hroles₂, hpermissions₂, hpermissions₁,
        same_map_replaceAt_iff (f := rewriteRole k.2 role.name) db.nodup_roles (fun _ _ => rfl) hrolek
          hnodup' hmem, not_not, not_not,
        hrole, and_self, foreign_roles_kept_iff hname,
        rewritten_permissions_same_iff hname, NoForeignReference, or_iff_left htaken]
      constructor
      · rintro ⟨⟨⟨hown, hr⟩, hp⟩, -⟩
        exact ⟨⟨hr, hp⟩, hown⟩
      · rintro ⟨⟨hr, hp⟩, hown⟩
        exact ⟨⟨⟨hown, hr⟩, hp⟩, fun _ => hown⟩
  · have hrows : updateRoleRows casbin db id role false = (db, none) := by
      rw [updateRoleRows_eq hid hold howner fun _ => hremoved, if_neg hname,
        roleChangeTrigger_eq_none hlegible]
    rw [hrows]
    exact iff_of_true (keeps_self org db differs) fun h => absurd h hlegible

/-- A rename that cannot take the policies of a permission away changes nothing. -/
theorem updateRoleRows_refused {id : GoString} (hid : getOwnerAndNameFromIdNoCheck id = some k)
    (hold : getRole db k.1 k.2 = some old) (howner : old.owner = role.owner) (hname : k.2 ≠ role.name)
    {p : Permission} (hp : p ∈ getPermissionsByRole casbin.like db.toTables id)
    (hfails : casbin.removes p ≠ true) : updateRoleRows casbin db id role false = (db, none) := by
  simp only [updateRoleRows, hid, hold]
  rw [if_neg fun h => h.2 howner, if_pos]
  exact ⟨hname, p, hp, Bool.eq_false_of_not_eq_true hfails⟩

theorem updateRoleRows_keeps_iff (c : Call) (role : Role) :
    Keeps org db c.differs (updateRoleRows casbin db c.id role false) ↔
      ∀ k ∈ getOwnerAndNameFromIdNoCheck c.id, ∀ old ∈ getRole db k.1 k.2,
        old.owner = role.owner → UpdateRoleFits casbin org c db k role old := by
  cases hid : getOwnerAndNameFromIdNoCheck c.id with
  | none =>
    have hrows : updateRoleRows casbin db c.id role false = (db, none) := by
      simp only [updateRoleRows, hid]
    rw [hrows]
    exact iff_of_true (keeps_self org db c.differs) fun k hk => by cases hk
  | some k =>
    simp only [Option.mem_def, Option.some.injEq, forall_eq']
    cases hold : getRole db k.1 k.2 with
    | none =>
      have hrows : updateRoleRows casbin db c.id role false = (db, none) := by
        simp only [updateRoleRows, hid, hold]
      rw [hrows]
      exact iff_of_true (keeps_self org db c.differs) fun old h => by cases h
    | some old =>
      simp only [Option.some.injEq, forall_eq']
      by_cases howner : old.owner = role.owner
      · rw [forall_prop_of_true howner, UpdateRoleFits]
        by_cases hname : k.2 = role.name
        · rw [if_pos hname]
          exact updateRoleRows_same_name hid hold howner hname
        · rw [if_neg hname]
          by_cases hremoved : ∀ p ∈ getPermissionsByRole casbin.like db.toTables c.id,
              casbin.removes p = true
          · rw [forall_prop_of_true hremoved]
            exact updateRoleRows_renamed hid hold howner hname hremoved
          · obtain ⟨p, hp, hfails⟩ := not_forall₂.mp hremoved
            rw [updateRoleRows_refused hid hold howner hname hp hfails]
            exact iff_of_true (keeps_self org db c.differs) fun h => absurd h hremoved
      · have hrows : updateRoleRows casbin db c.id role false = (db, none) := by
          simp only [updateRoleRows, hid, hold]
          exact if_pos ⟨trivial, howner⟩
        rw [hrows]
        exact iff_of_true (keeps_self org db c.differs) fun h => absurd h howner

end Updates

end ArchGuard.LegacyApi
