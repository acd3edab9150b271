import ArchGuard.UserRoles

/-! The permissions that are attached to a user, and the check whether a permission applies to the
user. -/
namespace ArchGuard.Permissions
open GoText Object

section Lookups

variable (like : GoString → GoString → Bool) (db : Tables)

/-- Whether a lookup by an identifier finds a permission: the pattern selects it, and the list has the
identifier. -/
def finds (column : Permission → List GoString) (id : GoString) (p : Permission) : Bool :=
  like (idPattern id) (columnText (column p)) && id ∈ column p

def getPermissionsByUser (userId : GoString) : List Permission :=
  db.permissions.filter (finds like Permission.users userId)

def getPermissionsByGroup (groupId : GoString) : List Permission :=
  db.permissions.filter (finds like Permission.groups groupId)

def getPermissionsByRole (roleId : GoString) : List Permission :=
  db.permissions.filter (finds like Permission.roles roleId)

/-- A permission is added unless one of its name is there. -/
def attach (permissions : List Permission) (perm : Permission) : List Permission :=
  if perm.name ∈ permissions.map Permission.name then permissions else permissions ++ [perm]

/-- The groups of the lookups: those of the user and, if there are any, the wildcards. -/
def groupIds (user : User) : List GoString :=
  user.groups ++ if user.groups = [] then [] else [star, getId user.owner star]

/-- `getPermissionsAndRolesByUser`; the users are left out of the answer. -/
def getPermissionsAndRolesByUser (userId : GoString) : Option (List Permission × List Role) := do
  let permissions := getPermissionsByUser like db userId
  let user ← getUserById db userId
  let fromGroups := (user.elim [] groupIds).flatMap (getPermissionsByGroup like db)
  let roles ← getRolesByUser like db userId
  let fromRoles := roles.flatMap fun role => getPermissionsByRole like db role.getId
  let permissions := fromRoles.foldl attach (fromGroups.foldl attach permissions)
  some (permissions.map fun p => { p with users := [] }, roles)

def Permission.isUserHit (p : Permission) (name : GoString) : Bool :=
  match getOwnerAndNameFromIdWithError name with
  | none => false
  | some (targetOrg, targetName) => p.users.any fun user => user = star ||
    match getOwnerAndNameFromIdWithError user with
    | none => false
    | some (userOrg, userName) => userOrg = targetOrg && (userName = star || userName = targetName)

/-- The loop of `isGroupHit`: a wildcard decides it. -/
def groupHitIn (owner : GoString) (userGroups : List GoString) : List GoString → Bool
  | [] => false
  | group :: rest =>
    if group = star ∨ group = getId owner star then userGroups ≠ []
    else group ∈ userGroups || groupHitIn owner userGroups rest

def Permission.isGroupHit (p : Permission) (userId : GoString) : Bool :=
  match getUserById db userId with
  | some (some user) => groupHitIn p.owner user.groups p.groups
  | _ => false

def Permission.isRoleHit (p : Permission) (userId : GoString) : Bool :=
  match getRolesByUser like db userId with
  | none => false
  | some targetRoles => p.roles.any fun role => role = star ||
    targetRoles.any fun targetRole => role = targetRole.getId

end Lookups

section Specification

variable (like : GoString → GoString → Bool) (db : Tables) (user : User) (p : Permission)

def User.hasGroupOf (org : GoString) : Prop :=
  ∃ group ∈ user.groups, Object.getId org [] <+: group

/-- `isGroupHit`, with a wildcard for the groups of the permission's own organization. -/
def Permission.isOwnGroupHit : Prop :=
  ∃ group ∈ p.groups, group ∈ user.groups ∨
    ((group = star ∨ group = Object.getId p.owner star) ∧ user.hasGroupOf p.owner)

def Applies : Prop :=
  p.isUserHit user.getId = true ∨ p.isOwnGroupHit user ∨ p.isRoleHit like db user.getId = true

/-- What is attached to a user is exactly what applies to the user, each permission once. -/
def AttachedAgree : Prop :=
  ∃ permissions roles, getPermissionsAndRolesByUser like db user.getId = some (permissions, roles) ∧
    (permissions.map Permission.key).Nodup ∧
    ∀ k, k ∈ permissions.map Permission.key ↔
      ∃ p ∈ db.permissions, p.key = k ∧ Applies like db user p

end Specification

section Condition

variable (like : GoString → GoString → Bool) (db : Tables) (user : User) (p : Permission)

/-- The identifier of the user is one that `GetUser` accepts. -/
def User.Addressable : Prop :=
  slash ∉ user.owner ∧ slash ∉ user.name ∧ user.owner ≠ [] ∧ user.name ≠ []

def rolesOf : List Role := (getRolesByUser like db user.getId).getD []

/-- The permissions that the lookups by group and role find, in their order. -/
def foundLater : List Permission :=
  (groupIds user).flatMap (getPermissionsByGroup like db) ++
    (rolesOf like db user).flatMap fun role => getPermissionsByRole like db role.getId

/-- A permission lists the user, a group of the user or a role of the user. -/
def Listed : Prop :=
  user.getId ∈ p.users ∨ (∃ group ∈ user.groups, group ∈ p.groups) ∨
    ∃ role ∈ rolesOf like db user, role.getId ∈ p.roles

/-- A permission lists a wildcard that stands for the user. -/
def ByWildcard : Prop :=
  (star ∈ p.users ∨ Object.getId user.owner star ∈ p.users) ∨
    ((star ∈ p.groups ∨ Object.getId p.owner star ∈ p.groups) ∧ user.hasGroupOf p.owner) ∨
    star ∈ p.roles

def Reached : Prop :=
  finds like Permission.users user.getId p = true ∨
    (∃ group ∈ groupIds user, finds like Permission.groups group p = true) ∨
    ∃ role ∈ rolesOf like db user, finds like Permission.roles role.getId p = true

/-- A permission of the same name was found before. -/
def Hidden : Prop :=
  ¬ finds like Permission.users user.getId p = true ∧
    ∃ q ∈ getPermissionsByUser like db user.getId ++
      (foundLater like db user).takeWhile (· ≠ p), q.name = p.name

/-- What has to hold of a permission for the lookups to agree with the check: if it lists the user or a
wildcard for the user, a lookup finds it and none of its name before; and what a lookup finds lists the
user or a wildcard for the user, or is hidden. -/
structure Matched : Prop where
  found : Listed like db user p ∨ ByWildcard user p → Reached like db user p
  shown : Listed like db user p ∨ ByWildcard user p → ¬ Hidden like db user p
  own : Reached like db user p → Hidden like db user p ∨ Listed like db user p ∨ ByWildcard user p

instance : Decidable (user.hasGroupOf p.owner) :=
  inferInstanceAs (Decidable (∃ group ∈ user.groups, Object.getId p.owner [] <+: group))

instance : Decidable (Listed like db user p) :=
  inferInstanceAs (Decidable (user.getId ∈ p.users ∨ (∃ group ∈ user.groups, group ∈ p.groups) ∨
    ∃ role ∈ rolesOf like db user, role.getId ∈ p.roles))

instance : Decidable (ByWildcard user p) :=
  inferInstanceAs (Decidable ((star ∈ p.users ∨ Object.getId user.owner star ∈ p.users) ∨
    ((star ∈ p.groups ∨ Object.getId p.owner star ∈ p.groups) ∧ user.hasGroupOf p.owner) ∨
    star ∈ p.roles))

instance : Decidable (Reached like db user p) :=
  inferInstanceAs (Decidable (finds like Permission.users user.getId p = true ∨
    (∃ group ∈ groupIds user, finds like Permission.groups group p = true) ∨
    ∃ role ∈ rolesOf like db user, finds like Permission.roles role.getId p = true))

instance : Decidable (Hidden like db user p) :=
  inferInstanceAs (Decidable (¬ finds like Permission.users user.getId p = true ∧
    ∃ q ∈ getPermissionsByUser like db user.getId ++
      (foundLater like db user).takeWhile (· ≠ p), q.name = p.name))

theorem matched_iff : Matched like db user p ↔
    (Listed like db user p ∨ ByWildcard user p → Reached like db user p) ∧
      (Listed like db user p ∨ ByWildcard user p → ¬ Hidden like db user p) ∧
      (Reached like db user p →
        Hidden like db user p ∨ Listed like db user p ∨ ByWildcard user p) :=
  ⟨fun h => ⟨h.found, h.shown, h.own⟩, fun h => ⟨h.1, h.2.1, h.2.2⟩⟩

instance : Decidable (Matched like db user p) := decidable_of_iff' _ (matched_iff like db user p)

end Condition

section Attaching

variable {acc found : List Permission} {p : Permission}

theorem mem_names_attach {name : GoString} (acc : List Permission) (q : Permission) :
    name ∈ (attach acc q).map Permission.name ↔ name ∈ (acc ++ [q]).map Permission.name := by
  rw [attach]
  split_ifs with hq
  · rw [List.map_append, List.mem_append, List.map_singleton, List.mem_singleton]
    constructor
    · exact Or.inl
    · rintro (h | rfl)
      · exact h
      · exact hq
  · rfl

theorem mem_attach_self : p ∈ attach acc p ↔ p ∈ acc ∨ p.name ∉ acc.map Permission.name := by
  rw [attach]
  split_ifs with hp
  · simp [hp]
  · simp [hp]

theorem mem_attach_of_ne {q : Permission} (h : p ≠ q) : p ∈ attach acc q ↔ p ∈ acc := by
  rw [attach]
  split_ifs
  · rfl
  · rw [List.mem_append, List.mem_singleton, or_iff_left h]

/-- What is attached of the permissions found: the first of each name. -/
theorem mem_foldl_attach : p ∈ found.foldl attach acc ↔
    p ∈ acc ∨ (p ∈ found ∧ p.name ∉ (acc ++ found.takeWhile (· ≠ p)).map Permission.name) := by
  induction found generalizing acc with
  | nil => simp
  | cons q found ih =>
    rw [List.foldl_cons, ih]
    by_cases hpq : p = q
    · -- the first time that the permission is found
      subst hpq
      have hshown : p.name ∈ (attach acc p).map Permission.name :=
        (mem_names_attach acc p).mpr (List.mem_map_of_mem (List.mem_append_right acc (by simp)))
      have hnames : p.name ∈ (attach acc p ++ found.takeWhile (· ≠ p)).map Permission.name := by
        rw [List.map_append]
        exact List.mem_append_left _ hshown
      have hstop : (p :: found).takeWhile (· ≠ p) = [] := by simp
      rw [hstop, List.append_nil, mem_attach_self, or_iff_left (fun h => h.2 hnames),
        and_iff_right List.mem_cons_self]
    · have hstop : (q :: found).takeWhile (· ≠ p) = q :: found.takeWhile (· ≠ p) := by
        simp [Ne.symm hpq]
      have hnames : p.name ∈ (attach acc q ++ found.takeWhile (· ≠ p)).map Permission.name ↔
          p.name ∈ (acc ++ q :: found.takeWhile (· ≠ p)).map Permission.name := by
        rw [List.map_append, List.mem_append, mem_names_attach, ← List.mem_append,
          ← List.map_append, List.append_assoc, List.singleton_append]
      rw [hstop, hnames, mem_attach_of_ne hpq, List.mem_cons, or_iff_right hpq]

theorem nodup_foldl_attach (hacc : (acc.map Permission.key).Nodup) :
    ((found.foldl attach acc).map Permission.key).Nodup := by
  induction found generalizing acc with
  | nil => exact hacc
  | cons q found ih =>
    apply ih
    rw [attach]
    split_ifs with hq
    · exact hacc
    · rw [List.map_append, List.map_singleton, List.nodup_append_comm]
      refine List.nodup_cons.mpr ⟨?_, hacc⟩
      intro hmem
      obtain ⟨p, hp, hkey⟩ := List.mem_map.mp hmem
      apply hq
      rw [← (Prod.mk.inj hkey).2]
      exact List.mem_map_of_mem hp

end Attaching

section Agreement

variable {like : GoString → GoString → Bool} {db : Tables} {user : User} {p : Permission}

theorem getUserById_eq_some (huser : user ∈ db.users) :
    getUserById db user.getId = some (some user) ↔ user.Addressable := by
  constructor
  · intro h
    obtain ⟨⟨owner, name⟩, hid, hrow⟩ := Option.map_eq_some_iff.mp h
    obtain ⟨hcut, howner, hname⟩ := getOwnerAndNameFromId_eq_some.mp hid
    simp only [getUser] at hrow
    split_ifs at hrow with hempty
    obtain ⟨-, hkey⟩ := (rowOf_eq_some db.nodup_users).mp hrow
    obtain ⟨rfl, rfl⟩ := Prod.mk.inj hkey
    exact ⟨howner, hname, fun h => hempty (Or.inl h), fun h => hempty (Or.inr h)⟩
  · rintro ⟨howner, hname, howner', hname'⟩
    have hid : getOwnerAndNameFromIdWithError user.getId = some user.key :=
      getOwnerAndNameFromId_eq_some.mpr ⟨rfl, howner, hname⟩
    rw [getUserById, hid, Option.map_some]
    simp only [User.key, getUser, howner', hname', or_self, if_false, Option.some.injEq]
    exact (rowOf_eq_some db.nodup_users).mpr ⟨huser, rfl⟩

theorem getUserById_ne_some (haddr : ¬ user.Addressable) (user' : User) :
    getUserById db user.getId ≠ some (some user') := by
  intro h
  obtain ⟨⟨owner, name⟩, hid, hrow⟩ := Option.map_eq_some_iff.mp h
  obtain ⟨hcut, howner, hname⟩ := getOwnerAndNameFromId_eq_some.mp hid
  simp only [getUser] at hrow
  split_ifs at hrow with hempty
  apply haddr
  obtain ⟨rfl, rfl⟩ := parts_of_getId howner hname hcut
  exact ⟨howner, hname, fun h => hempty (Or.inl h), fun h => hempty (Or.inr h)⟩

theorem isUserHit_iff (haddr : user.Addressable) : p.isUserHit user.getId = true ↔
    user.getId ∈ p.users ∨ star ∈ p.users ∨ Object.getId user.owner star ∈ p.users := by
  obtain ⟨howner, hname, -, -⟩ := haddr
  have hid : getOwnerAndNameFromIdWithError user.getId = some (user.owner, user.name) :=
    getOwnerAndNameFromId_eq_some.mpr ⟨rfl, howner, hname⟩
  have hstar : slash ∉ star := by decide
  -- an entry hits as the wildcard of all, or with the organization and the name or its wildcard
  have hentry (entry : GoString) :
      (match getOwnerAndNameFromIdWithError entry with
        | none => false
        | some (userOrg, userName) =>
          userOrg = user.owner && (userName = star || userName = user.name)) = true ↔
        entry = user.getId ∨ entry = Object.getId user.owner star := by
    constructor
    · intro h
      split at h
      · cases h
      · rename_i userOrg userName hsplit
        obtain ⟨rfl, -, -⟩ := getOwnerAndNameFromId_eq_some.mp hsplit
        simp only [Bool.and_eq_true, decide_eq_true_eq, Bool.or_eq_true] at h
        obtain ⟨rfl, rfl | rfl⟩ := h
        · exact Or.inr rfl
        · exact Or.inl rfl
    · rintro (rfl | rfl)
      · simp [hid]
      · rw [getOwnerAndNameFromId_eq_some.mpr ⟨rfl, howner, hstar⟩]
        simp
  rw [Permission.isUserHit, hid]
  simp only [List.any_eq_true, Bool.or_eq_true, decide_eq_true_eq, hentry]
  constructor
  · rintro ⟨entry, hmem, rfl | rfl | rfl⟩
    · exact Or.inr (Or.inl hmem)
    · exact Or.inl hmem
    · exact Or.inr (Or.inr hmem)
  · rintro (h | h | h)
    · exact ⟨_, h, Or.inr (Or.inl rfl)⟩
    · exact ⟨_, h, Or.inl rfl⟩
    · exact ⟨_, h, Or.inr (Or.inr rfl)⟩

theorem isRoleHit_iff (hroles : (getRolesByUser like db user.getId).isSome = true) :
    p.isRoleHit like db user.getId = true ↔
      (∃ role ∈ rolesOf like db user, role.getId ∈ p.roles) ∨ star ∈ p.roles := by
  obtain ⟨roles, h⟩ := Option.isSome_iff_exists.mp hroles
  rw [Permission.isRoleHit, rolesOf, h, Option.getD_some]
  simp only [List.any_eq_true, Bool.or_eq_true, decide_eq_true_eq]
  constructor
  · rintro ⟨entry, hmem, rfl | ⟨role, hrole, rfl⟩⟩
    · exact Or.inr hmem
    · exact Or.inl ⟨role, hrole, hmem⟩
  · rintro (⟨role, hrole, hmem⟩ | hmem)
    · exact ⟨_, hmem, Or.inr ⟨role, hrole, rfl⟩⟩
    · exact ⟨_, hmem, Or.inl rfl⟩

theorem isOwnGroupHit_iff : p.isOwnGroupHit user ↔
    (∃ group ∈ user.groups, group ∈ p.groups) ∨
      ((star ∈ p.groups ∨ Object.getId p.owner star ∈ p.groups) ∧ user.hasGroupOf p.owner) := by
  constructor
  · rintro ⟨group, hmem, hlisted | ⟨rfl | rfl, howns⟩⟩
    · exact Or.inl ⟨group, hlisted, hmem⟩
    · exact Or.inr ⟨Or.inl hmem, howns⟩
    · exact Or.inr ⟨Or.inr hmem, howns⟩
  · rintro (⟨group, hlisted, hmem⟩ | ⟨hmem | hmem, howns⟩)
    · exact ⟨group, hmem, Or.inl hlisted⟩
    · exact ⟨_, hmem, Or.inr ⟨Or.inl rfl, howns⟩⟩
    · exact ⟨_, hmem, Or.inr ⟨Or.inr rfl, howns⟩⟩

theorem applies_iff (huser : user ∈ db.users) (haddr : user.Addressable) :
    Applies like db user p ↔ Listed like db user p ∨ ByWildcard user p := by
  have hroles := getRolesByUser_isSome like ((getUserById_eq_some huser).mpr haddr)
  rw [Applies, isUserHit_iff haddr, isOwnGroupHit_iff, isRoleHit_iff hroles, Listed, ByWildcard]
  constructor
  · rintro ((h | h) | (h | h) | (h | h))
    · exact Or.inl (Or.inl h)
    · exact Or.inr (Or.inl h)
    · exact Or.inl (Or.inr (Or.inl h))
    · exact Or.inr (Or.inr (Or.inl h))
    · exact Or.inl (Or.inr (Or.inr h))
    · exact Or.inr (Or.inr (Or.inr h))
  · rintro ((h | h | h) | (h | h | h))
    · exact Or.inl (Or.inl h)
    · exact Or.inr (Or.inl (Or.inl h))
    · exact Or.inr (Or.inr (Or.inl h))
    · exact Or.inl (Or.inr h)
    · exact Or.inr (Or.inl (Or.inr h))
    · exact Or.inr (Or.inr (Or.inr h))

theorem mem_attached : p ∈ (foundLater like db user).foldl attach
      (getPermissionsByUser like db user.getId) ↔
    p ∈ db.permissions ∧ Reached like db user p ∧ ¬ Hidden like db user p := by
  have hlater : p ∈ foundLater like db user ↔ p ∈ db.permissions ∧
      ((∃ group ∈ groupIds user, finds like Permission.groups group p = true) ∨
        ∃ role ∈ rolesOf like db user, finds like Permission.roles role.getId p = true) := by
    simp only [foundLater, List.mem_append, List.mem_flatMap, getPermissionsByGroup,
      getPermissionsByRole, List.mem_filter]
    constructor
    · rintro (⟨group, hgroup, hp, hfound⟩ | ⟨role, hrole, hp, hfound⟩)
      · exact ⟨hp, Or.inl ⟨group, hgroup, hfound⟩⟩
      · exact ⟨hp, Or.inr ⟨role, hrole, hfound⟩⟩
    · rintro ⟨hp, ⟨group, hgroup, hfound⟩ | ⟨role, hrole, hfound⟩⟩
      · exact Or.inl ⟨group, hgroup, hp, hfound⟩
      · exact Or.inr ⟨role, hrole, hp, hfound⟩
  have hcases {stored listed later named : Prop} : ((stored ∧ listed) ∨ ((stored ∧ later) ∧ ¬ named)) ↔
      stored ∧ (listed ∨ later) ∧ ¬ (¬ listed ∧ named) := by tauto
  rw [mem_foldl_attach, hlater, List.mem_map, getPermissionsByUser, List.mem_filter]
  exact hcases

theorem getPermissionsAndRolesByUser_eq (huser : user ∈ db.users) (haddr : user.Addressable) :
    getPermissionsAndRolesByUser like db user.getId =
      some (((foundLater like db user).foldl attach
        (getPermissionsByUser like db user.getId)).map fun p => { p with users := [] },
        rolesOf like db user) := by
  have hfound := (getUserById_eq_some huser).mpr haddr
  obtain ⟨roles, hroles⟩ :=
    Option.isSome_iff_exists.mp (getRolesByUser_isSome like hfound)
  rw [getPermissionsAndRolesByUser, hfound]
  simp only [hroles, Option.bind_eq_bind, Option.bind_some, Option.elim_some, foundLater, rolesOf,
    Option.getD_some, List.foldl_append]

theorem getPermissionsAndRolesByUser_eq_none (haddr : ¬ user.Addressable) :
    getPermissionsAndRolesByUser like db user.getId = none := by
  cases hfound : getUserById db user.getId with
  | none => rw [getPermissionsAndRolesByUser, hfound]; rfl
  | some found =>
    cases found with
    | some user' => exact absurd hfound (getUserById_ne_some haddr user')
    | none =>
      rw [getPermissionsAndRolesByUser, hfound, getRolesByUser, getRolesByUserInternal, hfound]
      rfl

theorem mem_keys {permissions : List Permission} {k : Key} :
    k ∈ (permissions.map fun p => { p with users := [] }).map Permission.key ↔
      ∃ p ∈ permissions, p.key = k := by
  rw [List.map_map, List.mem_map]
  rfl

/-- What is attached to a user agrees with the checks exactly if the user's identifier is one that is
accepted and every permission is matched by the lookups. -/
theorem attachedAgree_iff (huser : user ∈ db.users) : AttachedAgree like db user ↔
    user.Addressable ∧ ∀ p ∈ db.permissions, Matched like db user p := by
  by_cases haddr : user.Addressable
  · rw [and_iff_right haddr, AttachedAgree, getPermissionsAndRolesByUser_eq huser haddr]
    have hnodup : ((((foundLater like db user).foldl attach
        (getPermissionsByUser like db user.getId)).map fun p => { p with users := [] }).map
          Permission.key).Nodup := by
      rw [List.map_map]
      apply nodup_foldl_attach
      exact db.nodup_permissions.sublist (List.filter_sublist.map _)
    constructor
    · rintro ⟨permissions, roles, hanswer, -, hagree⟩ p hp
      obtain ⟨rfl, rfl⟩ := Prod.mk.inj (Option.some.inj hanswer)
      have hattached : Reached like db user p ∧ ¬ Hidden like db user p ↔
          Listed like db user p ∨ ByWildcard user p := by
        rw [← applies_iff huser haddr]
        constructor
        · intro h
          obtain ⟨q, hq, hkey, happlies⟩ :=
            (hagree p.key).mp (mem_keys.mpr ⟨p, mem_attached.mpr ⟨hp, h⟩, rfl⟩)
          rwa [eq_of_key db.nodup_permissions hq hp hkey] at happlies
        · intro h
          obtain ⟨q, hq, hkey⟩ := mem_keys.mp ((hagree p.key).mpr ⟨p, hp, rfl, h⟩)
          obtain ⟨hqdb, hqshown⟩ := mem_attached.mp hq
          rwa [eq_of_key db.nodup_permissions hqdb hp hkey] at hqshown
      refine ⟨fun h => (hattached.mpr h).1, fun h => (hattached.mpr h).2, ?_⟩
      intro hreached
      by_cases hhidden : Hidden like db user p
      · exact Or.inl hhidden
      · exact Or.inr (hattached.mp ⟨hreached, hhidden⟩)
    · intro hmatched
      refine ⟨_, _, rfl, hnodup, ?_⟩
      intro k
      rw [mem_keys]
      constructor
      · rintro ⟨p, hp, rfl⟩
        obtain ⟨hpdb, hreached, hhidden⟩ := mem_attached.mp hp
        refine ⟨p, hpdb, rfl, (applies_iff huser haddr).mpr ?_⟩
        exact ((hmatched p hpdb).own hreached).resolve_left hhidden
      · rintro ⟨p, hp, rfl, happlies⟩
        have h := (applies_iff huser haddr).mp happlies
        exact ⟨p, mem_attached.mpr ⟨hp, (hmatched p hp).found h, (hmatched p hp).shown h⟩, rfl⟩
  · rw [AttachedAgree, getPermissionsAndRolesByUser_eq_none haddr]
    constructor
    · rintro ⟨permissions, roles, h, -⟩
      cases h
    · exact fun h => absurd h.1 haddr

end Agreement

section Example

/-- `LIKE`, with the case of letters. -/
def sqlLike : GoString → GoString → Bool
  | [], text => text.isEmpty
  | 37 :: pattern, text => text.tails.any (sqlLike pattern)
  | 95 :: pattern, text => !text.isEmpty && sqlLike pattern text.tail
  | 92 :: c :: pattern, text => text.head? = some c && sqlLike pattern text.tail
  | c :: pattern, text => text.head? = some c && sqlLike pattern text.tail

def ana : User where
  owner := utf8 "acme"
  name := utf8 "ana"
  groups := [utf8 "acme/devs"]

def granting (owner name : GoString) (users groups : List GoString) : Permission where
  owner := owner
  name := name
  users := users
  groups := groups
  roles := []
  domains := []
  model := []
  adapter := []
  resourceType := utf8 "Custom"
  resources := [utf8 "ledger"]
  actions := [utf8 "Read"]
  effect := utf8 "Allow"

/-- Permissions that list the user, a group of the user, and somebody else. -/
def literal : Tables where
  users := [ana]
  groups := []
  roles := []
  permissions := [granting (utf8 "acme") (utf8 "read") [utf8 "acme/ana"] [],
    granting (utf8 "acme") (utf8 "write") [] [utf8 "*"],
    granting (utf8 "beta") (utf8 "audit") [utf8 "beta/bob"] []]
  nodup_users := by decide
  nodup_groups := by decide
  nodup_roles := by decide
  nodup_permissions := by decide

theorem attachedAgree_literal : AttachedAgree sqlLike literal ana := by
  apply (attachedAgree_iff (by decide +kernel)).mpr
  exact ⟨by unfold User.Addressable; decide +kernel, by decide +kernel⟩

/-- A wildcard for the groups of another organization. -/
def foreign : Tables where
  users := [ana]
  groups := []
  roles := []
  permissions := [granting (utf8 "beta") (utf8 "audit") [] [utf8 "*"]]
  nodup_users := by decide
  nodup_groups := by decide
  nodup_roles := by decide
  nodup_permissions := by decide

/-- The permission of the other organization is attached. -/
theorem foreign_wildcard_attached : ¬ AttachedAgree sqlLike foreign ana := by
  rintro ⟨permissions, roles, hanswer, -, hagree⟩
  have hkeys : (getPermissionsAndRolesByUser sqlLike foreign ana.getId).map
      (fun answer => answer.1.map Permission.key) = some [(utf8 "beta", utf8 "audit")] := by
    decide +kernel
  rw [hanswer, Option.map_some, Option.some.injEq] at hkeys
  obtain ⟨p, hp, -, happlies⟩ :=
    (hagree (utf8 "beta", utf8 "audit")).mp (by rw [hkeys]; exact List.mem_cons_self)
  have haddr : ana.Addressable := by unfold User.Addressable; decide +kernel
  have hnone : ∀ p ∈ foreign.permissions, ¬ (Listed sqlLike foreign ana p ∨ ByWildcard ana p) := by
    decide +kernel
  exact hnone p hp ((applies_iff (by decide +kernel) haddr).mp happlies)

end Example

end ArchGuard.Permissions
