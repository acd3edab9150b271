import ArchGuard.PermissionTables

/-! What a rename of a user, a role or a group writes into the rows that refer to it. -/
namespace ArchGuard.Permissions
open GoText Object

structure Resource where
  owner : GoString
  name : GoString
  user : GoString
  deriving DecidableEq, Repr

structure ThirdPartyLink where
  owner : GoString
  userName : GoString
  providerName : GoString
  providerId : GoString
  deriving DecidableEq, Repr

def ThirdPartyLink.key (l : ThirdPartyLink) : GoString × GoString × GoString :=
  (l.owner, l.userName, l.providerName)

/-- The tables, with the resources and the links to other providers, which name a user. -/
structure Database extends Tables where
  resources : List Resource
  links : List ThirdPartyLink
  nodup_links : (links.map ThirdPartyLink.key).Nodup

/-- Other roles and permissions, in rows of the same keys. -/
def Database.withRows? (db : Database) (roles : List Role) (permissions : List Permission) :
    Option Database :=
  if h : (roles.map Role.key).Nodup ∧ (permissions.map Permission.key).Nodup then
    some { db with
      roles := roles
      permissions := permissions
      nodup_roles := h.1
      nodup_permissions := h.2 }
  else none

/-- Other links; an update that would repeat a key is an error. -/
def Database.withLinks? (db : Database) (links : List ThirdPartyLink) : Option Database :=
  if h : (links.map ThirdPartyLink.key).Nodup then
    some { db with
      links := links
      nodup_links := h }
  else none

section Triggers

variable (oldName newName : GoString)

/-- A reference in a list of users or roles: the organization stays, the name is compared. Nothing is
returned for the error of one that is not of two parts. -/
def rewriteId (keepsStar : Bool) (u : GoString) : Option GoString :=
  if keepsStar = true ∧ u = star then some u
  else (getOwnerAndNameFromIdWithError u).map fun (owner, name) =>
    if name = oldName then getId owner newName else u

def rewriteIds (keepsStar : Bool) (us : List GoString) : Option (List GoString) :=
  us.mapM (rewriteId oldName newName keepsStar)

/-- `userChangeTrigger`; its transaction is rolled back at an error. The users of a role are read
without the exception for "*". -/
def userChangeTrigger (owner : GoString) (db : Database) : Option Database := do
  let roles ← db.roles.mapM fun role =>
    (rewriteIds oldName newName false role.users).map fun users => { role with users := users }
  let permissions ← db.permissions.mapM fun permission =>
    (rewriteIds oldName newName true permission.users).map fun users =>
      { permission with users := users }
  let db ← db.withRows? roles permissions
  -- an update of no column at all is an error
  if newName = [] then none
  else
    let db := { db with resources := db.resources.map fun (resource : Resource) =>
      if resource.user = oldName then { resource with user := newName } else resource }
    db.withLinks? (db.links.map fun (link : ThirdPartyLink) =>
      if link.owner = owner ∧ link.userName = oldName then { link with userName := newName }
      else link)

def roleChangeTrigger (db : Database) : Option Database := do
  let roles ← db.roles.mapM fun role =>
    (rewriteIds oldName newName true role.roles).map fun roles => { role with roles := roles }
  let permissions ← db.permissions.mapM fun permission =>
    (rewriteIds oldName newName true permission.roles).map fun roles =>
      { permission with roles := roles }
  db.withRows? roles permissions

def replaceVal (values : List GoString) : List GoString :=
  values.map fun v => if v = oldName then newName else v

/-- The row that an update by the identifier of a user writes to: the identifier is cut at its first
slash. -/
def User.target (u : User) : Option Key := getOwnerAndNameFromIdNoCheck u.getId

/-- `updateUser` of the groups. -/
def updateGroups (u : User) (groups : List GoString) (users : List User) : List User :=
  users.map fun row => if u.target = some row.key then { row with groups := groups } else row

theorem keys_updateGroups (u : User) (groups : List GoString) (users : List User) :
    (updateGroups u groups users).map User.key = users.map User.key := by
  rw [updateGroups, List.map_map]
  apply List.map_congr_left
  intro row _
  rw [Function.comp_apply]
  split_ifs <;> rfl

variable (like : GoString → GoString → Bool)

/-- The users whose groups contain the old name somewhere in their text. -/
def usersNaming (users : List User) : List User :=
  users.filter fun u => like (textPattern oldName) (columnText u.groups)

def renameInUsers (users : List User) : List User :=
  (usersNaming oldName like users).foldl
    (fun rows u => updateGroups u (replaceVal oldName newName u.groups) rows) users

theorem keys_foldl_updateGroups (groups : User → List GoString) (us : List User) (rows : List User) :
    (us.foldl (fun rows u => updateGroups u (groups u) rows) rows).map User.key =
      rows.map User.key := by
  induction us generalizing rows with
  | nil => rfl
  | cons u us ih => rw [List.foldl_cons, ih, keys_updateGroups]

def groupChangeTrigger (db : Database) : Database :=
  { db with
    users := renameInUsers oldName newName like db.users
    nodup_users := by
      rw [renameInUsers, keys_foldl_updateGroups]
      exact db.nodup_users
    groups := db.groups.map fun group =>
      if group.parentId = oldName then { group with parentId := newName } else group
    nodup_groups := by
      rw [List.map_map]
      convert db.nodup_groups using 2
      funext group
      rw [Function.comp_apply]
      split_ifs <;> rfl }

end Triggers

section Specification

variable (owner oldName newName : GoString)

/-- A reference to the renamed object, with its new name. -/
def renamed (ref : GoString) : GoString :=
  if ref = getId owner oldName then getId owner newName else ref

def OnlyOf (refs : List GoString) : Prop := ∀ org, getId org oldName ∈ refs → org = owner

section Groups

variable (like : GoString → GoString → Bool)

end Groups

end Specification

section Rewriting

variable {owner oldName newName : GoString}

theorem mapM_eq_map_iff {α β : Type} {f : α → Option β} {g : α → β} {P : α → Prop} {as : List α}
    {bs : List β} (h : as.mapM f = some bs)
    (hf : ∀ a ∈ as, ∀ b, f a = some b → (b = g a ↔ P a)) : bs = as.map g ↔ ∀ a ∈ as, P a := by
  induction as generalizing bs with
  | nil =>
    rw [List.mapM_nil] at h
    obtain rfl := Option.some.inj h
    simp
  | cons a as ih =>
    rw [List.mapM_cons] at h
    obtain ⟨b, hb, h⟩ := Option.bind_eq_some_iff.mp h
    obtain ⟨bs', hbs', h⟩ := Option.bind_eq_some_iff.mp h
    obtain rfl := Option.some.inj h
    rw [List.map_cons, List.cons.injEq, List.forall_mem_cons, hf a List.mem_cons_self b hb,
      ih hbs' fun a' ha' => hf a' (List.mem_cons_of_mem a ha')]

theorem eq_map_of_mapM {α β : Type} {f : α → Option β} {g : α → β} {as : List α} {bs : List β}
    (h : as.mapM f = some bs) (hf : ∀ a ∈ as, ∀ b, f a = some b → b = g a) : bs = as.map g :=
  (mapM_eq_map_iff (P := fun _ => True) h fun a ha b hb => iff_of_true (hf a ha b hb) trivial).mpr
    fun _ _ => trivial

theorem isSome_of_mapM {α β : Type} {f : α → Option β} {as : List α} {bs : List β}
    (h : as.mapM f = some bs) : ∀ a ∈ as, ∃ b, f a = some b := by
  induction as generalizing bs with
  | nil => exact fun a ha => absurd ha List.not_mem_nil
  | cons a as ih =>
    rw [List.mapM_cons] at h
    obtain ⟨b, hb, h⟩ := Option.bind_eq_some_iff.mp h
    obtain ⟨bs', hbs', -⟩ := Option.bind_eq_some_iff.mp h
    exact List.forall_mem_cons.mpr ⟨⟨b, hb⟩, ih hbs'⟩

theorem getId_ne_of_name {org name name' : GoString} (h : name ≠ name') :
    getId org name ≠ getId org name' := by
  intro heq
  exact h (List.cons.inj (List.append_cancel_left heq)).2

theorem getId_ne_star (org name : GoString) : getId org name ≠ star := by
  intro heq
  have hmem : slash ∈ star := heq ▸ List.mem_append_right org List.mem_cons_self
  revert hmem
  decide

/-- What a trigger makes of a reference is right exactly if the reference is not one to an object of
the old name in another organization. -/
theorem rewriteId_eq_renamed (hne : oldName ≠ newName) {keepsStar : Bool} {u u' : GoString}
    (h : rewriteId oldName newName keepsStar u = some u') :
    u' = renamed owner oldName newName u ↔ ∀ org, getId org oldName = u → org = owner := by
  rw [rewriteId] at h
  split_ifs at h with hstar
  · obtain rfl := Option.some.inj h
    rw [hstar.2, renamed, if_neg (getId_ne_star owner oldName).symm]
    exact iff_of_true rfl fun org horg => absurd horg (getId_ne_star org oldName)
  · obtain ⟨⟨org, name⟩, hid, hu⟩ := Option.map_eq_some_iff.mp h
    obtain ⟨rfl, horg, hname⟩ := getOwnerAndNameFromId_eq_some.mp hid
    have hparts {org' name' : GoString} (heq : getId org' name' = getId org name) :
        org' = org ∧ name' = name := parts_of_getId horg hname heq
    simp only at hu
    rw [← hu, renamed]
    by_cases hold : name = oldName
    · subst hold
      rw [if_pos rfl]
      by_cases howner : org = owner
      · subst howner
        rw [if_pos rfl]
        exact iff_of_true rfl fun org' heq => (hparts heq).1
      · -- an object of another organization
        rw [if_neg fun heq => howner (hparts heq.symm).1.symm]
        exact iff_of_false (getId_ne_of_name hne.symm) fun h => howner (h org rfl)
    · rw [if_neg hold, if_neg fun heq => hold (hparts heq.symm).2.symm]
      exact iff_of_true rfl fun org' heq => absurd (hparts heq).2.symm hold

theorem rewriteIds_eq_renamed (hne : oldName ≠ newName) {keepsStar : Bool} {us us' : List GoString}
    (h : rewriteIds oldName newName keepsStar us = some us') :
    us' = us.map (renamed owner oldName newName) ↔ OnlyOf owner oldName us := by
  rw [mapM_eq_map_iff h fun u _ u' hu => rewriteId_eq_renamed hne hu, OnlyOf]
  constructor
  · intro hall org hmem
    exact hall _ hmem org rfl
  · rintro hall u hu org rfl
    exact hall org hu

/-- For references that a trigger accepts, it is enough to look at those of two parts. -/
theorem onlyOf_of_rewriteIds {keepsStar : Bool} {us us' : List GoString}
    (h : rewriteIds oldName newName keepsStar us = some us')
    (hown : ∀ u ∈ us, ∀ parts ∈ getOwnerAndNameFromIdWithError u, parts.2 = oldName →
      parts.1 = owner) : OnlyOf owner oldName us := by
  intro org hmem
  obtain ⟨u', hu'⟩ := isSome_of_mapM h _ hmem
  rw [rewriteId, if_neg fun hstar => getId_ne_star org oldName hstar.2] at hu'
  obtain ⟨⟨org', name⟩, hid, -⟩ := Option.map_eq_some_iff.mp hu'
  obtain ⟨hcut, horg, hname⟩ := getOwnerAndNameFromId_eq_some.mp hid
  obtain ⟨rfl, rfl⟩ := parts_of_getId horg hname hcut
  exact hown _ hmem _ hid rfl

theorem rewriteIds_eq_self {keepsStar : Bool} {us us' : List GoString}
    (h : rewriteIds oldName newName keepsStar us = some us')
    (hnone : ∀ u ∈ us, ∀ parts ∈ getOwnerAndNameFromIdWithError u, parts.2 ≠ oldName) : us' = us := by
  rw [eq_map_of_mapM (g := id) h ?_, List.map_id]
  intro u hu u' hrewrite
  rw [rewriteId] at hrewrite
  split_ifs at hrewrite with hstar
  · exact (Option.some.inj hrewrite).symm
  · obtain ⟨⟨org, name⟩, hid, rfl⟩ := Option.map_eq_some_iff.mp hrewrite
    exact if_neg (hnone u hu _ hid)

theorem withRows?_eq_some {db db' : Database} {roles : List Role} {permissions : List Permission}
    (h : db.withRows? roles permissions = some db') :
    db'.roles = roles ∧ db'.permissions = permissions ∧ db'.users = db.users ∧
      db'.groups = db.groups ∧ db'.resources = db.resources ∧ db'.links = db.links := by
  rw [Database.withRows?] at h
  split_ifs at h
  obtain rfl := Option.some.inj h
  exact ⟨rfl, rfl, rfl, rfl, rfl, rfl⟩

theorem userChangeTrigger_permissions {db db' : Database}
    (h : userChangeTrigger oldName newName owner db = some db') :
    db.permissions.mapM (fun permission => (rewriteIds oldName newName true permission.users).map
      fun users => { permission with users := users }) = some db'.permissions := by
  rw [userChangeTrigger] at h
  obtain ⟨roles, -, h⟩ := Option.bind_eq_some_iff.mp h
  obtain ⟨permissions, hpermissions, h⟩ := Option.bind_eq_some_iff.mp h
  obtain ⟨db₁, hdb₁, h⟩ := Option.bind_eq_some_iff.mp h
  split_ifs at h
  rw [Database.withLinks?] at h
  split_ifs at h
  obtain rfl := Option.some.inj h
  rw [hpermissions, (withRows?_eq_some hdb₁).2.1]

theorem roleChangeTrigger_permissions {db db' : Database}
    (h : roleChangeTrigger oldName newName db = some db') :
    db.permissions.mapM (fun permission => (rewriteIds oldName newName true permission.roles).map
      fun roles => { permission with roles := roles }) = some db'.permissions := by
  rw [roleChangeTrigger] at h
  obtain ⟨roles, -, h⟩ := Option.bind_eq_some_iff.mp h
  obtain ⟨permissions, hpermissions, h⟩ := Option.bind_eq_some_iff.mp h
  rw [hpermissions, (withRows?_eq_some h).2.1]

end Rewriting

section Groups

variable {owner oldName newName org : GoString} {like : GoString → GoString → Bool}

end Groups

section Example

/-- A user with a group, and a role of some users. -/
def staffed (roleUsers : List GoString) : Database where
  users := [⟨utf8 "acme", utf8 "ana", [utf8 "acme/devs"]⟩]
  groups := [⟨utf8 "acme", utf8 "devs", utf8 "acme"⟩]
  roles := [⟨utf8 "acme", utf8 "admin", [], roleUsers, [], [], [], true⟩]
  permissions := []
  resources := [⟨utf8 "acme", utf8 "photo", utf8 "ana"⟩]
  links := []
  nodup_users := by decide
  nodup_groups := by decide
  nodup_roles := List.nodup_singleton _
  nodup_permissions := List.nodup_nil
  nodup_links := List.nodup_nil

end Example

end ArchGuard.Permissions
