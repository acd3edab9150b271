import ArchGuard.RoleEndpointDetach

/-! When the filter and the handlers of the legacy API mean the same object: whether a request of an
organization's administrator stays in the organization. -/
namespace ArchGuard.LegacyApi
open GoText KeyedRows Object Permissions

section Filter

theorem noCheck_of_withError {id : GoString} {k : Key}
    (h : getOwnerAndNameFromIdWithError id = some k) : getOwnerAndNameFromIdNoCheck id = some k := by
  rw [getOwnerAndNameFromIdWithError] at h
  split at h
  · rename_i owner name hsplit
    rw [getOwnerAndNameFromIdNoCheck, hsplit]
    simpa only [List.intercalate_singleton] using h
  · cases h

theorem noCheck_nil : getOwnerAndNameFromIdNoCheck [] = none := by decide

theorem reading_path (e : Endpoint) (h : e.reads = true) :
    e.path ≠ utf8 "/api/get-policies" ∧ hasSuffix e.path (utf8 "s") = false ∧
      hasSuffix e.path (utf8 "organization") = false := by
  cases e <;> revert h <;> decide

theorem writing_path (e : Endpoint) (h : e.reads = false) :
    checkIsOrgOwnerObject e.path = false ∧ hasSuffix e.path (utf8 "-organization") = false ∧
      e.path ≠ utf8 "/api/delete-resource" ∧ [utf8 "/api/add-policy", utf8 "/api/remove-policy",
        utf8 "/api/update-policy", utf8 "/api/send-invitation"].contains e.path = false := by
  cases e <;> revert h <;> decide

variable {c : Call} {obj : GoString × GoString}

theorem owner_of_id (hreads : c.endpoint.reads = true) (hmethod : c.method = c.endpoint.method)
    (hobj : getObject c.toRequest = some obj) (horg : c.organization = []) {k : Key}
    (hk : getOwnerAndNameFromIdNoCheck c.id = some k) : k.1 = obj.1 := by
  obtain ⟨hpolicies, hplural, hsuffix⟩ := reading_path c.endpoint hreads
  rw [← c.path_eq] at hpolicies hplural hsuffix
  rw [Endpoint.method, if_pos hreads] at hmethod
  have hid : c.id ≠ [] := by
    intro hid
    rw [hid, noCheck_nil] at hk
    cases hk
  change c.query (utf8 "organization") = [] at horg
  change c.query (utf8 "id") ≠ [] at hid
  rw [getObject, if_pos hmethod] at hobj
  simp only [hpolicies, hplural, hsuffix, horg, false_and, if_false, Bool.false_eq_true, and_false,
    not_false_eq_true, true_or, true_and, ne_eq, hid, not_true_eq_false] at hobj
  cases hparts : getOwnerAndNameFromIdWithError (c.query (utf8 "id")) with
  | none =>
    rw [hparts] at hobj
    cases hobj
  | some parts =>
    rw [hparts] at hobj
    have heq := hk.symm.trans (noCheck_of_withError hparts)
    rw [Option.some.inj heq, ← Option.some.inj hobj]

theorem object_of_body (hreads : c.endpoint.reads = false) (hmethod : c.method = c.endpoint.method)
    (hobj : getObject c.toRequest = some obj) (hid : getOwnerAndNameFromIdWithError c.id = none)
    {posted : GoString × GoString} (hempty : c.bodyEmpty = false) (hposted : c.object = some posted) :
    obj = posted := by
  obtain ⟨hown, hsuffix, hresource, hpolicies⟩ := writing_path c.endpoint hreads
  rw [← c.path_eq] at hown hsuffix hresource hpolicies
  have hget : c.method ≠ utf8 "GET" := by
    rw [hmethod, Endpoint.method, hreads]
    decide
  have hbody : bodyObject c.toRequest = posted := by
    rw [bodyObject, hempty, hown, hposted, hsuffix]
    exact if_neg hresource
  change getOwnerAndNameFromIdWithError (c.query (utf8 "id")) = none at hid
  rw [getObject, if_neg hget] at hobj
  simp only [hpolicies, hid, hbody, Option.none_or, Bool.false_eq_true, false_and, if_false,
    ite_self] at hobj
  exact (Option.some.inj hobj).symm

end Filter

section Responses

variable {org : GoString} {db db' : Database}

theorem within_leaving_iff : Within org db (.leaving db') ↔ Untouched org db db' := by
  constructor
  · exact Within.untouched
  · intro h
    exact ⟨fun _ hr => absurd hr List.not_mem_nil, fun _ hp => absurd hp List.not_mem_nil, h,
      fun _ hk => by cases hk⟩

theorem within_updating_iff {c : Call} {r : Database × Option Key} :
    Within org db (.updating c r) ↔ Keeps org db c.differs r := by
  constructor
  · intro h
    exact ⟨h.untouched, h.rewritten⟩
  · intro h
    exact ⟨fun _ hr => absurd hr List.not_mem_nil, fun _ hp => absurd hp List.not_mem_nil, h.1, h.2⟩

theorem within_posted_iff {α : Type} {posted : Option α} {f : α → Response} :
    Within org db ((posted.map f).getD (.leaving db)) ↔ ∀ a ∈ posted, Within org db (f a) := by
  cases posted with
  | none =>
    exact iff_of_true (within_leaving_iff.mpr (Untouched.refl org db)) fun a ha => by cases ha
  | some a => simp only [Option.map_some, Option.getD_some, Option.mem_def, Option.some.injEq, forall_eq']

theorem within_roles_iff {roles : List Role} :
    Within org db { Response.leaving db with roles := roles } ↔ ∀ role ∈ roles, role.owner = org := by
  constructor
  · exact Within.roles
  · intro h
    exact ⟨h, fun _ hp => absurd hp List.not_mem_nil, Untouched.refl org db, fun _ hk => by cases hk⟩

theorem within_permissions_iff {permissions : List Permission} :
    Within org db { Response.leaving db with permissions := permissions } ↔
      ∀ permission ∈ permissions, permission.owner = org := by
  constructor
  · exact Within.permissions
  · intro h
    exact ⟨fun _ hr => absurd hr List.not_mem_nil, h, Untouched.refl org db, fun _ hk => by cases hk⟩

theorem read_own_iff {α : Type} (owner : α → GoString) {get : GoString → GoString → Option α}
    (hget : ∀ (k : Key) row, get k.1 k.2 = some row → owner row = k.1) {k : Option Key} :
    (∀ row ∈ (k.bind fun (o, n) => get o n).toList, owner row = org) ↔
      ∀ k' ∈ k, (get k'.1 k'.2).isSome → k'.1 = org := by
  simp only [Option.mem_toList, Option.mem_def, Option.bind_eq_some_iff]
  constructor
  · intro h k' hk' hsome
    obtain ⟨row, hrow⟩ := Option.isSome_iff_exists.mp hsome
    rw [← hget k' row hrow]
    exact h row ⟨k', hk', hrow⟩
  · intro h row ⟨k', hk', hrow⟩
    rw [hget k' row hrow]
    exact h k' hk' (Option.isSome_iff_exists.mpr ⟨row, hrow⟩)

end Responses

section Main

variable {casbin : Enforcers} {db : Database} {c : Call} {obj : GoString × GoString}

/-- A condition that holds anyway where the filter goes by something else. -/
theorem guarded_iff {p q : Prop} (h : ¬p → q) : q ↔ p → q := by
  by_cases hp : p
  · exact (imp_iff_right hp).symm
  · exact iff_of_true (h hp) fun hp' => absurd hp' hp

theorem handle_within_iff (hmethod : c.method = c.endpoint.method)
    (hobj : getObject c.toRequest = some obj) :
    Within obj.1 db (handle casbin false c db) ↔ Fits casbin obj.1 c db := by
  have hbody : c.endpoint.reads = false → ¬(getOwnerAndNameFromIdWithError c.id).isSome →
      ∀ posted : Key, c.bodyEmpty = false ∧ c.object = some posted → posted.1 = obj.1 := by
    intro hreads hid posted ⟨hempty, hposted⟩
    have hnone := Option.not_isSome_iff_eq_none.mp hid
    rw [object_of_body hreads hmethod hobj hnone hempty hposted]
  have hread : c.endpoint.reads = true → ¬c.organization ≠ [] →
      ∀ k ∈ getOwnerAndNameFromIdNoCheck c.id, k.1 = obj.1 := by
    intro hreads horg k hk
    exact owner_of_id hreads hmethod hobj (not_not.mp horg) hk
  rw [handle, Fits]
  cases hend : c.endpoint with
  | getRole =>
    simp only
    rw [within_roles_iff, read_own_iff Role.owner fun k row h =>
      congrArg (fun key => key.1) (getRole_eq_some h).2]
    apply guarded_iff
    intro horg k hk _
    exact hread (by rw [hend]; rfl) horg k hk
  | updateRole =>
    simp only
    rw [within_posted_iff]
    apply forall₂_congr
    intro role _
    rw [within_updating_iff]
    exact updateRoleRows_keeps_iff c role
  | addRole =>
    simp only
    rw [within_posted_iff]
    refine Iff.trans ?_ (guarded_iff fun hid role hrole => Or.inl ?_)
    · apply forall₂_congr
      intro role _
      rw [within_leaving_iff]
      exact addRoleRows_untouched_iff role
    · exact hbody (by rw [hend]; rfl) hid role.key (c.object_role role hrole)
  | deleteRole =>
    simp only
    rw [within_posted_iff]
    apply forall₂_congr
    intro role hrole
    rw [within_leaving_iff, deleteRoleRows_untouched_iff, DeleteRoleFits]
    apply and_congr Iff.rfl
    apply forall_congr'
    intro _
    apply guarded_iff
    intro hid
    exact Or.inl (hbody (by rw [hend]; rfl) hid role.key (c.object_role role hrole))
  | getPermission =>
    simp only
    rw [within_permissions_iff, read_own_iff Permission.owner fun k row h =>
      congrArg (fun key => key.1) (getPermission_eq_some h).2]
    apply guarded_iff
    intro horg k hk _
    exact hread (by rw [hend]; rfl) horg k hk
  | updatePermission =>
    simp only
    rw [within_posted_iff]
    apply forall₂_congr
    intro permission _
    rw [within_updating_iff]
    exact updatePermissionRows_keeps_iff c permission
  | addPermission =>
    simp only
    rw [within_posted_iff]
    refine Iff.trans ?_ (guarded_iff fun hid permission hpermission _ => Or.inl ?_)
    · apply forall₂_congr
      intro permission _
      rw [within_leaving_iff]
      exact addPermissionRows_untouched_iff permission
    · exact hbody (by rw [hend]; rfl) hid permission.key (c.object_permission permission hpermission)
  | deletePermission =>
    simp only
    rw [within_posted_iff]
    refine Iff.trans ?_ (guarded_iff fun hid permission hpermission => Or.inl ?_)
    · apply forall₂_congr
      intro permission _
      rw [within_leaving_iff]
      exact deletePermissionRows_untouched_iff permission
    · exact hbody (by rw [hend]; rfl) hid permission.key (c.object_permission permission hpermission)

/-- A request that is let through because its sender is an administrator of the object's organization
stays in that organization exactly if the rows that the handler picks are of it. -/
theorem within_iff_contained {site : Site} {user : Account}
    (h : apiFilter site user c.toRequest = some .admin) :
    Within user.owner db (serve casbin user.isGlobalAdmin c db) ↔ Contained casbin user.owner c db := by
  obtain ⟨hglobal, name, hobj⟩ := apiFilter_admin h
  rw [serve, hglobal, Contained]
  by_cases hcome : c.method = c.endpoint.method ∧ fieldRefused c = false
  · rw [if_pos hcome, forall_prop_of_true hcome.1, forall_prop_of_true hcome.2]
    exact handle_within_iff hcome.1 hobj
  · rw [if_neg hcome]
    refine iff_of_true (within_leaving_iff.mpr (Untouched.refl user.owner db)) ?_
    intro hmethod hfield
    exact absurd ⟨hmethod, hfield⟩ hcome

end Main

section Example

/-- An administrator of an organization. -/
def acmeAdmin : Account where
  owner := utf8 "acme"
  name := utf8 "ana"
  isAdmin := true
  isDeleted := false

/-- No demo mode, and no policy or permission that lets anything through. -/
def strictSite : Site where
  demoMode := false
  enforce _ _ _ _ _ _ := false
  checkApiPermission _ _ _ _ := false

/-- Enforcers that can always be built. -/
def plainEnforcers : Enforcers :=
  { plainCasbin with
    removes := fun _ => true
    adds := fun _ => true }

def adminRole (owner : GoString) : Role := ⟨owner, utf8 "admin", [], [], [], [], [], true⟩

theorem nodup_noLinks : ([] : List (GoString × GoString × GoString)).Nodup := List.nodup_nil

def twoOrganizations : Database where
  users := []
  groups := []
  roles := [adminRole (utf8 "acme"), adminRole (utf8 "beta")]
  permissions := []
  resources := []
  links := []
  nodup_users := List.nodup_nil
  nodup_groups := List.nodup_nil
  nodup_roles := by decide
  nodup_permissions := List.nodup_nil
  nodup_links := nodup_noLinks

/-- The deletion of an organization's role, with an identifier in the URL. -/
def deletion (id owner : GoString) : Call where
  method := utf8 "POST"
  path := utf8 "/api/delete-role"
  query name := if name = utf8 "id" then id else []
  bodyEmpty := false
  object := some (owner, utf8 "admin")
  objectWithOrg := some ([], utf8 "admin")
  form _ := []
  endpoint := .deleteRole
  role := some (adminRole owner)
  permission := none
  fieldName := some (utf8 "admin")
  differs := false
  path_eq := rfl
  object_role r hr := ⟨rfl, by rw [← Option.some.inj hr]; rfl⟩
  object_permission p hp := by cases hp

/-- The own role goes, and the other organization's stays. -/
theorem own_deletion_within :
    Within (utf8 "acme") twoOrganizations (serve plainEnforcers acmeAdmin.isGlobalAdmin
      (deletion [] (utf8 "acme")) twoOrganizations) := by
  have hadmin : apiFilter strictSite acmeAdmin (deletion [] (utf8 "acme")).toRequest = some .admin := by
    decide +kernel
  apply (within_iff_contained hadmin).mpr
  intro _ _ role hrole
  obtain rfl := Option.some.inj hrole
  refine ⟨fun p hp => ?_, fun _ _ => Or.inl rfl⟩
  exact absurd ((reached_sublist _).subset hp) List.not_mem_nil

/-- The filter goes by the identifier in the URL and the handler by the body: an administrator deletes
the role of another organization. -/
theorem foreign_role_deleted :
    apiFilter strictSite acmeAdmin (deletion (utf8 "acme/x") (utf8 "beta")).toRequest = some .admin ∧
      ¬Within (utf8 "acme") twoOrganizations (serve plainEnforcers acmeAdmin.isGlobalAdmin
        (deletion (utf8 "acme/x") (utf8 "beta")) twoOrganizations) := by
  constructor
  · decide +kernel
  · intro h
    have hrow := h.untouched.1 (utf8 "beta", utf8 "admin") (by decide +kernel)
    revert hrow
    decide +kernel

end Example

end ArchGuard.LegacyApi
