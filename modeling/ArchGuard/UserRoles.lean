import ArchGuard.PermissionTables

/-! The roles of a user: those that list the user or one of the user's groups, and the roles that
contain them. -/
namespace ArchGuard.Permissions
open GoText Object

/-- What a search knows of the roles: whether an identifier was seen, and what was found out. -/
abbrev Visited := GoString → Option Bool

section Search

variable (roleMap : GoString → Option Role) (roleIds : List GoString)

/-- The loop of `containsRole` over the roles of a role, with the search from one of them. -/
def containsIn (search : Visited → Role → Option (Bool × Visited)) :
    List GoString → Visited → Option (Bool × Visited)
  | [], visited => some (false, visited)
  | subRole :: rest, visited =>
    if subRole ∈ roleIds then some (true, visited)
    else
      match roleMap subRole with
      | none => containsIn search rest visited
      | some r => do
        let (found, visited) ← search visited r
        if found then some (true, visited) else containsIn search rest visited

/-- `containsRole`, in at most so many nested calls. -/
def containsRole : (depth : ℕ) → Visited → Role → Option (Bool × Visited)
  | 0, _, _ => none
  | depth+1, visited, role =>
    match visited role.getId with
    | some isContain => some (isContain, visited)
    | none =>
      containsIn roleMap roleIds (containsRole depth) role.roles
        (Function.update visited role.getId (some false))

/-- The loop of `GetAncestorRoles` over the roles of the organization. -/
def ancestorsIn (depth : ℕ) : List Role → Visited → Option (List Role)
  | [], _ => some []
  | r :: rest, visited =>
    match visited r.getId with
    | some true => (ancestorsIn depth rest visited).map (r :: ·)
    | some false => ancestorsIn depth rest visited
    | none => do
      let (found, visited) ← containsRole roleMap roleIds depth visited r
      let res ← ancestorsIn depth rest (Function.update visited r.getId (some found))
      some (if found then r :: res else res)

end Search

section Roles

variable (like : GoString → GoString → Bool) (db : Tables)

/-- `GetAncestorRoles`, in the organization of the first role; the map keeps the last role of an
identifier. -/
def getAncestorRoles (roleIds : List GoString) : Option (List Role) :=
  match roleIds with
  | [] => some []
  | first :: _ =>
    (getOwnerAndNameFromIdNoCheck first).bind fun (owner, _) =>
      let allRoles := getRoles db owner
      let roleMap := fun id => allRoles.reverse.find? (·.getId = id)
      ancestorsIn roleMap roleIds (allRoles.length + 1) allRoles
        fun id => if id ∈ roleIds then some true else none

/-- `getRolesByUserInternal`; there is an error for a user who does not exist. -/
def getRolesByUserInternal (userId : GoString) : Option (List Role) := do
  let user ← (← getUserById db userId)
  let roles := db.roles.filter fun role => like (textPattern userId) (columnText role.users) ||
    user.groups.any fun group => like (textPattern group) (columnText role.groups)
  some (roles.filter fun role => userId ∈ role.users ∨ ∃ group ∈ role.groups, group ∈ user.groups)

/-- `getRolesByUser`, which leaves the users out. -/
def getRolesByUser (userId : GoString) : Option (List Role) := do
  let roles ← getRolesByUserInternal like db userId
  let allRoles ← getAncestorRoles db (roles.map Role.getId)
  some (allRoles.map fun role => { role with users := [] })

end Roles

section Termination

variable {roleMap : GoString → Option Role} {roleIds : List GoString} {allRoles : List Role}

/-- How many identifiers of an organization's roles a search has not seen. -/
def unseen (allRoles : List Role) (visited : Visited) : ℕ :=
  ((allRoles.map Role.getId).toFinset.filter fun id => visited id = none).card

theorem unseen_le_length (visited : Visited) : unseen allRoles visited ≤ allRoles.length := by
  calc unseen allRoles visited ≤ (allRoles.map Role.getId).toFinset.card :=
        Finset.card_filter_le _ _
    _ ≤ (allRoles.map Role.getId).length := List.toFinset_card_le _
    _ = allRoles.length := List.length_map _

/-- Nothing that was seen is forgotten. -/
def Visited.Grows (visited visited' : Visited) : Prop :=
  ∀ id, visited id ≠ none → visited' id ≠ none

theorem unseen_mono {visited visited' : Visited} (h : visited.Grows visited') :
    unseen allRoles visited' ≤ unseen allRoles visited := by
  apply Finset.card_le_card
  intro id hid
  rw [Finset.mem_filter] at hid ⊢
  refine ⟨hid.1, ?_⟩
  by_contra hne
  exact h id hne hid.2

theorem grows_update (visited : Visited) (id : GoString) (b : Bool) :
    visited.Grows (Function.update visited id (some b)) := by
  intro id' h
  by_cases hid : id' = id
  · rw [hid, Function.update_self]
    exact Option.some_ne_none b
  · rwa [Function.update_of_ne hid]

theorem unseen_update_lt {visited : Visited} {role : Role} (hrole : role ∈ allRoles)
    (hnew : visited role.getId = none) (b : Bool) :
    unseen allRoles (Function.update visited role.getId (some b)) < unseen allRoles visited := by
  apply Finset.card_lt_card
  rw [Finset.ssubset_iff_of_subset]
  · have hmem : role.getId ∈ (allRoles.map Role.getId).toFinset :=
      List.mem_toFinset.mpr (List.mem_map_of_mem hrole)
    refine ⟨role.getId, Finset.mem_filter.mpr ⟨hmem, hnew⟩, ?_⟩
    intro h
    have hnone := (Finset.mem_filter.mp h).2
    rw [Function.update_self] at hnone
    exact Option.some_ne_none b hnone
  · intro id hid
    rw [Finset.mem_filter] at hid ⊢
    refine ⟨hid.1, ?_⟩
    by_contra hne
    exact grows_update visited role.getId b id hne hid.2

/-- A search that ends, and forgets nothing. -/
def Ends (answer : Option (Bool × Visited)) (visited : Visited) : Prop :=
  ∃ found visited', answer = some (found, visited') ∧ visited.Grows visited'

theorem containsIn_ends (hmap : ∀ id r, roleMap id = some r → r ∈ allRoles)
    {search : Visited → Role → Option (Bool × Visited)} {depth : ℕ}
    (hsearch : ∀ visited r, r ∈ allRoles → unseen allRoles visited < depth →
      Ends (search visited r) visited) (subRoles : List GoString) :
    ∀ visited, unseen allRoles visited < depth →
      Ends (containsIn roleMap roleIds search subRoles visited) visited := by
  induction subRoles with
  | nil =>
    intro visited _
    exact ⟨false, visited, rfl, fun _ h => h⟩
  | cons subRole rest ih =>
    intro visited hdepth
    rw [containsIn]
    split_ifs with hid
    · exact ⟨true, visited, rfl, fun _ h => h⟩
    · cases hr : roleMap subRole with
      | none => exact ih visited hdepth
      | some r =>
        obtain ⟨found, visited', hfound, hgrows⟩ := hsearch visited r (hmap subRole r hr) hdepth
        simp only [hfound, Option.bind_eq_bind, Option.bind_some]
        split_ifs
        · exact ⟨true, visited', rfl, hgrows⟩
        · obtain ⟨b, visited'', hrest, hgrows'⟩ :=
            ih visited' (lt_of_le_of_lt (unseen_mono hgrows) hdepth)
          exact ⟨b, visited'', hrest, fun id h => hgrows' id (hgrows id h)⟩

theorem containsRole_ends (hmap : ∀ id r, roleMap id = some r → r ∈ allRoles) (depth : ℕ) :
    ∀ visited role, role ∈ allRoles → unseen allRoles visited < depth →
      Ends (containsRole roleMap roleIds depth visited role) visited := by
  induction depth with
  | zero =>
    intro visited role _ hdepth
    omega
  | succ depth ih =>
    intro visited role hrole hdepth
    rw [containsRole]
    cases hseen : visited role.getId with
    | some isContain => exact ⟨isContain, visited, rfl, fun _ h => h⟩
    | none =>
      have hlt := unseen_update_lt hrole hseen false
      have hloop : Ends (containsIn roleMap roleIds (containsRole roleMap roleIds depth) role.roles
          (Function.update visited role.getId (some false)))
          (Function.update visited role.getId (some false)) :=
        containsIn_ends hmap ih role.roles _ (by omega)
      obtain ⟨found, visited', hfound, hgrows⟩ := hloop
      have hupdate := grows_update visited role.getId false
      exact ⟨found, visited', hfound, fun id h => hgrows id (hupdate id h)⟩

theorem ancestorsIn_isSome (hmap : ∀ id r, roleMap id = some r → r ∈ allRoles) {depth : ℕ}
    (hdepth : allRoles.length < depth) (roles : List Role) (hroles : ∀ r ∈ roles, r ∈ allRoles) :
    ∀ visited, (ancestorsIn roleMap roleIds depth roles visited).isSome = true := by
  induction roles with
  | nil =>
    intro visited
    rfl
  | cons r rest ih =>
    intro visited
    have hrest := ih fun r' h => hroles r' (List.mem_cons_of_mem r h)
    rw [ancestorsIn]
    split
    · rw [Option.isSome_map]
      exact hrest visited
    · exact hrest visited
    · have hlt : unseen allRoles visited < depth :=
        lt_of_le_of_lt (unseen_le_length visited) hdepth
      have hsearch : Ends (containsRole roleMap roleIds depth visited r) visited :=
        containsRole_ends hmap depth visited r (hroles r List.mem_cons_self) hlt
      obtain ⟨found, visited', hfound, -⟩ := hsearch
      simp only [hfound, Option.bind_eq_bind, Option.bind_some]
      obtain ⟨res, hres⟩ :=
        Option.isSome_iff_exists.mp (hrest (Function.update visited' r.getId (some found)))
      rw [hres]
      rfl

end Termination

section Roles

theorem getAncestorRoles_isSome (db : Tables) (roles : List Role) :
    (getAncestorRoles db (roles.map Role.getId)).isSome = true := by
  cases roles with
  | nil => rfl
  | cons r rest =>
    rw [List.map_cons, getAncestorRoles]
    obtain ⟨⟨owner, name⟩, howner⟩ :=
      Option.isSome_iff_exists.mp (getOwnerAndNameFromIdNoCheck_getId r.owner r.name)
    rw [Role.getId]
    rw [howner, Option.bind_some]
    have hmap : ∀ id r, (getRoles db owner).reverse.find? (·.getId = id) = some r →
        r ∈ getRoles db owner := fun id r hr => List.mem_reverse.mp (List.mem_of_find?_eq_some hr)
    exact ancestorsIn_isSome hmap (by omega) _ (fun r hr => hr) _

theorem getRolesByUser_isSome (like : GoString → GoString → Bool) {db : Tables} {userId : GoString}
    {user : User}
    (huser : getUserById db userId = some (some user)) :
    (getRolesByUser like db userId).isSome = true := by
  rw [getRolesByUser, getRolesByUserInternal, huser]
  simp only [Option.bind_eq_bind, Option.bind_some]
  obtain ⟨roles, hroles⟩ := Option.isSome_iff_exists.mp (getAncestorRoles_isSome db _)
  rw [hroles]
  rfl

end Roles

end ArchGuard.Permissions
