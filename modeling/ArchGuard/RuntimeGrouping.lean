import ArchGuard.AncestorRoles
import ArchGuard.PolicyStore

/-! The grouping rules that an enforcer of a permission is given at run time: who is in the roles and
groups of the permission, by the transitive closure of the rules. -/
namespace ArchGuard.Permissions
open GoMethod GoText Method Object

/-- How the rules may fail to be built: with an error, or in calls that nest too deep. -/
inductive GroupingFailure
  | error (text : GoString)
  | deep
  deriving DecidableEq, Repr

/-- What is kept while the rules are built: the caches of the two resolvers, and the rules with the
keys of those that are there. -/
structure Grouping where
  rolesByOwner : GoString → Option (List Role)
  roleByID : GoString → Option Role
  groupsByOwner : GoString → Option (List Group)
  usersByGroup : GoString → Option (List GoString)
  groupingPolicies : List (List GoString)
  visitedPolicies : List GoString

abbrev Building (α : Type) := Method Grouping GroupingFailure α

def Grouping.empty : Grouping := ⟨fun _ => none, fun _ => none, fun _ => none, fun _ => none, [], []⟩

/-- The error of an identifier that has not one slash. -/
def wrongTokenCount (id : GoString) : GroupingFailure :=
  .error (utf8 "GetOwnerAndNameFromId() error, wrong token count for ID: " ++ id)

section RoleResolver

variable (db : Tables)

/-- `getRoles` of the resolver, which remembers the roles of an organization. -/
def resolveRoles (owner : GoString) : Building (List Role) := do
  let s ← get
  match s.rolesByOwner owner with
  | some roles => pure roles
  | none => do
    let roles := getRoles db owner
    modify fun s => { s with
      rolesByOwner := Function.update s.rolesByOwner owner (some roles)
      roleByID := fun id => (roles.reverse.find? (·.getId = id)).or (s.roleByID id) }
    pure roles

/-- The loop of `getRolesInRole` over the roles of a role. -/
def rolesInEach (search : GoString → List GoString → Building (List Role × List GoString)) :
    List GoString → List GoString → Building (List Role × List GoString)
  | [], visited => pure ([], visited)
  | subRole :: rest, visited =>
    if subRole ∈ visited then rolesInEach search rest visited
    else do
      let found ← search subRole visited
      let more ← rolesInEach search rest found.2
      pure (found.1 ++ more.1, more.2)

/-- `getRolesInRole`, in at most so many nested calls, with the identifiers visited after it. -/
def getRolesInRole : (depth : ℕ) → (permissionOwner roleId : GoString) → (visited : List GoString) →
    Building (List Role × List GoString)
  | 0, _, _, _ => throw .deep
  | depth+1, permissionOwner, roleId, visited =>
    let roleId := if roleId = star then getId permissionOwner star else roleId
    match getOwnerAndNameFromIdWithError roleId with
    | none => throw (wrongTokenCount roleId)
    | some (roleOwner, roleName) => do
      let roles ← resolveRoles db roleOwner
      if roleName = star then pure (roles, visited)
      else do
        let s ← get
        match s.roleByID roleId with
        | none => pure ([], visited)
        | some role => do
          let below ← rolesInEach (getRolesInRole depth roleOwner) role.roles (roleId :: visited)
          pure (role :: below.1, below.2)

end RoleResolver

section GroupResolver

variable (db : Tables) (userEnforcer : Option (GoString → Except GoString (List GoString)))
  (mapOrder : List GoString → List GoString)

/-- `GetGroups`; an empty owner stands for all. -/
def getGroups (owner : GoString) : List Group :=
  db.groups.filter fun g => owner = [] ∨ g.owner = owner

/-- `getGroups` of the resolver, which remembers the groups of an organization. -/
def resolveGroups (owner : GoString) : Building (List Group) := do
  let s ← get
  match s.groupsByOwner owner with
  | some groups => pure groups
  | none => do
    let groups := getGroups db owner
    modify fun s => { s with groupsByOwner := Function.update s.groupsByOwner owner (some groups) }
    pure groups

def usersInEach (search : GoString → Building (List GoString)) :
    List Group → Building (List GoString)
  | [] => pure []
  | group :: rest => do
    let users ← search (getId group.owner group.name)
    let more ← usersInEach search rest
    pure (users ++ more)

/-- `getUsersInGroup`, in at most so many nested calls. The users of a wildcard come out of a map, in
any order. -/
def getUsersInGroup : (depth : ℕ) → (permissionOwner groupId : GoString) → Building (List GoString)
  | 0, _, _ => throw .deep
  | depth+1, permissionOwner, groupId => do
    let groupId := getPermissionGroupId permissionOwner groupId
    let s ← get
    match s.usersByGroup groupId with
    | some users => pure users
    | none =>
      match getOwnerAndNameFromIdWithError groupId with
      | none => throw (wrongTokenCount groupId)
      | some (groupOwner, groupName) =>
        if groupName = star then do
          let groups ← resolveGroups db groupOwner
          let found ← usersInEach (getUsersInGroup depth groupOwner) groups
          let users := mapOrder found.dedup
          modify fun s => { s with
            usersByGroup := Function.update s.usersByGroup groupId (some users) }
          pure users
        else
          match userEnforcer with
          | none => pure []
          | some getAllUsersByGroup =>
            match getAllUsersByGroup groupId with
            | .error err => throw (.error err)
            | .ok users => do
              modify fun s => { s with
                usersByGroup := Function.update s.usersByGroup groupId (some users) }
              pure users

end GroupResolver

section Rules

def newRuntimeGroupingPolicy (sub roleId domain : GoString) : List GoString :=
  [sub, roleId, domain, [], [], []]

/-- The key of a rule: its parts, joined by a null character. -/
def ruleKey (rule : List GoString) : GoString := [0].intercalate rule

def appendRuntimeGroupingPolicy (rule : List GoString) : Building Unit :=
  modify fun s =>
    if ruleKey rule ∈ s.visitedPolicies then s
    else { s with
      groupingPolicies := s.groupingPolicies ++ [rule]
      visitedPolicies := ruleKey rule :: s.visitedPolicies }

/-- A rule for each domain, or one without. -/
def appendForDomains (domains : List GoString) (sub roleId : GoString) : Building Unit :=
  if domains ≠ [] then
    forEach (fun domain => appendRuntimeGroupingPolicy (newRuntimeGroupingPolicy sub roleId domain))
      domains
  else appendRuntimeGroupingPolicy (newRuntimeGroupingPolicy sub roleId [])

variable (db : Tables) (userEnforcer : Option (GoString → Except GoString (List GoString)))
  (mapOrder : List GoString → List GoString) (depth : ℕ)

def groupRules (domains : List GoString) (owner groupId : GoString) : Building Unit := do
  let groupSubject := getPermissionGroupSubject owner groupId
  let users ← getUsersInGroup db userEnforcer mapOrder depth owner groupId
  forEach (fun user => appendForDomains domains user groupSubject) users

/-- The rules of one role: of its users, of its groups with their users, and of its roles. -/
def roleRules (domains : List GoString) (role : Role) : Building Unit := do
  forEach (fun subUser => appendForDomains domains subUser role.getId) role.users
  forEach (fun subGroup => do
    appendForDomains domains (getPermissionGroupSubject role.owner subGroup) role.getId
    groupRules db userEnforcer mapOrder depth domains role.owner subGroup) role.groups
  forEach (fun subRole => appendForDomains domains subRole role.getId) role.roles

def permissionRules (permission : Permission) : Building Unit := do
  forEach (groupRules db userEnforcer mapOrder depth permission.domains permission.owner)
    permission.groups
  forEach (fun roleId => do
    let rolesInRole ← getRolesInRole db depth permission.owner roleId []
    forEach (roleRules db userEnforcer mapOrder depth permission.domains) rolesInRole.1)
    permission.roles

def getRuntimeGroupingPolicies (permissions : List Permission) : Building (List (List GoString)) := do
  forEach (permissionRules db userEnforcer mapOrder depth) permissions
  let s ← get
  pure s.groupingPolicies

end Rules

section Names

variable (userEnforcer : Option (GoString → Except GoString (List GoString)))

/-- An identifier with one slash and no wildcard. -/
def Explicit (id : GoString) : Prop :=
  ∃ owner name, getOwnerAndNameFromIdWithError id = some (owner, name) ∧ name ≠ star

/-- The users that the user enforcer reports for a group; there are none without an enforcer. -/
def reported (groupId : GoString) : List GoString :=
  match userEnforcer with
  | none => []
  | some getAllUsersByGroup =>
    match getAllUsersByGroup groupId with
    | .error _ => []
    | .ok users => users

def domainsOf (domains : List GoString) : List GoString := if domains = [] then [[]] else domains

end Names

section Adding

variable {α β : Type} (db : Tables)
  (userEnforcer : Option (GoString → Except GoString (List GoString)))

/-- A rule whose key gives it back. -/
def PlainRule (rule : List GoString) : Prop := rule ≠ [] ∧ ∀ part ∈ rule, 0 ∉ part

/-- The caches hold what they should, and the keys are those of the rules. -/
structure Valid (s : Grouping) : Prop where
  rolesByOwner : ∀ owner roles, s.rolesByOwner owner = some roles →
    roles = getRoles db owner ∧ ∀ r ∈ roles, (s.roleByID r.getId).isSome = true
  roleByID : ∀ id r, s.roleByID id = some r → r ∈ db.roles ∧ r.getId = id
  usersByGroup : ∀ groupId users, s.usersByGroup groupId = some users →
    users = reported userEnforcer groupId
  keys : ∀ key, key ∈ s.visitedPolicies ↔ ∃ rule ∈ s.groupingPolicies, ruleKey rule = key
  plain : ∀ rule ∈ s.groupingPolicies, PlainRule rule

/-- The method succeeds with an answer that meets `P`, and adds exactly the rules `S`. -/
def Adds (m : Building α) (P : α → Prop) (S : List GoString → Prop) : Prop :=
  ∀ s, Valid db userEnforcer s → ∃ a s', m.call s = (.ok a, s') ∧ Valid db userEnforcer s' ∧ P a ∧
    ∀ rule, rule ∈ s'.groupingPolicies ↔ rule ∈ s.groupingPolicies ∨ S rule

variable {db userEnforcer} {m : Building α} {f : α → Building β} {P : α → Prop} {Q : β → Prop}
  {S T : List GoString → Prop}

theorem ruleKey_inj {rule rule' : List GoString} (h : PlainRule rule) (h' : PlainRule rule')
    (hkey : ruleKey rule = ruleKey rule') : rule = rule' := by
  calc rule = (ruleKey rule).splitOn 0 := (List.splitOn_intercalate 0 h.2 h.1).symm
    _ = (ruleKey rule').splitOn 0 := by rw [hkey]
    _ = rule' := List.splitOn_intercalate 0 h'.2 h'.1

theorem adds_pure {a : α} (h : P a) : Adds db userEnforcer (pure a) P fun _ => False :=
  fun s hs => ⟨a, s, rfl, hs, h, fun rule => by rw [or_false]⟩

theorem Adds.bind (hm : Adds db userEnforcer m P S)
    (hf : ∀ a, P a → Adds db userEnforcer (f a) Q T) :
    Adds db userEnforcer (m >>= f) Q fun rule => S rule ∨ T rule := by
  intro s hs
  obtain ⟨a, s', hcall, hs', ha, hrules⟩ := hm s hs
  obtain ⟨b, s'', hcall', hs'', hb, hrules'⟩ := hf a ha s' hs'
  refine ⟨b, s'', (bind_ok s).mpr ⟨a, s', hcall, hcall'⟩, hs'', hb, fun rule => ?_⟩
  rw [hrules', hrules, or_assoc]

theorem Adds.after (hm : Adds db userEnforcer m P fun _ => False)
    (hf : ∀ a, P a → Adds db userEnforcer (f a) Q T) : Adds db userEnforcer (m >>= f) Q T := by
  intro s hs
  obtain ⟨b, s', hcall, hs', hb, hrules⟩ := hm.bind hf s hs
  exact ⟨b, s', hcall, hs', hb, fun rule => by simp only [hrules, false_or]⟩

theorem Adds.mono {P' : α → Prop} (hm : Adds db userEnforcer m P S) (hP : ∀ a, P a → P' a)
    (hS : ∀ rule, S rule ↔ T rule) : Adds db userEnforcer m P' T := by
  intro s hs
  obtain ⟨a, s', hcall, hs', ha, hrules⟩ := hm s hs
  exact ⟨a, s', hcall, hs', hP a ha, fun rule => by rw [hrules, hS]⟩

theorem Adds.forEach {f : α → Building Unit} {as : List α} {S : α → List GoString → Prop}
    (h : ∀ a ∈ as, Adds db userEnforcer (f a) (fun _ => True) (S a)) :
    Adds db userEnforcer (forEach f as) (fun _ => True) fun rule => ∃ a ∈ as, S a rule := by
  induction as with
  | nil => exact (adds_pure trivial).mono (fun _ h => h) fun rule => by simp
  | cons a as ih =>
    have hrest := ih fun b hb => h b (List.mem_cons_of_mem a hb)
    refine ((h a List.mem_cons_self).bind fun _ _ => hrest).mono (fun _ h => h) fun rule => ?_
    rw [List.exists_mem_cons_iff]

theorem adds_appendRule {rule : List GoString} (hplain : PlainRule rule) :
    Adds db userEnforcer (appendRuntimeGroupingPolicy rule) (fun _ => True) (· = rule) := by
  intro s hs
  refine ⟨(), _, rfl, ?_⟩
  dsimp only
  by_cases hkey : ruleKey rule ∈ s.visitedPolicies
  · rw [if_pos hkey]
    refine ⟨hs, trivial, fun rule' => ?_⟩
    obtain ⟨old, hold, heq⟩ := (hs.keys _).mp hkey
    rw [ruleKey_inj (hs.plain old hold) hplain heq] at hold
    refine ⟨Or.inl, ?_⟩
    rintro (h | rfl)
    · exact h
    · exact hold
  · rw [if_neg hkey]
    refine ⟨⟨hs.rolesByOwner, hs.roleByID, hs.usersByGroup, fun key => ?_, ?_⟩, trivial, ?_⟩
    · simp only [List.mem_cons, hs.keys, List.mem_append, List.not_mem_nil, or_false,
        or_and_right, exists_or, exists_eq_left]
      rw [or_comm, eq_comm]
    · intro rule' hrule'
      rcases List.mem_append.mp hrule' with hold | hnew
      · exact hs.plain rule' hold
      · rwa [List.mem_singleton.mp hnew]
    · intro rule'
      rw [List.mem_append, List.mem_singleton]

theorem adds_appendForDomains {domains : List GoString} {sub roleId : GoString}
    (hdomains : ∀ domain ∈ domains, 0 ∉ domain) (hsub : 0 ∉ sub) (hrole : 0 ∉ roleId) :
    Adds db userEnforcer (appendForDomains domains sub roleId) (fun _ => True)
      fun rule => ∃ domain ∈ domainsOf domains, rule = newRuntimeGroupingPolicy sub roleId domain := by
  have hplain {domain : GoString} (h : 0 ∉ domain) :
      PlainRule (newRuntimeGroupingPolicy sub roleId domain) := by
    refine ⟨List.cons_ne_nil _ _, ?_⟩
    simp only [newRuntimeGroupingPolicy, List.forall_mem_cons]
    exact ⟨hsub, hrole, h, List.not_mem_nil, List.not_mem_nil, List.not_mem_nil,
      fun part hpart => absurd hpart List.not_mem_nil⟩
  rw [appendForDomains, domainsOf]
  by_cases hnone : domains = []
  · rw [if_neg (not_not.mpr hnone), if_pos hnone]
    refine (adds_appendRule (hplain List.not_mem_nil)).mono (fun _ h => h) fun rule => ?_
    simp only [List.mem_singleton, exists_eq_left]
  · rw [if_pos hnone, if_neg hnone]
    exact Adds.forEach fun domain hdomain => adds_appendRule (hplain (hdomains domain hdomain))

end Adding

section Resolving

variable {db : Tables} {userEnforcer : Option (GoString → Except GoString (List GoString))}
  {mapOrder : List GoString → List GoString} {depth : ℕ}

theorem find_role {roles : List Role} {id : GoString} {r : Role}
    (h : roles.reverse.find? (·.getId = id) = some r) : r ∈ roles ∧ r.getId = id :=
  ⟨List.mem_reverse.mp (List.mem_of_find?_eq_some h), by simpa using List.find?_some h⟩

theorem resolveRoles_ok {s : Grouping} (hs : Valid db userEnforcer s) (owner : GoString) :
    ∃ s', (resolveRoles db owner).call s = (.ok (getRoles db owner), s') ∧
      Valid db userEnforcer s' ∧ s'.groupingPolicies = s.groupingPolicies ∧
        ∀ r ∈ getRoles db owner, (s'.roleByID r.getId).isSome = true := by
  rw [resolveRoles, call_get_bind]
  cases hcache : s.rolesByOwner owner with
  | some roles =>
    obtain ⟨rfl, hknown⟩ := hs.rolesByOwner owner roles hcache
    exact ⟨s, rfl, hs, rfl, hknown⟩
  | none =>
    have hnew {id : GoString} (h : (s.roleByID id).isSome = true ∨
        ∃ r ∈ getRoles db owner, r.getId = id) :
        (((getRoles db owner).reverse.find? (·.getId = id)).or (s.roleByID id)).isSome = true := by
      rw [Option.isSome_or, Bool.or_eq_true]
      rcases h with hold | ⟨r, hr, hid⟩
      · exact Or.inr hold
      · apply Or.inl
        rw [List.find?_isSome]
        exact ⟨r, List.mem_reverse.mpr hr, decide_eq_true hid⟩
    refine ⟨_, rfl, ⟨?_, ?_, hs.usersByGroup, hs.keys, hs.plain⟩, rfl,
      fun r hr => hnew (Or.inr ⟨r, hr, rfl⟩)⟩
    · intro owner' roles hroles
      dsimp only at hroles
      by_cases ho : owner' = owner
      · rw [ho, Function.update_self] at hroles
        obtain rfl := Option.some.inj hroles
        rw [ho]
        exact ⟨rfl, fun r hr => hnew (Or.inr ⟨r, hr, rfl⟩)⟩
      · rw [Function.update_of_ne ho] at hroles
        obtain ⟨heq, hknown⟩ := hs.rolesByOwner owner' roles hroles
        exact ⟨heq, fun r hr => hnew (Or.inl (hknown r hr))⟩
    · intro id r hr
      rcases Option.or_eq_some_iff.mp hr with hfind | ⟨-, hold⟩
      · obtain ⟨hmem, hid⟩ := find_role hfind
        exact ⟨(mem_getRoles.mp hmem).1, hid⟩
      · exact hs.roleByID id r hold

theorem mem_getRoles_of_parse {roleId owner name : GoString} {r : Role}
    (hparse : getOwnerAndNameFromIdWithError roleId = some (owner, name)) (hr : r ∈ db.roles)
    (hid : r.getId = roleId) : r ∈ getRoles db owner := by
  obtain ⟨hcut, howner, hname⟩ := getOwnerAndNameFromId_eq_some.mp hparse
  exact mem_getRoles.mpr ⟨hr, Or.inr (parts_of_getId howner hname (hid.trans hcut)).1⟩

theorem Explicit.ne_star {id : GoString} (h : Explicit id) : id ≠ star := by
  rintro rfl
  obtain ⟨owner, name, hparse, -⟩ := h
  have hnone : getOwnerAndNameFromIdWithError star = none := by decide
  rw [hnone] at hparse
  cases hparse

theorem Explicit.groupId {id : GoString} (h : Explicit id) (owner : GoString) :
    getPermissionGroupId owner id = id := if_neg h.ne_star

theorem reported_some {getAllUsersByGroup : GoString → Except GoString (List GoString)}
    {groupId : GoString} {users : List GoString} (h : getAllUsersByGroup groupId = .ok users) :
    reported (some getAllUsersByGroup) groupId = users := by
  simp only [reported, h]

theorem getUsersInGroup_adds {owner groupId : GoString} (hexplicit : Explicit groupId)
    (hanswers : ∀ getAllUsersByGroup, userEnforcer = some getAllUsersByGroup →
      ∃ users, getAllUsersByGroup groupId = .ok users) :
    Adds db userEnforcer (getUsersInGroup db userEnforcer mapOrder (depth+1) owner groupId)
      (· = reported userEnforcer groupId) fun _ => False := by
  intro s hs
  obtain ⟨groupOwner, groupName, hparse, hname⟩ := hexplicit
  have hid : getPermissionGroupId owner groupId = groupId :=
    Explicit.groupId ⟨groupOwner, groupName, hparse, hname⟩ owner
  rw [getUsersInGroup.eq_def]
  dsimp only
  rw [hid, call_get_bind]
  cases hcache : s.usersByGroup groupId with
  | some users =>
    exact ⟨users, s, rfl, hs, hs.usersByGroup groupId users hcache, fun rule => by rw [or_false]⟩
  | none =>
    dsimp only
    rw [hparse]
    dsimp only
    rw [if_neg hname]
    rcases userEnforcer with _ | getAllUsersByGroup
    · exact ⟨[], s, rfl, hs, rfl, fun rule => by rw [or_false]⟩
    · obtain ⟨users, husers⟩ := hanswers getAllUsersByGroup rfl
      dsimp only
      rw [husers]
      refine ⟨users, _, rfl, ⟨hs.rolesByOwner, hs.roleByID, ?_, hs.keys, hs.plain⟩,
        (reported_some husers).symm, fun rule => by rw [or_false]⟩
      intro groupId' users' hcached
      dsimp only at hcached
      by_cases hgroup : groupId' = groupId
      · rw [hgroup, Function.update_self] at hcached
        rw [hgroup, reported_some husers]
        exact (Option.some.inj hcached).symm
      · rw [Function.update_of_ne hgroup] at hcached
        exact hs.usersByGroup groupId' users' hcached

end Resolving

section Unfolding

variable {db : Tables} {userEnforcer : Option (GoString → Except GoString (List GoString))}
  {E : Role → Prop} {depth : ℕ} {visited visited' : List GoString} {roles : List Role}

def unvisited (db : Tables) (visited : List GoString) : ℕ :=
  ((db.roles.map Role.getId).toFinset \ visited.toFinset).card

theorem unvisited_mono (h : ∀ id ∈ visited, id ∈ visited') :
    unvisited db visited' ≤ unvisited db visited := by
  apply Finset.card_le_card
  apply Finset.sdiff_subset_sdiff (Finset.Subset.refl _)
  intro id hid
  exact List.mem_toFinset.mpr (h id (List.mem_toFinset.mp hid))

theorem unvisited_cons_lt {r : Role} (hr : r ∈ db.roles) (hnew : r.getId ∉ visited) :
    unvisited db (r.getId :: visited) < unvisited db visited := by
  apply Finset.card_lt_card
  refine (Finset.ssubset_iff_of_subset ?_).mpr ⟨r.getId, ?_, ?_⟩
  · apply Finset.sdiff_subset_sdiff (Finset.Subset.refl _)
    intro id hid
    exact List.mem_toFinset.mpr (List.mem_cons_of_mem _ (List.mem_toFinset.mp hid))
  · rw [Finset.mem_sdiff, List.mem_toFinset, List.mem_toFinset]
    exact ⟨List.mem_map_of_mem hr, hnew⟩
  · rw [Finset.mem_sdiff, not_and_not_right]
    exact fun _ => List.mem_toFinset.mpr List.mem_cons_self

theorem unvisited_le (visited : List GoString) : unvisited db visited ≤ db.roles.length := by
  calc unvisited db visited ≤ (db.roles.map Role.getId).toFinset.card :=
        Finset.card_le_card Finset.sdiff_subset
    _ ≤ (db.roles.map Role.getId).length := List.toFinset_card_le _
    _ = db.roles.length := List.length_map _

/-- What an unfolding from some identifiers has done: it has visited the roles that it returns, which
are below those identifiers, and whatever they contain. -/
structure UnfoldedFrom (db : Tables) (start : GoString → Prop) (visited : List GoString)
    (roles : List Role) (visited' : List GoString) : Prop where
  visits : ∀ id, id ∈ visited' ↔ id ∈ visited ∨ ∃ r ∈ roles, r.getId = id
  known : ∀ r ∈ roles, r ∈ db.roles
  below : ∀ r ∈ roles, ∃ s ∈ db.roles, start s.getId ∧
    Relation.ReflTransGen (Contains db.roles) s r
  closed : ∀ r ∈ roles, ∀ s, Contains db.roles r s → s.getId ∈ visited'
  started : ∀ s ∈ db.roles, start s.getId → s.getId ∈ visited'

theorem UnfoldedFrom.grows {start : GoString → Prop} (h : UnfoldedFrom db start visited roles visited') :
    ∀ id ∈ visited, id ∈ visited' := fun id hid => (h.visits id).mpr (Or.inl hid)

theorem unfoldedFrom_nil {start : GoString → Prop}
    (h : ∀ s ∈ db.roles, start s.getId → s.getId ∈ visited) :
    UnfoldedFrom db start visited [] visited :=
  ⟨fun id => by simp, fun r hr => absurd hr List.not_mem_nil,
    fun r hr => absurd hr List.not_mem_nil, fun r hr => absurd hr List.not_mem_nil, h⟩

theorem UnfoldedFrom.append {visited'' : List GoString} {more : List Role}
    {start start' : GoString → Prop} (h : UnfoldedFrom db start visited roles visited')
    (h' : UnfoldedFrom db start' visited' more visited'') :
    UnfoldedFrom db (fun id => start id ∨ start' id) visited (roles ++ more) visited'' := by
  refine ⟨fun id => ?_, fun r hr => ?_, fun r hr => ?_, fun r hr s hedge => ?_, fun s hs hstart => ?_⟩
  · rw [h'.visits, h.visits, or_assoc]
    simp only [List.mem_append, or_and_right, exists_or]
  · exact (List.mem_append.mp hr).elim (h.known r) (h'.known r)
  · rcases List.mem_append.mp hr with hr | hr
    · obtain ⟨s, hs, hstart, hreach⟩ := h.below r hr
      exact ⟨s, hs, Or.inl hstart, hreach⟩
    · obtain ⟨s, hs, hstart, hreach⟩ := h'.below r hr
      exact ⟨s, hs, Or.inr hstart, hreach⟩
  · rcases List.mem_append.mp hr with hr | hr
    · exact h'.grows _ (h.closed r hr s hedge)
    · exact h'.closed r hr s hedge
  · rcases hstart with hstart | hstart
    · exact h'.grows _ (h.started s hs hstart)
    · exact h'.started s hs hstart

theorem UnfoldedFrom.congr {start start' : GoString → Prop}
    (h : UnfoldedFrom db start visited roles visited') (hiff : ∀ id, start id ↔ start' id) :
    UnfoldedFrom db start' visited roles visited' := by
  obtain rfl : start = start' := funext fun id => propext (hiff id)
  exact h

theorem UnfoldedFrom.cons {role : Role} (hrole : role ∈ db.roles)
    (h : UnfoldedFrom db (· ∈ role.roles) (role.getId :: visited) roles visited') :
    UnfoldedFrom db (· = role.getId) visited (role :: roles) visited' := by
  have hself : role.getId ∈ visited' := h.grows _ List.mem_cons_self
  refine ⟨fun id => ?_, fun r hr => ?_, fun r hr => ?_, fun r hr s hedge => ?_, fun s _ hstart => ?_⟩
  · rw [h.visits, List.mem_cons, List.exists_mem_cons_iff, eq_comm (a := id)]
    tauto
  · rcases List.mem_cons.mp hr with rfl | hr
    · exact hrole
    · exact h.known r hr
  · rcases List.mem_cons.mp hr with rfl | hr
    · exact ⟨r, hrole, rfl, .refl⟩
    · obtain ⟨s, hs, hstart, hreach⟩ := h.below r hr
      exact ⟨role, hrole, rfl, .head ⟨hs, hstart⟩ hreach⟩
  · rcases List.mem_cons.mp hr with rfl | hr
    · exact h.started s hedge.1 hedge.2
    · exact h.closed r hr s hedge
  · rwa [hstart]

variable (hclosed : ∀ r s, E r → Contains db.roles r s → E s)
  (hexplicit : ∀ r, E r → ∀ id ∈ r.roles, Explicit id)

theorem rolesInEach_adds {search : GoString → List GoString → Building (List Role × List GoString)}
    (hsearch : ∀ id visited, Explicit id → (∀ s ∈ db.roles, s.getId = id → E s) → id ∉ visited →
      unvisited db visited < depth → Adds db userEnforcer (search id visited)
        (fun found => UnfoldedFrom db (· = id) visited found.1 found.2) fun _ => False)
    (ids : List GoString) (hids : ∀ id ∈ ids, Explicit id ∧ ∀ s ∈ db.roles, s.getId = id → E s) :
    ∀ visited, unvisited db visited < depth → Adds db userEnforcer (rolesInEach search ids visited)
      (fun found => UnfoldedFrom db (· ∈ ids) visited found.1 found.2) fun _ => False := by
  induction ids with
  | nil =>
    intro visited _
    exact adds_pure (unfoldedFrom_nil fun s _ hs => absurd hs List.not_mem_nil)
  | cons id rest ih =>
    intro visited hdepth
    obtain ⟨⟨hid, hE⟩, hrest⟩ := List.forall_mem_cons.mp hids
    rw [rolesInEach]
    split_ifs with hseen
    · refine (ih hrest visited hdepth).mono (fun found hfound => ?_) fun _ => Iff.rfl
      refine ⟨hfound.visits, hfound.known, fun r hr => ?_, hfound.closed, fun s hs hstart => ?_⟩
      · obtain ⟨s, hs, hstart, hreach⟩ := hfound.below r hr
        exact ⟨s, hs, List.mem_cons_of_mem id hstart, hreach⟩
      · rcases List.mem_cons.mp hstart with hstart | hstart
        · exact hfound.grows _ (hstart ▸ hseen)
        · exact hfound.started s hs hstart
    · have hfirst := hsearch id visited hid hE hseen hdepth
      refine hfirst.after fun found hfound => ?_
      have hless : unvisited db found.2 < depth :=
        lt_of_le_of_lt (unvisited_mono hfound.grows) hdepth
      refine (ih hrest found.2 hless).after fun more hmore => adds_pure ?_
      exact (hfound.append hmore).congr fun id' => List.mem_cons.symm

include hclosed hexplicit

theorem getRolesInRole_adds (depth : ℕ) : ∀ owner id visited, Explicit id →
    (∀ s ∈ db.roles, s.getId = id → E s) → id ∉ visited → unvisited db visited < depth →
      Adds db userEnforcer (getRolesInRole db depth owner id visited)
        (fun found => UnfoldedFrom db (· = id) visited found.1 found.2) fun _ => False := by
  induction depth with
  | zero =>
    intro owner id visited _ _ _ hdepth
    omega
  | succ depth ih =>
    intro owner id visited hid hE hnew hdepth s hs
    have hstar := hid.ne_star
    obtain ⟨roleOwner, roleName, hparse, hname⟩ := hid
    obtain ⟨s', hcall, hs', hrules, hknown⟩ := resolveRoles_ok hs roleOwner
    rw [getRolesInRole.eq_def]
    dsimp only
    rw [if_neg hstar, hparse]
    dsimp only
    rw [call_bind, hcall]
    dsimp only
    rw [if_neg hname, call_get_bind]
    cases hlook : s'.roleByID id with
    | none =>
      refine ⟨([], visited), s', rfl, hs', unfoldedFrom_nil fun r hr hrid => ?_, fun rule => ?_⟩
      · have hsome := hknown r (mem_getRoles_of_parse hparse hr hrid)
        rw [hrid, hlook] at hsome
        cases hsome
      · rw [hrules, or_false]
    | some role =>
      obtain ⟨hrole, rfl⟩ := hs'.roleByID id role hlook
      have hself := hE role hrole rfl
      have hless := unvisited_cons_lt hrole hnew
      have hloop := rolesInEach_adds (E := E) (ih roleOwner) role.roles
        (fun sub hsub => ⟨hexplicit role hself sub hsub, fun r hr hrid =>
          hclosed role r hself ⟨hr, hrid ▸ hsub⟩⟩) (role.getId :: visited) (by omega)
      have hwhole := hloop.after (f := fun below => pure (role :: below.1, below.2))
        (Q := fun found => UnfoldedFrom db (· = role.getId) visited found.1 found.2)
        fun below hbelow => adds_pure (hbelow.cons hrole)
      obtain ⟨found, s'', hcall', hs'', hfound, hrules'⟩ := hwhole s' hs'
      refine ⟨found, s'', hcall', hs'', hfound, fun rule => ?_⟩
      rw [hrules', hrules]

omit hclosed hexplicit

theorem UnfoldedFrom.mem_iff {start : GoString → Prop}
    (h : UnfoldedFrom db start [] roles visited')
    (hunique : ∀ s ∈ db.roles, start s.getId → ∀ r, Relation.ReflTransGen (Contains db.roles) s r →
      ∀ r' ∈ db.roles, r'.getId = r.getId → r' = r) {r : Role} :
    r ∈ roles ↔ ∃ s ∈ db.roles, start s.getId ∧ Relation.ReflTransGen (Contains db.roles) s r := by
  constructor
  · exact h.below r
  · rintro ⟨s, hs, hstart, hreach⟩
    have hvisited (t : Role) (hst : Relation.ReflTransGen (Contains db.roles) s t)
        (ht : t.getId ∈ visited') : t ∈ roles := by
      obtain ⟨t', ht', hid⟩ := ((h.visits _).mp ht).resolve_left List.not_mem_nil
      rwa [← hunique s hs hstart t hst t' (h.known t' ht') hid]
    induction hreach with
    | refl => exact hvisited s .refl (h.started s hs hstart)
    | tail hfront hedge ih => exact hvisited _ (hfront.tail hedge) (h.closed _ ih _ hedge)

end Unfolding

section Ending

variable {α β : Type} (db : Tables)

/-- The roles that are remembered are roles of the tables. -/
structure Known (s : Grouping) : Prop where
  rolesByOwner : ∀ owner roles, s.rolesByOwner owner = some roles → ∀ r ∈ roles, r ∈ db.roles
  roleByID : ∀ id r, s.roleByID id = some r → r ∈ db.roles ∧ r.getId = id

/-- The calls of a method do not nest too deep, and an answer meets `P`. -/
def Halts (m : Building α) (P : α → Prop) : Prop :=
  ∀ s, Known db s → Known db (m.call s).2 ∧ (m.call s).1 ≠ .error .deep ∧
    ∀ a, (m.call s).1 = .ok a → P a

variable {db} {m : Building α} {f : α → Building β} {P : α → Prop} {Q : β → Prop} {depth : ℕ}

theorem halts_pure {a : α} (h : P a) : Halts db (pure a) P := by
  refine fun s hs => ⟨hs, fun herr => ?_, fun b hb => ?_⟩
  · cases herr
  · exact Except.ok.inj hb ▸ h

theorem halts_throw {err : GroupingFailure} (h : err ≠ .deep) : Halts db (throw err) P := by
  refine fun s hs => ⟨hs, fun herr => h (Except.error.inj herr), fun b hb => ?_⟩
  cases hb

theorem halts_modify {g : Grouping → Grouping} (h : ∀ s, Known db s → Known db (g s)) :
    Halts db (modify g) fun _ => True := by
  refine fun s hs => ⟨h s hs, fun herr => ?_, fun _ _ => trivial⟩
  cases herr

theorem Halts.bind (hm : Halts db m P) (hf : ∀ a, P a → Halts db (f a) Q) : Halts db (m >>= f) Q := by
  intro s hs
  obtain ⟨hknown, hdeep, hP⟩ := hm s hs
  rw [call_bind]
  rcases hcall : m.call s with ⟨⟨err⟩ | ⟨a⟩, s'⟩
  · rw [hcall] at hknown hdeep
    refine ⟨hknown, fun herr => hdeep ?_, fun b hb => ?_⟩
    · rw [Except.error.inj herr]
    · cases hb
  · rw [hcall] at hknown hP
    exact hf a (hP a rfl) s' hknown

theorem halts_get_bind {f : Grouping → Building β} (hf : ∀ s, Known db s → Halts db (f s) Q) :
    Halts db (get >>= f) Q := by
  intro s hs
  rw [call_get_bind]
  exact hf s hs s hs

theorem Halts.forEach {f : α → Building Unit} {as : List α}
    (h : ∀ a ∈ as, Halts db (f a) fun _ => True) : Halts db (forEach f as) fun _ => True := by
  induction as with
  | nil => exact halts_pure trivial
  | cons a as ih =>
    exact (h a List.mem_cons_self).bind fun _ _ => ih fun b hb => h b (List.mem_cons_of_mem a hb)

theorem resolveRoles_halts (owner : GoString) :
    Halts db (resolveRoles db owner) fun roles => ∀ r ∈ roles, r ∈ db.roles := by
  apply halts_get_bind
  intro s hs
  have hall : ∀ r ∈ getRoles db owner, r ∈ db.roles := fun r hr => (mem_getRoles.mp hr).1
  cases hcache : s.rolesByOwner owner with
  | some roles => exact halts_pure (hs.rolesByOwner owner roles hcache)
  | none =>
    refine (halts_modify fun t ht => ⟨fun owner' roles hroles => ?_, fun id r hr => ?_⟩).bind
      fun _ _ => halts_pure hall
    · dsimp only at hroles
      by_cases ho : owner' = owner
      · rw [ho, Function.update_self] at hroles
        exact Option.some.inj hroles ▸ hall
      · rw [Function.update_of_ne ho] at hroles
        exact ht.rolesByOwner owner' roles hroles
    · rcases Option.or_eq_some_iff.mp hr with hfind | ⟨-, hold⟩
      · obtain ⟨hmem, hid⟩ := find_role hfind
        exact ⟨(mem_getRoles.mp hmem).1, hid⟩
      · exact ht.roleByID id r hold

/-- On any roles the unfolding ends, if the calls may nest deeper than there are roles to visit. -/
theorem getRolesInRole_halts (depth : ℕ) : ∀ owner id visited, id ∉ visited →
    unvisited db visited < depth → Halts db (getRolesInRole db depth owner id visited)
      fun found => (∀ id' ∈ visited, id' ∈ found.2) ∧ ∀ r ∈ found.1, r ∈ db.roles := by
  induction depth with
  | zero =>
    intro owner id visited _ hdepth
    omega
  | succ depth ih =>
    intro owner id visited hnew hdepth
    have hloop (roleOwner : GoString) (ids : List GoString) : ∀ visited,
        unvisited db visited < depth →
          Halts db (rolesInEach (getRolesInRole db depth roleOwner) ids visited)
            fun found => (∀ id' ∈ visited, id' ∈ found.2) ∧ ∀ r ∈ found.1, r ∈ db.roles := by
      induction ids with
      | nil =>
        exact fun visited _ => halts_pure ⟨fun _ h => h, fun r hr => absurd hr List.not_mem_nil⟩
      | cons sub rest ihrest =>
        intro visited hdepth
        rw [rolesInEach]
        split_ifs with hseen
        · exact ihrest visited hdepth
        · refine (ih roleOwner sub visited hseen hdepth).bind fun found ⟨hgrows, hfound⟩ => ?_
          have hless : unvisited db found.2 < depth :=
            lt_of_le_of_lt (unvisited_mono hgrows) hdepth
          refine (ihrest found.2 hless).bind fun more ⟨hgrows', hmore⟩ => halts_pure ?_
          refine ⟨fun id' hid' => hgrows' id' (hgrows id' hid'), fun r hr => ?_⟩
          exact (List.mem_append.mp hr).elim (hfound r) (hmore r)
    rw [getRolesInRole.eq_def]
    dsimp only
    split
    · exact halts_throw GroupingFailure.noConfusion
    · rename_i roleOwner roleName hparse
      refine (resolveRoles_halts roleOwner).bind fun roles hroles => ?_
      by_cases hwild : roleName = star
      · rw [if_pos hwild]
        exact halts_pure ⟨fun _ h => h, hroles⟩
      rw [if_neg hwild]
      apply halts_get_bind
      intro s hs
      split
      · exact halts_pure ⟨fun _ h => h, fun r hr => absurd hr List.not_mem_nil⟩
      · rename_i role hlook
        obtain ⟨hrole, hid⟩ := hs.roleByID _ role hlook
        -- a wildcard has been answered, so this is the identifier itself
        have hself : (if id = star then getId owner star else id) = id := by
          by_cases hstar : id = star
          · rw [if_pos hstar] at hparse
            obtain ⟨hcut, howner, hname⟩ := getOwnerAndNameFromId_eq_some.mp hparse
            exact absurd (parts_of_getId howner hname hcut).2.symm hwild
          · exact if_neg hstar
        rw [hself] at hid ⊢
        have hless := unvisited_cons_lt hrole (hid ▸ hnew)
        rw [hid] at hless
        refine (hloop roleOwner role.roles (id :: visited) (by omega)).bind
          fun below ⟨hgrows, hbelow⟩ => halts_pure ?_
        exact ⟨fun id' hid' => hgrows id' (List.mem_cons_of_mem id hid'),
          List.forall_mem_cons.mpr ⟨hrole, hbelow⟩⟩

/-- An identifier that stands for all groups, or for those of an organization. -/
def Wildcard (id : GoString) : Prop :=
  id = star ∨ ∃ owner, getOwnerAndNameFromIdWithError id = some (owner, star)

variable {userEnforcer : Option (GoString → Except GoString (List GoString))}
  {mapOrder : List GoString → List GoString} {domains : List GoString}

theorem getUsersInGroup_halts {groupId : GoString} (hwild : ¬Wildcard groupId)
    (owner : GoString) :
    Halts db (getUsersInGroup db userEnforcer mapOrder (depth+1) owner groupId)
      fun _ => True := by
  obtain ⟨hstar, hname⟩ := not_or.mp hwild
  have hid : getPermissionGroupId owner groupId = groupId := if_neg hstar
  rw [getUsersInGroup.eq_def]
  dsimp only
  rw [hid]
  apply halts_get_bind
  intro s _
  split
  · exact halts_pure trivial
  split
  · exact halts_throw GroupingFailure.noConfusion
  · rename_i groupOwner groupName hparse
    rw [if_neg fun (h : groupName = star) => hname ⟨groupOwner, h ▸ hparse⟩]
    split
    · exact halts_pure trivial
    split
    · exact halts_throw GroupingFailure.noConfusion
    · refine (halts_modify fun t ht => ?_).bind fun _ _ => halts_pure trivial
      exact ⟨ht.rolesByOwner, ht.roleByID⟩

theorem appendRule_halts (rule : List GoString) :
    Halts db (appendRuntimeGroupingPolicy rule) fun _ => True := by
  apply halts_modify
  intro s hs
  split_ifs
  · exact hs
  · exact ⟨hs.rolesByOwner, hs.roleByID⟩

theorem appendForDomains_halts (sub roleId : GoString) :
    Halts db (appendForDomains domains sub roleId) fun _ => True := by
  rw [appendForDomains]
  split_ifs
  · exact Halts.forEach fun domain _ => appendRule_halts _
  · exact appendRule_halts _

theorem groupRules_halts {groupId : GoString} (hwild : ¬Wildcard groupId) (owner : GoString) :
    Halts db (groupRules db userEnforcer mapOrder (depth+1) domains owner groupId) fun _ => True :=
  (getUsersInGroup_halts hwild owner).bind fun _ _ =>
    Halts.forEach fun _ _ => appendForDomains_halts _ _

theorem roleRules_halts {Q : Role} (hwild : ∀ groupId ∈ Q.groups, ¬Wildcard groupId) :
    Halts db (roleRules db userEnforcer mapOrder (depth+1) domains Q) fun _ => True := by
  apply (Halts.forEach fun _ _ => appendForDomains_halts _ _).bind
  intro _ _
  refine Halts.bind (P := fun _ => True) (Halts.forEach fun groupId hgroup => ?_) fun _ _ =>
    Halts.forEach fun _ _ => appendForDomains_halts _ _
  exact (appendForDomains_halts _ _).bind fun _ _ => groupRules_halts (hwild groupId hgroup) Q.owner

/-- Without wildcards among the groups the building of the rules ends, with rules or with an error. -/
theorem getRuntimeGroupingPolicies_halts {permissions : List Permission}
    (hroles : ∀ Q ∈ db.roles, ∀ groupId ∈ Q.groups, ¬Wildcard groupId)
    (hgroups : ∀ p ∈ permissions, ∀ groupId ∈ p.groups, ¬Wildcard groupId)
    (hdepth : db.roles.length ≤ depth) :
    Halts db (getRuntimeGroupingPolicies db userEnforcer mapOrder (depth+1) permissions)
      fun _ => True := by
  have hless : unvisited db [] < depth+1 :=
    lt_of_le_of_lt (unvisited_le []) (Nat.lt_succ_of_le hdepth)
  refine Halts.bind (P := fun _ => True) (Halts.forEach fun p hp => ?_) fun _ _ =>
    halts_get_bind fun s _ => halts_pure trivial
  refine Halts.bind (P := fun _ => True) (Halts.forEach fun groupId hgroup =>
    groupRules_halts (hgroups p hp groupId hgroup) p.owner) fun _ _ => Halts.forEach fun id _ => ?_
  apply (getRolesInRole_halts (depth+1) p.owner id [] List.not_mem_nil hless).bind
  exact fun found hfound => Halts.forEach fun Q hQ => roleRules_halts (hroles Q (hfound.2 Q hQ))

end Ending

end ArchGuard.Permissions
