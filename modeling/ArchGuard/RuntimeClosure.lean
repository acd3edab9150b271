import ArchGuard.RuntimeGrouping

/-! The closure of a permission's grouping rules: which users it relates to the roles and groups of
the permission. -/
namespace ArchGuard.Permissions
open GoMethod GoText Method Object

section Specification

variable (db : Tables) (userEnforcer : Option (GoString → Except GoString (List GoString)))
  (permission : Permission)

/-- The user is listed in the role, in a role nested in it, or in a group of one of them. -/
def InRole (R : Role) (user : GoString) : Prop :=
  ∃ Q, Relation.ReflTransGen (Contains db.roles) R Q ∧
    (user ∈ Q.users ∨ ∃ groupId ∈ Q.groups, user ∈ reported userEnforcer groupId)

def Unfolded (Q : Role) : Prop :=
  ∃ R ∈ db.roles, R.getId ∈ permission.roles ∧ Relation.ReflTransGen (Contains db.roles) R Q

def GroupInPlay (groupId : GoString) : Prop :=
  groupId ∈ permission.groups ∨ ∃ Q, Unfolded db permission Q ∧ groupId ∈ Q.groups

/-- All identifiers are explicit, and the user enforcer answers for every group. -/
structure WellFormed : Prop where
  roles : ∀ id ∈ permission.roles, Explicit id
  subRoles : ∀ Q, Unfolded db permission Q → ∀ id ∈ Q.roles, Explicit id
  groups : ∀ groupId, GroupInPlay db permission groupId → Explicit groupId
  answers : ∀ getAllUsersByGroup, userEnforcer = some getAllUsersByGroup →
    ∀ groupId, GroupInPlay db permission groupId → ∃ users, getAllUsersByGroup groupId = .ok users

/-- What follows from what by one rule. -/
inductive Edge : (sub role : GoString) → Prop
  | user {Q : Role} {user : GoString} (hQ : Unfolded db permission Q) (h : user ∈ Q.users) :
    Edge user Q.getId
  | group {Q : Role} {groupId : GoString} (hQ : Unfolded db permission Q) (h : groupId ∈ Q.groups) :
    Edge (utf8 "group:" ++ groupId) Q.getId
  | role {Q : Role} {id : GoString} (hQ : Unfolded db permission Q) (h : id ∈ Q.roles) :
    Edge id Q.getId
  | member {groupId user : GoString} (hgroup : GroupInPlay db permission groupId)
    (h : user ∈ reported userEnforcer groupId) : Edge user (utf8 "group:" ++ groupId)

/-- The names are written without a null character. -/
structure NullFree : Prop where
  domains : ∀ domain ∈ permission.domains, 0 ∉ domain
  edges : ∀ sub role, Edge db userEnforcer permission sub role → 0 ∉ sub ∧ 0 ∉ role

/-- The identifiers of users and roles and the subjects of groups are kept apart, as far as the user
could be taken for something else, or somebody be taken for a role or a group. -/
structure Apart (user : GoString) : Prop where
  user_role : ∀ Q, Unfolded db permission Q → user ∉ Q.roles
  user_group : ∀ Q, Unfolded db permission Q → ∀ groupId ∈ Q.groups, user ≠ utf8 "group:" ++ groupId
  listed_role : ∀ Q Q', Unfolded db permission Q → Unfolded db permission Q' → Q'.getId ∉ Q.users
  listed_group : ∀ Q groupId, Unfolded db permission Q → GroupInPlay db permission groupId →
    utf8 "group:" ++ groupId ∉ Q.users
  reported_role : ∀ groupId Q, GroupInPlay db permission groupId → Unfolded db permission Q →
    Q.getId ∉ reported userEnforcer groupId
  reported_group : ∀ groupId groupId', GroupInPlay db permission groupId →
    GroupInPlay db permission groupId' → utf8 "group:" ++ groupId' ∉ reported userEnforcer groupId
  role_group : ∀ Q groupId, Unfolded db permission Q → GroupInPlay db permission groupId →
    Q.getId ≠ utf8 "group:" ++ groupId ∧ utf8 "group:" ++ groupId ∉ Q.roles

def Related (rules : List (List GoString)) (domain : GoString) : GoString → GoString → Prop :=
  Relation.TransGen fun sub role => newRuntimeGroupingPolicy sub role domain ∈ rules

/-- In each domain the closure relates a user, kept apart from roles and groups, to a listed role
exactly if the user is in it or in a role nested in it, and to a listed group exactly if the user is in
it. -/
def ClosureExact (rules : List (List GoString)) : Prop :=
  ∀ user, Apart db userEnforcer permission user → ∀ domain ∈ domainsOf permission.domains,
    (∀ R ∈ db.roles, R.getId ∈ permission.roles →
      (Related rules domain user R.getId ↔ InRole db userEnforcer R user)) ∧
    ∀ groupId ∈ permission.groups,
      (Related rules domain user (getPermissionGroupSubject permission.owner groupId) ↔
        user ∈ reported userEnforcer groupId)

end Specification

section Graph

variable {db : Tables} {userEnforcer : Option (GoString → Except GoString (List GoString))}
  {permission : Permission} {user : GoString}

theorem Unfolded.contains {Q Q' : Role} (h : Unfolded db permission Q)
    (hedge : Contains db.roles Q Q') : Unfolded db permission Q' := by
  obtain ⟨R, hR, hid, hreach⟩ := h
  exact ⟨R, hR, hid, hreach.tail hedge⟩

theorem Unfolded.mem {Q : Role} (h : Unfolded db permission Q) : Q ∈ db.roles := by
  obtain ⟨R, hR, -, hreach⟩ := h
  cases hreach with
  | refl => exact hR
  | tail _ hedge => exact hedge.1

theorem Unfolded.explicit (hwell : WellFormed db userEnforcer permission) {Q : Role}
    (h : Unfolded db permission Q) : Explicit Q.getId := by
  obtain ⟨R, hR, hid, hreach⟩ := h
  cases hreach with
  | refl => exact hwell.roles _ hid
  | tail hfront hedge => exact hwell.subRoles _ ⟨R, hR, hid, hfront⟩ _ hedge.2

theorem Explicit.role_unique {r r' : Role} (h : Explicit r.getId) (hr : r ∈ db.roles)
    (hr' : r' ∈ db.roles) (hid : r'.getId = r.getId) : r' = r := by
  obtain ⟨owner, name, hparse, -⟩ := h
  obtain ⟨hcut, howner, hname⟩ := getOwnerAndNameFromId_eq_some.mp hparse
  obtain ⟨ho, hn⟩ := parts_of_getId howner hname hcut
  obtain ⟨ho', hn'⟩ := parts_of_getId howner hname (hid.trans hcut)
  apply eq_of_key db.nodup_roles hr' hr
  rw [Role.key, Role.key, ho, hn, ho', hn']

/-- What a name that leads to a role stands for: the user for somebody in the role, the identifier
of a role for one nested in it, and the subject of a group for one of its groups. -/
structure Means (db : Tables) (userEnforcer : Option (GoString → Except GoString (List GoString)))
    (permission : Permission) (user : GoString) (R : Role) (name : GoString) : Prop where
  user : name = user → InRole db userEnforcer R user
  role : ∀ Q, Unfolded db permission Q → name = Q.getId →
    Relation.ReflTransGen (Contains db.roles) R Q
  group : ∀ groupId, GroupInPlay db permission groupId → name = utf8 "group:" ++ groupId →
    ∃ Q, Relation.ReflTransGen (Contains db.roles) R Q ∧ groupId ∈ Q.groups

theorem means_of_edge (hapart : Apart db userEnforcer permission user) {R : Role} {name target : GoString}
    (hedge : Edge db userEnforcer permission name target)
    (hrole : ∀ Q, Unfolded db permission Q → target = Q.getId →
      Relation.ReflTransGen (Contains db.roles) R Q)
    (hgroup : ∀ groupId, GroupInPlay db permission groupId → target = utf8 "group:" ++ groupId →
      ∃ Q, Relation.ReflTransGen (Contains db.roles) R Q ∧ groupId ∈ Q.groups) :
    Means db userEnforcer permission user R name := by
  cases hedge with
  | @user Q _ hQ h =>
    have hreach := hrole Q hQ rfl
    refine ⟨?_, fun Q' hQ' hname => ?_, fun groupId hplay hname => ?_⟩
    · rintro rfl
      exact ⟨Q, hreach, Or.inl h⟩
    · rw [hname] at h
      exact absurd h (hapart.listed_role Q Q' hQ hQ')
    · rw [hname] at h
      exact absurd h (hapart.listed_group Q groupId hQ hplay)
  | @group Q groupId hQ h =>
    have hreach := hrole Q hQ rfl
    refine ⟨fun hname => ?_, fun Q' hQ' hname => ?_, fun groupId' _ hname => ?_⟩
    · exact absurd hname.symm (hapart.user_group Q hQ groupId h)
    · exact absurd hname.symm (hapart.role_group Q' groupId hQ' (Or.inr ⟨Q, hQ, h⟩)).1
    · rw [List.append_cancel_left hname] at h
      exact ⟨Q, hreach, h⟩
  | @role Q _ hQ h =>
    have hreach := hrole Q hQ rfl
    refine ⟨?_, fun Q' hQ' hname => ?_, fun groupId hplay hname => ?_⟩
    · rintro rfl
      exact absurd h (hapart.user_role Q hQ)
    · rw [hname] at h
      exact hreach.tail ⟨hQ'.mem, h⟩
    · rw [hname] at h
      exact absurd h (hapart.role_group Q groupId hQ hplay).2
  | @member groupId _ hplay h =>
    obtain ⟨Q, hreach, hmem⟩ := hgroup groupId hplay rfl
    refine ⟨?_, fun Q' hQ' hname => ?_, fun groupId' hplay' hname => ?_⟩
    · rintro rfl
      exact ⟨Q, hreach, Or.inr ⟨groupId, hmem, h⟩⟩
    · rw [hname] at h
      exact absurd h (hapart.reported_role groupId Q' hplay hQ')
    · rw [hname] at h
      exact absurd h (hapart.reported_group groupId groupId' hplay hplay')

theorem means_of_transGen (hwell : WellFormed db userEnforcer permission)
    (hapart : Apart db userEnforcer permission user) {R : Role} (hR : Unfolded db permission R)
    {name : GoString} (h : Relation.TransGen (Edge db userEnforcer permission) name R.getId) :
    Means db userEnforcer permission user R name := by
  induction h using Relation.TransGen.head_induction_on with
  | single hedge =>
    apply means_of_edge hapart hedge
    · intro Q hQ hid
      rw [(hR.explicit hwell).role_unique hR.mem hQ.mem hid.symm]
    · intro groupId hplay hname
      exact absurd hname (hapart.role_group R groupId hR hplay).1
  | head hedge _ ih => exact means_of_edge hapart hedge ih.role ih.group

theorem transGen_of_reaches {R Q : Role} (hR : Unfolded db permission R)
    (h : Relation.ReflTransGen (Contains db.roles) R Q) {name : GoString}
    (hedge : Edge db userEnforcer permission name Q.getId) :
    Relation.TransGen (Edge db userEnforcer permission) name R.getId := by
  induction h generalizing name with
  | refl => exact .single hedge
  | @tail A B hfront hstep ih =>
    have hA : Unfolded db permission A := by
      obtain ⟨S, hS, hid, hreach⟩ := hR
      exact ⟨S, hS, hid, hreach.trans hfront⟩
    exact .head hedge (ih (.role hA hstep.2))

theorem transGen_role_iff (hwell : WellFormed db userEnforcer permission)
    (hapart : Apart db userEnforcer permission user) {R : Role} (hR : Unfolded db permission R) :
    Relation.TransGen (Edge db userEnforcer permission) user R.getId ↔
      InRole db userEnforcer R user := by
  constructor
  · intro h
    exact (means_of_transGen hwell hapart hR h).user rfl
  · rintro ⟨Q, hreach, hin⟩
    have hQ : Unfolded db permission Q := by
      obtain ⟨S, hS, hid, hfront⟩ := hR
      exact ⟨S, hS, hid, hfront.trans hreach⟩
    rcases hin with huser | ⟨groupId, hgroup, huser⟩
    · exact transGen_of_reaches hR hreach (.user hQ huser)
    · exact .head (.member (Or.inr ⟨Q, hQ, hgroup⟩) huser)
        (transGen_of_reaches hR hreach (.group hQ hgroup))

theorem transGen_group_iff (hapart : Apart db userEnforcer permission user) {groupId : GoString}
    (hgroup : groupId ∈ permission.groups) :
    Relation.TransGen (Edge db userEnforcer permission) user (utf8 "group:" ++ groupId) ↔
      user ∈ reported userEnforcer groupId := by
  have hplay : GroupInPlay db permission groupId := Or.inl hgroup
  constructor
  · intro h
    -- the last rule is of a member, and nothing leads to a member
    obtain ⟨last, hreach, hlast⟩ := Relation.TransGen.tail'_iff.mp h
    have hmember : last ∈ reported userEnforcer groupId := by
      generalize htarget : utf8 "group:" ++ groupId = target at hlast
      cases hlast with
      | @user Q _ hQ _ => exact absurd htarget.symm (hapart.role_group Q groupId hQ hplay).1
      | @group Q _ hQ _ => exact absurd htarget.symm (hapart.role_group Q groupId hQ hplay).1
      | @role Q _ hQ _ => exact absurd htarget.symm (hapart.role_group Q groupId hQ hplay).1
      | member _ h => rwa [List.append_cancel_left htarget]
    rcases Relation.ReflTransGen.cases_tail hreach with heq | ⟨before, -, hbefore⟩
    · rwa [heq] at hmember
    · exfalso
      cases hbefore with
      | @user Q _ hQ _ => exact hapart.reported_role groupId Q hplay hQ hmember
      | @group Q _ hQ _ => exact hapart.reported_role groupId Q hplay hQ hmember
      | @role Q _ hQ _ => exact hapart.reported_role groupId Q hplay hQ hmember
      | @member groupId' _ hplay' _ =>
        exact hapart.reported_group groupId groupId' hplay hplay' hmember
  · exact fun h => .single (.member hplay h)

end Graph

section Result

variable {db : Tables} {userEnforcer : Option (GoString → Except GoString (List GoString))}
  {mapOrder : List GoString → List GoString} {permission : Permission} {depth : ℕ}

def RuleOf (permission : Permission) (sub role : GoString) (rule : List GoString) : Prop :=
  ∃ domain ∈ domainsOf permission.domains, rule = newRuntimeGroupingPolicy sub role domain

theorem adds_edge (hnull : NullFree db userEnforcer permission) {sub role : GoString}
    (hedge : Edge db userEnforcer permission sub role) :
    Adds db userEnforcer (appendForDomains permission.domains sub role) (fun _ => True)
      (RuleOf permission sub role) :=
  adds_appendForDomains hnull.domains (hnull.edges _ _ hedge).1 (hnull.edges _ _ hedge).2

def GroupRule (userEnforcer : Option (GoString → Except GoString (List GoString)))
    (permission : Permission) (groupId : GoString) (rule : List GoString) : Prop :=
  ∃ user ∈ reported userEnforcer groupId, RuleOf permission user (utf8 "group:" ++ groupId) rule

def RoleRule (userEnforcer : Option (GoString → Except GoString (List GoString)))
    (permission : Permission) (Q : Role) (rule : List GoString) : Prop :=
  (∃ user ∈ Q.users, RuleOf permission user Q.getId rule) ∨
    (∃ groupId ∈ Q.groups, RuleOf permission (utf8 "group:" ++ groupId) Q.getId rule ∨
      GroupRule userEnforcer permission groupId rule) ∨
    ∃ id ∈ Q.roles, RuleOf permission id Q.getId rule

theorem valid_empty : Valid db userEnforcer .empty := by
  refine ⟨fun _ _ h => ?_, fun _ _ h => ?_, fun _ _ h => ?_, fun key => ?_, fun rule h => ?_⟩
  · cases h
  · cases h
  · cases h
  · exact iff_of_false List.not_mem_nil fun ⟨rule, h, _⟩ => List.not_mem_nil h
  · exact absurd h List.not_mem_nil

variable (hwell : WellFormed db userEnforcer permission)
  (hnull : NullFree db userEnforcer permission)

include hwell hnull

theorem adds_groupRules {groupId : GoString} (hplay : GroupInPlay db permission groupId)
    (owner : GoString) :
    Adds db userEnforcer (groupRules db userEnforcer mapOrder (depth+1) permission.domains owner
      groupId) (fun _ => True) (GroupRule userEnforcer permission groupId) := by
  have hexplicit := hwell.groups groupId hplay
  have husers : Adds db userEnforcer (getUsersInGroup db userEnforcer mapOrder (depth+1) owner
      groupId) (· = reported userEnforcer groupId) fun _ => False :=
    getUsersInGroup_adds hexplicit fun e he => hwell.answers e he groupId hplay
  have hsubject : getPermissionGroupSubject owner groupId = utf8 "group:" ++ groupId := by
    rw [getPermissionGroupSubject, hexplicit.groupId]
  rw [groupRules, hsubject]
  refine husers.after fun users heq => ?_
  rw [heq]
  exact Adds.forEach fun user huser => adds_edge hnull (.member hplay huser)

theorem adds_roleRules {Q : Role} (hQ : Unfolded db permission Q) :
    Adds db userEnforcer (roleRules db userEnforcer mapOrder (depth+1) permission.domains Q)
      (fun _ => True) (RoleRule userEnforcer permission Q) := by
  rw [roleRules]
  apply (Adds.forEach fun user huser => adds_edge hnull (.user hQ huser)).bind
  intro _ _
  refine Adds.bind (P := fun _ => True) (Adds.forEach fun groupId hgroup => ?_) fun _ _ =>
    Adds.forEach fun id hid => adds_edge hnull (.role hQ hid)
  have hplay : GroupInPlay db permission groupId := Or.inr ⟨Q, hQ, hgroup⟩
  have hsubject : getPermissionGroupSubject Q.owner groupId = utf8 "group:" ++ groupId := by
    rw [getPermissionGroupSubject, (hwell.groups groupId hplay).groupId]
  rw [hsubject]
  exact (adds_edge hnull (.group hQ hgroup)).bind fun _ _ =>
    adds_groupRules hwell hnull hplay Q.owner

theorem adds_permissionRules (hdepth : db.roles.length ≤ depth) :
    Adds db userEnforcer (permissionRules db userEnforcer mapOrder (depth+1) permission)
      (fun _ => True) fun rule => ∃ sub role, Edge db userEnforcer permission sub role ∧
        RuleOf permission sub role rule := by
  have hroles (id : GoString) (hid : id ∈ permission.roles) : Adds db userEnforcer
      (getRolesInRole db (depth+1) permission.owner id [] >>= fun rolesInRole =>
        forEach (roleRules db userEnforcer mapOrder (depth+1) permission.domains) rolesInRole.1)
      (fun _ => True) fun rule => ∃ Q, (∃ R ∈ db.roles, R.getId = id ∧
        Relation.ReflTransGen (Contains db.roles) R Q) ∧ RoleRule userEnforcer permission Q rule := by
    have hless : unvisited db [] < depth+1 :=
      lt_of_le_of_lt (unvisited_le []) (Nat.lt_succ_of_le hdepth)
    have hunfold : Adds db userEnforcer (getRolesInRole db (depth+1) permission.owner id [])
        (fun found => UnfoldedFrom db (· = id) [] found.1 found.2) fun _ => False :=
      getRolesInRole_adds (E := Unfolded db permission) (fun _ _ h => h.contains) hwell.subRoles _
        permission.owner id [] (hwell.roles id hid)
        (fun R hR hRid => ⟨R, hR, hRid ▸ hid, .refl⟩) List.not_mem_nil hless
    refine hunfold.after fun found hfound => ?_
    have hmem (Q : Role) : Q ∈ found.1 ↔ ∃ R ∈ db.roles, R.getId = id ∧
        Relation.ReflTransGen (Contains db.roles) R Q := by
      apply hfound.mem_iff
      intro R hR hRid Q hreach Q' hQ' hQid
      have hQ : Unfolded db permission Q := ⟨R, hR, hRid ▸ hid, hreach⟩
      exact (hQ.explicit hwell).role_unique hQ.mem hQ' hQid
    refine (Adds.forEach (S := RoleRule userEnforcer permission) fun Q hQ => ?_).mono
      (fun _ h => h) fun rule => ?_
    · obtain ⟨R, hR, hRid, hreach⟩ := (hmem Q).mp hQ
      exact adds_roleRules hwell hnull ⟨R, hR, hRid ▸ hid, hreach⟩
    · exact exists_congr fun Q => and_congr_left fun _ => hmem Q
  rw [permissionRules]
  refine ((Adds.forEach fun groupId hgroup => adds_groupRules hwell hnull (Or.inl hgroup)
    permission.owner).bind fun _ _ => Adds.forEach hroles).mono (fun _ h => h) fun rule => ?_
  constructor
  · rintro (⟨groupId, hgroup, user, huser, hrule⟩ | ⟨id, hid, Q, ⟨R, hR, hRid, hreach⟩, hrule⟩)
    · exact ⟨user, _, .member (Or.inl hgroup) huser, hrule⟩
    have hQ : Unfolded db permission Q := ⟨R, hR, hRid ▸ hid, hreach⟩
    rcases hrule with ⟨user, huser, hrule⟩ | ⟨groupId, hgroup, hrule | ⟨user, huser, hrule⟩⟩ |
      ⟨sub, hsub, hrule⟩
    · exact ⟨user, _, .user hQ huser, hrule⟩
    · exact ⟨_, _, .group hQ hgroup, hrule⟩
    · exact ⟨user, _, .member (Or.inr ⟨Q, hQ, hgroup⟩) huser, hrule⟩
    · exact ⟨sub, _, .role hQ hsub, hrule⟩
  · rintro ⟨sub, role, hedge, hrule⟩
    have hof {Q : Role} (hQ : Unfolded db permission Q)
        (hQrule : RoleRule userEnforcer permission Q rule) :
        ∃ id ∈ permission.roles, ∃ Q, (∃ R ∈ db.roles, R.getId = id ∧
          Relation.ReflTransGen (Contains db.roles) R Q) ∧
            RoleRule userEnforcer permission Q rule := by
      obtain ⟨R, hR, hid, hreach⟩ := hQ
      exact ⟨R.getId, hid, Q, ⟨R, hR, rfl, hreach⟩, hQrule⟩
    cases hedge with
    | user hQ h => exact Or.inr (hof hQ (Or.inl ⟨_, h, hrule⟩))
    | group hQ h => exact Or.inr (hof hQ (Or.inr (Or.inl ⟨_, h, Or.inl hrule⟩)))
    | role hQ h => exact Or.inr (hof hQ (Or.inr (Or.inr ⟨_, h, hrule⟩)))
    | member hplay h =>
      rcases hplay with hgroup | ⟨Q, hQ, hgroup⟩
      · exact Or.inl ⟨_, hgroup, _, h, hrule⟩
      · exact Or.inr (hof hQ (Or.inr (Or.inl ⟨_, hgroup, Or.inr ⟨_, h, hrule⟩⟩)))

theorem closure_exact (hdepth : db.roles.length < depth) : ∃ rules,
    ((getRuntimeGroupingPolicies db userEnforcer mapOrder depth [permission]).call .empty).1 =
      .ok rules ∧ ClosureExact db userEnforcer permission rules := by
  obtain ⟨k, rfl⟩ : ∃ k, depth = k+1 := ⟨depth-1, by omega⟩
  have hall : Adds db userEnforcer
      (forEach (permissionRules db userEnforcer mapOrder (k+1)) [permission]) (fun _ => True)
        fun rule => ∃ sub role, Edge db userEnforcer permission sub role ∧
          RuleOf permission sub role rule := by
    rw [forEach, forEach]
    refine ((adds_permissionRules hwell hnull (Nat.le_of_lt_succ hdepth)).bind fun _ _ =>
      adds_pure trivial).mono (fun _ h => h) fun rule => by simp only [or_false]
  obtain ⟨_, s', hcall, -, -, hrules⟩ := hall .empty valid_empty
  refine ⟨s'.groupingPolicies, ?_, fun user hapart domain hdomain => ?_⟩
  · rw [getRuntimeGroupingPolicies, call_bind, hcall]
    rfl
  -- the rules of the domain are the edges
  have hedges : Related s'.groupingPolicies domain =
      Relation.TransGen (Edge db userEnforcer permission) := by
    rw [Related]
    congr 1
    funext sub role
    apply propext
    rw [hrules]
    constructor
    · rintro (hempty | ⟨sub', role', hedge, domain', -, heq⟩)
      · exact absurd hempty List.not_mem_nil
      · rw [newRuntimeGroupingPolicy, newRuntimeGroupingPolicy] at heq
        obtain ⟨rfl, htail⟩ := List.cons.inj heq
        obtain ⟨rfl, -⟩ := List.cons.inj htail
        exact hedge
    · exact fun hedge => Or.inr ⟨sub, role, hedge, domain, hdomain, rfl⟩
  rw [hedges]
  refine ⟨fun R hR hid => ?_, fun groupId hgroup => ?_⟩
  · exact transGen_role_iff hwell hapart ⟨R, hR, hid, .refl⟩
  · rw [getPermissionGroupSubject, (hwell.groups groupId (Or.inl hgroup)).groupId]
    exact transGen_group_iff hapart hgroup

omit hwell hnull

/-- Without wildcards the building of a permission's rules ends; where identifiers have one slash and
no null character, and users, roles and groups are kept apart, the closure of the rules is exact. -/
theorem runtimeGrouping_exact (hdepth : db.roles.length < depth) :
    ((∀ Q ∈ db.roles, ∀ groupId ∈ Q.groups, ¬Wildcard groupId) →
      (∀ groupId ∈ permission.groups, ¬Wildcard groupId) →
        ((getRuntimeGroupingPolicies db userEnforcer mapOrder depth [permission]).call .empty).1 ≠
          .error .deep) ∧
    (WellFormed db userEnforcer permission → NullFree db userEnforcer permission → ∃ rules,
      ((getRuntimeGroupingPolicies db userEnforcer mapOrder depth [permission]).call .empty).1 =
        .ok rules ∧ ClosureExact db userEnforcer permission rules) := by
  refine ⟨fun hroles hgroups => ?_, fun hwell hnull => closure_exact hwell hnull hdepth⟩
  obtain ⟨k, rfl⟩ : ∃ k, depth = k+1 := ⟨depth-1, by omega⟩
  have hpermissions : ∀ p ∈ [permission], ∀ groupId ∈ p.groups, ¬Wildcard groupId := by
    intro p hp
    rwa [List.mem_singleton.mp hp]
  have hknown : Known db .empty := by
    constructor
    · intro _ _ h
      cases h
    · intro _ _ h
      cases h
  exact (getRuntimeGroupingPolicies_halts hroles hpermissions (Nat.le_of_lt_succ hdepth) .empty
    hknown).2.1

end Result

namespace Sample

def staffId : GoString := utf8 "acme/staff"

def adminId : GoString := utf8 "acme/admin"

def ops : GoString := utf8 "acme/ops"

def staff : Role := role "staff" "2026" [adminId]

def admin : Role := { role "admin" "2026" [] with groups := [ops] }

def office : Tables where
  users := []
  groups := []
  roles := [staff, admin]
  permissions := []
  nodup_users := List.nodup_nil
  nodup_groups := List.nodup_nil
  nodup_roles := by decide
  nodup_permissions := List.nodup_nil

def bo : GoString := utf8 "acme/bo"

/-- A user enforcer that reports one user for every group. -/
def enforcer : Option (GoString → Except GoString (List GoString)) := some fun _ => .ok [bo]

def desk : Permission :=
  ⟨org, utf8 "desk", [], [], [staffId], [], [], [], utf8 "Application", [utf8 "desk"], [], []⟩

theorem unfolded_desk {Q : Role} (h : Unfolded office desk Q) : Q = staff ∨ Q = admin := by
  have hmem : Q ∈ [staff, admin] := h.mem
  rwa [List.mem_cons, List.mem_singleton] at hmem

theorem groupInPlay_desk {groupId : GoString} (h : GroupInPlay office desk groupId) :
    groupId = ops := by
  rcases h with h | ⟨Q, hQ, h⟩
  · cases h
  · rcases unfolded_desk hQ with rfl | rfl
    · cases h
    · exact List.mem_singleton.mp h

theorem wellFormed_desk : WellFormed office enforcer desk := by
  refine ⟨fun id hid => ?_, fun Q hQ id hid => ?_, fun groupId hplay => ?_, fun e he groupId _ => ?_⟩
  · rw [List.mem_singleton.mp hid]
    exact ⟨org, utf8 "staff", by decide, by decide⟩
  · rcases unfolded_desk hQ with rfl | rfl
    · rw [List.mem_singleton.mp hid]
      exact ⟨org, utf8 "admin", by decide, by decide⟩
    · cases hid
  · rw [groupInPlay_desk hplay]
    exact ⟨org, utf8 "ops", by decide, by decide⟩
  · obtain rfl := Option.some.inj he
    exact ⟨[bo], rfl⟩

theorem nullFree_desk : NullFree office enforcer desk := by
  refine ⟨fun domain h => absurd h List.not_mem_nil, fun sub role hedge => ?_⟩
  cases hedge with
  | user hQ h => rcases unfolded_desk hQ with rfl | rfl <;> cases h
  | group hQ h =>
    rcases unfolded_desk hQ with rfl | rfl
    · cases h
    · rw [List.mem_singleton.mp h]
      decide
  | role hQ h =>
    rcases unfolded_desk hQ with rfl | rfl
    · rw [List.mem_singleton.mp h]
      decide
    · cases h
  | member hplay h =>
    rw [groupInPlay_desk hplay, List.mem_singleton.mp h]
    decide

theorem apart_desk : Apart office enforcer desk bo := by
  refine ⟨fun Q hQ => ?_, fun Q hQ => ?_, fun Q Q' hQ hQ' => ?_, fun Q groupId hQ hplay => ?_,
    fun groupId Q hplay hQ => ?_, fun groupId groupId' hplay hplay' => ?_,
    fun Q groupId hQ hplay => ?_⟩
  · rcases unfolded_desk hQ with rfl | rfl <;> decide
  · rcases unfolded_desk hQ with rfl | rfl <;> decide
  · rcases unfolded_desk hQ with rfl | rfl <;> exact List.not_mem_nil
  · rcases unfolded_desk hQ with rfl | rfl <;> exact List.not_mem_nil
  · rw [groupInPlay_desk hplay]
    rcases unfolded_desk hQ with rfl | rfl <;> decide
  · rw [groupInPlay_desk hplay, groupInPlay_desk hplay']
    decide
  · rw [groupInPlay_desk hplay]
    rcases unfolded_desk hQ with rfl | rfl <;> decide

end Sample

/-- Bo is in the group of the admins, and so on the staff. -/
theorem bo_on_staff : ∃ rules,
    ((getRuntimeGroupingPolicies Sample.office Sample.enforcer id 3 [Sample.desk]).call .empty).1 =
      .ok rules ∧ Related rules [] Sample.bo Sample.staffId := by
  have hless : Sample.office.roles.length < 3 := by decide
  obtain ⟨rules, hrun, hall⟩ :=
    (runtimeGrouping_exact hless).2 Sample.wellFormed_desk Sample.nullFree_desk
  have hstaff : Sample.staff ∈ Sample.office.roles := List.mem_cons_self
  have hbo := (hall Sample.bo Sample.apart_desk [] List.mem_cons_self).1 Sample.staff hstaff
    List.mem_cons_self
  refine ⟨rules, hrun, hbo.mpr ⟨Sample.admin, .single ⟨?_, ?_⟩, Or.inr ⟨Sample.ops, ?_, ?_⟩⟩⟩
  · exact List.mem_cons_of_mem _ List.mem_cons_self
  · exact List.mem_cons_self
  · exact List.mem_cons_self
  · exact List.mem_cons_self

namespace Sample

def ana : GoString := utf8 "acme/ana"

def slashed : Role := { role "back/office" "2026" [] with users := [ana] }

def slashedOffice : Tables where
  users := []
  groups := []
  roles := [slashed]
  permissions := []
  nodup_users := List.nodup_nil
  nodup_groups := List.nodup_nil
  nodup_roles := by decide
  nodup_permissions := List.nodup_nil

def slashedDesk : Permission := { desk with roles := [slashed.getId] }

/-- Two roles, the longer name with a null character. -/
def short : Role := { role "x" "2026" [] with users := [ana] }

def long : Role := { role "x\x00d" "2026" [] with users := [ana] }

def nullOffice : Tables where
  users := []
  groups := []
  roles := [short, long]
  permissions := []
  nodup_users := List.nodup_nil
  nodup_groups := List.nodup_nil
  nodup_roles := by decide
  nodup_permissions := List.nodup_nil

def nullDesk : Permission :=
  { desk with roles := [short.getId, long.getId], domains := [utf8 "e", utf8 "d\x00e"] }

/-- What is left of the rules: of the longer role in the first domain there is none. -/
def nullRules : List (List GoString) := [
  newRuntimeGroupingPolicy ana short.getId (utf8 "e"),
  newRuntimeGroupingPolicy ana short.getId (utf8 "d\x00e"),
  newRuntimeGroupingPolicy ana long.getId (utf8 "d\x00e")]

theorem long_not_related : ¬Related nullRules (utf8 "e") ana long.getId := by
  intro h
  obtain ⟨last, -, hlast⟩ := Relation.TransGen.tail'_iff.mp h
  have hparts : ∀ rule ∈ nullRules, ¬(rule[1]? = some long.getId ∧ rule[2]? = some (utf8 "e")) := by
    decide
  exact hparts _ hlast ⟨rfl, rfl⟩

end Sample

/-- A user whose identifier is that of a nested role is on the staff by the rules, and in none of the
roles; a role whose name has a slash leaves no rules at all; and of two rules with one key the second
is lost. -/
theorem closure_not_exact :
    (∃ rules, ((getRuntimeGroupingPolicies Sample.office Sample.enforcer id 3
        [Sample.desk]).call .empty).1 = .ok rules ∧
      Related rules [] Sample.adminId Sample.staffId ∧
      ¬InRole Sample.office Sample.enforcer Sample.staff Sample.adminId) ∧
    (InRole Sample.slashedOffice Sample.enforcer Sample.slashed Sample.ana ∧
      ((getRuntimeGroupingPolicies Sample.slashedOffice Sample.enforcer id 3
        [Sample.slashedDesk]).call .empty).1 = .error (wrongTokenCount Sample.slashed.getId)) ∧
    ∃ rules, ((getRuntimeGroupingPolicies Sample.nullOffice Sample.enforcer id 3
        [Sample.nullDesk]).call .empty).1 = .ok rules ∧
      InRole Sample.nullOffice Sample.enforcer Sample.long Sample.ana ∧
      ¬Related rules (utf8 "e") Sample.ana Sample.long.getId := by
  refine ⟨⟨[newRuntimeGroupingPolicy Sample.adminId Sample.staffId [],
    newRuntimeGroupingPolicy (utf8 "group:acme/ops") Sample.adminId [],
    newRuntimeGroupingPolicy Sample.bo (utf8 "group:acme/ops") []], by decide +kernel,
    .single List.mem_cons_self, ?_⟩, ⟨⟨Sample.slashed, .refl, Or.inl List.mem_cons_self⟩,
      by decide +kernel⟩, ⟨Sample.nullRules, by decide +kernel,
        ⟨Sample.long, .refl, Or.inl List.mem_cons_self⟩, Sample.long_not_related⟩⟩
  rintro ⟨Q, hreach, hin⟩
  have hQ : Unfolded Sample.office Sample.desk Q :=
    ⟨Sample.staff, List.mem_cons_self, List.mem_cons_self, hreach⟩
  rcases Sample.unfolded_desk hQ with rfl | rfl
  · revert hin
    decide +kernel
  · revert hin
    decide +kernel

end ArchGuard.Permissions
