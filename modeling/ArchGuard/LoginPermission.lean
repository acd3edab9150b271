import ArchGuard.AttachedPermissions

/-! The permission check at the login into an application: how the permissions that cover the
application are counted, and what is answered where none of them decides. -/
namespace ArchGuard.Login
open GoText Permissions
open Object (getOwnerAndNameFromIdWithError)

/-- A permission with the columns that say whether it is in force. -/
structure LoginPermission extends Permission where
  isEnabled : Bool
  state : GoString
  deriving DecidableEq, Repr

structure Application where
  name : GoString
  organization : GoString
  isShared : Bool
  deriving DecidableEq, Repr

def LoginPermission.isResourceHit (p : LoginPermission) (name : GoString) : Bool :=
  p.resources.any fun resource => resource = star || resource = name

/-- `Enforce` of subject, object and action. -/
abbrev Enforcer := GoString → GoString → GoString → Except GoString Bool

def builtIn : GoString := utf8 "built-in"

def allow : GoString := utf8 "Allow"

def deny : GoString := utf8 "Deny"

def read : GoString := utf8 "Read"

structure Counts where
  allowPermissionCount : ℕ
  denyPermissionCount : ℕ
  allowCount : ℕ
  denyCount : ℕ
  deriving DecidableEq, Repr

/-- What an enforcer says of the user or of a role, for a permission of an effect. -/
def Counts.answer (c : Counts) (effect : GoString) (isAllowed : Bool) : Counts :=
  if isAllowed then if effect = allow then { c with allowCount := c.allowCount+1 } else c
  else if effect = deny then { c with denyCount := c.denyCount+1 } else c

def Counts.miss (c : Counts) (effect : GoString) : Counts :=
  if effect = allow then { c with allowPermissionCount := c.allowPermissionCount+1 }
  else { c with denyPermissionCount := c.denyPermissionCount+1 }

/-- The roles of the user that a permission lists; a wildcard stands for all of them. -/
def checkRoleList (targetRoles : List Role) : (acc : List Role) → List GoString → List Role
  | acc, [] => acc
  | acc, role :: rest =>
    if role = star then targetRoles
    else checkRoleList targetRoles (acc ++ targetRoles.filter fun t => role = t.getId) rest

section Check

variable (like : GoString → GoString → Bool) (db : Tables)
  (getPermissions : GoString → Except GoString (List LoginPermission))
  (getPermissionEnforcer : LoginPermission → Except GoString Enforcer)
  (userId : GoString) (application : Application)

def covers (p : LoginPermission) : Bool :=
  p.isEnabled && p.state = utf8 "Approved" && p.resourceType = utf8 "Application" &&
    p.isResourceHit application.name

def userHit (p : LoginPermission) : Bool := p.isUserHit userId

def groupHit (p : LoginPermission) : Bool := p.isGroupHit db userId

def roleHit (p : LoginPermission) : Bool := p.isRoleHit like db userId

/-- The user is asked about once for a hit by name, and once more for one by group. -/
def askUser (enforcer : Enforcer) (effect : GoString) (hit : Bool) (c : Counts) :
    Except GoString Counts :=
  if hit then do
    let isAllowed ← enforcer userId application.name read
    .ok (c.answer effect isAllowed)
  else .ok c

def askRole (enforcer : Enforcer) (effect : GoString) (c : Counts) (role : Role) : Counts :=
  match enforcer role.getId application.name read with
  | .ok isAllowed => c.answer effect isAllowed
  | .error _ => c.answer effect false

def askRoles (enforcer : Enforcer) (p : LoginPermission) (c : Counts) : Except GoString Counts :=
  if roleHit like db userId p then
    match getRolesByUser like db userId with
    -- a hit by role says that there are roles to read
    | none => .error (utf8 "The user: " ++ userId ++ utf8 " doesn't exist")
    | some targetRoles => .ok
      ((checkRoleList targetRoles [] p.roles).foldl (askRole application enforcer p.effect) c)
  else .ok c

/-- One round of the loop. -/
def countPermission (c : Counts) (p : LoginPermission) : Except GoString Counts :=
  if !covers application p then .ok c
  else if !userHit userId p && !groupHit db userId p && !roleHit like db userId p then
    .ok (c.miss p.effect)
  else do
    let enforcer ← getPermissionEnforcer p
    let c ← askUser userId application enforcer p.effect (userHit userId p) c
    let c ← askUser userId application enforcer p.effect (groupHit db userId p) c
    askRoles like db userId application enforcer p c

def Counts.decide (c : Counts) : Bool :=
  if 0 < c.denyCount then false
  else if 0 < c.allowCount then true
  else if 0 < c.allowPermissionCount ∧ c.denyPermissionCount = 0 then false
  else true

def checkLoginPermission : Except GoString Bool :=
  match getOwnerAndNameFromIdWithError userId with
  | none =>
    .error (utf8 "GetOwnerAndNameFromId() error, wrong token count for ID: " ++ userId)
  | some (owner, _) =>
    if owner = builtIn then .ok true
    else do
      let permissionOrganization := if application.isShared then owner else application.organization
      let permissions ← getPermissions permissionOrganization
      let c ← permissions.foldlM
        (countPermission like db getPermissionEnforcer userId application) ⟨0, 0, 0, 0⟩
      .ok c.decide

end Check

section Specification

variable (like : GoString → GoString → Bool) (db : Tables)
  (getPermissionEnforcer : LoginPermission → Except GoString Enforcer)
  (userId : GoString) (application : Application)

/-- The permission hits the user: directly, through a group or through a role. -/
def Hits (p : LoginPermission) : Prop :=
  userHit userId p = true ∨ groupHit db userId p = true ∨ roleHit like db userId p = true

/-- A role of the user that the permission lists, or any of them where it lists the wildcard. -/
def Matching (p : LoginPermission) (role : Role) : Prop :=
  ∃ targetRoles, getRolesByUser like db userId = some targetRoles ∧ role ∈ targetRoles ∧
    (star ∈ p.roles ∨ role.getId ∈ p.roles)

/-- The permission hits the user, and its enforcer allows the user or a matching role to read. -/
def Grants (p : LoginPermission) : Prop :=
  Hits like db userId p ∧ ∃ enforcer, getPermissionEnforcer p = .ok enforcer ∧
    (enforcer userId application.name read = .ok true ∨
      ∃ role, Matching like db userId p role ∧
        enforcer role.getId application.name read = .ok true)

/-- The permission hits the user, and there is no enforcer for it, or it fails on a user who is hit
by name or by group. -/
def Fails (p : LoginPermission) : Prop :=
  Hits like db userId p ∧ ((∃ err, getPermissionEnforcer p = .error err) ∨
    (userHit userId p = true ∨ groupHit db userId p = true) ∧
      ∃ enforcer err, getPermissionEnforcer p = .ok enforcer ∧
        enforcer userId application.name read = .error err)

end Specification

section Counting

variable {like : GoString → GoString → Bool} {db : Tables}
  {getPermissionEnforcer : LoginPermission → Except GoString Enforcer}
  {userId : GoString} {application : Application} {p : LoginPermission} {c c' : Counts}

theorem mem_checkRoleList {targetRoles : List Role} {role : Role} {roles : List GoString}
    {acc : List Role} (hacc : ∀ t ∈ acc, t ∈ targetRoles) :
    role ∈ checkRoleList targetRoles acc roles ↔
      role ∈ acc ∨ role ∈ targetRoles ∧ (star ∈ roles ∨ role.getId ∈ roles) := by
  induction roles generalizing acc with
  | nil => simp [checkRoleList]
  | cons id rest ih =>
    rw [checkRoleList]
    split_ifs with hstar
    · rw [hstar]
      constructor
      · exact fun h => Or.inr ⟨h, Or.inl List.mem_cons_self⟩
      · exact fun h => h.elim (hacc role) And.left
    · have hacc' : ∀ t ∈ acc ++ targetRoles.filter fun t => id = t.getId, t ∈ targetRoles := by
        intro t ht
        exact (List.mem_append.mp ht).elim (hacc t) fun h => (List.mem_filter.mp h).1
      have hne : star ≠ id := fun h => hstar h.symm
      rw [ih hacc', List.mem_append, List.mem_filter, decide_eq_true_eq, List.mem_cons,
        List.mem_cons, eq_comm (a := id)]
      simp only [hne, false_or]
      tauto

/-- What the answers for one permission of effect Allow change: they count allowances, and there is
none unless somebody was allowed. -/
structure Answered (c c' : Counts) (granted : Prop) : Prop where
  allowPermissionCount : c'.allowPermissionCount = c.allowPermissionCount
  denyPermissionCount : c'.denyPermissionCount = c.denyPermissionCount
  denyCount : c'.denyCount = c.denyCount
  granted : c.allowCount < c'.allowCount → granted

theorem answered_refl {granted : Prop} : Answered c c granted :=
  ⟨rfl, rfl, rfl, fun h => absurd h (lt_irrefl _)⟩

theorem Answered.trans {c'' : Counts} {granted : Prop} (h : Answered c c' granted)
    (h' : Answered c' c'' granted) : Answered c c'' granted := by
  refine ⟨h'.1.trans h.1, h'.2.trans h.2, h'.3.trans h.3, fun hlt => ?_⟩
  by_cases hfirst : c.allowCount < c'.allowCount
  · exact h.granted hfirst
  · apply h'.granted
    omega

theorem allow_ne_deny : allow ≠ deny := by decide

theorem answered_answer {isAllowed : Bool} {granted : Prop} (h : isAllowed = true → granted) :
    Answered c (c.answer allow isAllowed) granted := by
  cases isAllowed with
  | true => exact ⟨rfl, rfl, rfl, fun _ => h rfl⟩
  | false =>
    rw [Counts.answer, if_neg Bool.false_ne_true, if_neg allow_ne_deny]
    exact answered_refl

theorem askUser_ok {enforcer : Enforcer} {hit : Bool}
    (h : askUser userId application enforcer allow hit c = .ok c') :
    Answered c c' (enforcer userId application.name read = .ok true) := by
  cases hit with
  | false =>
    obtain rfl := Except.ok.inj h
    exact answered_refl
  | true =>
    obtain ⟨isAllowed, hask, h⟩ := bind_eq_ok.mp h
    obtain rfl := Except.ok.inj h
    apply answered_answer
    rintro rfl
    exact hask

theorem bind_eq_error {ε α β : Type} {x : Except ε α} {f : α → Except ε β} :
    (∃ err, (x >>= f) = .error err) ↔
      (∃ err, x = .error err) ∨ ∃ a, x = .ok a ∧ ∃ err, f a = .error err := by
  cases x with
  | error err => simp [bind, Except.bind]
  | ok a => simp [bind, Except.bind]

theorem askUser_error_iff {enforcer : Enforcer} {effect : GoString} {hit : Bool} :
    (∃ err, askUser userId application enforcer effect hit c = .error err) ↔
      hit = true ∧ ∃ err, enforcer userId application.name read = .error err := by
  cases hit with
  | false => simp [askUser]
  | true =>
    rw [askUser, if_pos rfl, bind_eq_error]
    simp

theorem askRole_answered {enforcer : Enforcer} {role : Role} :
    Answered c (askRole application enforcer allow c role)
      (enforcer role.getId application.name read = .ok true) := by
  rw [askRole]
  cases enforcer role.getId application.name read with
  | error err => exact answered_answer Bool.noConfusion
  | ok isAllowed =>
    apply answered_answer
    rintro rfl
    rfl

theorem Answered.mono {granted granted' : Prop} (h : Answered c c' granted)
    (himp : granted → granted') : Answered c c' granted' :=
  ⟨h.1, h.2, h.3, fun hlt => himp (h.4 hlt)⟩

theorem foldl_askRole_answered {enforcer : Enforcer} (roles : List Role) :
    Answered c (roles.foldl (askRole application enforcer allow) c)
      (∃ role ∈ roles, enforcer role.getId application.name read = .ok true) := by
  induction roles generalizing c with
  | nil => exact answered_refl
  | cons role roles ih =>
    rw [List.foldl_cons]
    apply (askRole_answered.mono fun h => ?_).trans (ih.mono fun h => ?_)
    · exact ⟨role, List.mem_cons_self, h⟩
    · obtain ⟨role', hmem, hallowed⟩ := h
      exact ⟨role', List.mem_cons_of_mem role hmem, hallowed⟩

theorem askRoles_ok {enforcer : Enforcer} (heffect : p.effect = allow)
    (h : askRoles like db userId application enforcer p c = .ok c') :
    Answered c c' (∃ role, Matching like db userId p role ∧
      enforcer role.getId application.name read = .ok true) := by
  unfold askRoles at h
  split_ifs at h
  · cases hroles : getRolesByUser like db userId with
    | none =>
      rw [hroles] at h
      cases h
    | some targetRoles =>
      rw [hroles, heffect] at h
      obtain rfl := Except.ok.inj h
      refine (foldl_askRole_answered _).mono fun ⟨role, hmem, hallowed⟩ => ⟨role, ?_, hallowed⟩
      have hmatching := (mem_checkRoleList fun _ ht => absurd ht List.not_mem_nil).mp hmem
      exact ⟨targetRoles, hroles, hmatching.resolve_left List.not_mem_nil⟩
  · obtain rfl := Except.ok.inj h
    exact answered_refl

theorem askRoles_ne_error {enforcer : Enforcer} (err : GoString) :
    askRoles like db userId application enforcer p c ≠ .error err := by
  unfold askRoles
  split_ifs with hhit
  · cases hroles : getRolesByUser like db userId with
    | none =>
      rw [roleHit, Permission.isRoleHit, hroles] at hhit
      cases hhit
    | some targetRoles =>
      intro h
      cases h
  · intro h
    cases h

def Missed (like : GoString → GoString → Bool) (db : Tables) (userId : GoString)
    (application : Application) (p : LoginPermission) : Prop :=
  covers application p = true ∧ ¬Hits like db userId p

def Granted (like : GoString → GoString → Bool) (db : Tables)
    (getPermissionEnforcer : LoginPermission → Except GoString Enforcer) (userId : GoString)
    (application : Application) (p : LoginPermission) : Prop :=
  covers application p = true ∧ Grants like db getPermissionEnforcer userId application p

def Failed (like : GoString → GoString → Bool) (db : Tables)
    (getPermissionEnforcer : LoginPermission → Except GoString Enforcer) (userId : GoString)
    (application : Application) (p : LoginPermission) : Prop :=
  covers application p = true ∧ Fails like db getPermissionEnforcer userId application p

theorem not_hits_iff : ¬Hits like db userId p ↔
    (!userHit userId p && !groupHit db userId p && !roleHit like db userId p) = true := by
  simp only [Hits, not_or, Bool.not_eq_true, Bool.and_eq_true, Bool.not_eq_true', and_assoc]

/-- What a round changes: a permission that is missed is counted as such, and any other adds what its
enforcer allows. -/
structure Counted (c c' : Counts) (missed granted : Prop) : Prop where
  one : missed → c'.allowPermissionCount = c.allowPermissionCount+1
  none : ¬missed → c'.allowPermissionCount = c.allowPermissionCount
  denyPermissionCount : c'.denyPermissionCount = c.denyPermissionCount
  denyCount : c'.denyCount = c.denyCount
  granted : c.allowCount < c'.allowCount → granted

theorem countPermission_ok (heffect : covers application p = true → p.effect = allow)
    (h : countPermission like db getPermissionEnforcer userId application c p = .ok c') :
    Counted c c' (Missed like db userId application p)
      (Granted like db getPermissionEnforcer userId application p) := by
  rw [countPermission] at h
  split_ifs at h with hcovers hmiss
  · obtain rfl := Except.ok.inj h
    have hno : ¬Missed like db userId application p := by
      intro hmissed
      rw [hmissed.1] at hcovers
      exact Bool.noConfusion hcovers
    exact ⟨fun hmissed => absurd hmissed hno, fun _ => rfl, rfl, rfl,
      fun hlt => absurd hlt (lt_irrefl _)⟩
  · have hcovers : covers application p = true := by simpa using hcovers
    obtain rfl := Except.ok.inj h
    rw [heffect hcovers]
    exact ⟨fun _ => rfl, fun hno => absurd ⟨hcovers, not_hits_iff.mpr hmiss⟩ hno, rfl, rfl,
      fun hlt => absurd hlt (lt_irrefl _)⟩
  · have hcovers : covers application p = true := by simpa using hcovers
    have hhits : Hits like db userId p := by
      by_contra hno
      exact hmiss (not_hits_iff.mp hno)
    rw [heffect hcovers] at h
    obtain ⟨enforcer, henforcer, h⟩ := bind_eq_ok.mp h
    obtain ⟨c₁, hbyName, h⟩ := bind_eq_ok.mp h
    obtain ⟨c₂, hbyGroup, h⟩ := bind_eq_ok.mp h
    have hgrants : (enforcer userId application.name read = .ok true ∨
        ∃ role, Matching like db userId p role ∧
          enforcer role.getId application.name read = .ok true) →
        Granted like db getPermissionEnforcer userId application p :=
      fun hallowed => ⟨hcovers, hhits, enforcer, henforcer, hallowed⟩
    -- the three questions, one after the other
    have hname := (askUser_ok hbyName).mono fun hallowed => hgrants (Or.inl hallowed)
    have hgroup := (askUser_ok hbyGroup).mono fun hallowed => hgrants (Or.inl hallowed)
    have hrole := (askRoles_ok (heffect hcovers) h).mono fun hallowed => hgrants (Or.inr hallowed)
    have hall := (hname.trans hgroup).trans hrole
    exact ⟨fun hmissed => absurd hhits hmissed.2, fun _ => hall.1, hall.2, hall.3, hall.4⟩

theorem countPermission_error_iff :
    (∃ err, countPermission like db getPermissionEnforcer userId application c p = .error err) ↔
      Failed like db getPermissionEnforcer userId application p := by
  rw [countPermission]
  split_ifs with hcovers hmiss
  · refine iff_of_false ?_ ?_
    · rintro ⟨err, herr⟩
      cases herr
    · rintro ⟨h, -⟩
      rw [h] at hcovers
      exact Bool.noConfusion hcovers
  · refine iff_of_false ?_ ?_
    · rintro ⟨err, herr⟩
      cases herr
    · exact fun h => not_hits_iff.mpr hmiss h.2.1
  · have hcovers : covers application p = true := by simpa using hcovers
    have hhits : Hits like db userId p := by
      by_contra hno
      exact hmiss (not_hits_iff.mp hno)
    rw [Failed, Fails, and_iff_right hcovers, and_iff_right hhits, bind_eq_error]
    constructor
    · rintro (herr | ⟨enforcer, henforcer, herr⟩)
      · exact Or.inl herr
      apply Or.inr
      rcases bind_eq_error.mp herr with herr | ⟨c₁, -, herr⟩
      · obtain ⟨hhit, err, hask⟩ := askUser_error_iff.mp herr
        exact ⟨Or.inl hhit, enforcer, err, henforcer, hask⟩
      rcases bind_eq_error.mp herr with herr | ⟨c₂, -, err, herr⟩
      · obtain ⟨hhit, err, hask⟩ := askUser_error_iff.mp herr
        exact ⟨Or.inr hhit, enforcer, err, henforcer, hask⟩
      · exact absurd herr (askRoles_ne_error err)
    · rintro (herr | ⟨hhit, enforcer, err, henforcer, hask⟩)
      · exact Or.inl herr
      refine Or.inr ⟨enforcer, henforcer, bind_eq_error.mpr ?_⟩
      by_cases hname : userHit userId p = true
      · exact Or.inl (askUser_error_iff.mpr ⟨hname, err, hask⟩)
      · refine Or.inr ⟨c, if_neg hname, bind_eq_error.mpr (Or.inl ?_)⟩
        exact askUser_error_iff.mpr ⟨hhit.resolve_left hname, err, hask⟩

/-- What the loop has counted, over all of its rounds. -/
structure CountedAll (like : GoString → GoString → Bool) (db : Tables)
    (getPermissionEnforcer : LoginPermission → Except GoString Enforcer) (userId : GoString)
    (application : Application) (permissions : List LoginPermission) (c c' : Counts) : Prop where
  some : (∃ p ∈ permissions, Missed like db userId application p) →
    c.allowPermissionCount < c'.allowPermissionCount
  none : (¬∃ p ∈ permissions, Missed like db userId application p) →
    c'.allowPermissionCount = c.allowPermissionCount
  denyPermissionCount : c'.denyPermissionCount = c.denyPermissionCount
  denyCount : c'.denyCount = c.denyCount
  granted : c.allowCount < c'.allowCount →
    ∃ p ∈ permissions, Granted like db getPermissionEnforcer userId application p

theorem countAll_ok {permissions : List LoginPermission}
    (heffect : ∀ p ∈ permissions, covers application p = true → p.effect = allow)
    (h : permissions.foldlM (countPermission like db getPermissionEnforcer userId application) c =
      .ok c') :
    CountedAll like db getPermissionEnforcer userId application permissions c c' := by
  induction permissions generalizing c with
  | nil =>
    obtain rfl := Except.ok.inj h
    refine ⟨?_, fun _ => rfl, rfl, rfl, fun hlt => absurd hlt (lt_irrefl _)⟩
    rintro ⟨p, hp, -⟩
    exact absurd hp List.not_mem_nil
  | cons p permissions ih =>
    rw [List.foldlM_cons] at h
    obtain ⟨d, hround, hrest⟩ := bind_eq_ok.mp h
    have hone := countPermission_ok (heffect p List.mem_cons_self) hround
    have hall := ih (fun q hq => heffect q (List.mem_cons_of_mem p hq)) hrest
    have hle : d.allowPermissionCount ≤ c'.allowPermissionCount := by
      by_cases hsome : ∃ q ∈ permissions, Missed like db userId application q
      · exact (hall.some hsome).le
      · exact (hall.none hsome).ge
    have hle' : c.allowPermissionCount ≤ d.allowPermissionCount := by
      by_cases hmissed : Missed like db userId application p
      · rw [hone.one hmissed]
        exact Nat.le_succ _
      · exact (hone.none hmissed).ge
    refine ⟨?_, ?_, hall.3.trans hone.3, hall.4.trans hone.4, ?_⟩
    · rintro ⟨q, hq, hmissed⟩
      rcases List.mem_cons.mp hq with rfl | hq
      · have := hone.one hmissed
        omega
      · have := hall.some ⟨q, hq, hmissed⟩
        omega
    · intro hno
      rw [hall.none fun ⟨q, hq, hmissed⟩ => hno ⟨q, List.mem_cons_of_mem p hq, hmissed⟩,
        hone.none fun hmissed => hno ⟨p, List.mem_cons_self, hmissed⟩]
    · intro hlt
      by_cases hfirst : c.allowCount < d.allowCount
      · exact ⟨p, List.mem_cons_self, hone.granted hfirst⟩
      · obtain ⟨q, hq, hgranted⟩ := hall.granted (by omega)
        exact ⟨q, List.mem_cons_of_mem p hq, hgranted⟩

theorem countAll_error_iff {permissions : List LoginPermission} :
    (∃ err, permissions.foldlM
        (countPermission like db getPermissionEnforcer userId application) c = .error err) ↔
      ∃ p ∈ permissions, Failed like db getPermissionEnforcer userId application p := by
  induction permissions generalizing c with
  | nil =>
    refine iff_of_false ?_ ?_
    · rintro ⟨err, herr⟩
      cases herr
    · rintro ⟨p, hp, -⟩
      exact absurd hp List.not_mem_nil
  | cons p permissions ih =>
    rw [List.foldlM_cons, bind_eq_error, countPermission_error_iff, List.exists_mem_cons_iff]
    constructor
    · rintro (hfailed | ⟨d, -, herr⟩)
      · exact Or.inl hfailed
      · exact Or.inr (ih.mp herr)
    · rintro (hfailed | hrest)
      · exact Or.inl hfailed
      -- the first round fails itself, or the rest is reached
      cases hround : countPermission like db getPermissionEnforcer userId application c p with
      | error err => exact Or.inl (countPermission_error_iff.mp ⟨err, hround⟩)
      | ok d => exact Or.inr ⟨d, rfl, ih.mpr hrest⟩

end Counting

section Decision

variable {like : GoString → GoString → Bool} {db : Tables}
  {getPermissions : GoString → Except GoString (List LoginPermission)}
  {getPermissionEnforcer : LoginPermission → Except GoString Enforcer}
  {userId : GoString} {application : Application}

/-- Where all permissions that cover an application allow, nobody is let in without a grant exactly if
there is a grant, or a permission that misses the user, or an enforcer that fails. -/
theorem loginPermission_granted_iff {owner name : GoString} {permissions : List LoginPermission}
    (hid : getOwnerAndNameFromIdWithError userId = some (owner, name)) (howner : owner ≠ builtIn)
    (hpermissions : getPermissions (if application.isShared then owner
      else application.organization) = .ok permissions)
    (heffect : ∀ p ∈ permissions, covers application p = true → p.effect = allow) :
    (checkLoginPermission like db getPermissions getPermissionEnforcer userId application = .ok true →
      ∃ p ∈ permissions, Granted like db getPermissionEnforcer userId application p) ↔
    (∃ p ∈ permissions, Granted like db getPermissionEnforcer userId application p) ∨
      (∃ p ∈ permissions, Missed like db userId application p) ∨
      ∃ p ∈ permissions, Failed like db getPermissionEnforcer userId application p := by
  have hcheck : checkLoginPermission like db getPermissions getPermissionEnforcer userId
      application = (permissions.foldlM (countPermission like db getPermissionEnforcer userId
        application) ⟨0, 0, 0, 0⟩ >>= fun c => .ok c.decide) := by
    rw [checkLoginPermission, hid]
    simp only [if_neg howner, hpermissions]
    rfl
  rw [hcheck]
  constructor
  · intro hjust
    cases hcount : permissions.foldlM (countPermission like db getPermissionEnforcer userId
        application) ⟨0, 0, 0, 0⟩ with
    | error err => exact Or.inr (Or.inr (countAll_error_iff.mp ⟨err, hcount⟩))
    | ok c =>
      by_cases hmissed : ∃ p ∈ permissions, Missed like db userId application p
      · exact Or.inr (Or.inl hmissed)
      -- every permission hits, so none is counted, and the answer is yes
      have hall := countAll_ok heffect hcount
      have hdecide : c.decide = true := by
        rw [Counts.decide, hall.denyCount, hall.none hmissed]
        simp
      apply Or.inl
      apply hjust
      rw [hcount, ← hdecide]
      rfl
  · rintro (hgranted | hrest) hyes
    · exact hgranted
    obtain ⟨c, hcount, hyes⟩ := bind_eq_ok.mp hyes
    have hall := countAll_ok heffect hcount
    rcases hrest with hmissed | hfailed
    · apply hall.granted
      by_contra hno
      have hnone : ¬0 < c.allowCount := hno
      have hdecide : c.decide = false := by
        rw [Counts.decide, hall.denyCount, hall.denyPermissionCount, if_neg (lt_irrefl 0),
          if_neg hnone, if_pos ⟨hall.some hmissed, rfl⟩]
      rw [hdecide] at hyes
      cases hyes
    · obtain ⟨err, herr⟩ := countAll_error_iff.mpr hfailed
      rw [herr] at hcount
      cases hcount

end Decision

namespace Sample

def user : User := ⟨utf8 "acme", utf8 "ana", []⟩

def db : Tables where
  users := [user]
  groups := []
  roles := []
  permissions := []
  nodup_users := by decide
  nodup_groups := List.nodup_nil
  nodup_roles := List.nodup_nil
  nodup_permissions := List.nodup_nil

def portal (users : List GoString) : LoginPermission :=
  ⟨⟨utf8 "acme", utf8 "portal", users, [], [], [], [], [], utf8 "Application", [utf8 "portal"],
    [utf8 "Write"], allow⟩, true, utf8 "Approved"⟩

def application : Application := ⟨utf8 "portal", utf8 "acme", false⟩

def enforcer (p : LoginPermission) : Except GoString Enforcer :=
  .ok fun sub obj act => .ok (sub ∈ p.users && obj ∈ p.resources && act ∈ p.actions)

end Sample

/-- The only permission lists another user, so Ana is not let in. -/
theorem loginPermission_missed : checkLoginPermission (fun _ _ => true) Sample.db
    (fun _ => .ok [Sample.portal [utf8 "acme/bo"]]) Sample.enforcer (utf8 "acme/ana")
      Sample.application ≠ .ok true := by
  have hid : getOwnerAndNameFromIdWithError (utf8 "acme/ana") = some (utf8 "acme", utf8 "ana") := by
    decide +kernel
  have hmiss : ¬Hits (fun _ _ => true) Sample.db (utf8 "acme/ana")
      (Sample.portal [utf8 "acme/bo"]) := not_hits_iff.mpr (by decide +kernel)
  intro hyes
  obtain ⟨p, hp, -, hhits, -⟩ :=
    (loginPermission_granted_iff hid (by decide +kernel) rfl (by decide +kernel)).mpr
      (Or.inr (Or.inl ⟨_, List.mem_cons_self, by decide +kernel, hmiss⟩)) hyes
  rw [List.mem_singleton.mp hp] at hhits
  exact hmiss hhits

/-- The only permission lets Ana write, and its enforcer does not allow her to read; she is let in. -/
theorem hit_lets_in : ∃ p : LoginPermission, covers Sample.application p = true ∧
    p.effect = allow ∧
    checkLoginPermission (fun _ _ => true) Sample.db (fun _ => .ok [p])
        Sample.enforcer (utf8 "acme/ana") Sample.application = .ok true ∧
    ¬Granted (fun _ _ => true) Sample.db Sample.enforcer (utf8 "acme/ana") Sample.application p := by
  refine ⟨Sample.portal [utf8 "acme/ana"], by decide +kernel, rfl, by decide +kernel, ?_⟩
  rintro ⟨-, -, enforcer, henforcer, hask⟩
  obtain rfl := Except.ok.inj henforcer
  rcases hask with hask | ⟨role, ⟨targetRoles, hroles, hrole, -⟩, -⟩
  · revert hask
    decide +kernel
  · have hnone : getRolesByUser (fun _ _ => true) Sample.db (utf8 "acme/ana") = some [] := by
      decide +kernel
    rw [hnone] at hroles
    obtain rfl := Option.some.inj hroles
    exact absurd hrole List.not_mem_nil

end ArchGuard.Login
