import ArchGuard.Groups
import ArchGuard.KeyedRows

/-! # Groups over SCIM

The members of a group are kept twice, in the users' lists of groups and in the enforcer. PATCH
operations are told apart by the text of their path, and Replace writes the whole row anew. -/
namespace SetChanges

inductive Change (α : Type*)
  | add (s : Set α)
  | replace (s : Set α)
  | remove (i : α)

variable {α : Type*}

def Change.apply : Change α → Set α → Set α
  | .add s, S => S ∪ s
  | .replace s, _ => s
  | .remove i, S => S \ {i}

/-- The change by a party that does not hear of the removal of one element. -/
def Change.deaf : Change α → Set α → Set α
  | .add s, S => S ∪ s
  | .replace s, _ => s
  | .remove _, S => S

/-- The change says of the element whether it is in the set, other than by removing it. -/
def Change.Decides (i : α) : Change α → Prop
  | .add s => i ∈ s
  | .replace _ => True
  | .remove _ => False

/-- Every removal of the element finds it absent or is overruled later. -/
def Harmless (i : α) (S : Set α) : List (Change α) → Prop
  | [] => True
  | c :: cs => (c = .remove i → i ∈ S → ∃ c' ∈ cs, c'.Decides i) ∧ Harmless i (c.apply S) cs

def run (S : Set α) (cs : List (Change α)) : Set α := cs.foldl (fun S c => c.apply S) S

def deafRun (S : Set α) (cs : List (Change α)) : Set α := cs.foldl (fun S c => c.deaf S) S

/-- The two runs agree on an element if they have come to agree, or will, and no later removal is
missed. -/
theorem mem_deafRun_iff {i : α} {S T : Set α} {cs : List (Change α)} (hsub : i ∈ S → i ∈ T) :
    (i ∈ deafRun T cs ↔ i ∈ run S cs) ↔
      ((i ∈ T → i ∈ S) ∨ ∃ c ∈ cs, c.Decides i) ∧ Harmless i S cs := by
  induction cs generalizing S T with
  | nil =>
    have hagree : (i ∈ T ↔ i ∈ S) ↔ (i ∈ T → i ∈ S) := ⟨Iff.mp, fun h => ⟨h, hsub⟩⟩
    simpa [deafRun, run, Harmless] using hagree
  | cons c cs ih =>
    have hstep : i ∈ c.apply S → i ∈ c.deaf T := by
      cases c with
      | add s => exact Or.imp_left hsub
      | replace s => exact id
      | remove j => exact fun h => hsub h.1
    rw [deafRun, run, List.foldl_cons, List.foldl_cons, ← deafRun, ← run, ih hstep, Harmless,
      List.exists_mem_cons_iff, ← and_assoc]
    apply and_congr_left'
    cases c with
    | add s =>
      by_cases hs : i ∈ s
      · simp [Change.apply, Change.deaf, Change.Decides, hs]
      · simp [Change.apply, Change.deaf, Change.Decides, hs]
    | replace s => simp [Change.apply, Change.deaf, Change.Decides]
    | remove j =>
      by_cases hj : j = i
      · subst hj
        by_cases hS : j ∈ S
        · have hT := hsub hS
          simp [Change.apply, Change.deaf, Change.Decides, hS, hT]
        · simp [Change.apply, Change.deaf, Change.Decides, hS]
      · have hne : i ≠ j := fun h => hj h.symm
        simp [Change.apply, Change.deaf, Change.Decides, hj, hne]

theorem deafRun_eq_iff {S : Set α} {cs : List (Change α)} :
    deafRun S cs = run S cs ↔ ∀ i, Harmless i S cs := by
  rw [Set.ext_iff]
  apply forall_congr'
  intro i
  rw [mem_deafRun_iff id, and_iff_right (Or.inl id)]

end SetChanges

namespace ArchGuard.Scim
open KeyedRows SetChanges GoText

/-- The identifier `owner/name` of a user or a group, by its halves. -/
abbrev Id := GoString × GoString

structure User extends Groups.User Id where
  name : GoString
  id : GoString

def User.key (u : User) : Id := (u.owner, u.name)

structure Group extends Groups.Group where
  createdTime : GoString
  updatedTime : GoString
  manager : GoString
  contactEmail : GoString
  title : GoString
  key : GoString
  isEnabled : Bool
  properties : List (GoString × GoString)

def Group.getId (g : Group) : Id := (g.owner, g.name)

/-- The tables of users and of groups, and the enforcer's rows that give a user a group. -/
structure Directory where
  users : List User
  keys : (users.map User.key).Nodup
  links : List (Id × Id)
  groups : List Group

def updateGroupsForUser (links : List (Id × Id)) (user : Id) (groups : List Id) : List (Id × Id) :=
  links.filter (fun link => link.1 ≠ user) ++ groups.map fun group => (user, group)

/-- `UpdateUser` with the column `groups`. Its row is there: every caller has read it. -/
def updateUser (d : Directory) (user : User) : Directory where
  users := replaceAt User.key user.key user d.users
  keys := by
    rw [map_replaceAt fun _ _ h => h]
    exact d.keys
  links := updateGroupsForUser d.links user.key user.groups
  groups := d.groups

def getUserByUserIdOnly (d : Directory) (userId : GoString) : Option User :=
  if userId = [] then none else d.users.find? fun user => user.id = userId

/-- The names that the enforcer has for the group, looked up in the organization of the group. -/
def getGroupUsers (d : Directory) (groupId : Id) : List User :=
  let names := (d.links.filter fun link => link.2 = groupId).map fun link => link.1.2
  d.users.filter fun user => user.owner = groupId.1 ∧ user.name ∈ names

def deleteVal (values : List Id) (val : Id) : List Id := values.filter fun v => v ≠ val

section Membership

local instance lawfulId : LawfulBEq Id := inferInstance

/-- The turn of one user in `addGroupMembers` and `setGroupMembers`. -/
def addGroupMember (groupId : Id) (d : Directory) (userId : GoString) : Directory :=
  match getUserByUserIdOnly d userId with
  | none => d
  | some user =>
    if groupId ∈ user.groups then d
    else updateUser d { user with groups := user.groups ++ [groupId] }

end Membership

def addGroupMembers (d : Directory) (groupId : Id) (userIds : List GoString) : Directory :=
  userIds.foldl (addGroupMember groupId) d

def removeGroupMember (groupId : Id) (d : Directory) (userId : GoString) : Directory :=
  match getUserByUserIdOnly d userId with
  | none => d
  | some user => updateUser d { user with groups := deleteVal user.groups groupId }

/-- The keys of a map made of a list, in the order that a range over it takes. -/
structure MapRange where
  keys : List GoString → List GoString
  mem_keys : ∀ {l i}, i ∈ keys l ↔ i ∈ l

def setGroupMembers (range : MapRange) (d : Directory) (groupId : Id)
    (newUserIds currentUserIds : List GoString) : Directory :=
  let added := (range.keys newUserIds).foldl (fun d id =>
    if id ∈ currentUserIds then d else addGroupMember groupId d id) d
  (range.keys currentUserIds).foldl (fun d id =>
    if id ∈ newUserIds then d else removeGroupMember groupId d id) added

def clearGroupMembers (d : Directory) (groupId : Id) : Directory :=
  (getGroupUsers d groupId).foldl (fun d user =>
    updateUser d { user with groups := deleteVal user.groups groupId }) d

/-- A decoded value of a request; nothing is read of a number or a boolean. -/
inductive Any
  | nil
  | scalar
  | str (s : GoString)
  | arr (items : List Any)
  | obj (fields : List (String × Any))

/-- `m["value"].(string)` of an item of `members`, unless it is empty. -/
def Any.memberId : Any → Option GoString
  | .obj fields => match fields.lookup "value" with
    | some (.str v) => if v = [] then none else some v
    | _ => none
  | _ => none

def extractMemberIds : Any → List GoString
  | .arr items => items.filterMap Any.memberId
  | _ => []

/-- `ToString`, unless it panics. -/
def toString (defaultV : GoString) : Option Any → Option GoString
  | none => some defaultV
  | some .nil => some defaultV
  | some (.str s) => some s
  | _ => none

def groupExtensionKey : String := "urn:ietf:params:scim:schemas:extension:enterprise:2.0:Group"

inductive PatchOp | add | replace | remove
  deriving DecidableEq

/-- A path of the SCIM library: an attribute and perhaps a filter of its values. -/
structure Path where
  attributePath : GoString
  valueExpression : Option GoString

structure PatchOperation where
  op : PatchOp
  path : Path
  value : Any

def bracket : UInt8 := 91

/-- What the library's `Path.String` gives: the attribute, with the filter in brackets. -/
structure Rendering where
  text : Path → GoString
  plain : ∀ a, text ⟨a, none⟩ = a
  filtered : ∀ a e, bracket ∈ text ⟨a, some e⟩

inductive ScimError
  | panicked
  | text (msg : GoString)

section Handlers
variable (render : Rendering) (range : MapRange) (isOrganization : GoString → Bool) (now : GoString)

/-- One turn of the loop of `updateScimGroupByPatch`; no group when it panics. -/
def patchOperation (id : Id) (d : Directory) (group : Group) (op : PatchOperation) :
    Directory × Option Group :=
  let value := if op.op = .remove then .nil else op.value
  let path := render.text op.path
  if path = utf8 "displayName" then
    (d, (toString [] value).map fun name => { group with displayName := name })
  else if path = utf8 "members" then
    match op.op with
    | .remove => (clearGroupMembers d id, some group)
    | .replace => (setGroupMembers range d id (extractMemberIds value)
        ((getGroupUsers d id).map User.id), some group)
    | .add => (addGroupMembers d id (extractMemberIds value), some group)
  else if path = utf8 groupExtensionKey then
    match value with
    | .nil => (d, some group)
    | .obj v => (d, (toString group.owner (v.lookup "organization")).map fun owner =>
        { group with owner := owner })
    | _ => (d, none)
  else if path = utf8 (groupExtensionKey ++ "." ++ "organization") then
    (d, (toString group.owner value).map fun owner => { group with owner := owner })
  else (d, some group)

def patchOperations (id : Id) (d : Directory) (group : Group) :
    List PatchOperation → Directory × Option Group
  | [] => (d, some group)
  | op :: ops => match patchOperation render range id d group op with
    | (d', none) => (d', none)
    | (d', some group') => patchOperations id d' group' ops

def getGroup (d : Directory) (id : Id) : Option Group := rowAt Group.getId d.groups id

/-- `UpdateGroup` by a global administrator. No caller here changes the name, so nothing is
renamed. -/
def updateGroup (d : Directory) (id : Id) (group : Group) : Except ScimError Directory :=
  match getGroup d id with
  | none => .ok d
  | some _ => match Groups.checkGroupName isOrganization group.name with
    | .error msg => .error (.text msg)
    | .ok () => .ok { d with groups := replaceAt Group.getId id group d.groups }

/-- The directory after `updateScimGroupByPatch`, and the group and users its resource shows. -/
def updateScimGroupByPatch (id : Id) (d : Directory) (group : Group) (ops : List PatchOperation) :
    Directory × Except ScimError (Group × List User) :=
  match patchOperations render range id d group ops with
  | (d', none) => (d', .error .panicked)
  | (d', some group') => match updateGroup isOrganization d' id { group' with updatedTime := now } with
    | .error e => (d', .error e)
    | .ok d'' => (d'', .ok ({ group' with updatedTime := now }, getGroupUsers d'' id))

/-- `getAttrString`, unless it panics. -/
def getAttrString (attrs : List (String × Any)) (key : String) : Except ScimError GoString :=
  match attrs.lookup key with
  | none => .ok []
  | some .nil => .ok []
  | some (.str s) => .ok s
  | some _ => .error .panicked

def getAttrJson (attrs : List (String × Any)) (key : String) :
    Except ScimError (Option (List (String × Any))) :=
  match attrs.lookup key with
  | none => .ok none
  | some .nil => .ok none
  | some (.obj v) => .ok (some v)
  | some (.arr []) => .ok none
  | some (.arr (.obj v :: _)) => .ok (some v)
  | some _ => .error .panicked

def getAttrJsonValue (attrs : List (String × Any)) (key1 key2 : String) :
    Except ScimError GoString := do
  match ← getAttrJson attrs key1 with
  | none => return []
  | some attr => getAttrString attr key2

def dash : UInt8 := 45

def resource2group (attrs : List (String × Any)) : Except ScimError Group := do
  let org ← getAttrJsonValue attrs groupExtensionKey "organization"
  if org = [] then throw (.text (utf8 s!"organization in {groupExtensionKey} is required"))
  let displayName ← getAttrString attrs "displayName"
  if displayName = [] then throw (.text (utf8 "displayName is required"))
  return { owner := org, name := displayName.map fun b => if b = Object.slash then dash else b,
           displayName := displayName, createdTime := [], updatedTime := [], manager := [],
           contactEmail := [], type := [], parentId := [], isTopGroup := false, title := [],
           key := [], isEnabled := false, properties := [] }

/-- The directory after `updateScimGroup`, and the group and users its resource shows. -/
def updateScimGroup (id : Id) (d : Directory) (oldGroup : Group) (attrs : List (String × Any)) :
    Except ScimError (Directory × Group × List User) := do
  let built ← resource2group attrs
  let newGroup := { built with owner := oldGroup.owner, name := oldGroup.name, updatedTime := now }
  let d' ← updateGroup isOrganization d id newGroup
  let currentIds := (getGroupUsers d' id).map User.id
  let d'' := setGroupMembers range d' id (extractMemberIds ((attrs.lookup "members").getD .nil))
    currentIds
  return (d'', newGroup, getGroupUsers d'' id)

end Handlers

/-- What no update of a user's groups changes. -/
def User.person (u : User) : Id × GoString := (u.key, u.id)

def Directory.people (d : Directory) : List (Id × GoString) := d.users.map User.person

def Directory.existing (d : Directory) : Set GoString := {i | ∃ k, (k, i) ∈ d.people}

def memberIds (d : Directory) (g : Id) : Set GoString := {i | ∃ u ∈ d.users, u.id = i ∧ g ∈ u.groups}

/-- The members by the enforcer, as the resource of the group shows them. -/
def seenIds (d : Directory) (g : Id) : Set GoString := {i | ∃ u ∈ getGroupUsers d g, u.id = i}

/-- The two copies of the group's membership agree. -/
structure Agrees (d : Directory) (g : Id) : Prop where
  agree : ∀ u ∈ d.users, g ∈ u.groups ↔ (u.key, g) ∈ d.links
  known : ∀ k, (k, g) ∈ d.links → k ∈ d.users.map User.key

/-- The members are of the organization of the group. -/
def Within (d : Directory) (g : Id) : Prop := ∀ u ∈ d.users, g ∈ u.groups → u.owner = g.1

/-- None of these identifiers is the empty one of a user, or of two users. -/
def Distinct (people : List (Id × GoString)) (ids : Set GoString) : Prop :=
  ∀ i ∈ ids, ∀ k, (k, i) ∈ people → i ≠ [] ∧ ∀ k', (k', i) ∈ people → k' = k

/-- The users with these identifiers are of the group's organization. -/
def LocalIds (people : List (Id × GoString)) (g : Id) (ids : Set GoString) : Prop :=
  ∀ i ∈ ids, ∀ k, (k, i) ∈ people → k.1 = g.1

/-- A directory in order for the group, as long as only these identifiers come up. -/
structure Orderly (ids : Set GoString) (d : Directory) (g : Id) : Prop extends Agrees d g where
  within : Within d g
  distinct : Distinct d.people ids
  covered : memberIds d g ⊆ ids

/-- An orderly directory of the same people, with these members. -/
structure Becomes (ids : Set GoString) (d : Directory) (g : Id) (S : Set GoString) (d' : Directory) :
    Prop where
  orderly : Orderly ids d' g
  people : d'.people = d.people
  members : memberIds d' g = S
  groups : d'.groups = d.groups

section People
variable {d d' : Directory} {g : Id} {u w : User} {i : GoString}

theorem map_key_of_people (h : d'.people = d.people) :
    d'.users.map User.key = d.users.map User.key := by
  simpa [Directory.people, List.map_map, Function.comp_def, User.person] using
    congrArg (List.map Prod.fst) h

theorem mem_existing : i ∈ d.existing ↔ ∃ u ∈ d.users, u.id = i := by
  constructor
  · rintro ⟨k, hk⟩
    obtain ⟨u, hu, heq⟩ := List.mem_map.mp hk
    exact ⟨u, hu, congrArg Prod.snd heq⟩
  · rintro ⟨u, hu, rfl⟩
    exact ⟨u.key, List.mem_map.mpr ⟨u, hu, rfl⟩⟩

theorem existing_of_people (h : d'.people = d.people) : d'.existing = d.existing := by
  rw [Directory.existing, h, ← Directory.existing]

theorem memberIds_subset : memberIds d g ⊆ d.existing :=
  fun _ ⟨u, hu, hi, _⟩ => mem_existing.mpr ⟨u, hu, hi⟩

theorem getUserByUserIdOnly_some (h : getUserByUserIdOnly d i = some u) :
    u ∈ d.users ∧ u.id = i := by
  rw [getUserByUserIdOnly] at h
  split_ifs at h
  exact ⟨List.mem_of_find?_eq_some h, by simpa using List.find?_some h⟩

theorem getUserByUserIdOnly_none {ids : Set GoString} (hdistinct : Distinct d.people ids)
    (hi : i ∈ ids) (h : getUserByUserIdOnly d i = none) : i ∉ d.existing := by
  rw [mem_existing]
  rintro ⟨u, hu, rfl⟩
  have hnamed := (hdistinct u.id hi u.key (List.mem_map.mpr ⟨u, hu, rfl⟩)).1
  rw [getUserByUserIdOnly, if_neg hnamed] at h
  simpa using List.find?_eq_none.mp h u hu

theorem eq_of_distinct {ids : Set GoString} (hdistinct : Distinct d.people ids) (hu : u ∈ d.users)
    (hw : w ∈ d.users) (hi : u.id ∈ ids) (h : w.id = u.id) : w = u := by
  have huPerson : (u.key, u.id) ∈ d.people := List.mem_map.mpr ⟨u, hu, rfl⟩
  have hwPerson : (w.key, u.id) ∈ d.people := h ▸ List.mem_map.mpr ⟨w, hw, rfl⟩
  have hkey := (hdistinct u.id hi u.key huPerson).2 w.key hwPerson
  exact List.inj_on_of_nodup_map d.keys hw hu hkey

theorem mem_updateUser (hu : u.person ∈ d.people) {v : User} :
    v ∈ (updateUser d u).users ↔ (v ∈ d.users ∧ v.key ≠ u.key) ∨ v = u := by
  obtain ⟨w, hw, hperson⟩ := List.mem_map.mp hu
  rw [updateUser, mem_replaceAt]
  exact or_congr_right (and_iff_left (List.mem_map.mpr ⟨w, hw, (Prod.mk.inj hperson).1⟩))

theorem people_updateUser (hu : u.person ∈ d.people) : (updateUser d u).people = d.people := by
  obtain ⟨w, hw, hperson⟩ := List.mem_map.mp hu
  refine map_replaceAt ?_
  intro v hv h
  rw [← hperson, List.inj_on_of_nodup_map d.keys hv hw (h.trans (Prod.mk.inj hperson).1.symm)]

theorem people_addGroupMember (g : Id) (d : Directory) (i : GoString) :
    (addGroupMember g d i).people = d.people := by
  rw [addGroupMember]
  cases hget : getUserByUserIdOnly d i with
  | none => rfl
  | some u =>
    dsimp only
    split_ifs
    · rfl
    · exact people_updateUser (List.mem_map.mpr ⟨u, (getUserByUserIdOnly_some hget).1, rfl⟩)

theorem people_removeGroupMember (g : Id) (d : Directory) (i : GoString) :
    (removeGroupMember g d i).people = d.people := by
  rw [removeGroupMember]
  cases hget : getUserByUserIdOnly d i with
  | none => rfl
  | some u => exact people_updateUser (List.mem_map.mpr ⟨u, (getUserByUserIdOnly_some hget).1, rfl⟩)

end People

section Membership
variable {ids : Set GoString} {d d' : Directory} {g : Id} {u : User} {i : GoString}
  {S : Set GoString}

theorem mem_getGroupUsers (ho : Orderly ids d g) :
    u ∈ getGroupUsers d g ↔ u ∈ d.users ∧ g ∈ u.groups := by
  simp only [getGroupUsers, List.mem_filter, List.mem_map, decide_eq_true_eq]
  constructor
  · rintro ⟨hu, howner, ⟨k, g'⟩, ⟨hlink, rfl⟩, hname⟩
    obtain ⟨v, hv, rfl⟩ := List.mem_map.mp (ho.known k hlink)
    have hkey : v.key = u.key := Prod.ext
      ((ho.within v hv ((ho.agree v hv).mpr hlink)).trans howner.symm) hname
    have heq := List.inj_on_of_nodup_map d.keys hv hu hkey
    exact ⟨hu, heq ▸ (ho.agree v hv).mpr hlink⟩
  · rintro ⟨hu, hg⟩
    exact ⟨hu, ho.within u hu hg, (u.key, g), ⟨(ho.agree u hu).mp hg, rfl⟩, rfl⟩

theorem seenIds_eq (ho : Orderly ids d g) : seenIds d g = memberIds d g := by
  ext i
  simp only [seenIds, memberIds, Set.mem_ofPred_eq, mem_getGroupUsers ho, and_assoc]
  exact exists_congr fun u => and_congr_right fun _ => and_comm

theorem updateUser_becomes (ho : Orderly ids d g) (hu : u.person ∈ d.people) (hi : u.id ∈ ids)
    (hg : g ∈ u.groups → u.owner = g.1) :
    Becomes ids d g {i | if i = u.id then g ∈ u.groups else i ∈ memberIds d g} (updateUser d u) := by
  obtain ⟨w, hw, hperson⟩ := List.mem_map.mp hu
  obtain ⟨hkey, hid⟩ := Prod.mk.inj hperson
  have hmem {v : User} := mem_updateUser hu (v := v)
  have hlink {k : Id} : (k, g) ∈ (updateUser d u).links ↔
      ((k, g) ∈ d.links ∧ k ≠ u.key) ∨ (k = u.key ∧ g ∈ u.groups) := by
    simp only [updateUser, updateGroupsForUser, List.mem_append, List.mem_filter, List.mem_map,
      decide_eq_true_eq, Prod.mk.injEq]
    apply or_congr_right
    constructor
    · rintro ⟨g', hg', rfl, rfl⟩
      exact ⟨rfl, hg'⟩
    · rintro ⟨rfl, h⟩
      exact ⟨g, h, rfl, rfl⟩
  have hkeys {v : User} (hv : v ∈ d.users) : v.key = u.key ↔ v.id = u.id := by
    rw [← hkey, ← hid]
    rw [← hid] at hi
    exact ⟨fun h => congrArg User.id (List.inj_on_of_nodup_map d.keys hv hw h),
      fun h => congrArg User.key (eq_of_distinct ho.distinct hw hv hi h)⟩
  have hpeople := people_updateUser hu
  have hmembers : memberIds (updateUser d u) g =
      {i | if i = u.id then g ∈ u.groups else i ∈ memberIds d g} := by
    ext i
    simp only [memberIds, Set.mem_ofPred_eq, hmem]
    split_ifs with hi
    · constructor
      · rintro ⟨v, ⟨hv, hne⟩ | rfl, hvi, hvg⟩
        · exact absurd ((hkeys hv).mpr (hvi.trans hi)) hne
        · exact hvg
      · exact fun h => ⟨u, Or.inr rfl, hi.symm, h⟩
    · constructor
      · rintro ⟨v, ⟨hv, _⟩ | rfl, hvi, hvg⟩
        · exact ⟨v, hv, hvi, hvg⟩
        · exact absurd hvi.symm hi
      · rintro ⟨v, hv, hvi, hvg⟩
        exact ⟨v, Or.inl ⟨hv, fun h => hi (hvi ▸ (hkeys hv).mp h)⟩, hvi, hvg⟩
  refine ⟨⟨⟨?_, ?_⟩, ?_, hpeople ▸ ho.distinct, ?_⟩, hpeople, hmembers, rfl⟩
  · intro v hv
    rw [hlink]
    rcases hmem.mp hv with ⟨hv, hne⟩ | rfl
    · simp [hne, ho.agree v hv]
    · simp
  · intro k hk
    rw [map_key_of_people hpeople]
    rcases hlink.mp hk with ⟨hk, _⟩ | ⟨rfl, _⟩
    · exact ho.known k hk
    · exact List.mem_map.mpr ⟨w, hw, hkey⟩
  · intro v hv
    rcases hmem.mp hv with ⟨hv, _⟩ | rfl
    · exact ho.within v hv
    · exact hg
  · rw [hmembers]
    intro j hj
    by_cases hju : j = u.id
    · exact hju ▸ hi
    · exact ho.covered ((if_neg hju).mp hj)

theorem Becomes.refl (ho : Orderly ids d g) : Becomes ids d g (memberIds d g) d := ⟨ho, rfl, rfl, rfl⟩

theorem Becomes.trans {d'' : Directory} {T : Set GoString} (h : Becomes ids d g S d')
    (h' : Becomes ids d' g T d'') : Becomes ids d g T d'' :=
  ⟨h'.orderly, h'.people.trans h.people, h'.members, h'.groups.trans h.groups⟩

theorem foldl_becomes {α : Type} {f : Directory → α → Directory}
    {m : Set GoString → α → Set GoString} {l : List α} (ho : Orderly ids d g)
    (h : ∀ a ∈ l, ∀ e, Orderly ids e g → e.people = d.people →
      Becomes ids e g (m (memberIds e g) a) (f e a)) :
    Becomes ids d g (l.foldl m (memberIds d g)) (l.foldl f d) := by
  induction l generalizing d with
  | nil => exact .refl ho
  | cons a l ih =>
    have ha := h a List.mem_cons_self d ho rfl
    have hrest := ih ha.orderly fun b hb e he hp =>
      h b (List.mem_cons_of_mem a hb) e he (hp.trans ha.people)
    rw [ha.members] at hrest
    exact ha.trans hrest

theorem addGroupMember_becomes (ho : Orderly ids d g) (hi : i ∈ ids)
    (hin : ∀ k, (k, i) ∈ d.people → k.1 = g.1) :
    Becomes ids d g (memberIds d g ∪ ({i} ∩ d.existing)) (addGroupMember g d i) := by
  rw [addGroupMember]
  cases hget : getUserByUserIdOnly d i with
  | none =>
    have hnot := getUserByUserIdOnly_none ho.distinct hi hget
    rw [Set.singleton_inter_eq_empty.mpr hnot, Set.union_empty]
    exact .refl ho
  | some u =>
    obtain ⟨hu, rfl⟩ := getUserByUserIdOnly_some hget
    have hperson : u.person ∈ d.people := List.mem_map.mpr ⟨u, hu, rfl⟩
    rw [Set.inter_eq_left.mpr (Set.singleton_subset_iff.mpr (mem_existing.mpr ⟨u, hu, rfl⟩))]
    dsimp only
    split_ifs with hg
    · have hmember : u.id ∈ memberIds d g := ⟨u, hu, rfl, hg⟩
      rw [Set.union_eq_left.mpr (Set.singleton_subset_iff.mpr hmember)]
      exact .refl ho
    · have h := updateUser_becomes (u := { u with groups := u.groups ++ [g] }) ho hperson hi
        fun _ => hin u.key hperson
      refine ⟨h.orderly, h.people, h.members.trans ?_, h.groups⟩
      ext j
      by_cases hj : j = u.id <;> simp [hj]

theorem dropGroup_becomes (ho : Orderly ids d g) (hu : u.person ∈ d.people) (hi : u.id ∈ ids) :
    Becomes ids d g (memberIds d g \ {u.id})
      (updateUser d { u with groups := deleteVal u.groups g }) := by
  have hg : g ∉ deleteVal u.groups g := by simp [deleteVal]
  have h := updateUser_becomes (u := { u with groups := deleteVal u.groups g }) ho hu hi
    fun hmem => absurd hmem hg
  refine ⟨h.orderly, h.people, h.members.trans ?_, h.groups⟩
  ext j
  by_cases hj : j = u.id <;> simp [hj, hg]

theorem removeGroupMember_becomes (ho : Orderly ids d g) (hi : i ∈ ids) :
    Becomes ids d g (memberIds d g \ {i}) (removeGroupMember g d i) := by
  rw [removeGroupMember]
  cases hget : getUserByUserIdOnly d i with
  | none =>
    have hnot : i ∉ memberIds d g := fun h =>
      getUserByUserIdOnly_none ho.distinct hi hget (memberIds_subset h)
    rw [Set.sdiff_singleton_eq_self hnot]
    exact .refl ho
  | some u =>
    obtain ⟨hu, rfl⟩ := getUserByUserIdOnly_some hget
    exact dropGroup_becomes ho (List.mem_map.mpr ⟨u, hu, rfl⟩) hi

theorem mem_foldl_add {p : GoString → Prop} [DecidablePred p] {l : List GoString} {E : Set GoString} :
    i ∈ l.foldl (fun S j => if p j then S else S ∪ ({j} ∩ E)) S ↔ i ∈ S ∨ (i ∈ l ∧ ¬p i ∧ i ∈ E) := by
  induction l generalizing S with
  | nil => simp
  | cons j l ih =>
    rw [List.foldl_cons, ih]
    split_ifs with hp <;> by_cases hj : i = j <;> simp [hj, hp]
    tauto

theorem mem_foldl_remove {p : GoString → Prop} [DecidablePred p] {l : List GoString} :
    i ∈ l.foldl (fun S j => if p j then S else S \ {j}) S ↔ i ∈ S ∧ (i ∈ l → p i) := by
  induction l generalizing S with
  | nil => simp
  | cons j l ih =>
    rw [List.foldl_cons, ih]
    split_ifs with hp <;> by_cases hj : i = j <;> simp [hj, hp]

theorem addGroupMembers_becomes {new : List GoString} (ho : Orderly ids d g)
    (hnew : ∀ i ∈ new, i ∈ ids) (hlocal : LocalIds d.people g {i | i ∈ new}) :
    Becomes ids d g (memberIds d g ∪ ({i | i ∈ new} ∩ d.existing)) (addGroupMembers d g new) := by
  have h := foldl_becomes (f := addGroupMember g) (l := new)
    (m := fun S j => if False then S else S ∪ ({j} ∩ d.existing)) ho fun j hj e he hp => by
      rw [if_neg id, ← existing_of_people hp]
      exact addGroupMember_becomes he (hnew j hj) (hp ▸ hlocal j hj)
  refine ⟨h.orderly, h.people, h.members.trans ?_, h.groups⟩
  ext j
  rw [mem_foldl_add (p := fun _ => False)]
  simp

theorem setGroupMembers_becomes (range : MapRange) {new cur : List GoString} (ho : Orderly ids d g)
    (hnew : ∀ i ∈ new, i ∈ ids) (hlocal : LocalIds d.people g {i | i ∈ new})
    (hcur : ∀ i, i ∈ cur ↔ i ∈ memberIds d g) :
    Becomes ids d g ({i | i ∈ new} ∩ d.existing) (setGroupMembers range d g new cur) := by
  have hadd := foldl_becomes (l := range.keys new)
    (f := fun e j => if j ∈ cur then e else addGroupMember g e j)
    (m := fun S j => if j ∈ cur then S else S ∪ ({j} ∩ d.existing)) ho fun j hj e he hp => by
      have hj' := range.mem_keys.mp hj
      split_ifs
      · exact .refl he
      · rw [← existing_of_people hp]
        exact addGroupMember_becomes he (hnew j hj') (hp ▸ hlocal j hj')
  have hdrop := foldl_becomes (l := range.keys cur)
    (f := fun e j => if j ∈ new then e else removeGroupMember g e j)
    (m := fun S j => if j ∈ new then S else S \ {j}) hadd.orderly fun j hj e he _ => by
      split_ifs
      · exact .refl he
      · exact removeGroupMember_becomes he (ho.covered ((hcur j).mp (range.mem_keys.mp hj)))
  rw [hadd.members] at hdrop
  have h := hadd.trans hdrop
  refine ⟨h.orderly, h.people, h.members.trans ?_, h.groups⟩
  ext j
  rw [mem_foldl_remove, mem_foldl_add, range.mem_keys, range.mem_keys, hcur]
  constructor
  · rintro ⟨hj | ⟨hj, _, he⟩, hk⟩
    · exact ⟨hk hj, memberIds_subset hj⟩
    · exact ⟨hj, he⟩
  · rintro ⟨hj, he⟩
    exact ⟨or_iff_not_imp_left.mpr fun hnot => ⟨hj, hnot, he⟩, fun _ => hj⟩

theorem clearGroupMembers_becomes (ho : Orderly ids d g) :
    Becomes ids d g ∅ (clearGroupMembers d g) := by
  have h := foldl_becomes (l := getGroupUsers d g)
    (f := fun e v => updateUser e { v with groups := deleteVal v.groups g })
    (m := fun S v => if False then S else S \ {v.id}) ho fun v hv e he hp => by
      obtain ⟨hmem, hg⟩ := (mem_getGroupUsers ho).mp hv
      rw [if_neg id]
      exact dropGroup_becomes he (hp ▸ List.mem_map.mpr ⟨v, hmem, rfl⟩)
        (ho.covered ⟨v, hmem, rfl, hg⟩)
  have hmap : (getGroupUsers d g).foldl (fun S v => if False then S else S \ {v.id}) (memberIds d g) =
      ((getGroupUsers d g).map User.id).foldl (fun S j => if False then S else S \ {j})
        (memberIds d g) := by rw [List.foldl_map]
  refine ⟨h.orderly, h.people, h.members.trans ?_, h.groups⟩
  rw [hmap, Set.eq_empty_iff_forall_notMem]
  intro j hj
  obtain ⟨⟨v, hv, hvj, hvg⟩, hnot⟩ := (mem_foldl_remove (p := fun _ => False)).mp hj
  exact hnot (List.mem_map.mpr ⟨v, (mem_getGroupUsers ho).mpr ⟨hv, hvg⟩, hvj⟩)

end Membership

/-- A member of another organization, with an identifier of its own. -/
structure Stray (d : Directory) (g : Id) (u : User) : Prop where
  mem : u ∈ d.users
  member : g ∈ u.groups
  foreign : u.owner ≠ g.1
  own : ∀ v ∈ d.users, v.id = u.id → v = u

section Strays
variable {d : Directory} {g : Id} {u w : User} {i : GoString}

/-- The group's users are looked up in its own organization. -/
theorem Stray.not_seen (h : Stray d g u) {v : User} (hv : v ∈ getGroupUsers d g) :
    v ∈ d.users ∧ v.id ≠ u.id := by
  obtain ⟨hmem, howner, -⟩ := by
    simpa only [getGroupUsers, List.mem_filter, decide_eq_true_eq] using hv
  refine ⟨hmem, ?_⟩
  intro hid
  exact h.foreign (h.own v hmem hid ▸ howner)

theorem Stray.updateUser (h : Stray d g u) (hw : w.person ∈ d.people) (hid : w.id ≠ u.id) :
    Stray (updateUser d w) g u := by
  obtain ⟨v, hv, hperson⟩ := List.mem_map.mp hw
  obtain ⟨hkey, hvid⟩ := Prod.mk.inj hperson
  have hne : u.key ≠ w.key := by
    intro heq
    have huv := List.inj_on_of_nodup_map d.keys h.mem hv (heq.trans hkey.symm)
    exact hid (hvid.symm.trans (congrArg User.id huv.symm))
  refine ⟨(mem_updateUser hw).mpr (Or.inl ⟨h.mem, hne⟩), h.member, h.foreign, ?_⟩
  intro x hx hxid
  rcases (mem_updateUser hw).mp hx with ⟨hx, -⟩ | rfl
  · exact h.own x hx hxid
  · exact absurd hxid hid

theorem Stray.addGroupMember (h : Stray d g u) (i : GoString) : Stray (addGroupMember g d i) g u := by
  rw [Scim.addGroupMember]
  cases hget : getUserByUserIdOnly d i with
  | none => exact h
  | some v =>
    obtain ⟨hv, -⟩ := getUserByUserIdOnly_some hget
    dsimp only
    split_ifs with hg
    · exact h
    · refine h.updateUser (List.mem_map.mpr ⟨v, hv, rfl⟩) ?_
      intro hid
      exact hg (h.own v hv hid ▸ h.member)

theorem Stray.removeGroupMember (h : Stray d g u) (hi : i ≠ u.id) :
    Stray (removeGroupMember g d i) g u := by
  rw [Scim.removeGroupMember]
  cases hget : getUserByUserIdOnly d i with
  | none => exact h
  | some v =>
    obtain ⟨hv, hid⟩ := getUserByUserIdOnly_some hget
    exact h.updateUser (List.mem_map.mpr ⟨v, hv, rfl⟩) (hid ▸ hi)

theorem Stray.foldl {α : Type} {f : Directory → α → Directory} {l : List α} (h : Stray d g u)
    (hstep : ∀ a ∈ l, ∀ e, Stray e g u → e.people = d.people → Stray (f e a) g u ∧
      (f e a).people = d.people) : Stray (l.foldl f d) g u := by
  have hall : Stray (l.foldl f d) g u ∧ (l.foldl f d).people = d.people :=
    List.foldlRecOn (motive := fun e => Stray e g u ∧ e.people = d.people) l f ⟨h, rfl⟩
      fun e he a ha => hstep a ha e he.1 he.2
  exact hall.1

theorem Stray.addAll (h : Stray d g u) (skip : GoString → Prop) [DecidablePred skip]
    (l : List GoString) :
    Stray (l.foldl (fun e j => if skip j then e else Scim.addGroupMember g e j) d) g u := by
  apply h.foldl
  intro j _ e he hp
  split_ifs
  · exact ⟨he, hp⟩
  · exact ⟨he.addGroupMember j, (people_addGroupMember g e j).trans hp⟩

theorem Stray.removeAll (h : Stray d g u) (skip : GoString → Prop) [DecidablePred skip]
    {l : List GoString} (hl : ∀ j ∈ l, j ≠ u.id) :
    Stray (l.foldl (fun e j => if skip j then e else Scim.removeGroupMember g e j) d) g u := by
  apply h.foldl
  intro j hj e he hp
  split_ifs
  · exact ⟨he, hp⟩
  · exact ⟨he.removeGroupMember (hl j hj), (people_removeGroupMember g e j).trans hp⟩

/-- The turn of a user of another organization makes it a stray. -/
theorem exists_stray_of_add {k : Id} (hk : (k, i) ∈ d.people) (hdistinct : Distinct d.people {i})
    (hforeign : k.1 ≠ g.1) : ∃ u, u.id = i ∧ Stray (addGroupMember g d i) g u := by
  rw [addGroupMember]
  cases hget : getUserByUserIdOnly d i with
  | none => exact absurd ⟨k, hk⟩ (getUserByUserIdOnly_none hdistinct rfl hget)
  | some v =>
    obtain ⟨hv, rfl⟩ := getUserByUserIdOnly_some hget
    have hperson : v.person ∈ d.people := List.mem_map.mpr ⟨v, hv, rfl⟩
    have hkey : v.key = k := (hdistinct v.id rfl k hk).2 v.key hperson
    have howner : v.owner ≠ g.1 := fun heq => hforeign (hkey ▸ heq)
    have hown {x : User} (hx : x ∈ d.users) (hid : x.id = v.id) : x = v :=
      eq_of_distinct hdistinct hv hx rfl hid
    dsimp only
    split_ifs with hg
    · exact ⟨v, rfl, hv, hg, howner, fun x hx => hown hx⟩
    · let joined : User := { v with groups := v.groups ++ [g] }
      have hjoined : joined.person ∈ d.people := hperson
      refine ⟨joined, rfl, (mem_updateUser hjoined).mpr (Or.inr rfl),
        List.mem_append_right _ List.mem_cons_self, howner, ?_⟩
      intro x hx hid
      rcases (mem_updateUser hjoined).mp hx with ⟨hx, hne⟩ | rfl
      · exact absurd (congrArg User.key (hown hx hid)) hne
      · rfl

theorem exists_stray_of_addAll {k : Id} (skip : GoString → Prop) [DecidablePred skip]
    {l : List GoString} (hi : i ∈ l) (hskip : ¬skip i) (hk : (k, i) ∈ d.people)
    (hdistinct : Distinct d.people {i}) (hforeign : k.1 ≠ g.1) :
    ∃ u, u.id = i ∧
      Stray (l.foldl (fun e j => if skip j then e else addGroupMember g e j) d) g u := by
  induction l generalizing d with
  | nil => cases hi
  | cons j l ih =>
    rw [List.foldl_cons]
    by_cases hj : i = j
    · subst hj
      rw [if_neg hskip]
      obtain ⟨u, hu, hstray⟩ := exists_stray_of_add hk hdistinct hforeign
      exact ⟨u, hu, hstray.addAll skip l⟩
    · have hpeople : (if skip j then d else addGroupMember g d j).people = d.people := by
        split_ifs
        · rfl
        · exact people_addGroupMember g d j
      exact ih ((List.mem_cons.mp hi).resolve_left hj) (hpeople ▸ hk) (hpeople ▸ hdistinct)

theorem Stray.setGroupMembers (range : MapRange) (h : Stray d g u) (new : List GoString) :
    Stray (setGroupMembers range d g new ((getGroupUsers d g).map User.id)) g u := by
  refine (h.addAll (· ∈ (getGroupUsers d g).map User.id) (range.keys new)).removeAll (· ∈ new) ?_
  intro j hj hid
  obtain ⟨v, hv, rfl⟩ := List.mem_map.mp (range.mem_keys.mp hj)
  exact (h.not_seen hv).2 hid

theorem not_seen_of_foreign {k : Id} (hk : (k, i) ∈ d.people) (hdistinct : Distinct d.people {i})
    (hforeign : k.1 ≠ g.1) : i ∉ (getGroupUsers d g).map User.id := by
  intro hseen
  obtain ⟨v, hv, rfl⟩ := List.mem_map.mp hseen
  obtain ⟨hmem, howner, -⟩ := by
    simpa only [getGroupUsers, List.mem_filter, decide_eq_true_eq] using hv
  have hkey := (hdistinct v.id rfl k hk).2 v.key (List.mem_map.mpr ⟨v, hmem, rfl⟩)
  exact hforeign (hkey ▸ howner)

theorem exists_stray_of_set (range : MapRange) {new : List GoString} {k : Id} (hi : i ∈ new)
    (hk : (k, i) ∈ d.people) (hdistinct : Distinct d.people {i}) (hforeign : k.1 ≠ g.1) :
    ∃ u, Stray (setGroupMembers range d g new ((getGroupUsers d g).map User.id)) g u := by
  have hunseen := not_seen_of_foreign hk hdistinct hforeign
  obtain ⟨u, rfl, hstray⟩ := exists_stray_of_addAll (· ∈ (getGroupUsers d g).map User.id)
    (range.mem_keys.mpr hi) hunseen hk hdistinct hforeign
  refine ⟨u, hstray.removeAll (· ∈ new) ?_⟩
  intro j hj hid
  exact hunseen (hid ▸ range.mem_keys.mp hj)

theorem Stray.clearGroupMembers (h : Stray d g u) : Stray (clearGroupMembers d g) g u := by
  apply h.foldl
  intro v hv e he hp
  obtain ⟨hmem, hid⟩ := h.not_seen hv
  have hperson : User.person { v with groups := deleteVal v.groups g } ∈ e.people :=
    hp ▸ List.mem_map.mpr ⟨v, hmem, rfl⟩
  exact ⟨he.updateUser hperson hid, (people_updateUser hperson).trans hp⟩

theorem exists_stray_of_not_within (hdistinct : Distinct d.people (memberIds d g))
    (h : ¬Within d g) : ∃ u, Stray d g u := by
  obtain ⟨u, hu, hg, hforeign⟩ : ∃ u ∈ d.users, g ∈ u.groups ∧ u.owner ≠ g.1 := by
    simpa only [Within, not_forall, exists_prop] using h
  refine ⟨u, hu, hg, hforeign, ?_⟩
  intro v hv hid
  exact eq_of_distinct hdistinct hu hv ⟨u, hu, rfl, hg⟩ hid

end Strays

def listed (value : Any) : Set GoString := {i | ∃ items fields,
  value = .arr items ∧ .obj fields ∈ items ∧ fields.lookup "value" = some (.str i)}

theorem memberId_eq_some {item : Any} {i : GoString} : item.memberId = some i ↔
    i ≠ [] ∧ ∃ fields, item = .obj fields ∧ fields.lookup "value" = some (.str i) := by
  cases item with
  | obj fields =>
    rw [Any.memberId]
    cases hv : fields.lookup "value" with
    | none => simp [hv]
    | some v => cases v <;> simp [hv]; grind
  | _ => simp [Any.memberId]

theorem mem_extractMemberIds {value : Any} {i : GoString} :
    i ∈ extractMemberIds value ↔ i ≠ [] ∧ i ∈ listed value := by
  cases value with
  | arr items => simp [extractMemberIds, listed, List.mem_filterMap, memberId_eq_some]; grind
  | _ => simp [extractMemberIds, listed]

/-- An operation on the members, with whatever value a removal carries. -/
inductive MemberOp
  | add (value : Any)
  | replace (value : Any)
  | removeAll (value : Any)
  | removeOne (id : GoString) (value : Any)

def MemberOp.request : MemberOp → PatchOperation
  | .add value => ⟨.add, ⟨utf8 "members", none⟩, value⟩
  | .replace value => ⟨.replace, ⟨utf8 "members", none⟩, value⟩
  | .removeAll value => ⟨.remove, ⟨utf8 "members", none⟩, value⟩
  | .removeOne id value =>
    ⟨.remove, ⟨utf8 "members", some (utf8 "value eq \"" ++ id ++ utf8 "\"")⟩, value⟩

/-- What the protocol means by the operation, over the existing users. -/
def MemberOp.change (existing : Set GoString) : MemberOp → Change GoString
  | .add value => .add (listed value ∩ existing)
  | .replace value => .replace (listed value ∩ existing)
  | .removeAll _ => .replace ∅
  | .removeOne id _ => .remove id

/-- The identifiers that the operation lists. -/
def MemberOp.listed : MemberOp → Set GoString
  | .add value => Scim.listed value
  | .replace value => Scim.listed value
  | _ => ∅

/-- What the code does for the operation. -/
def MemberOp.effect (range : MapRange) (g : Id) (d : Directory) : MemberOp → Directory
  | .add value => addGroupMembers d g (extractMemberIds value)
  | .replace value =>
    setGroupMembers range d g (extractMemberIds value) ((getGroupUsers d g).map User.id)
  | .removeAll _ => clearGroupMembers d g
  | .removeOne _ _ => d

section Patch
variable (render : Rendering) (range : MapRange) {ids : Set GoString} {d : Directory} {g : Id}
  (group : Group)

theorem extracted_inter {value : Any} (hdistinct : Distinct d.people (listed value)) :
    {i | i ∈ extractMemberIds value} ∩ d.existing = listed value ∩ d.existing := by
  ext i
  simp only [Set.mem_inter_iff, Set.mem_ofPred_eq, mem_extractMemberIds]
  constructor
  · rintro ⟨⟨-, hi⟩, hexists⟩
    exact ⟨hi, hexists⟩
  · rintro ⟨hi, k, hk⟩
    exact ⟨⟨(hdistinct i hi k hk).1, hi⟩, k, hk⟩

theorem LocalIds.extracted {people : List (Id × GoString)} {value : Any}
    (h : LocalIds people g (listed value)) : LocalIds people g {i | i ∈ extractMemberIds value} :=
  fun i hi => h i (mem_extractMemberIds.mp hi).2

theorem exists_foreign {value : Any} (hdistinct : Distinct d.people (listed value))
    (h : ¬LocalIds d.people g (listed value)) : ∃ i ∈ extractMemberIds value, ∃ k,
      (k, i) ∈ d.people ∧ k.1 ≠ g.1 ∧ Distinct d.people {i} := by
  obtain ⟨i, hi, k, hk, hforeign⟩ : ∃ i ∈ listed value, ∃ k, (k, i) ∈ d.people ∧ k.1 ≠ g.1 := by
    simpa only [LocalIds, not_forall, exists_prop] using h
  refine ⟨i, mem_extractMemberIds.mpr ⟨(hdistinct i hi k hk).1, hi⟩, k, hk, hforeign, ?_⟩
  rintro j rfl
  exact hdistinct j hi

theorem mem_currentIds (ho : Orderly ids d g) (i : GoString) :
    i ∈ (getGroupUsers d g).map User.id ↔ i ∈ memberIds d g := by
  rw [← seenIds_eq ho, List.mem_map]
  rfl

theorem text_ne {a e s : GoString} (hs : bracket ∉ s) : render.text ⟨a, some e⟩ ≠ s :=
  fun h => hs (h ▸ render.filtered a e)

theorem patchOperation_request (d : Directory) (op : MemberOp) :
    patchOperation render range g d group op.request = (op.effect range g d, some group) := by
  have hmembers : utf8 "members" ≠ utf8 "displayName" := by decide
  cases op with
  | removeOne id value =>
    have hname {s : GoString} (hs : bracket ∉ s) := text_ne render
      (a := utf8 "members") (e := utf8 "value eq \"" ++ id ++ utf8 "\"") hs
    simp only [patchOperation, MemberOp.request, MemberOp.effect,
      hname (s := utf8 "displayName") (by decide), hname (s := utf8 "members") (by decide),
      hname (s := utf8 groupExtensionKey) (by decide +kernel),
      hname (s := utf8 (groupExtensionKey ++ "." ++ "organization")) (by decide +kernel), if_false]
  | _ => simp [patchOperation, MemberOp.request, MemberOp.effect, render.plain, hmembers]

theorem patchOperations_request (d : Directory) (ops : List MemberOp) :
    patchOperations render range g d group (ops.map MemberOp.request) =
      (ops.foldl (MemberOp.effect range g) d, some group) := by
  induction ops generalizing d with
  | nil => rfl
  | cons op ops ih =>
    rw [List.map_cons, patchOperations, patchOperation_request]
    exact ih (op.effect range g d)

theorem MemberOp.effect_becomes (ho : Orderly ids d g) {op : MemberOp}
    (hop : Distinct d.people op.listed) (hids : op.listed ⊆ ids)
    (hlocal : LocalIds d.people g op.listed) :
    Becomes ids d g ((op.change d.existing).deaf (memberIds d g)) (op.effect range g d) := by
  cases op with
  | add value =>
    have hnew : ∀ i ∈ extractMemberIds value, i ∈ ids := fun i hi =>
      hids (mem_extractMemberIds.mp hi).2
    have h := addGroupMembers_becomes ho hnew (LocalIds.extracted hlocal)
    rwa [extracted_inter hop] at h
  | replace value =>
    have hnew : ∀ i ∈ extractMemberIds value, i ∈ ids := fun i hi =>
      hids (mem_extractMemberIds.mp hi).2
    have h := setGroupMembers_becomes range ho hnew (LocalIds.extracted hlocal) (mem_currentIds ho)
    rwa [extracted_inter hop] at h
  | removeAll value => exact clearGroupMembers_becomes ho
  | removeOne id value => exact .refl ho

theorem effects_become (ho : Orderly ids d g) {ops : List MemberOp}
    (hops : ∀ op ∈ ops, Distinct d.people op.listed ∧ op.listed ⊆ ids ∧
      LocalIds d.people g op.listed) :
    Becomes ids d g (deafRun (memberIds d g) (ops.map (MemberOp.change d.existing)))
      (ops.foldl (MemberOp.effect range g) d) := by
  induction ops generalizing d with
  | nil => exact .refl ho
  | cons op ops ih =>
    obtain ⟨hdistinct, hids, hlocal⟩ := hops op List.mem_cons_self
    have h₁ := MemberOp.effect_becomes range ho hdistinct hids hlocal
    have h₂ := ih h₁.orderly fun op' hop' =>
      h₁.people ▸ hops op' (List.mem_cons_of_mem op hop')
    rw [h₁.members, existing_of_people h₁.people] at h₂
    exact h₁.trans h₂

/-- Nothing takes a stray off the group. -/
theorem Stray.effect {u : User} (h : Stray d g u) (op : MemberOp) : Stray (op.effect range g d) g u := by
  cases op with
  | add value => exact h.addAll (fun _ => False) (extractMemberIds value)
  | replace value => exact h.setGroupMembers range (extractMemberIds value)
  | removeAll value => exact h.clearGroupMembers
  | removeOne id value => exact h

theorem Stray.effects {u : User} (h : Stray d g u) (ops : List MemberOp) :
    Stray (ops.foldl (MemberOp.effect range g) d) g u :=
  List.foldlRecOn (motive := fun e => Stray e g u) ops _ h fun _ he op _ => he.effect range op

theorem exists_stray_of_effect {op : MemberOp} (hop : Distinct d.people op.listed)
    (h : ¬LocalIds d.people g op.listed) : ∃ u, Stray (op.effect range g d) g u := by
  cases op with
  | add value =>
    obtain ⟨i, hi, k, hk, hforeign, hdistinct⟩ := exists_foreign hop h
    obtain ⟨u, -, hstray⟩ :=
      exists_stray_of_addAll (fun _ => False) hi not_false hk hdistinct hforeign
    exact ⟨u, hstray⟩
  | replace value =>
    obtain ⟨i, hi, k, hk, hforeign, hdistinct⟩ := exists_foreign hop h
    exact exists_stray_of_set range hi hk hdistinct hforeign
  | removeAll value => exact absurd (fun i hi => hi.elim) h
  | removeOne id value => exact absurd (fun i hi => hi.elim) h

theorem exists_stray_of_effects (ho : Orderly ids d g) {ops : List MemberOp}
    (hops : ∀ op ∈ ops, Distinct d.people op.listed ∧ op.listed ⊆ ids)
    (h : ¬∀ op ∈ ops, LocalIds d.people g op.listed) :
    ∃ u, Stray (ops.foldl (MemberOp.effect range g) d) g u := by
  induction ops generalizing d with
  | nil => exact absurd (fun op hop => absurd hop List.not_mem_nil) h
  | cons op ops ih =>
    obtain ⟨hdistinct, hids⟩ := hops op List.mem_cons_self
    by_cases hlocal : LocalIds d.people g op.listed
    · have h₁ := MemberOp.effect_becomes range ho hdistinct hids hlocal
      rw [← h₁.people] at hops h hlocal
      refine ih h₁.orderly (fun op' hop' => hops op' (List.mem_cons_of_mem op hop')) ?_
      intro hrest
      exact h (List.forall_mem_cons.mpr ⟨hlocal, hrest⟩)
    · obtain ⟨u, hstray⟩ := exists_stray_of_effect range hdistinct hlocal
      exact ⟨u, hstray.effects range ops⟩

/-- Both copies have exactly these members. -/
def MembersAre (d : Directory) (g : Id) (S : Set GoString) : Prop :=
  seenIds d g = S ∧ memberIds d g = S

theorem Becomes.membersAre_iff {d' : Directory} {S T : Set GoString} (h : Becomes ids d g S d') :
    MembersAre d' g T ↔ S = T := by
  rw [MembersAre, seenIds_eq h.orderly, h.members, and_self_iff]

/-- With a stray, the two copies differ. -/
theorem Stray.not_membersAre {u : User} (h : Stray d g u) (S : Set GoString) : ¬MembersAre d g S := by
  rintro ⟨hseen, hmembers⟩
  have hmember : u.id ∈ memberIds d g := ⟨u, h.mem, rfl, h.member⟩
  rw [hmembers, ← hseen] at hmember
  obtain ⟨v, hv, hid⟩ := hmember
  exact (h.not_seen hv).2 hid

section Requests
variable (isOrganization : GoString → Bool) (now : GoString)

/-- A PATCH has the effect of its operations, from left to right. -/
def PatchFollows (id : Id) (d : Directory) (ops : List MemberOp) : Prop :=
  MembersAre (updateScimGroupByPatch render range isOrganization now id d group
    (ops.map MemberOp.request)).1 id (run (memberIds d id) (ops.map (MemberOp.change d.existing)))

/-- A Replace sets the members to the existing users it lists and leaves these columns alone. -/
def ReplaceFollows (id : Id) (d d' : Directory) (attrs : List (String × Any)) : Prop :=
  MembersAre d' id (listed ((attrs.lookup "members").getD .nil) ∩ d.existing) ∧
    ∃ row, getGroup d' id = some row ∧ row.parentId = group.parentId ∧
      row.isTopGroup = group.isTopGroup ∧ row.isEnabled = group.isEnabled ∧
      row.createdTime = group.createdTime

/-- The columns are as a new row has them. -/
def Group.Blank (g : Group) : Prop :=
  g.parentId = [] ∧ g.isTopGroup = false ∧ g.isEnabled = false ∧ g.createdTime = []

variable {isOrganization} {now} {group}

theorem updateGroup_ok {id : Id} {d' : Directory} {newGroup : Group}
    (hgroup : getGroup d id = some group)
    (h : updateGroup isOrganization d id newGroup = .ok d') :
    d' = { d with groups := replaceAt Group.getId id newGroup d.groups } := by
  rw [updateGroup, hgroup] at h
  dsimp only at h
  split at h
  · cases h
  · exact (Except.ok.inj h).symm

theorem getGroup_getId {id : Id} (hgroup : getGroup d id = some group) : group.getId = id := by
  simpa using List.find?_some hgroup

theorem updateGroup_members {id : Id} {d' : Directory} {newGroup : Group}
    (h : updateGroup isOrganization d id newGroup = .ok d') (S : Set GoString) :
    MembersAre d' g S ↔ MembersAre d g S := by
  cases hgroup : getGroup d id with
  | none =>
    rw [updateGroup, hgroup] at h
    rw [Except.ok.inj h]
  | some group =>
    rw [updateGroup_ok hgroup h]
    rfl

theorem resource2group_blank {attrs : List (String × Any)} {built : Group}
    (h : resource2group attrs = .ok built) : built.Blank := by
  simp only [resource2group, bind, Except.bind, pure, Except.pure, throw, throwThe,
    MonadExceptOf.throw] at h
  repeat' split at h
  all_goals cases h
  all_goals exact ⟨rfl, rfl, rfl, rfl⟩

theorem updateScimGroup_ok {id : Id} {d' : Directory} {g' : Group} {users : List User}
    {attrs : List (String × Any)}
    (h : updateScimGroup range isOrganization now id d group attrs = .ok (d', g', users)) :
    ∃ (built : Group) (d₁ : Directory),
      g' = { built with owner := group.owner, name := group.name, updatedTime := now } ∧
      built.Blank ∧ updateGroup isOrganization d id g' = .ok d₁ ∧
      d' = setGroupMembers range d₁ id (extractMemberIds ((attrs.lookup "members").getD .nil))
        ((getGroupUsers d₁ id).map User.id) := by
  simp only [updateScimGroup, bind, Except.bind, pure, Except.pure] at h
  split at h
  · cases h
  rename_i built hbuilt
  split at h
  · cases h
  rename_i d₁ hupdate
  cases h
  exact ⟨built, d₁, rfl, resource2group_blank hbuilt, hupdate, rfl⟩

variable (isOrganization) (now)

/-- Where the members and the users that are listed have identifiers of their own, a PATCH has its
effect exactly when all of them are of the group's organization and every removal by filter is
harmless. -/
theorem patchFollows_iff {id : Id} (ha : Agrees d id) (hmembers : Distinct d.people (memberIds d id))
    {ops : List MemberOp} (hops : ∀ op ∈ ops, Distinct d.people op.listed) :
    PatchFollows render range group isOrganization now id d ops ↔
      Within d id ∧ (∀ op ∈ ops, LocalIds d.people id op.listed) ∧
        ∀ i, Harmless i (memberIds d id) (ops.map (MemberOp.change d.existing)) := by
  have heffects (S : Set GoString) : MembersAre (updateScimGroupByPatch render range isOrganization
      now id d group (ops.map MemberOp.request)).1 id S ↔
        MembersAre (ops.foldl (MemberOp.effect range id) d) id S := by
    rw [updateScimGroupByPatch, patchOperations_request]
    dsimp only
    split
    · rfl
    · exact updateGroup_members ‹_› S
  rw [PatchFollows, heffects]
  by_cases hwithin : Within d id
  · let ids : Set GoString := {i | i ∈ memberIds d id ∨ ∃ op ∈ ops, i ∈ op.listed}
    have hdistinct : Distinct d.people ids := by
      rintro i (hi | ⟨op, hop, hi⟩)
      · exact hmembers i hi
      · exact hops op hop i hi
    have ho : Orderly ids d id := ⟨ha, hwithin, hdistinct, fun i hi => Or.inl hi⟩
    have hids : ∀ op ∈ ops, op.listed ⊆ ids := fun op hop i hi => Or.inr ⟨op, hop, hi⟩
    rw [and_iff_right hwithin]
    by_cases hlocal : ∀ op ∈ ops, LocalIds d.people id op.listed
    · have hrun := effects_become range ho fun op hop => ⟨hops op hop, hids op hop, hlocal op hop⟩
      rw [and_iff_right hlocal, hrun.membersAre_iff, deafRun_eq_iff]
    · obtain ⟨u, hstray⟩ := exists_stray_of_effects range ho
        (fun op hop => ⟨hops op hop, hids op hop⟩) hlocal
      exact iff_of_false (hstray.not_membersAre _) fun h => hlocal h.1
  · obtain ⟨u, hstray⟩ := exists_stray_of_not_within hmembers hwithin
    exact iff_of_false ((hstray.effects range ops).not_membersAre _) fun h => hwithin h.1

theorem replaceFollows_iff {id : Id} (ha : Agrees d id)
    (hmembers : Distinct d.people (memberIds d id)) (hgroup : getGroup d id = some group)
    {attrs : List (String × Any)} {d' : Directory} {g' : Group} {users : List User}
    (h : updateScimGroup range isOrganization now id d group attrs = .ok (d', g', users))
    (hlisted : Distinct d.people (listed ((attrs.lookup "members").getD .nil))) :
    ReplaceFollows group id d d' attrs ↔ Within d id ∧
      LocalIds d.people id (listed ((attrs.lookup "members").getD .nil)) ∧ group.Blank := by
  obtain ⟨built, d₁, hbuilt, hblank, hupdate, rfl⟩ := updateScimGroup_ok range h
  obtain ⟨hkey, hparent, htop, henabled, hcreated⟩ : g'.getId = id ∧ g'.Blank := by
    have hkey := getGroup_getId hgroup
    rw [hbuilt]
    exact ⟨hkey, hblank⟩
  have hwritten := updateGroup_ok hgroup hupdate
  have hpeople : d₁.people = d.people := by rw [hwritten]; rfl
  by_cases hwithin : Within d id
  · let ids : Set GoString :=
      {i | i ∈ memberIds d id ∨ i ∈ listed ((attrs.lookup "members").getD .nil)}
    have hdistinct : Distinct d.people ids := by
      rintro i (hi | hi)
      · exact hmembers i hi
      · exact hlisted i hi
    have ho₁ : Orderly ids d₁ id := by
      rw [hwritten]
      exact ⟨⟨ha.agree, ha.known⟩, hwithin, hdistinct, fun i hi => Or.inl hi⟩
    rw [and_iff_right hwithin]
    by_cases hlocal : LocalIds d.people id (listed ((attrs.lookup "members").getD .nil))
    · have hnew : ∀ i ∈ extractMemberIds ((attrs.lookup "members").getD .nil), i ∈ ids :=
        fun i hi => Or.inr (mem_extractMemberIds.mp hi).2
      have hset := setGroupMembers_becomes range ho₁ hnew (hpeople ▸ hlocal.extracted)
        (mem_currentIds ho₁)
      rw [extracted_inter (hpeople ▸ hlisted), existing_of_people hpeople] at hset
      have hrow : rowAt Group.getId d₁.groups id = some g' := by
        rw [hwritten]
        exact rowAt_replaceAt_self hgroup hkey
      rw [and_iff_right hlocal, ReplaceFollows, hset.membersAre_iff, getGroup, hset.groups, hrow]
      simp only [true_and, Option.some.injEq, exists_eq_left', hparent, htop, henabled, hcreated]
      exact ⟨fun ⟨h₁, h₂, h₃, h₄⟩ => ⟨h₁.symm, h₂.symm, h₃.symm, h₄.symm⟩,
        fun ⟨h₁, h₂, h₃, h₄⟩ => ⟨h₁.symm, h₂.symm, h₃.symm, h₄.symm⟩⟩
    · rw [← hpeople] at hlisted hlocal
      obtain ⟨i, hi, k, hk, hforeign, hown⟩ := exists_foreign hlisted hlocal
      obtain ⟨u, hstray⟩ := exists_stray_of_set range hi hk hown hforeign
      rw [hpeople] at hlocal
      exact iff_of_false (fun hfollows => hstray.not_membersAre _ hfollows.1)
        fun hcond => hlocal hcond.1
  · obtain ⟨u, hstray⟩ := exists_stray_of_not_within hmembers hwithin
    have hstray₁ : Stray d₁ id u := by
      rw [hwritten]
      exact ⟨hstray.mem, hstray.member, hstray.foreign, hstray.own⟩
    exact iff_of_false
      (fun hfollows => (hstray₁.setGroupMembers range _).not_membersAre _ hfollows.1)
      fun hcond => hwithin hcond.1

theorem groupUpdates_follow_iff {id : Id} (ha : Agrees d id)
    (hmembers : Distinct d.people (memberIds d id)) (hgroup : getGroup d id = some group) :
    (∀ ops : List MemberOp, (∀ op ∈ ops, Distinct d.people op.listed) →
      (PatchFollows render range group isOrganization now id d ops ↔
        Within d id ∧ (∀ op ∈ ops, LocalIds d.people id op.listed) ∧
          ∀ i, Harmless i (memberIds d id) (ops.map (MemberOp.change d.existing)))) ∧
    ∀ attrs d' g' users,
      updateScimGroup range isOrganization now id d group attrs = .ok (d', g', users) →
      Distinct d.people (listed ((attrs.lookup "members").getD .nil)) →
      (ReplaceFollows group id d d' attrs ↔ Within d id ∧
        LocalIds d.people id (listed ((attrs.lookup "members").getD .nil)) ∧ group.Blank) :=
  ⟨fun _ hops => patchFollows_iff render range isOrganization now ha hmembers hops,
    fun _ _ _ _ h hlisted => replaceFollows_iff range isOrganization now ha hmembers hgroup h hlisted⟩

end Requests
end Patch

namespace Sample

def staff : Group where
  owner := "acme"
  name := "staff"
  createdTime := "2026-01-05T09:00:00Z"
  updatedTime := []
  displayName := "Staff"
  manager := []
  contactEmail := []
  type := "Virtual"
  parentId := "everyone"
  isTopGroup := false
  title := []
  key := []
  isEnabled := true
  properties := []

def staffId : Id := ("acme", "staff")

def user (owner name id : String) (groups : List Id) : User where
  owner := owner
  groups := groups
  name := name
  id := id

/-- Two users who share an identifier have nothing to do with the group. -/
def directory : Directory where
  users := [user "acme" "alice" "u1" [staffId], user "acme" "bob" "u2" [],
    user "beta" "x" "1" [], user "gamma" "y" "1" []]
  keys := by decide
  links := [(("acme", "alice"), staffId)]
  groups := [staff]

def rendering : Rendering where
  text path := path.attributePath ++
    (path.valueExpression.map fun e => bracket :: e ++ [93]).getD []
  plain a := by simp
  filtered a e := by simp

def listRange : MapRange := ⟨List.dedup, List.mem_dedup⟩

theorem agrees : Agrees directory staffId := by
  refine ⟨by decide, fun k hk => ?_⟩
  cases List.mem_singleton.mp hk
  decide

theorem memberIds_directory : memberIds directory staffId = {utf8 "u1"} := by
  have hall : ∀ u ∈ directory.users, staffId ∈ u.groups ↔ u.id = utf8 "u1" := by decide
  ext i
  constructor
  · rintro ⟨u, hu, rfl, hg⟩
    exact (hall u hu).mp hg
  · rintro rfl
    exact ⟨user "acme" "alice" "u1" [staffId], List.mem_cons_self, rfl, List.mem_cons_self⟩

theorem within : Within directory staffId := by unfold Within; decide

theorem distinct {i : GoString} (h : i = utf8 "u1" ∨ i = utf8 "u2") :
    Distinct directory.people {i} := by
  rintro j rfl k hk
  have hone : ∀ p ∈ directory.people, ∀ p' ∈ directory.people,
      p.2 = utf8 "u1" ∨ p.2 = utf8 "u2" → p'.2 = p.2 → p'.1 = p.1 := by decide +kernel
  refine ⟨?_, fun k' hk' => hone (k, j) hk (k', j) hk' h rfl⟩
  rcases h with rfl | rfl <;> decide

/-- The value of `members` that lists one user. -/
def only (i : GoString) : Any := .arr [.obj [("value", .str i)]]

theorem listed_only (i : GoString) : listed (only i) = {i} := by
  ext j
  constructor
  · rintro ⟨items, fields, hitems, hfields, hlookup⟩
    cases hitems
    cases List.mem_singleton.mp hfields
    cases hlookup
    rfl
  · rintro rfl
    exact ⟨_, _, rfl, List.mem_singleton_self _, rfl⟩

def emptied : List (String × Any) :=
  [(groupExtensionKey, .obj [("organization", .str "acme")]), ("displayName", .str "Staff")]

theorem listed_emptied : listed ((emptied.lookup "members").getD .nil) = ∅ := by
  have hnone : emptied.lookup "members" = none := by decide
  rw [hnone, Set.eq_empty_iff_forall_notMem]
  rintro i ⟨items, fields, h, _⟩
  cases h

end Sample
open Sample

theorem groupUpdates_follow_sample : PatchFollows rendering listRange staff (fun _ => false) []
    staffId directory [.add (only "u2"), .removeOne "u1" .nil, .replace (only "u2")] := by
  have hmembers : Distinct directory.people (memberIds directory staffId) := by
    rw [memberIds_directory]
    exact distinct (Or.inl rfl)
  have hops : ∀ op ∈ [MemberOp.add (only "u2"), .removeOne "u1" .nil, .replace (only "u2")],
      Distinct directory.people op.listed ∧ LocalIds directory.people staffId op.listed := by
    have hu2 : Distinct directory.people {utf8 "u2"} ∧
        LocalIds directory.people staffId {utf8 "u2"} := by
      refine ⟨distinct (Or.inr rfl), ?_⟩
      rintro i rfl k hk
      have hall : ∀ p ∈ directory.people, p.2 = utf8 "u2" → p.1.1 = staffId.1 := by decide
      exact hall (k, utf8 "u2") hk rfl
    simp only [List.forall_mem_cons, MemberOp.listed, listed_only, List.not_mem_nil,
      false_imp_iff, implies_true, and_true]
    exact ⟨hu2, ⟨fun i hi => hi.elim, fun i hi => hi.elim⟩, hu2⟩
  have hgroup : getGroup directory staffId = some staff := rfl
  have hrule := (groupUpdates_follow_iff rendering listRange (fun _ => false) [] agrees hmembers
    hgroup).1
  refine (hrule _ fun op hop => (hops op hop).1).mpr ⟨within, fun op hop => (hops op hop).2, ?_⟩
  intro i
  simp [Harmless, MemberOp.change, Change.Decides]

/-- A removal by filter is not heard, and a Replace orphans and disables the group. -/
theorem groupUpdates_stray : ¬PatchFollows rendering listRange staff (fun _ => false) []
      staffId directory [.removeOne "u1" .nil] ∧
    ∃ d' g' users, updateScimGroup listRange (fun _ => false) [] staffId directory staff
      emptied = .ok (d', g', users) ∧
      ¬ReplaceFollows staff staffId directory d' emptied := by
  have hmembers : Distinct directory.people (memberIds directory staffId) := by
    rw [memberIds_directory]
    exact distinct (Or.inl rfl)
  constructor
  · rw [patchFollows_iff _ _ _ _ agrees hmembers]
    · rintro ⟨-, -, h⟩
      have hmember : utf8 "u1" ∈ memberIds directory staffId := by
        rw [memberIds_directory]
        rfl
      obtain ⟨c, hc, _⟩ := (h (utf8 "u1")).1 rfl hmember
      exact List.not_mem_nil hc
    · simp only [List.forall_mem_cons, List.not_mem_nil, false_imp_iff, implies_true, and_true]
      exact fun i hi => hi.elim
  · refine ⟨_, _, _, rfl, ?_⟩
    rw [replaceFollows_iff listRange (fun _ => false) [] agrees hmembers rfl rfl]
    · rintro ⟨-, -, hblank⟩
      exact absurd hblank.1 (by decide)
    · rw [listed_emptied]
      exact fun i hi => hi.elim

end ArchGuard.Scim
