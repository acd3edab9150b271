import ArchGuard.JsonRecords
import ArchGuard.ObjectIds

/-! Users, groups, roles and permissions, which refer to each other by lists of identifiers. -/
namespace ArchGuard.Permissions
open GoText Object

structure User where
  owner : GoString
  name : GoString
  groups : List GoString
  deriving DecidableEq, Repr

structure Group where
  owner : GoString
  name : GoString
  parentId : GoString
  deriving DecidableEq, Repr

structure Role where
  owner : GoString
  name : GoString
  createdTime : GoString
  users : List GoString
  groups : List GoString
  roles : List GoString
  domains : List GoString
  isEnabled : Bool
  deriving DecidableEq, Repr

structure Permission where
  owner : GoString
  name : GoString
  users : List GoString
  groups : List GoString
  roles : List GoString
  domains : List GoString
  model : GoString
  adapter : GoString
  resourceType : GoString
  resources : List GoString
  actions : List GoString
  effect : GoString
  deriving DecidableEq, Repr

/-- The primary key of each of the tables: owner and name. -/
abbrev Key := GoString × GoString

def User.key (u : User) : Key := (u.owner, u.name)

def Group.key (g : Group) : Key := (g.owner, g.name)

def Role.key (r : Role) : Key := (r.owner, r.name)

def Permission.key (p : Permission) : Key := (p.owner, p.name)

def User.getId (u : User) : GoString := Object.getId u.owner u.name

def Role.getId (r : Role) : GoString := Object.getId r.owner r.name

def Permission.getId (p : Permission) : GoString := Object.getId p.owner p.name

/-- The tables, in the order in which a query without one returns the rows. -/
structure Tables where
  users : List User
  groups : List Group
  roles : List Role
  permissions : List Permission
  nodup_users : (users.map User.key).Nodup
  nodup_groups : (groups.map Group.key).Nodup
  nodup_roles : (roles.map Role.key).Nodup
  nodup_permissions : (permissions.map Permission.key).Nodup

def star : GoString := utf8 "*"

/-- A rune as `json.Marshal` writes it inside a string. -/
def escapeRuneHtml : Rune → List Char
  | .char c => JsonRecords.escapeHtml c
  | .malformed => ['\\', 'u', 'f', 'f', 'f', 'd']

def columnText (ids : List GoString) : GoString :=
  let items := ids.map fun id => '"' :: (runes id).flatMap escapeRuneHtml ++ ['"']
  utf8 (String.ofList ('[' :: [','].intercalate items ++ [']']))

/-- The pattern of the lookups by an identifier: it ends at the quote. -/
def idPattern (id : GoString) : GoString := utf8 "%" ++ id ++ utf8 "\"%"

def textPattern (text : GoString) : GoString := utf8 "%" ++ text ++ utf8 "%"

section Keys

variable {α : Type} {key : α → Key} {rows : List α}

theorem eq_of_key (hnodup : (rows.map key).Nodup) {a b : α} (ha : a ∈ rows) (hb : b ∈ rows)
    (h : key a = key b) : a = b := List.inj_on_of_nodup_map hnodup ha hb h

def rowOf (key : α → Key) (rows : List α) (k : Key) : Option α := rows.find? (key · = k)

theorem rowOf_eq_some (hnodup : (rows.map key).Nodup) {a : α} {k : Key} :
    rowOf key rows k = some a ↔ a ∈ rows ∧ key a = k := by
  constructor
  · intro h
    exact ⟨List.mem_of_find?_eq_some h, by simpa using List.find?_some h⟩
  · rintro ⟨ha, rfl⟩
    cases hrow : rowOf key rows (key a) with
    | none => exact absurd (decide_eq_true rfl) (List.find?_eq_none.mp hrow a ha)
    | some b =>
      have hkey : key b = key a := by simpa using List.find?_some hrow
      rw [eq_of_key hnodup (List.mem_of_find?_eq_some hrow) ha hkey]

end Keys

section Lookups

variable (db : Tables)

def getUser (owner name : GoString) : Option User :=
  if owner = [] ∨ name = [] then none else rowOf User.key db.users (owner, name)

/-- `GetUser`; nothing outside is the error of an identifier that has not one slash. -/
def getUserById (id : GoString) : Option (Option User) :=
  (getOwnerAndNameFromIdWithError id).map fun (owner, name) => getUser db owner name

/-- `GetRoles`: the newest first; an empty owner stands for all. -/
def getRoles (owner : GoString) : List Role :=
  Migration.sortBy (fun a b => Migration.bytesLess b.createdTime a.createdTime)
    (db.roles.filter fun r => owner = [] ∨ r.owner = owner)

end Lookups

end ArchGuard.Permissions
