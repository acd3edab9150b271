import ArchGuard.Primitives

/-! The authorization model: object types, relations, their rewrites, and the
references the graph is made of. -/
namespace ArchGuard.Authz

inductive ObjectType
  | organization | membership | group | assetGroup | asset | accessPolicy
  deriving DecidableEq, Repr

def ObjectType.text : ObjectType → String
  | .organization => "organization"
  | .membership => "membership"
  | .group => "group"
  | .assetGroup => "asset_group"
  | .asset => "asset"
  | .accessPolicy => "access_policy"

def relParent := "parent"
def relOwner := "owner"
def relOperator := "operator"
def relAuditor := "auditor"
def relMember := "member"
def relHasActiveGrant := "has_active_grant"
def relCanOpenSession := "can_open_session"
def relCanOpenPrivilegedSession := "can_open_privileged_session"

def conditionValidWindow := "valid_window"

structure ValidityWindow where
  notBefore : Time
  expiresAt : Time
  deriving DecidableEq, Repr

def ValidityWindow.contains (w : ValidityWindow) (at' : Time) : Bool :=
  !(at' < w.notBefore) && at' < w.expiresAt

structure CheckContext where
  evaluatedAt : Time

/-- One node of a relation's definition; `condition` is empty when there is none. -/
inductive Rewrite
  | this (condition : String)
  | computed (relation : String)
  | ttu (tupleset relation : String)
  | union (children : List Rewrite)
  | intersection (children : List Rewrite)

def direct : Rewrite := .this ""

def directCond (condition : String) : Rewrite := .this condition

/-- `archGuardModel`: the relations of each object type that has any. -/
def archGuardModel : ObjectType → Option (List (String × Rewrite))
  | .asset => some [
      (relParent, direct),
      (relOwner, direct),
      (relOperator, .union [direct, .ttu relParent relOperator]),
      (relAuditor, .union [direct, .ttu relParent relAuditor]),
      (relCanOpenSession, .union [.computed relOperator, .computed relOwner]),
      (relHasActiveGrant, directCond conditionValidWindow),
      (relCanOpenPrivilegedSession,
        .intersection [.computed relCanOpenSession, .computed relHasActiveGrant])]
  | .assetGroup => some [
      (relParent, direct),
      (relOperator, .union [direct, .ttu relParent relOperator]),
      (relAuditor, .union [direct, .ttu relParent relAuditor])]
  | .group => some [(relMember, direct)]
  | .organization | .membership | .accessPolicy => none

def evalCondition (condition : String) (w : Option ValidityWindow) (ctx : CheckContext) : Bool :=
  if condition = "" then true
  else if condition = conditionValidWindow then
    match w with
    | none => false
    | some w => w.contains ctx.evaluatedAt
  else false

/-- `ref[:i]` for the first `#`, or the whole reference. -/
def stripUserset (ref : String) : List Char := ref.toList.takeWhile (· ≠ '#')

/-- The object type a reference names, in its plain or tenant-qualified form. -/
def refType (ref : String) : String :=
  let last := ((stripUserset ref).reverse.takeWhile (· ≠ '/')).reverse
  String.ofList (last.takeWhile (· ≠ ':'))

/-- The two parts of a userset reference `<object>#<relation>`. -/
def splitUserset (ref : String) : Option (String × String) :=
  if '#' ∈ ref.toList then
    some (String.ofList (stripUserset ref), String.ofList ((ref.toList.dropWhile (· ≠ '#')).drop 1))
  else none

def objectType (typ : String) : Option ObjectType :=
  [.organization, .membership, .group, .assetGroup, .asset, .accessPolicy].find? fun t =>
    t.text = typ

/-- The rewrite of `relation` on `object`, when its type defines it. -/
def rewriteOf (object relation : String) : Option Rewrite :=
  match (objectType (refType object)).bind archGuardModel with
  | none => none
  | some relations => relations.lookup relation

theorem rewriteOf_mem {object relation : String} {rw : Rewrite}
    (h : rewriteOf object relation = some rw) :
    ∃ t rels, archGuardModel t = some rels ∧ (relation, rw) ∈ rels := by
  unfold rewriteOf at h
  split at h
  · cases h
  · rename_i rels hrels
    obtain ⟨t, -, ht⟩ := Option.bind_eq_some_iff.mp hrels
    obtain ⟨l₁, l₂, rfl, -⟩ := List.lookup_eq_some_iff.mp h
    exact ⟨t, _, ht, List.mem_append_right l₁ List.mem_cons_self⟩

/-- `Qualify`: the reference `org:<id>/<type>:<id>` of an object of the organization. -/
def qualify (org : Uuid) (typ : ObjectType) (id : String) : String :=
  "org:" ++ org.text ++ "/" ++ typ.text ++ ":" ++ id

def qualifyUserset (org : Uuid) (typ : ObjectType) (id relation : String) : String :=
  qualify org typ id ++ "#" ++ relation

def orgPrefix := "org:".toList

/-- The organization a qualified reference `org:<id>/…` belongs to. -/
def refOrg (ref : String) : Option String :=
  let chars := stripUserset ref
  if orgPrefix.isPrefixOf chars then
    let rest := chars.drop orgPrefix.length
    let org := rest.takeWhile (· ≠ '/')
    if '/' ∈ rest ∧ org ≠ [] then some (String.ofList org) else none
  else none

def qualified (ref : String) : Bool := (refOrg ref).isSome

def sameTenant (a b : String) : Bool :=
  match refOrg a, refOrg b with
  | some oa, some ob => oa = ob
  | _, _ => false

structure RelationTuple where
  user : String
  relation : String
  object : String
  deriving DecidableEq, Repr

def RelationTuple.valid (t : RelationTuple) : Bool :=
  t.user ≠ "" && t.relation ≠ "" && t.object ≠ ""

inductive AuthzError
  | incompleteTuple
  | unqualifiedRef
  | crossTenantRelation
  | resolveDepth
  deriving DecidableEq, Repr

def AuthzError.text : AuthzError → String
  | .incompleteTuple => "authz: tupla incompleta"
  | .unqualifiedRef => "authz: identificador não qualificado por tenant"
  | .crossTenantRelation => "authz: relação cruzando organizações — rejeitada (INV-5)"
  | .resolveDepth => "authz: profundidade de resolução excedida — negado (fail-closed)"

def validateTuple (t : RelationTuple) : Except AuthzError Unit :=
  if !t.valid then .error .incompleteTuple
  else if !qualified t.user || !qualified t.object then .error .unqualifiedRef
  else if !sameTenant t.user t.object then .error .crossTenantRelation
  else .ok ()

end ArchGuard.Authz
