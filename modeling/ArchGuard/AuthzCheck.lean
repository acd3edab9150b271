import ArchGuard.GrantProjection

/-! The decision point over the tuple store: one check, the objects of a user, and the review of
an asset. -/
namespace ArchGuard.Authz

structure CheckRequest where
  tuple : RelationTuple
  context : CheckContext

/-- The type is qualified by the tenant, as `org:<id>/<type>`. -/
structure ListObjectsRequest where
  user : String
  relation : String
  type : String
  deriving DecidableEq, Repr

def ListObjectsRequest.valid (r : ListObjectsRequest) : Bool :=
  r.user ≠ "" && r.relation ≠ "" && r.type ≠ ""

inductive PdpError
  | unavailable
  | resolver (err : AuthzError)
  | malformedReverseQuery
  | userWithoutTenant (user : String)
  | assetWithoutTenant (asset : String)
  deriving DecidableEq, Repr

def pdpUnavailable := "pdp: ponto de decisão indisponível — acesso negado (fail-closed)"

def PdpError.text : PdpError → String
  | .unavailable => pdpUnavailable
  | .resolver err => err.text
  | .malformedReverseQuery => "pdp: consulta reversa malformada"
  | .userWithoutTenant user => "pdp: usuário sem tenant " ++ quoted user
  | .assetWithoutTenant asset => "pdp: ativo sem tenant " ++ quoted asset

def guardSameTenant (user object : String) : Except AuthzError Unit :=
  if !qualified user || !qualified object then .error .unqualifiedRef
  else if !sameTenant user object then .error .crossTenantRelation
  else .ok ()

/-- The `LIKE` operator: `%` is any text, `_` any character, and `\` takes the next one as it
is. -/
def likeMatch : List Char → List Char → Bool
  | [], s => s.isEmpty
  | '%' :: p, s => s.tails.any (likeMatch p)
  | '_' :: p, _ :: s => likeMatch p s
  | '\\' :: x :: p, c :: s => c = x && likeMatch p s
  | x :: p, c :: s => c = x && likeMatch p s
  | _ :: _, [] => false

def like (pattern text : String) : Bool := likeMatch pattern.toList text.toList

section Pdp

/- Outside the repository: the text that a `uuid` column accepts. -/
variable (column : String → Option Uuid) (store : List StoredTuple)

/-- The tuples that a query on an organization reads; a text that is no UUID fails it. -/
def tenantRows (org : String) : Except PdpError (List StoredTuple) :=
  match column org with
  | none => .error .unavailable
  | some id => .ok (store.filter fun x => x.row.organizationId = id)

def graphOf (rows : List StoredTuple) : GraphReader :=
  memoryGraph (rows.map fun x => ⟨x.tuple, x.window⟩)

def check (req : CheckRequest) : Except PdpError Decision :=
  if !req.tuple.valid then .ok ⟨false, "requisição malformada"⟩
  else match guardSameTenant req.tuple.user req.tuple.object with
    | .error err => .ok ⟨false, "cross-tenant: " ++ err.text⟩
    | .ok () => do
      let rows ← tenantRows column store ((refOrg req.tuple.object).getD "")
      (evaluate (graphOf rows) req.tuple.object req.tuple.relation req.tuple.user
        req.context).mapError .resolver

section Tenant

variable {column : String → Option Uuid} {store : List StoredTuple} {t : RelationTuple}
  {ctx : CheckContext} {org : String}

/-- Within a tenant, the check is the resolver over the tenant's tuples. -/
theorem check_of_tenant (hrelation : t.relation ≠ "") (huser : refOrg t.user = some org)
    (hobject : refOrg t.object = some org) :
    check column store ⟨t, ctx⟩ = (tenantRows column store org >>= fun rows =>
      (evaluate (graphOf rows) t.object t.relation t.user ctx).mapError .resolver) := by
  have hvalid : t.valid = true := by
    simp [RelationTuple.valid, ref_ne_empty huser, hrelation, ref_ne_empty hobject]
  have hguard : guardSameTenant t.user t.object = .ok () := by
    simp [guardSameTenant, qualified, sameTenant, huser, hobject]
  unfold check
  simp only [hvalid, Bool.not_true, Bool.false_eq_true, ↓reduceIte, hguard, hobject,
    Option.getD_some]

theorem check_of_column {id : Uuid} (hrelation : t.relation ≠ "") (huser : refOrg t.user = some org)
    (hobject : refOrg t.object = some org) (hcolumn : column org = some id) :
    check column store ⟨t, ctx⟩ =
      (evaluate (graphOf (store.filter fun x => x.row.organizationId = id)) t.object t.relation
        t.user ctx).mapError .resolver := by
  rw [check_of_tenant hrelation huser hobject, tenantRows, hcolumn]
  rfl

end Tenant

/-- `CheckContext{}`. -/
def CheckContext.empty : CheckContext := ⟨Time.zero⟩

/-- `SELECT DISTINCT tuple_object`. -/
def objectsOfType (rows : List StoredTuple) (type : String) : List String :=
  ((rows.map fun x => x.tuple.object).filter fun o => like (type ++ ":%") o).dedup

/-- The candidates of a reverse query, one evaluation after the other. -/
def allowedObjects (g : GraphReader) (relation user : String) :
    List String → Except PdpError (List String)
  | [] => .ok []
  | obj :: objs =>
    match evaluate g obj relation user .empty with
    | .error _ => .error .unavailable
    | .ok d => do
      let out ← allowedObjects g relation user objs
      return if d.allowed then obj :: out else out

def listObjects (req : ListObjectsRequest) : Except PdpError (List String) :=
  if !req.valid then .error .malformedReverseQuery
  else match refOrg req.user with
    | none => .error (.userWithoutTenant req.user)
    | some org => do
      let rows ← tenantRows column store org
      allowedObjects (graphOf rows) req.relation req.user (objectsOfType rows req.type)

inductive AccessOrigin
  | direct | inherited | grant
  deriving DecidableEq, Repr

def AccessOrigin.text : AccessOrigin → String
  | .direct => "direto"
  | .inherited => "herdado"
  | .grant => "concessão"

structure AccessReviewEntry where
  subject : String
  origins : List AccessOrigin
  justification : String
  deriving DecidableEq, Repr

/-- A hop through a tupleset shows as ` from ` in the justification. -/
def classifyBaseOrigin (justification : String) : AccessOrigin :=
  if " from ".toList <:+: justification.toList then .inherited else .direct

def reviewAssetAccess (g : GraphReader) (assetRef : String) (ctx : CheckContext) :
    List String → Except AuthzError (List AccessReviewEntry)
  | [] => .ok []
  | subject :: subjects => do
    let base ← evaluate g assetRef relCanOpenSession subject ctx
    if !base.allowed then reviewAssetAccess g assetRef ctx subjects
    else do
      let grant ← evaluate g assetRef relHasActiveGrant subject ctx
      let out ← reviewAssetAccess g assetRef ctx subjects
      let origins := classifyBaseOrigin base.justification :: if grant.allowed then [.grant] else []
      return ⟨subject, origins, base.justification⟩ :: out

def membershipPattern (org : String) : String :=
  "org:" ++ org ++ "/" ++ ObjectType.membership.text ++ ":%"

/-- `SELECT DISTINCT tuple_user`. -/
def membershipCandidates (rows : List StoredTuple) (org : String) : List String :=
  ((rows.map fun x => x.tuple.user).filter fun u => like (membershipPattern org) u).dedup

def reviewAsset (assetRef : String) : Except PdpError (List AccessReviewEntry) :=
  match refOrg assetRef with
  | none => .error (.assetWithoutTenant assetRef)
  | some org => do
    let rows ← tenantRows column store org
    (reviewAssetAccess (graphOf rows) assetRef .empty (membershipCandidates rows org)).mapError
      .resolver

end Pdp

end ArchGuard.Authz
