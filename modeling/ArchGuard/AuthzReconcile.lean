import ArchGuard.TenantTables

/-! The reconciler beside the publisher and the transactions that change the source. -/
namespace ArchGuard.Authz
open ReadCommitted

section Nested

variable {K L L' : Type} {V : K → Type}

/-- A statement of a program that runs within another. -/
def nested (f : L → L') : Action V L → Action V L'
  | .read next => .read fun s => f (next s)
  | .update k absent present => .update k (f absent) fun v => ((present v).1, f (present v).2)
  | .insert k v inserted conflict => .insert k v (f inserted) (f conflict)
  | .commit next => .commit (next.map f)
  | .rollback next => .rollback (f next)
  | .abort => .abort

end Nested

inductive SiteReq
  | outbox (r : Req SourceRow)
  | reconcile (org : Uuid)

/-- A pass runs the queries, reads the store, and removes what is extra, each in a transaction of
its own. -/
inductive SitePc
  | outbox (l : Pc SourceRow)
  | query (org : Uuid) (found : List RelationTuple) (rest : List TenantQuery)
  | load (org : Uuid) (expected : List RelationTuple)
  | loaded (org : Uuid) (extra : List RelationTuple)
  | remove (org : Uuid) (extra rest : List RelationTuple)

/-- `loadTenantTuples`. -/
def storedTuples (db : TenantDb) (org : Uuid) : List RelationTuple :=
  db.scan fun
    | .tuple t, row => if row.organizationId = org then some t else none
    | _, _ => none

/-- `Reconcile` after the comparison: without extra tuples there is nothing to remove. -/
def removals (org : Uuid) (extra : List RelationTuple) : Option SitePc :=
  if extra = [] then none else some (.remove org extra extra)

/- Outside the repository: `uuid.Parse`, and the text a `uuid` column accepts. -/
variable (parse column : String → Option Uuid)

def siteProgram : Program (Row SourceRow) SiteReq SitePc where
  entry
    | .outbox r => .outbox ((outboxProgram parse column).entry r)
    | .reconcile org => .query org [] TenantQuery.all
  next
    | .outbox l => nested SitePc.outbox ((outboxProgram parse column).next l)
    -- `ReconcileTenant`: the expected set, query after query
    | .query org found (q :: rest) => .read fun db =>
      .query org (found ++ q.run (tenantState db) org) rest
    | .query org found [] => .commit (some (.load org found))
    | .load org expected => .read fun db =>
      .loaded org (reconcileDiff expected (storedTuples db org)).1
    | .loaded org extra => .commit (removals org extra)
    | .remove org extra (t :: rest) => .update (.tuple t) (.remove org extra rest) fun row =>
      (if row.organizationId = org then none else some row, .remove org extra rest)
    | .remove _ _ [] => .commit none

abbrev SiteCfg := Cfg (Row SourceRow) SitePc

def expectedNow (db : TenantDb) (org : Uuid) : List RelationTuple :=
  tenantExpectedTuples (tenantState db) org

def PendingWrite (db : TenantDb) (t : RelationTuple) : Prop :=
  ∃ id row, db.row (.outbox id) = some row ∧ row.published = false ∧ row.op = .write ∧
    row.tuple = t

end ArchGuard.Authz
