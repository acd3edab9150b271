import ArchGuard.AuthzModel
import ArchGuard.ReadCommittedFrame

/-! The outbox of tuple mutations, the publisher that drains it into the tuple store,
and the transactions that enqueue, statement by statement. -/
namespace ArchGuard.Authz
open ReadCommitted

inductive TupleOp
  | write | delete
  deriving DecidableEq, Repr

structure TupleCondition where
  name : String
  window : ValidityWindow
  deriving DecidableEq, Repr

structure TupleUpdate where
  op : TupleOp
  tuple : RelationTuple
  condition : Option TupleCondition
  deriving DecidableEq, Repr

/-- A condition as the `timestamptz` columns keep it. -/
def TupleCondition.stored (c : TupleCondition) : TupleCondition :=
  ⟨c.name, c.window.notBefore.stored, c.window.expiresAt.stored⟩

/-- A row of `authz_tuple_outbox`; of `published_at` only whether it is set is looked at. -/
structure OutboxRow where
  organizationId : Uuid
  op : TupleOp
  tuple : RelationTuple
  condition : Option TupleCondition
  occurredAt : Time
  published : Bool
  deriving DecidableEq, Repr

/-- A row of `authz_tuple`, under its key. -/
structure TupleRow where
  organizationId : Uuid
  condition : Option TupleCondition
  deriving DecidableEq, Repr

structure OutboxEntry where
  id : Uuid
  row : OutboxRow
  deriving DecidableEq, Repr

/-- What a row does to its tuple: written under a condition, or removed. -/
def OutboxRow.effect (r : OutboxRow) : Option (Option TupleCondition) :=
  match r.op with
  | .write => some r.condition
  | .delete => none

inductive OutboxError
  | rejected (err : AuthzError)
  | noTenant (object : String)
  | invalidOrganization (object : String)
  deriving DecidableEq, Repr

def OutboxError.text : OutboxError → String
  | .rejected err => "authz_outbox: tupla rejeitada: " ++ err.text
  | .noTenant object => "authz_outbox: objeto sem tenant " ++ quoted object
  | .invalidOrganization object => "authz_outbox: organização inválida no objeto " ++ quoted object

/-- The checks of `Enqueue` on one update, with the organization of its object. -/
def enqueueOrg (parse : String → Option Uuid) (u : TupleUpdate) : Except OutboxError Uuid :=
  match validateTuple u.tuple with
  | .error err => .error (.rejected err)
  | .ok () =>
    match refOrg u.tuple.object with
    | none => .error (.noTenant u.tuple.object)
    | some org =>
      match parse org with
      | none => .error (.invalidOrganization u.tuple.object)
      | some orgId => .ok orgId

/-- The row that `Enqueue` inserts: `occurred_at` is the start of its transaction. -/
def TupleUpdate.outboxRow (u : TupleUpdate) (org : Uuid) (start : Time) : OutboxRow where
  organizationId := org
  op := u.op
  tuple := u.tuple
  condition := u.condition.map TupleCondition.stored
  occurredAt := start.stored
  published := false

/-- The order of the drain: by `occurred_at`, then by id. -/
def OutboxEntry.drainsBefore (a b : OutboxEntry) : Prop :=
  a.row.occurredAt < b.row.occurredAt ∨
    (a.row.occurredAt = b.row.occurredAt ∧ a.id.toNat < b.id.toNat)

instance (a b : OutboxEntry) : Decidable (a.drainsBefore b) := instDecidableOr

/-- The tables: the business rows under keys `κ`, the outbox and the tuple store. -/
inductive Key (κ : Type)
  | source (k : κ)
  | outbox (id : Uuid)
  | tuple (t : RelationTuple)
  deriving DecidableEq

abbrev Row {κ : Type} (ρ : κ → Type) : Key κ → Type
  | .source k => ρ k
  | .outbox _ => OutboxRow
  | .tuple _ => TupleRow

/-- A business transaction: any program over the source rows that enqueues as it goes;
`enqueue` comes with the ids that are drawn. -/
inductive Script {κ : Type} (ρ : κ → Type)
  | select (next : ((k : κ) → Option (ρ k)) → Script ρ)
  | update (k : κ) (absent : Script ρ) (set : ρ k → Option (ρ k)) (next : ρ k → Script ρ)
  | insert (k : κ) (v : ρ k) (inserted conflict : Script ρ)
  | enqueue (updates : List (Uuid × TupleUpdate)) (next : Script ρ)
  | commit
  | fail

variable {κ : Type} {ρ : κ → Type}

inductive Req (ρ : κ → Type)
  | business (start : Time) (s : Script ρ)
  | publish (batch : ℕ)

/-- Where a transaction stands. A business transaction keeps what it has enqueued so far,
a drain the rows it still has to publish. -/
inductive Pc (ρ : κ → Type)
  | business (start : Time) (queued : List OutboxEntry) (s : Script ρ)
  | readOutbox (batch : ℕ)
  | fetched (rows : List OutboxEntry)
  | apply (r : OutboxEntry) (rest : List OutboxEntry)
  | refresh (r : OutboxEntry) (rest : List OutboxEntry)
  | mark (r : OutboxEntry) (rest : List OutboxEntry)
  | marked (r : OutboxEntry) (rest : List OutboxEntry)
  | skip (r : OutboxEntry) (rest : List OutboxEntry)
  | fail

def outboxRows (db : Store (Row ρ)) : List OutboxEntry :=
  db.scan fun
    | .outbox id, r => some ⟨id, r⟩
    | _, _ => none

def unpublished (db : Store (Row ρ)) (batch : ℕ) : List OutboxEntry :=
  (((outboxRows db).filter fun e => !e.row.published).insertionSort fun a b =>
    ¬b.drainsBefore a).take batch

/-- The next row of a drain, in a transaction of its own. -/
def nextRow : List OutboxEntry → Option (Pc ρ)
  | [] => none
  | r :: rest => some (.apply r rest)

/- Outside the repository: `uuid.Parse`, and the text a `uuid` column accepts. -/
variable (parse column : String → Option Uuid)

/-- `applyTupleUpdate`: a write goes on as DO UPDATE where the tuple exists. -/
def applyTupleUpdate (r : OutboxEntry) (rest : List OutboxEntry) : Action (Row ρ) (Pc ρ) :=
  match r.row.op with
  | .write =>
    match (refOrg r.row.tuple.object).bind column with
    | none => .abort
    | some org =>
      .insert (.tuple r.row.tuple) ⟨org, r.row.condition⟩ (.mark r rest) (.refresh r rest)
  | .delete => .update (.tuple r.row.tuple) (.mark r rest) fun _ => (none, .mark r rest)

def businessNext (start : Time) (queued : List OutboxEntry) : Script ρ → Action (Row ρ) (Pc ρ)
  | .select next => .read fun db => .business start queued (next fun k => db.row (.source k))
  | .update k absent set next => .update (.source k) (.business start queued absent) fun v =>
      (set v, .business start queued (next v))
  | .insert k v inserted conflict =>
    .insert (.source k) v (.business start queued inserted) (.business start queued conflict)
  | .enqueue [] next => .read fun _ => .business start queued next
  | .enqueue ((id, u) :: updates) next =>
    match enqueueOrg parse u with
    | .error _ => .abort
    | .ok org =>
      .insert (.outbox id) (u.outboxRow org start)
        (.business start (queued ++ [⟨id, u.outboxRow org start⟩]) (.enqueue updates next)) .fail
  | .commit => .commit none
  | .fail => .abort

def outboxProgram : Program (Row ρ) (Req ρ) (Pc ρ) where
  entry
    | .business start s => .business start [] s
    | .publish batch => .readOutbox batch
  next
    | .business start queued s => businessNext parse start queued s
    | .readOutbox batch => .read fun db => .fetched (unpublished db batch)
    | .fetched rows => .commit (nextRow rows)
    | .apply r rest => applyTupleUpdate column r rest
    | .refresh r rest => .update (.tuple r.row.tuple) (.apply r rest) fun row =>
      (some { row with condition := r.row.condition }, .mark r rest)
    | .mark r rest => .update (.outbox r.id) (.skip r rest) fun row =>
      if row.published then (some row, .skip r rest)
      else (some { row with published := true }, .marked r rest)
    | .marked _ rest => .commit (nextRow rest)
    -- `errAlreadyPublished`: the transaction is rolled back, the drain goes on
    | .skip _ [] => .abort
    | .skip _ (r :: rest) => .rollback (.apply r rest)
    | .fail => .abort

end ArchGuard.Authz
