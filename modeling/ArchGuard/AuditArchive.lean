import ArchGuard.AuditSealing
import ArchGuard.ReadCommittedSolo

/-! Archiving a time partition of the trail and restoring it. -/
namespace ArchGuard.Audit
open ReadCommitted TransitionRun GoText

/-- The database with the partitions of `audit_event`. `db` has the rows of every event; those of
an archived partition are in a table of their own, where no query of the trail finds them. Instants
are in microseconds. -/
structure Site where
  db : Db
  attached : List (String × ℤ × ℤ)
  detached : List (String × List Key)

/-- What the queries of the trail see. -/
def Site.live (s : Site) : Db :=
  s.db.filterRows fun k _ => !s.detached.any fun t => t.2.contains k

inductive ArchiveError
  | invalidName (name : String)
  | partitionUnsealed (count : ℕ)
  | period
  | detachFailed (name : String)
  | attachFailed (name : String)
  deriving DecidableEq, Repr

def ArchiveError.text : ArchiveError → String
  | .invalidName name => "audit: nome de partição inválido " ++ quoted name
  | .partitionUnsealed count =>
    "audit: partição tem eventos não selados — arquivamento recusado: " ++ toString count ++
      " evento(s) não selado(s) no período"
  | .period => "audit: leitura das organizações do período falhou"
  | .detachFailed name => "audit: detach da partição " ++ name ++ " falhou"
  | .attachFailed name => "audit: attach da partição " ++ name ++ " falhou"

/-- `^audit_event_[a-z0-9_]+$` -/
def safeIdent (name : String) : Bool :=
  let rest := name.toList.drop 12
  name.toList.take 12 = "audit_event_".toList && !rest.isEmpty &&
    rest.all fun c => ('a' ≤ c && c ≤ 'z') || ('0' ≤ c && c ≤ '9') || c = '_'

/-- The events of every organization in a period. -/
def eventsIn (db : Db) (start stop : ℤ) : List SealedEvent :=
  db.scan fun k v => match k, v with
    | .event _ t _, v => if start ≤ t ∧ t < stop then some v.1.1 else none
    | _, _ => none

def unsealedIn (db : Db) (start stop : ℤ) : List SealedEvent :=
  (eventsIn db start stop).filter fun e => maxSealed db e.event.organizationId < e.seq

def organizationsIn (db : Db) (start stop : ℤ) : List Uuid :=
  ((eventsIn db start stop).map fun e => e.event.organizationId).dedup.insertionSort
    fun a b => a.toNat ≤ b.toNat

/-- The event that `auditPeriod` records for an organization. -/
def periodInput (actor : AuditActor) (period reason : GoString) (org : Uuid) : AuditEventInput :=
  { organizationId := org, action := "admin.mutation", actor := actor, outcome := .allowed,
    target := ⟨"audit_partition", period, reason⟩, reason := reason
    context := ⟨"", "", "", none, "", ""⟩ }

/-- The principal of a call, and the clock and the draws of the append to each organization. -/
structure PeriodAudit (period reason : GoString) where
  actor : AuditActor
  now : Uuid → Time
  eventId : Uuid → Uuid
  nonce : Uuid → Nonce

/-- The audit emitter: none is wired, there is no principal in the context, or there is. -/
inductive Emitter (period reason : GoString)
  | unwired
  | noPrincipal
  | wired (a : PeriodAudit period reason)

/-- The columns give the actors behind the principal back. -/
def Emitter.Readable {period reason : GoString} : Emitter period reason → Prop
  | .wired a => ∀ act ∈ a.actor.act, act.Readable
  | _ => True

def PeriodAudit.item {period reason : GoString} (a : PeriodAudit period reason) (org : Uuid) :
    AppendItem :=
  ⟨periodInput a.actor period reason org, a.now org, a.eventId org, a.nonce org⟩

variable (env : Env)

/-- `emitAudit` in a transaction of its own, while no other runs. -/
def emitAudit (db : Db) (item : AppendItem) : Option Db :=
  (run (exec (auditProgram env)) (Cfg.idle db)
    [.start 0 (.append [item]), .step 0, .step 0, .step 0, .step 0, .step 0]).map Cfg.db

/-- One event for each organization, up to the first append that fails. -/
def emitAll (item : Uuid → AppendItem) : Db → List Uuid → Db × Bool
  | db, [] => (db, true)
  | db, org :: orgs =>
    match emitAudit env db (item org) with
    | none => (db, false)
    | some db' => emitAll item db' orgs

/-- `auditPeriod`: whether every organization with events in the period got its event. -/
def auditPeriod {period reason : GoString} (e : Emitter period reason) (s : Site) (start stop : ℤ) :
    Site × Bool :=
  let orgs := organizationsIn s.live start stop
  match e with
  | .unwired => (s, true)
  | .noPrincipal => (s, orgs.isEmpty)
  | .wired a =>
    let result := emitAll env a.item s.db orgs
    ({ s with db := result.1 }, result.2)

/-- The rows that the trail shows within the bounds of a partition. -/
def rowsWithin (db : Db) (lo hi : ℤ) : List Key :=
  db.scan fun k _ => match k with
    | .event org t n => if lo ≤ t ∧ t < hi then some (.event org t n) else none
    | _ => none

def archiveReason : GoString := "arquivamento de partição selada"

def restoreReason : GoString := "restauração de partição arquivada"

/-- `DETACH PARTITION`: the rows of the partition stay in a table of their own. -/
def detach (s : Site) (name : String) : Option Site :=
  (s.attached.lookup name).map fun bounds =>
    { s with
      attached := s.attached.filter fun p => p.1 ≠ name
      detached := (name, rowsWithin s.live bounds.1 bounds.2) :: s.detached }

/-- `Archive`: the range is checked, audited in transactions of their own, then detached. -/
def archive {period : GoString} (e : Emitter period archiveReason) (s : Site) (name : String)
    (start stop : Time) : Site × Option ArchiveError :=
  if !safeIdent name then (s, some (.invalidName name))
  else if unsealedIn s.live start.unixMicro stop.unixMicro ≠ [] then
    (s, some (.partitionUnsealed (unsealedIn s.live start.unixMicro stop.unixMicro).length))
  else
    let audited := auditPeriod env e s start.unixMicro stop.unixMicro
    if !audited.2 then (audited.1, some .period)
    else match detach audited.1 name with
      | none => (audited.1, some (.detachFailed name))
      | some s' => (s', none)

/-- `ATTACH PARTITION`: the bounds take every row of the table and overlap no attached partition,
and no row that went to the default partition meanwhile belongs there. -/
def attach (s : Site) (name : String) (lo hi : ℤ) : Option Site :=
  (s.detached.lookup name).bind fun rows =>
    if rows.all (fun k => match k with | .event _ t _ => lo ≤ t && t < hi | _ => false) &&
        s.attached.all (fun p => hi ≤ p.2.1 || p.2.2 ≤ lo) && (rowsWithin s.live lo hi).isEmpty then
      some { s with
        attached := (name, lo, hi) :: s.attached
        detached := s.detached.filter fun t => t.1 ≠ name }
    else none

/-- `Restore`: the attached partition stays even if the audit of the period fails. -/
def restore {period : GoString} (e : Emitter period restoreReason) (s : Site) (name : String)
    (start stop : Time) : Site × Option ArchiveError :=
  if !safeIdent name then (s, some (.invalidName name))
  -- the bounds of the DDL are written in whole seconds
  else match attach s name (start/10^9*10^6) (stop/10^9*10^6) with
    | none => (s, some (.attachFailed name))
    | some s' =>
      let audited := auditPeriod env e s' start.unixMicro stop.unixMicro
      (audited.1, if audited.2 then none else some .period)

end ArchGuard.Audit
