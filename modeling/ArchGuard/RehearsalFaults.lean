import ArchGuard.RehearsalRerun

/-! The rehearsal on a database whose calls may fail, at any point of the run. -/
namespace ArchGuard.Migration
open GoMethod GoText Method Tenancy

/-- A run in progress, and the calls that it has made to the database so far. -/
structure Attempt where
  site : Site
  queries : ℕ

/-- What a call to the database is for. The lookup of an organization is not among them: what it
finds is cached and a failure ends the run, so `Legacy.organizations` has its one answer. -/
inductive Query
  | legacyUsers
  | existingIdentity
  | identityRows
  | roles
  | assignments
  | duplicates
  deriving DecidableEq, Repr

inductive AttemptError
  | run (err : RunError)
  | database (query : Query)
  deriving DecidableEq, Repr

abbrev Attempting (α : Type) := Method Attempt AttemptError α

/-- A part of the run between two calls to the database. -/
def undisturbed {α : Type} (m : Running α) : Attempting α :=
  within Attempt.site (fun t s => { t with site := s }) .run m

namespace Faulty

section Run

variable (fails : ℕ → Bool) (legacy : Legacy) (w : Outside) (accounts : List Account)

/-- The next call to the database. -/
def query (q : Query) : Attempting Unit := do
  let t ← get
  modify fun t => { t with queries := t.queries+1 }
  refuseIf (fails t.queries = true) (.database q)

/-- An error anywhere in the transaction leaves no row, and takes the seeds out of the vault. -/
def persistOrClean (i : Identity) (ms : List Membership) (cs : List Credential)
    (refs : List AccountRef) : Attempting Unit :=
  tryCatch (do
    query fails .identityRows
    undisturbed (persist i ms cs refs)) fun err => do
    undisturbed (cleanupVault cs)
    throw err

def migrateSingle (hash : Bytes) (ref : AccountRef) : Attempting Unit := do
  let kind := if ref.isServiceAccount then IdentityType.service else .human
  let identity ← undisturbed (outside id (newIdentity w kind hash RunError.identity))
  match legacy.organizations ref.owner with
  | none => throw (.run (.organizationNotFound ref.owner))
  | some org => do
    let m ← undisturbed (outside id (newMember w identity.id org RunError.membership))
    let migrated ← undisturbed (outside (.credentials ref.owner ref.name)
      (migrate w identity.id (accountOf accounts ref.key)))
    if migrated.forcePasswordReset then
      undisturbed (modify fun s => { s with report := { s.report with
        forcedResets := s.report.forcedResets ++ [orgUser ref.owner ref.name] } })
    persistOrClean fails identity [m] migrated.credentials [ref]
    undisturbed (modify fun s => { s with report := { s.report with
      factorLoss := s.report.factorLoss ++ lostFactors [ref] migrated.credentials
        migrated.forcePasswordReset (orgUser ref.owner ref.name) } })

/-- `identityExistsByHash`; an account without e-mail is not looked up. -/
def identityExistsByHash (hash : Bytes) : Attempting Bool :=
  if hash = [] then pure false
  else do
    query fails .existingIdentity
    let t ← get
    pure (t.site.db.hasHash hash)

def runSingle (g : Group) : Attempting Unit := do
  let found ← identityExistsByHash fails (mustHash g.emailHashHex)
  if found then
    undisturbed (modify fun s => { s with report := { s.report with
      preExisting := s.report.preExisting ++ g.accounts.head?.toList.map fun r =>
        orgUser r.owner r.name } })
  else
    forEach (migrateSingle fails legacy w accounts (mustHash g.emailHashHex)) g.accounts.head?.toList

variable (approvals : GoString → Option Approval)

def runCandidate (g : Group) : Attempting Unit :=
  match approvals g.emailHashHex with
  | none => undisturbed (modify fun s => { s with report := { s.report with
      pendingApproval := s.report.pendingApproval ++ [hashPrefix g.emailHashHex] } })
  | some approval => do
    let found ← identityExistsByHash fails (mustHash g.emailHashHex)
    if found then
      undisturbed (modify fun s => { s with report := { s.report with
        preExisting := s.report.preExisting ++ [hashPrefix g.emailHashHex ++
          utf8 " (grupo fundido)"] } })
    else do
      let fused ← undisturbed (outside .fusion
        (fuse w legacy.organizations ⟨g, approval, accountOf accounts⟩))
      persistOrClean fails fused.identity fused.memberships fused.credentials g.accounts
      undisturbed (modify fun s => { s with report := { s.report with
        droppedFactors := s.report.droppedFactors ++ fused.droppedFactors
        forcedResets := if fused.forcePasswordReset then s.report.forcedResets ++
          [orgUser approval.primary.owner approval.primary.name ++ utf8 " (grupo fundido)"]
          else s.report.forcedResets
        factorLoss := s.report.factorLoss ++ lostFactors g.accounts fused.credentials
          fused.forcePasswordReset (hashPrefix g.emailHashHex) } })

def persistAssignments (as : List RoleAssignment) : Attempting Unit := do
  query fails .assignments
  undisturbed (Migration.persistAssignments as)

def migrateRole (role : LegacyRole × List GoString) : Attempting Unit := do
  let t ← get
  undisturbed (refuseIf (role.1.id = Uuid.nil) .nullRole)
  let res ← undisturbed (repointUsers w role.1.id t.site.membershipByOrgUser [] role.2)
  undisturbed (modify fun s => { s with report := { s.report with
    rolesUnresolved := s.report.rolesUnresolved ++ res.unresolved } })
  forEach (fun org => persistAssignments fails (res.assignments.filter (·.organizationId = org)))
    (w.byOrg role.1.id (res.assignments.map (·.organizationId)).dedup)

def migrateRoles : Attempting Unit := do
  query fails .roles
  match readRoles legacy legacy.roles with
  | .error err => throw (.run err)
  | .ok roles => forEach (migrateRole fails w) roles

variable (hashEmail : HashEmail)

def rehearse : Attempting Unit := do
  undisturbed (modify fun s => { s with
    report := Report.empty, membershipByOrgUser := fun _ => none })
  query fails .legacyUsers
  match extractAccounts legacy legacy.users with
  | .error err => throw (.run err)
  | .ok accounts => do
    let inventory := buildInventory hashEmail (accounts.map (·.ref))
    undisturbed (modify fun s => { s with report := { s.report with
      conflicts := inventory.conflicts } })
    forEach (runSingle fails legacy w accounts) inventory.singles
    forEach (migrateSingle fails legacy w accounts []) inventory.noEmail
    forEach (runCandidate fails legacy w accounts approvals) inventory.fusionCandidates
    migrateRoles fails legacy w
    query fails .duplicates
    undisturbed (modify fun s => { s with report := { s.report with
      duplicateHumanEmails := s.db.duplicateHumans
      pendingApproval := sortBy bytesLess s.report.pendingApproval
      factorLoss := sortBy bytesLess s.report.factorLoss } })

end Run

section Erasure

/-- The two return the same, and leave the same but for the count of the calls. -/
def Erases {α : Type} (m : Attempting α) (n : Running α) : Prop :=
  ∀ t, (m.call t).1 = (n.call t.site).1.mapError .run ∧ (m.call t).2.site = (n.call t.site).2

variable {α β : Type} {m : Attempting α} {n : Running α} {f : α → Attempting β}
  {g : α → Running β}

theorem erases_undisturbed (n : Running α) : Erases (undisturbed n) n := by
  intro t
  rw [undisturbed, within_call]
  rcases n.call t.site with ⟨⟨err⟩ | ⟨a⟩, s⟩
  · exact ⟨rfl, rfl⟩
  · exact ⟨rfl, rfl⟩

theorem erases_pure (a : α) : Erases (pure a) (pure a) := fun _ => ⟨rfl, rfl⟩

theorem erases_throw (err : RunError) :
    Erases (throw (.run err) : Attempting α) (throw err) := fun _ => ⟨rfl, rfl⟩

theorem Erases.bind (hm : Erases m n) (hf : ∀ a, Erases (f a) (g a)) :
    Erases (m >>= f) (n >>= g) := by
  intro t
  obtain ⟨hres, hsite⟩ := hm t
  rw [call_bind, call_bind]
  rcases hn : n.call t.site with ⟨⟨err⟩ | ⟨a⟩, s⟩
  all_goals
    rw [hn] at hres hsite
    rcases hcall : m.call t with ⟨r, t'⟩
    rw [hcall] at hres hsite
    dsimp only at hres hsite
    obtain rfl := hres
    obtain rfl := hsite
  · exact ⟨rfl, rfl⟩
  · exact hf a t'

theorem erases_get_bind {f : Attempt → Attempting β} {g : Site → Running β}
    (h : ∀ t, Erases (f t) (g t.site)) : Erases (get >>= f) (get >>= g) := by
  intro t
  rw [call_get_bind, call_get_bind]
  exact h t t

theorem erases_query_bind {q : Query} {f : Unit → Attempting β} {n : Running β}
    (h : Erases (f ()) n) : Erases (query (fun _ => false) q >>= f) n := by
  intro t
  have hquery : (query (fun _ => false) q).call t = (.ok (), { t with queries := t.queries+1 }) := by
    rw [query, call_get_bind, call_modify_bind]
    rfl
  rw [call_bind, hquery]
  exact h { t with queries := t.queries+1 }

theorem Erases.forEach {γ : Type} {f : γ → Attempting Unit} {g : γ → Running Unit}
    (h : ∀ a, Erases (f a) (g a)) (as : List γ) :
    Erases (Method.forEach f as) (Method.forEach g as) := by
  induction as with
  | nil => exact erases_pure ()
  | cons a as ih => exact (h a).bind fun _ => ih

variable (legacy : Legacy) (w : Outside) (accounts : List Account)

theorem erases_persistOrClean (i : Identity) (ms : List Membership) (cs : List Credential)
    (refs : List AccountRef) : Erases (persistOrClean (fun _ => false) i ms cs refs)
      (Migration.persistOrClean i ms cs refs) := by
  intro t
  have hrows : Erases (query (fun _ => false) .identityRows >>= fun _ =>
      undisturbed (persist i ms cs refs)) (persist i ms cs refs) :=
    erases_query_bind (erases_undisturbed _)
  replace hrows := hrows t
  rw [persistOrClean, Migration.persistOrClean, call_tryCatch, call_tryCatch]
  rcases hn : (persist i ms cs refs).call t.site with ⟨⟨err⟩ | ⟨a⟩, s⟩
  all_goals
    rw [hn] at hrows
    rcases hcall : (query (fun _ => false) .identityRows >>= fun _ =>
      undisturbed (persist i ms cs refs)).call t with ⟨r, t'⟩
    rw [hcall] at hrows
    dsimp only at hrows
    obtain ⟨rfl, rfl⟩ := hrows
  · exact ⟨rfl, rfl⟩
  · exact ⟨rfl, rfl⟩

theorem erases_migrateSingle (hash : Bytes) (ref : AccountRef) :
    Erases (migrateSingle (fun _ => false) legacy w accounts hash ref)
      (Migration.migrateSingle legacy w accounts hash ref) := by
  apply (erases_undisturbed _).bind
  intro identity
  cases legacy.organizations ref.owner with
  | none => exact erases_throw _
  | some org =>
    apply (erases_undisturbed _).bind
    intro m
    apply (erases_undisturbed _).bind
    intro migrated
    obtain ⟨cs, reset⟩ := migrated
    cases reset with
    | true =>
      apply (erases_undisturbed _).bind
      intro _
      exact (erases_persistOrClean identity [m] cs [ref]).bind fun _ => erases_undisturbed _
    | false => exact (erases_persistOrClean identity [m] cs [ref]).bind fun _ => erases_undisturbed _

theorem erases_identityExistsByHash_bind (hash : Bytes) {f : Bool → Attempting β}
    {g : Site → Running β} (h : ∀ s : Site, Erases (f (s.db.hasHash hash)) (g s)) :
    Erases (identityExistsByHash (fun _ => false) hash >>= f) (get >>= g) := by
  intro t
  have hcall : ∃ k, (identityExistsByHash (fun _ => false) hash).call t =
      (.ok (t.site.db.hasHash hash), ⟨t.site, k⟩) := by
    rw [identityExistsByHash, call_ite]
    by_cases hnil : hash = []
    · rw [if_pos hnil, hnil]
      exact ⟨t.queries, rfl⟩
    · rw [if_neg hnil]
      exact ⟨t.queries+1, rfl⟩
  obtain ⟨k, hk⟩ := hcall
  rw [call_bind, hk, call_get_bind]
  exact h t.site ⟨t.site, k⟩

theorem erases_runSingle (g : Group) :
    Erases (runSingle (fun _ => false) legacy w accounts g)
      (Migration.runSingle legacy w accounts g) := by
  apply erases_identityExistsByHash_bind
  intro s
  cases s.db.hasHash (mustHash g.emailHashHex) with
  | true => exact erases_undisturbed _
  | false => exact Erases.forEach (erases_migrateSingle legacy w accounts _) _

theorem erases_runCandidate (approvals : GoString → Option Approval) (g : Group) :
    Erases (runCandidate (fun _ => false) legacy w accounts approvals g)
      (Migration.runCandidate legacy w accounts approvals g) := by
  rw [runCandidate, Migration.runCandidate]
  cases approvals g.emailHashHex with
  | none => exact erases_undisturbed _
  | some approval =>
    apply erases_identityExistsByHash_bind
    intro s
    cases s.db.hasHash (mustHash g.emailHashHex) with
    | true => exact erases_undisturbed _
    | false =>
      apply (erases_undisturbed _).bind
      intro fused
      exact (erases_persistOrClean _ _ _ _).bind fun _ => erases_undisturbed _

theorem erases_migrateRole (role : LegacyRole × List GoString) :
    Erases (migrateRole (fun _ => false) w role) (Migration.migrateRole w role) := by
  apply erases_get_bind
  intro t
  apply (erases_undisturbed _).bind
  intro _
  apply (erases_undisturbed _).bind
  intro res
  apply (erases_undisturbed _).bind
  intro _
  exact Erases.forEach (fun org => erases_query_bind (erases_undisturbed _)) _

theorem erases_migrateRoles :
    Erases (migrateRoles (fun _ => false) legacy w) (Migration.migrateRoles legacy w) := by
  apply erases_query_bind
  rw [Migration.migrateRoles]
  cases readRoles legacy legacy.roles with
  | error err => exact erases_throw err
  | ok roles => exact Erases.forEach (erases_migrateRole w) roles

/-- On a database whose calls do not fail, the run is the rehearsal. -/
theorem erases_rehearse (approvals : GoString → Option Approval) (hashEmail : HashEmail) :
    Erases (rehearse (fun _ => false) legacy w approvals hashEmail)
      (Migration.rehearse legacy w approvals hashEmail) := by
  apply (erases_undisturbed _).bind
  intro _
  apply erases_query_bind
  cases extractAccounts legacy legacy.users with
  | error err => exact erases_throw err
  | ok as =>
    apply (erases_undisturbed _).bind
    intro _
    apply (Erases.forEach (erases_runSingle legacy w as) _).bind
    intro _
    apply (Erases.forEach (erases_migrateSingle legacy w as []) _).bind
    intro _
    apply (Erases.forEach (erases_runCandidate legacy w as approvals) _).bind
    intro _
    apply (erases_migrateRoles legacy w).bind
    intro _
    exact erases_query_bind (erases_undisturbed _)

end Erasure

end Faulty

end ArchGuard.Migration
