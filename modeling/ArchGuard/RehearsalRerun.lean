import ArchGuard.Rehearsal

/-! What a second rehearsal adds to the database that a first one left. -/
namespace ArchGuard.Migration
open GoMethod GoText Method Tenancy

section Rows

variable {db db' : Db}

theorem insertMemberships_ok {ms : List Membership} (h : db.insertMemberships ms = .ok db') :
    db' = { db with memberships := db.memberships ++ ms } := by
  induction ms generalizing db with
  | nil =>
    obtain rfl := Except.ok.inj h
    simp
  | cons m ms ih =>
    rw [Db.insertMemberships, ite_error_eq_ok] at h
    rw [ih h.2]
    simp

theorem insertCredentials_ok {cs : List Credential} (h : db.insertCredentials cs = .ok db') :
    db' = { db with credentials := db.credentials ++ cs } := by
  induction cs generalizing db with
  | nil =>
    obtain rfl := Except.ok.inj h
    simp
  | cons c cs ih =>
    rw [Db.insertCredentials, ite_error_eq_ok, ite_error_eq_ok] at h
    rw [ih h.2.2]
    simp

theorem insertAssignments_ok {as : List RoleAssignment} (h : db.insertAssignments as = .ok db') :
    db' = { db with assignments := db.assignments ++ as } := by
  induction as generalizing db with
  | nil =>
    obtain rfl := Except.ok.inj h
    simp
  | cons a as ih =>
    rw [Db.insertAssignments, ite_error_eq_ok] at h
    rw [ih h.2]
    simp

/-- The database with the rows of one more identity. -/
def Db.with (db : Db) (i : Identity) (ms : List Membership) (cs : List Credential) : Db :=
  ⟨db.identities ++ [i], db.memberships ++ ms, db.credentials ++ cs, db.assignments⟩

theorem insertIdentity_ok {i : Identity} {ms : List Membership} {cs : List Credential}
    (h : db.insertIdentity i ms cs = .ok db') : db' = db.with i ms cs := by
  rw [Db.insertIdentity, ite_error_eq_ok] at h
  obtain ⟨mid, hm, hc⟩ := bind_eq_ok.mp h.2
  rw [insertCredentials_ok hc, insertMemberships_ok hm]
  rfl

end Rows

variable {legacy : Legacy} {w : Outside} {accounts : List Account} {s s' : Site}

/-- Work outside changes the counters only. -/
theorem outside_cases {ε α : Type} (wrap : ε → RunError) (m : Method Calls ε α) (s : Site) :
    (∃ err c, (outside wrap m).call s = (.error err, { s with calls := c })) ∨
      ∃ a c, m.call s.calls = (.ok a, c) ∧
        (outside wrap m).call s = (.ok a, { s with calls := c }) := by
  rw [outside, within_call]
  rcases m.call s.calls with ⟨⟨err⟩ | ⟨a⟩, c⟩
  · exact Or.inl ⟨_, c, rfl⟩
  · exact Or.inr ⟨a, c, rfl, rfl⟩

/-- The two states have the same rows and the same memberships for the roles. -/
def SameRows (s s' : Site) : Prop :=
  s'.db = s.db ∧ s'.membershipByOrgUser = s.membershipByOrgUser

/-- What `persist` leaves where it succeeds. -/
structure Persisted (s : Site) (i : Identity) (ms : List Membership) (cs : List Credential)
    (refs : List AccountRef) (s' : Site) : Prop where
  db : s'.db = s.db.with i ms cs
  byOrgUser : s'.membershipByOrgUser = (refs.zip ms).foldl (fun f am => Function.update f
    (orgUser am.1.owner am.1.name) (some ⟨am.2.id, am.2.organizationId⟩)) s.membershipByOrgUser

theorem persistOrClean_cases (i : Identity) (ms : List Membership) (cs : List Credential)
    (refs : List AccountRef) (s : Site) :
    (∃ err s', (persistOrClean i ms cs refs).call s = (.error err, s') ∧ SameRows s s') ∨
      ∃ s', (persistOrClean i ms cs refs).call s = (.ok (), s') ∧ Persisted s i ms cs refs s' := by
  rw [persistOrClean, call_tryCatch, persist, call_get_bind]
  cases hins : s.db.insertIdentity i ms cs with
  | error err => exact Or.inl ⟨err, _, rfl, rfl, rfl⟩
  | ok db => exact Or.inr ⟨_, rfl, insertIdentity_ok hins, rfl⟩

/-- The transaction of one identity and the entry in the report that follows it. -/
theorem persistOrClean_report_cases {s t : Site} (hrows : SameRows s t) (i : Identity)
    (ms : List Membership) (cs : List Credential) (refs : List AccountRef) (f : Site → Report) :
    (∃ err s', (persistOrClean i ms cs refs >>= fun _ =>
        modify fun s => { s with report := f s }).call t = (.error err, s') ∧ SameRows s s') ∨
      ∃ s', (persistOrClean i ms cs refs >>= fun _ =>
        modify fun s => { s with report := f s }).call t = (.ok (), s') ∧
        Persisted s i ms cs refs s' := by
  rcases persistOrClean_cases i ms cs refs t with ⟨err, s', h, hdb, hmap⟩ | ⟨s', h, hdb, hmap⟩
  · rw [call_bind, h]
    exact Or.inl ⟨err, s', rfl, hdb.trans hrows.1, hmap.trans hrows.2⟩
  · rw [call_bind, h]
    rw [hrows.1] at hdb
    rw [hrows.2] at hmap
    exact Or.inr ⟨_, rfl, hdb, hmap⟩

theorem newIdentity_ok {ε : Type} {t : IdentityType} {hash : Bytes} {err : ε} {i : Identity}
    {c c' : Calls} (h : (newIdentity w t hash err).call c = (.ok i, c')) : i.emailHash = hash := by
  obtain ⟨id, c₁, -, h⟩ := (bind_ok _).mp h
  rw [call_get_bind, call_modify_bind] at h
  cases hs : w.newSubject c₁.subjects with
  | none =>
    rw [hs] at h
    cases h
  | some subject =>
    rw [hs] at h
    cases h
    rfl

theorem newMember_ok {ε : Type} {identityId org : Uuid} {err : ε} {m : Membership} {c c' : Calls}
    (h : (newMember w identityId org err).call c = (.ok m, c')) : m.identityId = identityId := by
  obtain ⟨id, c₁, -, h⟩ := (bind_ok _).mp h
  rw [newMembership, newMembershipWith] at h
  split_ifs at h with hnil
  · cases h
  · cases h
    rfl

/-- The rows of one account belong to its identity. -/
structure MintedRows (i : Identity) (m : Membership) (cs : List Credential) (hash : Bytes) : Prop where
  hash : i.emailHash = hash
  membership : m.identityId = i.id
  credentials : ∀ c ∈ cs, c.identityId = i.id

/-- One identity was stored, with one membership and its credentials. -/
def Stored (hash : Bytes) (ref : AccountRef) (s s' : Site) : Prop :=
  ∃ i m cs, MintedRows i m cs hash ∧ Persisted s i [m] cs [ref] s'

theorem persistMinted_cases {s t : Site} {i : Identity} {m : Membership} {cs : List Credential}
    {hash : Bytes} (hminted : MintedRows i m cs hash) (hrows : SameRows s t) (ref : AccountRef)
    (f : Site → Report) :
    (∃ err s', (persistOrClean i [m] cs [ref] >>= fun _ =>
        modify fun s => { s with report := f s }).call t = (.error err, s') ∧ SameRows s s') ∨
      ∃ s', (persistOrClean i [m] cs [ref] >>= fun _ =>
        modify fun s => { s with report := f s }).call t = (.ok (), s') ∧ Stored hash ref s s' := by
  rcases persistOrClean_report_cases hrows i [m] cs [ref] f with h | ⟨s', h, hp⟩
  · exact Or.inl h
  · exact Or.inr ⟨s', h, i, m, cs, hminted, hp⟩

/-- What the migration of one account leaves: an error and the same rows, or one identity with its
membership and its credentials. -/
theorem migrateSingle_cases (legacy : Legacy) (w : Outside) (accounts : List Account) (hash : Bytes)
    (ref : AccountRef) (s : Site) :
    (∃ err s', (migrateSingle legacy w accounts hash ref).call s = (.error err, s') ∧
      SameRows s s') ∨
    ∃ s', (migrateSingle legacy w accounts hash ref).call s = (.ok (), s') ∧
      Stored hash ref s s' := by
  rw [migrateSingle, call_bind]
  rcases outside_cases id (newIdentity w (if ref.isServiceAccount then .service else .human) hash
    RunError.identity) s with ⟨err, c₁, h⟩ | ⟨i, c₁, hi, h⟩
  · rw [h]
    exact Or.inl ⟨err, _, rfl, rfl, rfl⟩
  rw [h]
  dsimp only
  cases horg : legacy.organizations ref.owner with
  | none => exact Or.inl ⟨_, _, rfl, rfl, rfl⟩
  | some org =>
    rw [call_bind]
    rcases outside_cases id (newMember w i.id org RunError.membership) { s with calls := c₁ } with
      ⟨err, c₂, h⟩ | ⟨m, c₂, hm, h⟩
    · rw [h]
      exact Or.inl ⟨err, _, rfl, rfl, rfl⟩
    rw [h]
    dsimp only
    rw [call_bind]
    rcases outside_cases (RunError.credentials ref.owner ref.name)
      (migrate w i.id (accountOf accounts ref.key)) { s with calls := c₂ } with
      ⟨err, c₃, h⟩ | ⟨res, c₃, hres, h⟩
    · rw [h]
      exact Or.inl ⟨err, _, rfl, rfl, rfl⟩
    rw [h]
    dsimp only
    -- A forced reset only goes to the report: with and without it the rows are the same.
    have hminted : MintedRows i m res.credentials hash :=
      ⟨newIdentity_ok hi, newMember_ok hm, (migrate_ok hres).1.identity⟩
    split_ifs with hreset
    · rw [call_modify_bind]
      apply persistMinted_cases (s := s) hminted
      exact ⟨rfl, rfl⟩
    · apply persistMinted_cases (s := s) hminted
      exact ⟨rfl, rfl⟩

theorem fuseAccount_ok {plan : Plan} {identityId : Uuid} {res res' : Fused} {ref : AccountRef}
    {c c' : Calls}
    (h : (fuseAccount w legacy.organizations plan identityId res ref).call c = (.ok res', c')) :
    res'.identity = res.identity := by
  rw [fuseAccount] at h
  cases horg : legacy.organizations ref.owner with
  | none =>
    rw [horg] at h
    cases h
  | some org =>
    rw [horg] at h
    obtain ⟨m, c₁, -, h⟩ := (bind_ok _).mp h
    rw [call_ite] at h
    split_ifs at h with hprimary
    · obtain ⟨migrated, c₂, -, h⟩ := (bind_ok _).mp h
      obtain ⟨rfl, -⟩ := (pure_ok _).mp h
      rfl
    · obtain ⟨migrated, c₂, -, h⟩ := (bind_ok _).mp h
      obtain ⟨rfl, -⟩ := (pure_ok _).mp h
      rfl

theorem fuseAccounts_ok {plan : Plan} {identityId : Uuid} {refs : List AccountRef}
    {res res' : Fused} {c c' : Calls}
    (h : (fuseAccounts w legacy.organizations plan identityId res refs).call c = (.ok res', c')) :
    res'.identity = res.identity := by
  induction refs generalizing res c with
  | nil =>
    obtain ⟨rfl, -⟩ := (pure_ok _).mp h
    rfl
  | cons ref refs ih =>
    obtain ⟨mid, c₁, hone, h⟩ := (bind_ok _).mp h
    rw [ih h]
    exact fuseAccount_ok hone

theorem fuse_ok {plan : Plan} {res : Fused} {c c' : Calls}
    (h : (fuse w legacy.organizations plan).call c = (.ok res, c')) :
    res.identity.emailHash = mustHash plan.group.emailHashHex ∧ res.identity.emailHash ≠ [] := by
  obtain ⟨-, c₁, -, h⟩ := (bind_ok _).mp h
  obtain ⟨-, c₂, -, h⟩ := (bind_ok _).mp h
  rw [mustHash]
  cases hhash : hexDecode plan.group.emailHashHex with
  | none =>
    rw [hhash] at h
    cases h
  | some hash =>
    rw [hhash] at h
    obtain ⟨hne, h⟩ := (refuseIf_bind_ok _).mp h
    obtain ⟨i, c₃, hi, h⟩ := (bind_ok _).mp h
    rw [fuseAccounts_ok h]
    have hi' : i.emailHash = hash := newIdentity_ok hi
    exact ⟨hi', by rw [hi']; exact hne⟩

section Roles

/-- What the re-pointing of the roles keeps: it draws, reports, and adds assignments of memberships
that it has resolved. -/
structure Repoints (I : Site → Prop) (Q : Uuid → Prop) : Prop where
  calls : ∀ s c, I s → I { s with calls := c }
  report : ∀ s r, I s → I { s with report := r }
  resolve : ∀ s, I s → ∀ key rm, s.membershipByOrgUser key = some rm → Q rm.membershipId
  assign : ∀ s as, I s → (∀ a ∈ as, Q a.membershipId) →
    I { s with db := { s.db with assignments := s.db.assignments ++ as } }

variable {I : Site → Prop} {Q : Uuid → Prop}

theorem Repoints.repointUsers (h : Repoints I Q) {roleId : Uuid}
    {resolve : GoString → Option ResolvedMembership}
    (hresolve : ∀ key rm, resolve key = some rm → Q rm.membershipId) (seen : List Uuid)
    (users : List GoString) : (repointUsers w roleId resolve seen users).Yields I
      fun res => ∀ a ∈ res.assignments, Q a.membershipId := by
  induction users generalizing seen with
  | nil => exact yields_pure fun a ha => absurd ha List.not_mem_nil
  | cons u us ih =>
    rw [Migration.repointUsers]
    split_ifs with hu
    · exact ih seen
    · cases hr : resolve u with
      | none =>
        apply (ih seen).bind
        intro rest hrest
        exact yields_pure hrest
      | some rm =>
        dsimp only
        split_ifs with hseen
        · exact ih seen
        · apply yields_refuseIf.bind
          intro _ _
          have hdraw : (outside id (newUuid w (RunError.roleAssignment u))).Yields I
              fun _ => True := Yields.within h.calls fun _ _ _ _ => trivial
          apply hdraw.bind
          intro drawn _
          apply (ih (rm.membershipId :: seen)).bind
          intro rest hrest
          exact yields_pure (List.forall_mem_cons.mpr ⟨hresolve u rm hr, hrest⟩)

theorem Repoints.persistAssignments (h : Repoints I Q) {as : List RoleAssignment}
    (has : ∀ a ∈ as, Q a.membershipId) : (persistAssignments as).Yields I fun _ => True := by
  intro s hs
  rw [Migration.persistAssignments, call_get_bind]
  cases hins : s.db.insertAssignments as with
  | error err => exact ⟨hs, fun _ _ => trivial⟩
  | ok db =>
    rw [insertAssignments_ok hins]
    exact ⟨h.report _ _ (h.assign s as hs has), fun _ _ => trivial⟩

theorem Repoints.migrateRole (h : Repoints I Q) (role : LegacyRole × List GoString) :
    (migrateRole w role).Yields I fun _ => True := by
  apply yields_get_bind
  intro s hs
  apply yields_refuseIf.bind
  intro _ _
  apply (h.repointUsers (h.resolve s hs) [] role.2).bind
  intro res hres
  apply (yields_modify fun t ht => h.report t _ ht).bind
  intro _ _
  apply Yields.forEach
  intro org _
  exact h.persistAssignments fun a ha => hres a (List.mem_of_mem_filter ha)

theorem Repoints.migrateRoles (h : Repoints I Q) (legacy : Legacy) (w : Outside) :
    (migrateRoles legacy w).Yields I fun _ => True := by
  rw [Migration.migrateRoles]
  cases readRoles legacy legacy.roles with
  | error err => exact yields_throw
  | ok roles => exact Yields.forEach fun role _ => h.migrateRole role

end Roles

section FirstRun

/-- Every e-mail hash stays in the database. -/
def KeepsHashes (s s' : Site) : Prop := ∀ hash, s.db.hasHash hash → s'.db.hasHash hash

theorem keepsHashes_of_db (h : s'.db = s.db) : KeepsHashes s s' := by
  intro hash hs
  rw [h]
  exact hs

theorem hasHash_iff {db : Db} {hash : Bytes} :
    db.hasHash hash ↔ hash ≠ [] ∧ ∃ i ∈ db.identities, i.emailHash = hash := by
  rw [Db.hasHash, Bool.and_eq_true, decide_eq_true_eq, List.any_eq_true]
  simp only [decide_eq_true_eq]

theorem keepsHashes_of_append {is : List Identity}
    (h : s'.db.identities = s.db.identities ++ is) : KeepsHashes s s' := by
  intro hash hs
  rw [hasHash_iff] at hs ⊢
  obtain ⟨hne, i, hi, hh⟩ := hs
  refine ⟨hne, i, ?_, hh⟩
  rw [h]
  exact List.mem_append_left _ hi

theorem Persisted.keepsHashes {i : Identity} {ms : List Membership} {cs : List Credential}
    {refs : List AccountRef} (h : Persisted s i ms cs refs s') : KeepsHashes s s' := by
  apply keepsHashes_of_append
  rw [h.db]
  rfl

theorem Persisted.hasHash {i : Identity} {ms : List Membership} {cs : List Credential}
    {refs : List AccountRef} (h : Persisted s i ms cs refs s') (hne : i.emailHash ≠ []) :
    s'.db.hasHash i.emailHash := by
  refine hasHash_iff.mpr ⟨hne, i, ?_, rfl⟩
  rw [h.db]
  exact List.mem_append_right _ (List.mem_singleton_self i)

theorem migrateSingle_ok {hash : Bytes} {ref : AccountRef}
    (h : (migrateSingle legacy w accounts hash ref).call s = (.ok (), s')) :
    KeepsHashes s s' ∧ (hash ≠ [] → s'.db.hasHash hash) := by
  rcases migrateSingle_cases legacy w accounts hash ref s with
    ⟨err, t, hcall, -⟩ | ⟨t, hcall, i, m, cs, hminted, hp⟩
  · rw [hcall] at h
    cases h
  · rw [hcall] at h
    obtain rfl := (Prod.mk.inj h).2
    obtain rfl := hminted.hash
    exact ⟨hp.keepsHashes, hp.hasHash⟩

theorem keepsHashes_trans (s t u : Site) (h : KeepsHashes s t) (h' : KeepsHashes t u) :
    KeepsHashes s u := fun hash hs => h' hash (h hash hs)

theorem runSingle_ok {g : Group} (h : (runSingle legacy w accounts g).call s = (.ok (), s')) :
    KeepsHashes s s' ∧ (mustHash g.emailHashHex ≠ [] → g.accounts ≠ [] →
      s'.db.hasHash (mustHash g.emailHashHex)) := by
  rw [runSingle, call_get_bind] at h
  split_ifs at h with hhas
  · obtain rfl := (Prod.mk.inj h).2
    exact ⟨keepsHashes_of_db rfl, fun _ _ => hhas⟩
  · obtain ⟨hkeep, heach⟩ := forEach_ok (fun s => keepsHashes_of_db rfl) keepsHashes_trans
      (fun ref t t' hcall => (migrateSingle_ok hcall).1) h
    refine ⟨hkeep, fun hne hnonempty => ?_⟩
    obtain ⟨ref, hhead⟩ := Option.isSome_iff_exists.mp (List.isSome_head?.mpr hnonempty)
    obtain ⟨t, t', hcall, hlater⟩ := heach ref (by simp [hhead])
    exact hlater _ ((migrateSingle_ok hcall).2 hne)

theorem runCandidate_ok {approvals : GoString → Option Approval} {g : Group}
    (h : (runCandidate legacy w accounts approvals g).call s = (.ok (), s')) :
    KeepsHashes s s' ∧ (approvals g.emailHashHex ≠ none →
      s'.db.hasHash (mustHash g.emailHashHex)) := by
  rw [runCandidate] at h
  cases happroval : approvals g.emailHashHex with
  | none =>
    rw [happroval] at h
    obtain rfl := (Prod.mk.inj h).2
    exact ⟨keepsHashes_of_db rfl, fun hne => absurd rfl hne⟩
  | some approval =>
    rw [happroval] at h
    dsimp only at h
    rw [call_get_bind] at h
    split_ifs at h with hhas
    · obtain rfl := (Prod.mk.inj h).2
      exact ⟨keepsHashes_of_db rfl, fun _ => hhas⟩
    · obtain ⟨fused, t, hwork, h⟩ := (bind_ok _).mp h
      obtain ⟨c, hfuse, rfl⟩ := within_ok.mp hwork
      obtain ⟨hhash, hne⟩ := fuse_ok hfuse
      obtain ⟨_, t, hstored, h⟩ := (bind_ok _).mp h
      rcases persistOrClean_cases fused.identity fused.memberships fused.credentials g.accounts
        { s with calls := c } with ⟨err, t', hcall, -⟩ | ⟨t', hcall, hdb, hmap⟩
      · rw [hcall] at hstored
        cases hstored
      · rw [hcall] at hstored
        obtain rfl := (Prod.mk.inj hstored).2
        obtain rfl := (Prod.mk.inj h).2
        have hp : Persisted s fused.identity fused.memberships fused.credentials g.accounts
          { t' with report := _ } := ⟨hdb, hmap⟩
        refine ⟨hp.keepsHashes, fun _ => ?_⟩
        rw [← hhash]
        exact hp.hasHash hne

theorem migrateRoles_ok (h : (migrateRoles legacy w).call s = (.ok (), s')) : KeepsHashes s s' := by
  have hkeep : Repoints (fun t => t.db.identities = s.db.identities) fun _ => True :=
    ⟨fun _ _ ht => ht, fun _ _ ht => ht, fun _ _ _ _ _ => trivial, fun _ _ ht _ => ht⟩
  have hids := (hkeep.migrateRoles legacy w s rfl).1
  rw [h] at hids
  apply keepsHashes_of_append
  rw [hids, List.append_nil]

end FirstRun

section SecondRun

/-- The database with more rows after its own. -/
def Db.plus (db more : Db) : Db :=
  ⟨db.identities ++ more.identities, db.memberships ++ more.memberships,
    db.credentials ++ more.credentials, db.assignments ++ more.assignments⟩

/-- At most `n` identities, all without an e-mail hash, and rows that belong to them. -/
structure Mints (n : ℕ) (more : Db) : Prop where
  count : more.identities.length ≤ n
  hashless : ∀ i ∈ more.identities, i.emailHash = []
  memberships : ∀ m ∈ more.memberships, ∃ i ∈ more.identities, m.identityId = i.id
  credentials : ∀ c ∈ more.credentials, ∃ i ∈ more.identities, c.identityId = i.id
  assignments : ∀ a ∈ more.assignments, ∃ m ∈ more.memberships, a.membershipId = m.id

theorem Mints.nothing {more : Db} (h : Mints 0 more) : more = ⟨[], [], [], []⟩ := by
  rcases more with ⟨is, ms, cs, as⟩
  have hi : is = [] := List.eq_nil_of_length_eq_zero (Nat.le_zero.mp h.count)
  subst hi
  have hm : ms = [] := List.eq_nil_iff_forall_not_mem.mpr fun m hm => by
    obtain ⟨i, hi, -⟩ := h.memberships m hm
    exact absurd hi List.not_mem_nil
  subst hm
  have hc : cs = [] := List.eq_nil_iff_forall_not_mem.mpr fun c hc => by
    obtain ⟨i, hi, -⟩ := h.credentials c hc
    exact absurd hi List.not_mem_nil
  have ha : as = [] := List.eq_nil_iff_forall_not_mem.mpr fun a ha => by
    obtain ⟨m, hm, -⟩ := h.assignments a ha
    exact absurd hm List.not_mem_nil
  rw [hc, ha]

/-- A later run: what it added so far, and its memberships for the roles are among that. -/
def Rerun (db : Db) (n : ℕ) (s : Site) : Prop :=
  ∃ more, s.db = db.plus more ∧ Mints n more ∧
    ∀ key rm, s.membershipByOrgUser key = some rm → ∃ m ∈ more.memberships, rm.membershipId = m.id

variable {db : Db} {n : ℕ}

theorem Rerun.sameRows (h : Rerun db n s) (hrows : SameRows s s') : Rerun db n s' := by
  obtain ⟨more, hdb, hmints, hmap⟩ := h
  refine ⟨more, hrows.1.trans hdb, hmints, fun key rm hk => ?_⟩
  rw [hrows.2] at hk
  exact hmap key rm hk

theorem Rerun.mono (h : Rerun db n s) {k : ℕ} (hk : n ≤ k) : Rerun db k s := by
  obtain ⟨more, hdb, hmints, hmap⟩ := h
  exact ⟨more, hdb, { hmints with count := hmints.count.trans hk }, hmap⟩

theorem Rerun.hasHash (h : Rerun db n s) {hash : Bytes} (hhas : db.hasHash hash) :
    s.db.hasHash hash := by
  obtain ⟨more, hdb, -, -⟩ := h
  rw [hasHash_iff] at hhas ⊢
  obtain ⟨hne, i, hi, hh⟩ := hhas
  refine ⟨hne, i, ?_, hh⟩
  rw [hdb]
  exact List.mem_append_left _ hi

theorem Rerun.stored (h : Rerun db n s) {ref : AccountRef} (hs : Stored [] ref s s') :
    Rerun db (n+1) s' := by
  obtain ⟨more, hdb, hmints, hmap⟩ := h
  obtain ⟨i, m, cs, hminted, hp⟩ := hs
  have hi : i ∈ more.identities ++ [i] := List.mem_append_right _ (List.mem_singleton_self i)
  refine ⟨more.with i [m] cs, ?_, ⟨?_, ?_, ?_, ?_, ?_⟩, ?_⟩
  · rw [hp.db, hdb]
    simp only [Db.with, Db.plus, List.append_assoc]
  · have hcount := hmints.count
    simp only [Db.with, List.length_append, List.length_singleton]
    omega
  · intro j hj
    rcases List.mem_append.mp hj with hj | hj
    · exact hmints.hashless j hj
    · rw [List.mem_singleton.mp hj]
      exact hminted.hash
  · intro m' hm'
    rcases List.mem_append.mp hm' with hm' | hm'
    · obtain ⟨j, hj, he⟩ := hmints.memberships m' hm'
      exact ⟨j, List.mem_append_left _ hj, he⟩
    · rw [List.mem_singleton.mp hm']
      exact ⟨i, hi, hminted.membership⟩
  · intro c hc
    rcases List.mem_append.mp hc with hc | hc
    · obtain ⟨j, hj, he⟩ := hmints.credentials c hc
      exact ⟨j, List.mem_append_left _ hj, he⟩
    · exact ⟨i, hi, hminted.credentials c hc⟩
  · intro a ha
    obtain ⟨m', hm', he⟩ := hmints.assignments a ha
    exact ⟨m', List.mem_append_left _ hm', he⟩
  · intro key rm hk
    -- the memberships of the roles are those of this run, so the new one is the only new entry
    rw [hp.byOrgUser] at hk
    simp only [List.zip_cons_cons, List.zip_nil_right, List.foldl_cons, List.foldl_nil,
      Function.update_apply] at hk
    split_ifs at hk with hkey
    · cases hk
      exact ⟨m, List.mem_append_right _ (List.mem_singleton_self m), rfl⟩
    · obtain ⟨m', hm', he⟩ := hmap key rm hk
      exact ⟨m', List.mem_append_left _ hm', he⟩

/-- The accounts without e-mail: one identity each at most. -/
theorem Rerun.noEmail (h : Rerun db n s) (legacy : Legacy) (w : Outside)
    (accounts : List Account) (refs : List AccountRef) :
    Rerun db (n+refs.length) ((forEach (migrateSingle legacy w accounts []) refs).call s).2 := by
  induction refs generalizing s n with
  | nil => exact h
  | cons ref refs ih =>
    rw [forEach, call_bind]
    rcases migrateSingle_cases legacy w accounts [] ref s with
      ⟨err, t, hcall, hrows⟩ | ⟨t, hcall, hstored⟩
    · rw [hcall]
      exact (h.sameRows hrows).mono (Nat.le_add_right n _)
    · rw [hcall, List.length_cons, ← Nat.add_assoc, Nat.add_right_comm]
      exact ih (h.stored hstored)

/-- The roles of a later run: the memberships stay as they are, and the assignments are theirs. -/
theorem Rerun.roles (h : Rerun db n s) :
    Rerun db n ((migrateRoles legacy w).call s).2 := by
  obtain ⟨more, hdb, hmints, hmap⟩ := h
  let Repointed (t : Site) : Prop := ∃ as, t.db = db.plus { more with assignments := as } ∧
    (∀ a ∈ as, ∃ m ∈ more.memberships, a.membershipId = m.id) ∧
    t.membershipByOrgUser = s.membershipByOrgUser
  have hrepoints : Repoints Repointed fun id => ∃ m ∈ more.memberships, id = m.id := by
    refine ⟨fun _ _ ht => ht, fun _ _ ht => ht, ?_, ?_⟩
    · rintro t ⟨as, -, -, hm⟩ key rm hk
      rw [hm] at hk
      exact hmap key rm hk
    · rintro t as ⟨as₀, ht, has₀, hm⟩ has
      refine ⟨as₀ ++ as, ?_, ?_, hm⟩
      · simp only [ht, Db.plus, List.append_assoc]
      · intro a ha
        rcases List.mem_append.mp ha with ha | ha
        · exact has₀ a ha
        · exact has a ha
  obtain ⟨as, ht, has, hm⟩ := (hrepoints.migrateRoles legacy w s
    ⟨more.assignments, hdb, hmints.assignments, rfl⟩).1
  refine ⟨{ more with assignments := as }, ht, { hmints with assignments := has }, ?_⟩
  intro key rm hk
  rw [hm] at hk
  exact hmap key rm hk

theorem runSingle_again {g : Group} (hhas : db.hasHash (mustHash g.emailHashHex)) :
    (runSingle legacy w accounts g).Yields (Rerun db n) fun _ => True := by
  intro s hs
  rw [runSingle, call_get_bind, if_pos (hs.hasHash hhas)]
  exact ⟨hs.sameRows ⟨rfl, rfl⟩, fun _ _ => trivial⟩

theorem runCandidate_again {approvals : GoString → Option Approval} {g : Group}
    (hhas : approvals g.emailHashHex ≠ none → db.hasHash (mustHash g.emailHashHex)) :
    (runCandidate legacy w accounts approvals g).Yields (Rerun db n) fun _ => True := by
  intro s hs
  rw [runCandidate]
  cases happroval : approvals g.emailHashHex with
  | none => exact ⟨hs.sameRows ⟨rfl, rfl⟩, fun _ _ => trivial⟩
  | some approval =>
    have hthere : s.db.hasHash (mustHash g.emailHashHex) :=
      hs.hasHash (hhas (by rw [happroval]; exact Option.some_ne_none approval))
    dsimp only
    rw [call_get_bind, if_pos hthere]
    exact ⟨hs.sameRows ⟨rfl, rfl⟩, fun _ _ => trivial⟩

end SecondRun

theorem extractAccount_email {u : LegacyUser} {a : Account}
    (h : extractAccount legacy u = .ok a) : a.ref.email = u.email := by
  obtain ⟨codes, -, h⟩ := bind_eq_ok.mp h
  dsimp only at h
  split_ifs at h with hkeys
  · obtain rfl := Except.ok.inj h
    rfl
  · cases hitems : legacy.unmarshalRaw u.webAuthnCredentials with
    | none =>
      rw [hitems] at h
      cases h
    | some items =>
      rw [hitems] at h
      obtain rfl := Except.ok.inj h
      rfl

theorem extractAccounts_emails {users : List LegacyUser} {as : List Account}
    (h : extractAccounts legacy users = .ok as) :
    as.map (·.ref.email) = users.map (·.email) := by
  induction users generalizing as with
  | nil =>
    obtain rfl := Except.ok.inj h
    rfl
  | cons u us ih =>
    obtain ⟨a, ha, h⟩ := bind_eq_ok.mp h
    obtain ⟨as', has, h⟩ := bind_eq_ok.mp h
    obtain rfl := Except.ok.inj h
    rw [List.map_cons, List.map_cons, ih has, extractAccount_email ha]

theorem noEmail_length {users : List LegacyUser} {as : List Account} {hashEmail : HashEmail}
    (h : extractAccounts legacy users = .ok as) :
    (buildInventory hashEmail (as.map (·.ref))).noEmail.length =
      users.countP (·.email = []) := by
  obtain ⟨groups, hinv⟩ := buildInventory_spec hashEmail (as.map (·.ref))
  calc (buildInventory hashEmail (as.map (·.ref))).noEmail.length
      = ((as.map (·.ref)).filter (·.email = [])).length := by
        rw [hinv.noEmail.length_eq, List.length_map]
    _ = (as.map (·.ref.email)).countP (· = []) := by
        rw [← List.countP_eq_length_filter, List.countP_map, List.countP_map]
        rfl
    _ = users.countP (·.email = []) := by
        rw [extractAccounts_emails h, List.countP_map]
        rfl

theorem single_eq_some {g s : Group} : g.single = some s ↔
    s = g.sorted ∧ classifyConflict g.sorted.accounts = none ∧ g.accounts.length = 1 := by
  rw [Group.single, Option.ite_none_right_eq_some, Option.some.injEq]
  constructor
  · rintro ⟨h, rfl⟩
    exact ⟨rfl, h⟩
  · rintro ⟨rfl, h⟩
    exact ⟨h, rfl⟩

theorem mustHash_ne_nil {hashEmail : HashEmail} {as : List LegacyAccount} {groups : List Group}
    (hhash : ∀ email hash, hashEmail email = .ok hash → hash ≠ [])
    (hgroups : Grouped (as.filterMap (hashedRef hashEmail)) groups) {g : Group} (hg : g ∈ groups) :
    mustHash g.emailHashHex ≠ [] := by
  obtain ⟨a, -, hash, hh, hhex⟩ := exists_hash_of_grouped hgroups hg
  rw [mustHash, hhex, hexDecode_hexEncode]
  exact hhash a.email hash hh

section TwoRuns

variable {approvals : GoString → Option Approval} {hashEmail : HashEmail}

theorem rehearse_ok (hhash : ∀ email hash, hashEmail email = .ok hash → hash ≠ [])
    (h : (rehearse legacy w approvals hashEmail).call s = (.ok (), s')) :
    ∃ as, extractAccounts legacy legacy.users = .ok as ∧
      (∀ g ∈ (buildInventory hashEmail (as.map (·.ref))).singles,
        s'.db.hasHash (mustHash g.emailHashHex)) ∧
      ∀ g ∈ (buildInventory hashEmail (as.map (·.ref))).fusionCandidates,
        approvals g.emailHashHex ≠ none → s'.db.hasHash (mustHash g.emailHashHex) := by
  rw [rehearse, call_modify_bind] at h
  cases hext : extractAccounts legacy legacy.users with
  | error err =>
    rw [hext] at h
    cases h
  | ok as =>
    rw [hext] at h
    dsimp only at h
    rw [call_modify_bind] at h
    -- each of the four loops keeps the hashes that the ones before have left
    obtain ⟨_, s₁, hsingles, h⟩ := (bind_ok _).mp h
    obtain ⟨_, s₂, hnoEmail, h⟩ := (bind_ok _).mp h
    obtain ⟨_, s₃, hcandidates, h⟩ := (bind_ok _).mp h
    obtain ⟨_, s₄, hroles, h⟩ := (bind_ok _).mp h
    obtain rfl := (Prod.mk.inj h).2
    have hrefl : ∀ t, KeepsHashes t t := fun t => keepsHashes_of_db rfl
    obtain ⟨-, hsingle⟩ := forEach_ok hrefl keepsHashes_trans
      (fun g t t' hcall => (runSingle_ok hcall).1) hsingles
    obtain ⟨hkeep₂, -⟩ := forEach_ok hrefl keepsHashes_trans
      (fun ref t t' hcall => (migrateSingle_ok hcall).1) hnoEmail
    obtain ⟨hkeep₃, hcandidate⟩ := forEach_ok hrefl keepsHashes_trans
      (fun g t t' hcall => (runCandidate_ok hcall).1) hcandidates
    have hkeep₄ : KeepsHashes s₃ s₄ := migrateRoles_ok hroles
    obtain ⟨groups, hinv⟩ := buildInventory_spec hashEmail (as.map (·.ref))
    refine ⟨as, rfl, fun g hg => ?_, fun g hg happroval => ?_⟩
    · obtain ⟨t, t', hcall, hlater⟩ := hsingle g hg
      -- a single is a sorted group of one account, and its hash is no empty one
      obtain ⟨g₀, hg₀, hone⟩ := (hinv.singles g).mp hg
      obtain ⟨rfl, -, hlen⟩ := single_eq_some.mp hone
      have hne : mustHash g₀.emailHashHex ≠ [] := mustHash_ne_nil hhash hinv.grouped hg₀
      have hnonempty : g₀.sorted.accounts ≠ [] := by
        apply List.ne_nil_of_length_pos
        rw [Group.sorted, (sortRefs_perm g₀.accounts).length_eq, hlen]
        exact Nat.one_pos
      have hthere := (runSingle_ok hcall).2 hne hnonempty
      exact hkeep₄ _ (hkeep₃ _ (hkeep₂ _ (hlater _ hthere)))
    · obtain ⟨t, t', hcall, hlater⟩ := hcandidate g hg
      exact hkeep₄ _ (hlater _ ((runCandidate_ok hcall).2 happroval))

theorem rehearse_rerun {as : List Account} {db : Db}
    (hext : extractAccounts legacy legacy.users = .ok as)
    (hsingles : ∀ g ∈ (buildInventory hashEmail (as.map (·.ref))).singles,
      db.hasHash (mustHash g.emailHashHex))
    (hcandidates : ∀ g ∈ (buildInventory hashEmail (as.map (·.ref))).fusionCandidates,
      approvals g.emailHashHex ≠ none → db.hasHash (mustHash g.emailHashHex))
    (hdb : s.db = db) :
    Rerun db (legacy.users.countP (·.email = []))
      ((rehearse legacy w approvals hashEmail).call s).2 := by
  have hstart : ∀ t : Site, t.db = db → t.membershipByOrgUser = (fun _ => none) →
      Rerun db 0 t := by
    intro t ht hmap
    refine ⟨⟨[], [], [], []⟩, by simp only [ht, Db.plus, List.append_nil], ?_, fun key rm hk => ?_⟩
    · exact ⟨le_refl _, fun _ h => absurd h List.not_mem_nil, fun _ h => absurd h List.not_mem_nil,
        fun _ h => absurd h List.not_mem_nil, fun _ h => absurd h List.not_mem_nil⟩
    · rw [hmap] at hk
      cases hk
  rw [rehearse, call_modify_bind, hext]
  dsimp only
  rw [call_modify_bind]
  -- Only the loop over the accounts without e-mail raises the count.
  apply bind_snd (I := Rerun db 0)
  · refine (Yields.forEach fun g hg => runSingle_again (hsingles g hg)) _ ?_ |>.1
    exact hstart _ hdb rfl
  · intro t ht
    exact ht.mono (Nat.zero_le _)
  intro _ t ht
  have hnoEmail := ht.noEmail legacy w as
    (buildInventory hashEmail (as.map (·.ref))).noEmail
  rw [Nat.zero_add, noEmail_length hext] at hnoEmail
  apply bind_snd hnoEmail (fun _ h => h)
  intro _ t ht
  have hfused : (forEach (runCandidate legacy w as approvals)
      (buildInventory hashEmail (as.map (·.ref))).fusionCandidates).Yields
      (Rerun db (legacy.users.countP (·.email = []))) fun _ => True :=
    Yields.forEach fun g hg => runCandidate_again (hcandidates g hg)
  apply bind_snd (hfused t ht).1 (fun _ h => h)
  intro _ t ht
  apply bind_snd ht.roles (fun _ h => h)
  intro _ t ht
  exact ht.sameRows ⟨rfl, rfl⟩

end TwoRuns

/-- Two runs on one database after the other: the second creates one identity at most for each
account without e-mail, with its rows, and nothing where every account has one. -/
theorem rehearse_again (legacy : Legacy) (approvals : GoString → Option Approval)
    (hashEmail : HashEmail) (hhash : ∀ email hash, hashEmail email = .ok hash → hash ≠ [])
    (w w' : Outside) (s s₁ s₂ : Site)
    (h : (rehearse legacy w approvals hashEmail).call s = (.ok (), s₁)) (hdb : s₂.db = s₁.db) :
    (∃ more, ((rehearse legacy w' approvals hashEmail).call s₂).2.db = s₁.db.plus more ∧
      Mints (legacy.users.countP (·.email = [])) more) ∧
    ((∀ u ∈ legacy.users, u.email ≠ []) →
      ((rehearse legacy w' approvals hashEmail).call s₂).2.db = s₁.db) := by
  obtain ⟨as, hext, hsingles, hcandidates⟩ := rehearse_ok hhash h
  obtain ⟨more, hmore, hmints, -⟩ := rehearse_rerun (w := w') hext hsingles hcandidates hdb
  refine ⟨⟨more, hmore, hmints⟩, fun hemail => ?_⟩
  have hnone : legacy.users.countP (·.email = []) = 0 :=
    List.countP_eq_zero.mpr fun u hu => by simpa using hemail u hu
  rw [hnone] at hmints
  rw [hmore, hmints.nothing]
  simp only [Db.plus, List.append_nil]

namespace Sample

/-- Two people of one organization, one of them without e-mail, and a role that both have. -/
def smallLegacy : Legacy where
  users := [⟨utf8 "acme", utf8 "ana", utf8 "ana@x", [], [], [], [], [], [], []⟩,
    ⟨utf8 "acme", utf8 "rui", [], [], [], [], [], [], [], []⟩]
  roles := [⟨utf8 "acme", utf8 "staff", 7, utf8 "[]"⟩]
  organizations _ := some 5
  unmarshalStrings _ := some [utf8 "acme/ana", utf8 "acme/rui"]
  unmarshalRaw _ := some []

def emptySite : Site := ⟨⟨[], [], [], []⟩, ⟨0, 0, 0⟩, Report.empty, fun _ => none, []⟩

/-- A run in which no fusion is approved. -/
def rehearsal (s : Site) : Except RunError Unit × Site :=
  (rehearse smallLegacy outside (fun _ => none) digestEmail).call s

theorem rehearsal_ok : (rehearsal emptySite).1 = .ok () := by
  decide +kernel

theorem rehearsal_eq {s : Site} (h : (rehearsal s).1 = .ok ()) :
    rehearsal s = (.ok (), (rehearsal s).2) := by
  rw [← h]

end Sample

/-- The person without e-mail is the only one that a second run creates again. -/
theorem rehearse_again_one : ∃ more, (Sample.rehearsal (Sample.rehearsal Sample.emptySite).2).2.db =
    (Sample.rehearsal Sample.emptySite).2.db.plus more ∧ Mints 1 more := by
  have hcount : Sample.smallLegacy.users.countP (·.email = []) = 1 := by decide +kernel
  obtain ⟨⟨more, hmore, hmints⟩, -⟩ := rehearse_again Sample.smallLegacy (fun _ => none)
    Sample.digestEmail Sample.digestEmail_ne_nil Sample.outside Sample.outside Sample.emptySite
    (Sample.rehearsal Sample.emptySite).2 (Sample.rehearsal Sample.emptySite).2
    (Sample.rehearsal_eq Sample.rehearsal_ok) rfl
  rw [hcount] at hmints
  refine ⟨more, ?_, hmints⟩
  rw [← hmore]
  unfold Sample.rehearsal
  rfl

/-- A second run creates an identity, a membership and a role assignment. -/
theorem rehearse_again_creates : (Sample.rehearsal Sample.emptySite).1 = .ok () ∧
    (Sample.rehearsal (Sample.rehearsal Sample.emptySite).2).2.db ≠
      (Sample.rehearsal Sample.emptySite).2.db := by
  refine ⟨Sample.rehearsal_ok, fun h => ?_⟩
  have hlength : (Sample.rehearsal (Sample.rehearsal Sample.emptySite).2).2.db.identities.length ≠
      (Sample.rehearsal Sample.emptySite).2.db.identities.length := by
    decide +kernel
  exact hlength (by rw [h])

end ArchGuard.Migration
