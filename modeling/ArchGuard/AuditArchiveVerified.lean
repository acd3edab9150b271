import ArchGuard.AuditArchive

/-! What the verification of an organization says while a partition is archived, and after it is
restored. -/
namespace ArchGuard.Audit
open ReadCommitted TransitionRun GoText

section Emit

variable {env : Env} {c c' : AuditCfg} {row : (k : Key) → Option (Row k)} {x : StoredEvent}
  {e : AuditEvent}

/-- The rows besides the heads, with the row of one more event. -/
def ExtendsRows (row row' : (k : Key) → Option (Row k)) (x : StoredEvent) : Prop :=
  row (.event x.1.event.organizationId x.1.event.occurredAt.unixMicro x.1.seq) = none ∧
    ∀ k, (∀ o, k ≠ .head o) → row' k = Function.update row
      (.event x.1.event.organizationId x.1.event.occurredAt.unixMicro x.1.seq)
      (some ⟨x.kept, x.kept_key⟩) k

-- The statements of one append, from the last to the first.

theorem rows_commit (hc : Solo c 0 row (.commit none))
    (h : run (exec (auditProgram env)) c [.step 0] = some c') : c'.db.row = row := by
  obtain ⟨d, hd, hnil⟩ := run_cons_eq_some.mp h
  rw [← Option.some.inj hnil]
  exact solo_commit hc rfl hd

theorem rows_advanceHead (hc : Solo c 0 row (.advanceHead x.1 (.appends [])))
    (h : run (exec (auditProgram env)) c [.step 0, .step 0] = some c') (k : Key)
    (hk : ∀ o, k ≠ .head o) : c'.db.row k = row k := by
  obtain ⟨d, hd, h⟩ := run_cons_eq_some.mp h
  rcases solo_update hc rfl hd with ⟨-, hs⟩ | ⟨v, -, hs⟩
  · rw [rows_commit hs h]
  · rw [rows_commit hs h, Function.update_of_ne (hk _)]

theorem rows_insertEvent (hc : Solo c 0 row (.insertEvent x (.appends [])))
    (h : run (exec (auditProgram env)) c [.step 0, .step 0, .step 0] = some c') :
    ExtendsRows row c'.db.row x := by
  obtain ⟨d, hd, h⟩ := run_cons_eq_some.mp h
  rcases solo_insert hc rfl hd with ⟨hnone, hs⟩ | ⟨-, hs⟩
  · exact ⟨hnone, fun k hk => rows_advanceHead hs h k hk⟩
  · exact (not_run_of_abort hs rfl h).elim

theorem rows_lockHead (hc : Solo c 0 row (.lockHead e (.appends [])))
    (h : run (exec (auditProgram env)) c [.step 0, .step 0, .step 0, .step 0] = some c') :
    ∃ hd x, row (.head e.organizationId) = some hd ∧
      x.1 = ⟨e, hd.lastSeq+1, hd.headHash, linkHash env.nfc hd.headHash e⟩ ∧
      ExtendsRows row c'.db.row x := by
  obtain ⟨d, hd, h⟩ := run_cons_eq_some.mp h
  rcases solo_update hc rfl hd with ⟨-, hs⟩ | ⟨v, hv, hs⟩
  · exact (not_run_of_abort hs rfl h).elim
  · dsimp only at hs
    rcases sealAfter_cases env e v (.appends []) with hseal | ⟨x, hseal, hx⟩
    · rw [hseal] at hs
      exact (not_run_of_abort hs rfl h).elim
    · rw [hseal] at hs
      -- the lock writes the head back as it was
      have hsame : Function.update row (.head e.organizationId) (some v) = row := by
        rw [← hv, Function.update_eq_self]
      rw [hsame] at hs
      exact ⟨v, x, hv, hx, rows_insertEvent hs h⟩

theorem rows_createHead {g : Bytes} {nonce : Nonce}
    (hc : Solo c 0 row (.createHead e g nonce (.appends [])))
    (h : run (exec (auditProgram env)) c [.step 0, .step 0, .step 0, .step 0, .step 0] = some c') :
    ∃ hd x, (row (.head e.organizationId) = some hd ∨
        (row (.head e.organizationId) = none ∧ hd.lastSeq = 0)) ∧
      x.1 = ⟨e, hd.lastSeq+1, hd.headHash, linkHash env.nfc hd.headHash e⟩ ∧
      ExtendsRows row c'.db.row x := by
  obtain ⟨d, hd, h⟩ := run_cons_eq_some.mp h
  rcases solo_insert hc rfl hd with ⟨hnone, hs⟩ | ⟨-, hs⟩
  · obtain ⟨v, x, hv, hseal, hold, hnew⟩ := rows_lockHead hs h
    rw [Function.update_self] at hv
    refine ⟨v, x, Or.inr ⟨hnone, ?_⟩, hseal, ?_, fun k hk => ?_⟩
    · rw [← Option.some.inj hv]
    · rwa [Function.update_of_ne (by simp)] at hold
    · rw [hnew k hk, Function.update_comm (by simp), Function.update_of_ne (hk _)]
  · obtain ⟨v, x, hv, hseal, hrows⟩ := rows_lockHead hs h
    exact ⟨v, x, Or.inl hv, hseal, hrows⟩

theorem rows_emitAudit {db db' : Db} {item : AppendItem} (h : emitAudit env db item = some db') :
    ∃ e hd x, newAuditEvent item.input item.eventId item.now = .ok e ∧
      (db.row (.head e.organizationId) = some hd ∨
        (db.row (.head e.organizationId) = none ∧ hd.lastSeq = 0)) ∧
      x.1 = ⟨e, hd.lastSeq+1, hd.headHash, linkHash env.nfc hd.headHash e⟩ ∧
      ExtendsRows db.row db'.row x := by
  obtain ⟨c, hrun, hdb⟩ := Option.map_eq_some_iff.mp h
  obtain ⟨d, hd, hrun⟩ := run_cons_eq_some.mp hrun
  have hs := solo_start hd
  -- an input that is refused aborts the transaction
  cases hnew : newAuditEvent item.input item.eventId item.now with
  | error err =>
    have hpc : (auditProgram env).entry (.append [item]) = .fail := by
      simp only [auditProgram, startAppends, hnew]
    rw [hpc] at hs
    exact (not_run_of_abort hs rfl hrun).elim
  | ok e =>
    cases hg : genesisHash e.organizationId item.nonce.1 with
    | error err =>
      have hpc : (auditProgram env).entry (.append [item]) = .fail := by
        simp only [auditProgram, startAppends, hnew, startSeal, hg]
      rw [hpc] at hs
      exact (not_run_of_abort hs rfl hrun).elim
    | ok g =>
      have hpc : (auditProgram env).entry (.append [item]) =
          .createHead e g item.nonce (.appends []) := by
        simp only [auditProgram, startAppends, hnew, startSeal, hg]
      rw [hpc] at hs
      obtain ⟨v, x, hv, hseal, hrows⟩ := rows_createHead hs hrun
      exact ⟨e, v, x, rfl, hv, hseal, hdb ▸ hrows⟩

end Emit

section Appends

variable {env : Env} {db db' : Db}

/-- The committed rows after any run: every trail and its seals are in order. -/
def InOrder (env : Env) (db : Db) : Prop := SealedTrail env (Cfg.idle db)

theorem SealedTrail.inOrder {c : AuditCfg} (hc : SealedTrail env c) : InOrder env c.db := by
  refine ⟨⟨ownersLive_idle c.db, hc.1.base, ?_, ?_, ?_⟩, ⟨?_, hc.2.1.stored, ?_, ?_⟩,
    sealing_idle c.db⟩
  · exact fun _ _ _ _ _ hl => by cases hl
  · exact fun _ _ hl => by cases hl
  · exact fun _ _ _ hl => by cases hl
  · exact fun _ _ _ _ _ hl => by cases hl
  · exact fun _ _ _ _ hl => by cases hl
  · exact fun _ _ hl => by cases hl

theorem inOrder_run {es : List (Event Req)} {c : AuditCfg} (hdb : InOrder env db)
    (h : run (exec (auditProgram env)) (Cfg.idle db) es = some c) : InOrder env c.db := by
  have hsealed : SealedTrail env c := run_always (fun _ _ _ hc he => hc.step he) hdb h
  exact hsealed.inOrder

theorem newAuditEvent_organizationId {i : AuditEventInput} {id : Uuid} {now : Time} {e : AuditEvent}
    (h : newAuditEvent i id now = .ok e) : e.organizationId = i.organizationId := by
  unfold newAuditEvent at h
  split_ifs at h
  rw [← Except.ok.inj h]

theorem newAuditEvent_actor {i : AuditEventInput} {id : Uuid} {now : Time} {e : AuditEvent}
    (h : newAuditEvent i id now = .ok e) : e.actor = i.actor := by
  unfold newAuditEvent at h
  split_ifs at h
  rw [← Except.ok.inj h]

/-- One event was appended, behind all others of its organization. -/
structure Appended (db db' : Db) (x : SealedEvent) : Prop where
  event : ∀ e, HasEvent db' e ↔ HasEvent db e ∨ e = x
  noSeal : ∀ o n, db'.row (.sealed o n) = db.row (.sealed o n)
  last : ∀ e, HasEvent db e → e.event.organizationId = x.event.organizationId → e.seq < x.seq

theorem seq_le_lastSeq {org : Uuid} (hc : ChainOk env.nfc db org) {e : SealedEvent} (he : HasEvent db e)
    (ho : e.event.organizationId = org) :
    ∃ hd, db.row (.head org) = some hd ∧ e.seq ≤ hd.lastSeq := by
  rcases hc with ⟨-, ht⟩ | ⟨hd, g, es, hc, ht⟩
  · exact absurd ((ht e).mpr ⟨he, ho⟩) List.not_mem_nil
  · refine ⟨hd, hc.head, ?_⟩
    have hmem : e.seq ∈ es.map SealedEvent.seq := List.mem_map_of_mem ((ht e).mpr ⟨he, ho⟩)
    rw [seq_of_linked hc.linked, List.mem_range'_1] at hmem
    have hlen := hc.lastSeq
    omega

theorem appended_emitAudit {item : AppendItem} (hdb : InOrder env db)
    (h : emitAudit env db item = some db') :
    ∃ x : SealedEvent, x.event.organizationId = item.input.organizationId ∧
      x.event.actor = item.input.actor ∧ Appended db db' x ∧ InOrder env db' := by
  obtain ⟨e, hd, x, hnew, hhead, hx, hfresh, hrows⟩ := rows_emitAudit h
  have horg : x.1.event.organizationId = e.organizationId := by rw [hx]
  have hactor : x.1.event.actor = e.actor := by rw [hx]
  have hseq : x.1.seq = hd.lastSeq+1 := by rw [hx]
  refine ⟨x.1.stored, ?_, ?_, ⟨fun f => ?_, fun o n => ?_, fun f hf hfo => ?_⟩, ?_⟩
  · exact horg.trans (newAuditEvent_organizationId hnew)
  · exact hactor.trans (newAuditEvent_actor hnew)
  · simp only [HasEvent, eventAt]
    rw [hrows _ (by simp)]
    by_cases hkey : Key.event f.event.organizationId f.event.occurredAt.unixMicro f.seq =
        Key.event x.1.event.organizationId x.1.event.occurredAt.unixMicro x.1.seq
    · obtain ⟨ho, ht, hn⟩ := Key.event.inj hkey
      rw [ho, ht, hn, Function.update_self, hfresh, Option.map_none, Option.map_some,
        Option.some.injEq]
      constructor
      · exact fun hfx => Or.inr hfx.symm
      · rintro (hfx | hfx)
        · cases hfx
        · exact hfx.symm
    · rw [Function.update_of_ne hkey]
      refine ⟨Or.inl, ?_⟩
      rintro (hf | hf)
      · exact hf
      · refine absurd ?_ hkey
        rw [hf]
        exact congrArg (fun t => Key.event _ t _) (Time.stored_unixMicro _)
  · rw [hrows _ (by simp), Function.update_of_ne (by simp)]
  · have hfo' : f.event.organizationId = e.organizationId := hfo.trans horg
    obtain ⟨hd', hhd', hle⟩ := seq_le_lastSeq (hdb.1.base e.organizationId) hf hfo'
    change db.row _ = _ at hhd'
    change f.seq < x.1.seq
    rcases hhead with hhead | ⟨hnone, -⟩
    · rw [hhead] at hhd'
      rw [← Option.some.inj hhd'] at hle
      omega
    · rw [hnone] at hhd'
      cases hhd'
  · obtain ⟨c, hrun, hc⟩ := Option.map_eq_some_iff.mp h
    exact hc ▸ inOrder_run hdb hrun

theorem eq_of_seq (hdb : InOrder env db) {e f : SealedEvent} (he : HasEvent db e)
    (hf : HasEvent db f) (ho : e.event.organizationId = f.event.organizationId)
    (hseq : e.seq = f.seq) : e = f := by
  rcases hdb.1.base f.event.organizationId with ⟨-, ht⟩ | ⟨hd, g, es, hc, ht⟩
  · exact absurd ((ht f).mpr ⟨hf, rfl⟩) List.not_mem_nil
  · exact eq_of_seq_eq (pairwise_of_linked hc.linked) ((ht e).mpr ⟨he, ho⟩) ((ht f).mpr ⟨hf, rfl⟩)
      hseq

/-- What the audit of a period leaves: each of its organizations may have one event more. -/
structure Audited (orgs : List Uuid) (db db' : Db) : Prop where
  grows : ∀ e, HasEvent db e → HasEvent db' e
  readable : ∀ e, HasEvent db' e → HasEvent db e ∨ e.event.Readable
  noSeal : ∀ o n, db'.row (.sealed o n) = db.row (.sealed o n)
  org : ∀ e, HasEvent db' e → ¬HasEvent db e → e.event.organizationId ∈ orgs
  last : ∀ e, HasEvent db' e → ¬HasEvent db e → ∀ f, HasEvent db' f →
    f.event.organizationId = e.event.organizationId → f.seq ≤ e.seq

theorem audited_refl (orgs : List Uuid) (db : Db) : Audited orgs db db :=
  ⟨fun _ h => h, fun _ h => Or.inl h, fun _ _ => rfl, fun _ h hn => absurd h hn,
    fun _ h hn => absurd h hn⟩

theorem audited_emitAll {item : Uuid → AppendItem}
    (hitem : ∀ org, (item org).input.organizationId = org)
    (hread : ∀ org, ∀ act ∈ (item org).input.actor.act, act.Readable) {orgs : List Uuid}
    (hnodup : orgs.Nodup) (hdb : InOrder env db) :
    Audited orgs db (emitAll env item db orgs).1 ∧ InOrder env (emitAll env item db orgs).1 := by
  induction orgs generalizing db with
  | nil => exact ⟨audited_refl [] db, hdb⟩
  | cons org orgs ih =>
    unfold emitAll
    cases hemit : emitAudit env db (item org) with
    | none => exact ⟨audited_refl _ db, hdb⟩
    | some db₁ =>
      dsimp only
      obtain ⟨x, hxorg, hxactor, hx, hdb₁⟩ := appended_emitAudit hdb hemit
      rw [hitem org] at hxorg
      obtain ⟨hnotin, hnodup'⟩ := List.nodup_cons.mp hnodup
      obtain ⟨h₂, hend⟩ := ih hnodup' hdb₁
      refine ⟨⟨fun e he => ?_, fun e he => ?_, fun o n => ?_, fun e he hn => ?_,
        fun e he hn f hf hfo => ?_⟩, hend⟩
      · exact h₂.grows e ((hx.event e).mpr (Or.inl he))
      · rcases h₂.readable e he with h₁ | hnew
        · refine ((hx.event e).mp h₁).imp_right fun hnew act hact => hread org act ?_
          rwa [hnew, hxactor] at hact
        · exact Or.inr hnew
      · rw [h₂.noSeal, hx.noSeal]
      · by_cases h₁ : HasEvent db₁ e
        · rcases (hx.event e).mp h₁ with hold | hnew
          · exact absurd hold hn
          · rw [hnew, hxorg]
            exact List.mem_cons_self
        · exact List.mem_cons_of_mem _ (h₂.org e he h₁)
      · by_cases h₁ : HasEvent db₁ e
        · rcases (hx.event e).mp h₁ with hold | hnew
          · exact absurd hold hn
          -- the later appends go to other organizations
          · by_cases hf₁ : HasEvent db₁ f
            · rcases (hx.event f).mp hf₁ with hfold | hfnew
              · rw [hnew]
                rw [hnew] at hfo
                exact (hx.last f hfold hfo).le
              · rw [hnew, hfnew]
            · have hforg := h₂.org f hf hf₁
              rw [hfo, hnew, hxorg] at hforg
              exact absurd hforg hnotin
        · exact h₂.last e he h₁ f hf hfo

theorem nodup_organizationsIn (db : Db) (start stop : ℤ) : (organizationsIn db start stop).Nodup := by
  rw [organizationsIn, (List.perm_insertionSort _ _).nodup_iff]
  exact List.nodup_dedup _

theorem audited_auditPeriod {period reason : GoString} {e : Emitter period reason}
    (he : e.Readable) {s : Site} (hdb : InOrder env s.db) (start stop : ℤ) :
    ∃ orgs, Audited orgs s.db (auditPeriod env e s start stop).1.db ∧
      InOrder env (auditPeriod env e s start stop).1.db := by
  cases e with
  | unwired => exact ⟨[], audited_refl _ _, hdb⟩
  | noPrincipal => exact ⟨[], audited_refl _ _, hdb⟩
  | wired a =>
    have hitem (org : Uuid) : ∀ act ∈ (a.item org).input.actor.act, act.Readable := he
    exact ⟨_, audited_emitAll (fun _ => rfl) hitem (nodup_organizationsIn _ _ _) hdb⟩

theorem Audited.rehashes {orgs : List Uuid} (h : Audited orgs db db') (hdb' : InOrder env db')
    (hhash : ∀ e, HasEvent db e → e.Rehashes env.nfc) :
    ∀ e, HasEvent db' e → e.Rehashes env.nfc := by
  intro e he
  rcases h.readable e he with hold | hnew
  · exact hhash e hold
  · exact rehashes_of_readable (hdb'.1.hash_eq he) hnew

end Appends

section Verified

variable {env : Env} {verifier : Option SealVerifier} {db db' : Db} {org : Uuid}

/-- A seal covers each event of every trail. -/
def FullySealed (db : Db) : Prop :=
  ∀ e, HasEvent db e → ∃ s ∈ seals db e.event.organizationId, e.seq ≤ s.seqEnd

theorem verified_of_noHead (hn : db.row (.head org) = none) : Verified verifier env db org := by
  refine ⟨{ ok := true }, ?_, rfl⟩
  simp only [verifyOrganization, readGenesisHash, hn]

theorem sealOk_of_inOrder (hdb : InOrder env db) {s : SealRow} (hs : s ∈ sortedSeals org db) :
    SealOk env db org s := sealOk_of_mem hdb.2.1.stored hs

theorem tiles_of_noEvents (hdb : InOrder env db) (ht : Trail db org []) :
    Tiles 0 (sortedSeals org db) := by
  have hnil : sortedSeals org db = [] := by
    rw [List.eq_nil_iff_forall_not_mem]
    intro s hs
    obtain ⟨e, he, -⟩ := ends_of_sealOk ht (sealOk_of_inOrder hdb hs)
    exact List.not_mem_nil he
  rw [hnil]
  trivial

theorem contiguous_run {es : List (Event Req)} {c c' : AuditCfg} (hc : SealedTrail env c)
    (ht : Contiguous c.db) (hturn : Along (exec (auditProgram env)) SealsInTurn c es)
    (h : run (exec (auditProgram env)) c es = some c') : SealedTrail env c' ∧ Contiguous c'.db :=
  run_invariant (I := fun c => SealedTrail env c ∧ Contiguous c.db)
    (fun _ _ _ hc hin he => ⟨hc.1.step he,
      (contiguous_step_iff hc.1.2.1 hc.1.2.2 hc.2 he).mpr hin⟩) ⟨hc, ht⟩ hturn h

theorem seals_congr (h : ∀ o n, db'.row (.sealed o n) = db.row (.sealed o n)) (t : SealRow) :
    t ∈ seals db' org ↔ t ∈ seals db org := by
  rw [mem_seals, mem_seals, h]

theorem tiles_of_noSeal (hdb : InOrder env db)
    (h : ∀ o n, db'.row (.sealed o n) = db.row (.sealed o n))
    (ht : Tiles 0 (sortedSeals org db)) : Tiles 0 (sortedSeals org db') :=
  tiles_congr (fun _ hs => hdb.2.1.range hs) (seals_congr h) ht

end Verified

section Archive

variable {env : Env} {verifier : Option SealVerifier} {s : Site} {org : Uuid}

def Site.archived (s : Site) (e : SealedEvent) : Bool :=
  s.detached.any fun t => t.2.contains (rowKey e)

/-- The archived tables have rows of the trail. -/
def Site.HoldsEvents (s : Site) : Prop :=
  ∀ t ∈ s.detached, ∀ k ∈ t.2, ∃ e, HasEvent s.db e ∧ k = rowKey e

theorem Site.archived_eq_true {e : SealedEvent} :
    s.archived e = true ↔ ∃ t ∈ s.detached, rowKey e ∈ t.2 := by
  simp only [Site.archived, List.any_eq_true, List.contains_iff_mem]

theorem row_live (hs : s.HoldsEvents) {k : Key} (hk : ∀ o t n, k ≠ .event o t n) :
    s.live.row k = s.db.row k := by
  apply Store.filterRows_row_of_keep
  intro v
  rw [Bool.not_eq_true', List.any_eq_false]
  intro t ht hmem
  obtain ⟨e, -, hke⟩ := hs t ht k (List.contains_iff_mem.mp hmem)
  exact hk _ _ _ hke

theorem hasEvent_live {e : SealedEvent} :
    HasEvent s.live e ↔ HasEvent s.db e ∧ s.archived e = false := by
  simp only [HasEvent, eventAt, Site.live, Store.filterRows_row, Option.map_eq_some_iff,
    Option.filter_eq_some_iff, Bool.not_eq_true']
  constructor
  · rintro ⟨v, ⟨hv, hshown⟩, hve⟩
    exact ⟨⟨v, hv, hve⟩, hshown⟩
  · rintro ⟨⟨v, hv, hve⟩, hshown⟩
    exact ⟨v, ⟨hv, hshown⟩, hve⟩

theorem trail_live {es : List SealedEvent} (ht : Trail s.db org es) :
    Trail s.live org (es.filter fun e => !s.archived e) := by
  intro e
  rw [List.mem_filter, ht e, hasEvent_live, Bool.not_eq_true']
  exact and_right_comm

theorem seals_live (hs : s.HoldsEvents) : seals s.live org = seals s.db org := by
  have hrow (k : Key) : sealRow s.live org k = sealRow s.db org k := by
    cases k with
    | sealed o n => simp only [sealRow, row_live hs (k := .sealed o n) (by simp)]
    | _ => rfl
  unfold seals
  rw [funext hrow]
  rfl

/-- The verdict while some tables are archived: their events follow every event that is shown, the
seals tile, each closes on an event that is shown, and each row that is shown hashes to its stored
hash. -/
theorem verified_live_iff (hv : Accepts env verifier) (hdb : InOrder env s.db)
    (hs : s.HoldsEvents) :
    Verified verifier env s.live org ↔
      ((∀ a b, HasEvent s.db a → a.event.organizationId = org → HasEvent s.db b →
          b.event.organizationId = org → a.seq < b.seq → s.archived a = true →
            s.archived b = true) ∧
        Tiles 0 (sortedSeals org s.db) ∧
        ∀ t ∈ sortedSeals org s.db, ∀ e, HasEvent s.db e → e.event.organizationId = org →
          e.seq = t.seqEnd → s.archived e = false) ∧
      ∀ e, HasEvent s.db e → e.event.organizationId = org → s.archived e = false →
        e.Rehashes env.nfc := by
  rcases hdb.1.base org with ⟨hn, ht⟩ | ⟨h, g, es, hc, ht⟩
  -- without a head there are no events, and no seal that closed on one
  · have hnone (e : SealedEvent) (he : HasEvent s.db e) (ho : e.event.organizationId = org) : False :=
      absurd ((ht e).mpr ⟨he, ho⟩) List.not_mem_nil
    refine iff_of_true (verified_of_noHead ?_) ⟨⟨?_, ?_, ?_⟩, ?_⟩
    · exact (row_live hs (by simp)).trans hn
    · exact fun a _ ha ho => (hnone a ha ho).elim
    · exact tiles_of_noEvents hdb ht
    · exact fun _ _ e he ho => (hnone e he ho).elim
    · exact fun e he ho => (hnone e he ho).elim
  · change ChainOf env.nfc s.db org h g es at hc
    change Trail s.db org es at ht
    have hclosed (t : SealRow) (ht' : t ∈ sortedSeals org s.db) : SealOk env s.db org t :=
      sealOk_of_inOrder hdb ht'
    rw [(verdict_of_shown s.archived hv hc (trail_live ht) (row_live hs (by simp)) (seals_live hs)
      hclosed fun t ht' => ends_of_sealOk ht (hclosed t ht')).2]
    have hmem (e : SealedEvent) : e ∈ es ↔ HasEvent s.db e ∧ e.event.organizationId = org := ht e
    simp only [hmem, and_imp]
    constructor
    · rintro ⟨⟨hlast, htiles, hends⟩, hhash⟩
      exact ⟨⟨fun a b ha hao hb hbo => hlast a ha hao b hb hbo, htiles, hends⟩, hhash⟩
    · rintro ⟨⟨hlast, htiles, hends⟩, hhash⟩
      exact ⟨⟨fun a ha hao b hb hbo => hlast a b ha hao hb hbo, htiles, hends⟩, hhash⟩

theorem shown_of_verified (hv : Accepts env verifier) (hdb : InOrder env s.db)
    (hs : s.HoldsEvents) (hok : Verified verifier env s.live org) {e : SealedEvent}
    (he : HasEvent s.db e) (ho : e.event.organizationId = org) {t : SealRow}
    (ht : t ∈ seals s.db org) (hle : e.seq ≤ t.seqEnd) : s.archived e = false := by
  obtain ⟨⟨hlast, -, hends⟩, -⟩ := (verified_live_iff hv hdb hs).mp hok
  have ht' : t ∈ sortedSeals org s.db := List.mem_insertionSort _ |>.mpr ht
  obtain ⟨f, hf, hfo, hfseq, -⟩ := (sealOk_of_inOrder hdb ht').ends
  have hfshown : s.archived f = false := hends t ht' f hf hfo hfseq
  rcases Nat.lt_or_eq_of_le hle with hlt | heq
  · -- the event the seal closed on follows and is shown
    by_contra hnot
    have harchived : s.archived e = true := Bool.not_eq_false _ |>.mp hnot
    have hf' : s.archived f = true := hlast e f he ho hf hfo (hfseq ▸ hlt) harchived
    rw [hfshown] at hf'
    cases hf'
  · exact hends t ht' e he ho heq

theorem archived_nil (hv : Accepts env verifier) (hdb : InOrder env s.db) (hs : s.HoldsEvents)
    (hok : ∀ org, Verified verifier env s.live org) (hsealed : FullySealed s.db) :
    ∀ t ∈ s.detached, t.2 = [] := by
  intro t ht
  rw [List.eq_nil_iff_forall_not_mem]
  intro k hk
  obtain ⟨e, he, hke⟩ := hs t ht k hk
  obtain ⟨u, hu, hle⟩ := hsealed e he
  have hshown := shown_of_verified hv hdb hs (hok _) he rfl hu hle
  have harchived : s.archived e = true := Site.archived_eq_true.mpr ⟨t, ht, hke ▸ hk⟩
  rw [hshown] at harchived
  cases harchived

theorem holdsEvents_of_nil (h : ∀ t ∈ s.detached, t.2 = []) : s.HoldsEvents := by
  intro t ht k hk
  rw [h t ht] at hk
  cases hk

theorem archived_of_nil (h : ∀ t ∈ s.detached, t.2 = []) (e : SealedEvent) :
    s.archived e = false := by
  rw [← Bool.not_eq_true, Site.archived_eq_true]
  rintro ⟨t, ht, hmem⟩
  rw [h t ht] at hmem
  cases hmem

theorem verified_of_nil (hv : Accepts env verifier) (hdb : InOrder env s.db)
    (h : ∀ t ∈ s.detached, t.2 = []) (ht : Tiles 0 (sortedSeals org s.db))
    (hhash : ∀ e, HasEvent s.db e → e.Rehashes env.nfc) :
    Verified verifier env s.live org := by
  rw [verified_live_iff hv hdb (holdsEvents_of_nil h)]
  refine ⟨⟨fun a b _ _ _ _ _ ha => ?_, ht, fun _ _ e _ _ _ => archived_of_nil h e⟩,
    fun e he _ _ => hhash e he⟩
  rw [archived_of_nil h] at ha
  cases ha

theorem mem_rowsWithin {db : Db} {lo hi : ℤ} {k : Key} :
    k ∈ rowsWithin db lo hi ↔ ∃ e, HasEvent db e ∧ k = rowKey e ∧
      lo ≤ e.event.occurredAt.unixMicro ∧ e.event.occurredAt.unixMicro < hi := by
  rw [rowsWithin, Store.mem_scan]
  constructor
  · rintro ⟨k', v, hv, hk⟩
    cases k' with
    | event o t n =>
      dsimp only at hk
      split_ifs at hk with ht
      refine ⟨v.1.1, hasEvent_of_row hv, ?_, ?_⟩
      · rw [← Option.some.inj hk, rowKey, v.2.1, v.2.2.1, v.2.2.2]
      · rwa [v.2.2.1]
    | _ => cases hk
  · rintro ⟨e, he, hk, ht⟩
    obtain ⟨v, hv, -⟩ := Option.map_eq_some_iff.mp he
    refine ⟨rowKey e, v, hv, ?_⟩
    rw [hk]
    exact if_pos ht

end Archive

section Cycle

variable {env : Env} {verifier : Option SealVerifier} {s s' : Site} {name : String} {org : Uuid}

def Site.InPartition (s : Site) (name : String) (e : SealedEvent) : Prop :=
  ∃ bounds, s.attached.lookup name = some bounds ∧
    bounds.1 ≤ e.event.occurredAt.unixMicro ∧ e.event.occurredAt.unixMicro < bounds.2

theorem tables_auditPeriod (env : Env) {period reason : GoString} (e : Emitter period reason) (s : Site)
    (start stop : ℤ) : (auditPeriod env e s start stop).1.attached = s.attached ∧
      (auditPeriod env e s start stop).1.detached = s.detached := by
  cases e <;> exact ⟨rfl, rfl⟩

theorem archive_ok {period : GoString} {e : Emitter period archiveReason} {start stop : Time}
    (h : archive env e s name start stop = (s', none)) :
    detach (auditPeriod env e s start.unixMicro stop.unixMicro).1 name = some s' := by
  unfold archive at h
  dsimp only at h
  split_ifs at h
  · cases congrArg Prod.snd h
  · cases congrArg Prod.snd h
  · cases congrArg Prod.snd h
  cases hd : detach (auditPeriod env e s start.unixMicro stop.unixMicro).1 name with
  | none =>
    rw [hd] at h
    cases congrArg Prod.snd h
  | some t =>
    rw [hd] at h
    exact congrArg some (congrArg Prod.fst h)

theorem restore_ok {period : GoString} {e : Emitter period restoreReason} {start stop : Time}
    (h : restore env e s name start stop = (s', none)) :
    ∃ t lo hi, attach s name lo hi = some t ∧
      s' = (auditPeriod env e t start.unixMicro stop.unixMicro).1 := by
  unfold restore at h
  split_ifs at h
  · cases congrArg Prod.snd h
  cases ha : attach s name (start/10^9*10^6) (stop/10^9*10^6) with
  | none =>
    rw [ha] at h
    cases congrArg Prod.snd h
  | some t =>
    rw [ha] at h
    exact ⟨t, _, _, ha, (congrArg Prod.fst h).symm⟩

theorem attach_ok {lo hi : ℤ} (h : attach s name lo hi = some s') :
    s'.db = s.db ∧ s'.detached = s.detached.filter fun t => t.1 ≠ name := by
  obtain ⟨rows, -, h⟩ := Option.bind_eq_some_iff.mp h
  split_ifs at h
  rw [← Option.some.inj h]
  exact ⟨rfl, rfl⟩

theorem detach_ok (h : detach s name = some s') :
    ∃ bounds, s.attached.lookup name = some bounds ∧ s'.db = s.db ∧
      s'.detached = (name, rowsWithin s.live bounds.1 bounds.2) :: s.detached := by
  obtain ⟨bounds, hb, h⟩ := Option.map_eq_some_iff.mp h
  refine ⟨bounds, hb, ?_⟩
  rw [← h]
  exact ⟨rfl, rfl⟩

/-- What an archive of a trail leaves that verified and was sealed to its end. -/
structure Archived (env : Env) (s s' : Site) (name : String) : Prop where
  audited : ∃ orgs, Audited orgs s.db s'.db
  inOrder : InOrder env s'.db
  rehashes : ∀ e, HasEvent s'.db e → e.Rehashes env.nfc
  holds : s'.HoldsEvents
  others : ∀ t ∈ s'.detached, t.1 ≠ name → t.2 = []
  archived : ∀ e, HasEvent s'.db e → (s'.archived e = true ↔ s.InPartition name e)

theorem archived_archive {period : GoString} {e : Emitter period archiveReason} {start stop : Time}
    (he : e.Readable) (hdb : InOrder env s.db) (hhash : ∀ x, HasEvent s.db x → x.Rehashes env.nfc)
    (hnil : ∀ t ∈ s.detached, t.2 = [])
    (h : archive env e s name start stop = (s', none)) : Archived env s s' name := by
  obtain ⟨orgs, haudited, hdb'⟩ :=
    audited_auditPeriod he hdb start.unixMicro stop.unixMicro
  obtain ⟨hattached, hdetached⟩ := tables_auditPeriod env e s start.unixMicro stop.unixMicro
  obtain ⟨bounds, hb, hsdb, hs'⟩ := detach_ok (archive_ok h)
  rw [hattached] at hb
  rw [hdetached] at hs'
  have hnil' : ∀ t ∈ (auditPeriod env e s start.unixMicro stop.unixMicro).1.detached, t.2 = [] := by
    rw [hdetached]
    exact hnil
  have hrow (k : Key) : k ∈ rowsWithin (auditPeriod env e s start.unixMicro stop.unixMicro).1.live
      bounds.1 bounds.2 ↔ ∃ x, HasEvent s'.db x ∧ k = rowKey x ∧
        bounds.1 ≤ x.event.occurredAt.unixMicro ∧ x.event.occurredAt.unixMicro < bounds.2 := by
    simp only [mem_rowsWithin, hasEvent_live, archived_of_nil hnil', and_true, hsdb]
  refine ⟨⟨orgs, hsdb ▸ haudited⟩, hsdb ▸ hdb', ?_, ?_, ?_, ?_⟩
  · rw [hsdb]
    exact haudited.rehashes hdb' hhash
  · intro t ht k hk
    rw [hs'] at ht
    rcases List.mem_cons.mp ht with rfl | ht
    · obtain ⟨x, hx, hkx, -⟩ := (hrow k).mp hk
      exact ⟨x, hx, hkx⟩
    · rw [hnil t ht] at hk
      cases hk
  · intro t ht hne
    rw [hs'] at ht
    rcases List.mem_cons.mp ht with rfl | ht
    · exact absurd rfl hne
    · exact hnil t ht
  · intro x hx
    rw [Site.archived_eq_true, hs']
    constructor
    · rintro ⟨t, ht, hmem⟩
      rcases List.mem_cons.mp ht with rfl | ht
      · obtain ⟨y, -, hkey, hy⟩ := (hrow _).mp hmem
        have htime : x.event.occurredAt.unixMicro = y.event.occurredAt.unixMicro :=
          (Key.event.inj hkey).2.1
        rw [← htime] at hy
        exact ⟨bounds, hb, hy⟩
      · rw [hnil t ht] at hmem
        cases hmem
    · rintro ⟨b, hb', hx'⟩
      rw [hb] at hb'
      rw [← Option.some.inj hb'] at hx'
      exact ⟨_, List.mem_cons_self, (hrow _).mpr ⟨x, hx, rfl, hx'⟩⟩

/-- After an archive, an organization is reported intact exactly if the partition had none of its
events. -/
theorem verified_archived_iff (hv : Accepts env verifier) (hdb : InOrder env s.db)
    (hok : Verified verifier env s.live org) (hs : s.HoldsEvents) (hsealed : FullySealed s.db)
    (ha : Archived env s s' name) :
    Verified verifier env s'.live org ↔
      ∀ e, HasEvent s.db e → e.event.organizationId = org → ¬s.InPartition name e := by
  obtain ⟨orgs, haudited⟩ := ha.audited
  constructor
  · intro hok' e he ho hin
    obtain ⟨t, ht, hle⟩ := hsealed e he
    rw [ho] at ht
    have hshown : s'.archived e = false := shown_of_verified hv ha.inOrder ha.holds hok'
      (haudited.grows e he) ho ((seals_congr haudited.noSeal t).mpr ht) hle
    have harchived : s'.archived e = true := (ha.archived e (haudited.grows e he)).mpr hin
    rw [hshown] at harchived
    cases harchived
  · intro hout
    -- what the partition took was appended by the audit of the archive
    have hnew (e : SealedEvent) (he : HasEvent s'.db e) (ho : e.event.organizationId = org)
        (hin : s'.archived e = true) : ¬HasEvent s.db e :=
      fun hold => hout e hold ho ((ha.archived e he).mp hin)
    have htiles : Tiles 0 (sortedSeals org s'.db) :=
      tiles_of_noSeal hdb haudited.noSeal ((verified_live_iff hv hdb hs).mp hok).1.2.1
    rw [verified_live_iff hv ha.inOrder ha.holds]
    refine ⟨⟨fun a b hA hao hB hbo hlt hin => ?_, htiles, fun t ht e he ho hseq => ?_⟩,
      fun e he _ _ => ha.rehashes e he⟩
    · have hlast : b.seq ≤ a.seq :=
        haudited.last a hA (hnew a hA hao hin) b hB (hbo.trans hao.symm)
      omega
    · by_contra hnot
      have hin : s'.archived e = true := Bool.not_eq_false _ |>.mp hnot
      -- the seal closed on an event of before the archive
      have ht' : t ∈ sortedSeals org s.db := by
        rw [sortedSeals, List.mem_insertionSort] at ht ⊢
        exact (seals_congr haudited.noSeal t).mp ht
      obtain ⟨f, hf, hfo, hfseq, -⟩ := (sealOk_of_inOrder hdb ht').ends
      have hfe : f = e := eq_of_seq ha.inOrder (haudited.grows f hf) he (hfo.trans ho.symm)
        (hfseq.trans hseq.symm)
      exact hnew e he ho hin (hfe ▸ hf)

theorem verified_restored {period : GoString} {e : Emitter period restoreReason}
    {es : List (Event Req)} {c : AuditCfg} {start stop : Time} {s'' : Site}
    (hv : Accepts env verifier) (hdb : InOrder env s.db) (hs : s.HoldsEvents)
    (hok : ∀ org, Verified verifier env s.live org) (ha : Archived env s s' name)
    (hrun : run (exec (auditProgram env)) (Cfg.idle s'.db) es = some c)
    (hturn : Along (exec (auditProgram env)) SealsInTurn (Cfg.idle s'.db) es)
    (hread : Along (exec (auditProgram env)) CommitsReadable (Cfg.idle s'.db) es)
    (he : e.Readable)
    (h : restore env e { s' with db := c.db } name start stop = (s'', none)) (org : Uuid) :
    Verified verifier env s''.live org := by
  obtain ⟨orgs, haudited⟩ := ha.audited
  -- the seals tile when the partition is detached, and each later seal is the next one
  have hcontiguous : Contiguous s'.db := fun o =>
    tiles_of_noSeal hdb haudited.noSeal ((verified_live_iff hv hdb hs).mp (hok o)).1.2.1
  have hend : SealedTrail env c ∧ Contiguous c.db :=
    contiguous_run ha.inOrder hcontiguous hturn hrun
  have hhash : ∀ x, HasEvent c.db x → x.Rehashes env.nfc :=
    rehashes_run ha.inOrder.1 ha.rehashes hread hrun
  obtain ⟨t, lo, hi, hattach, hs''⟩ := restore_ok h
  obtain ⟨htdb, htdetached⟩ := attach_ok hattach
  have htinOrder : InOrder env t.db := by
    rw [htdb]
    exact hend.1.inOrder
  obtain ⟨orgs', haudited', hdb''⟩ :=
    audited_auditPeriod he htinOrder start.unixMicro stop.unixMicro
  have hdetached := (tables_auditPeriod env e t start.unixMicro stop.unixMicro).2
  have htiles : Tiles 0 (sortedSeals org t.db) := by
    rw [htdb]
    exact hend.2 org
  rw [hs'']
  apply verified_of_nil hv hdb''
  · intro u hu
    rw [hdetached, htdetached, List.mem_filter] at hu
    exact ha.others u hu.1 (of_decide_eq_true hu.2)
  · exact tiles_of_noSeal htinOrder haudited'.noSeal htiles
  · exact haudited'.rehashes hdb'' (htdb ▸ hhash)

/-- After an archive of a fully sealed trail that verifies, exactly the organizations with events in
the partition are reported; after a restore none is, whatever was appended readable and sealed in
turn in between. -/
theorem archive_verified_iff {db : Db} {es : List (Event Req)} {c : AuditCfg} {period : GoString}
    {e : Emitter period archiveReason} {start stop : Time} (hv : Accepts env verifier)
    (he : e.Readable) (hdb : NoTrail db) (hrun : run (exec (auditProgram env)) (Cfg.idle db) es = some c)
    (hc : s.db = c.db) (hs : s.HoldsEvents) (hok : ∀ org, Verified verifier env s.live org)
    (hsealed : FullySealed s.db) (h : archive env e s name start stop = (s', none)) :
    (∀ org, Verified verifier env s'.live org ↔
      ∀ x ∈ trailEvents s.live org, ¬s.InPartition name x) ∧
    ∀ (later : List (Event Req)) (c' : AuditCfg) (period' : GoString)
      (r : Emitter period' restoreReason) (start' stop' : Time) (s'' : Site),
      run (exec (auditProgram env)) (Cfg.idle s'.db) later = some c' →
      Along (exec (auditProgram env)) SealsInTurn (Cfg.idle s'.db) later →
      Along (exec (auditProgram env)) CommitsReadable (Cfg.idle s'.db) later → r.Readable →
      restore env r { s' with db := c'.db } name start' stop' = (s'', none) →
      ∀ org, Verified verifier env s''.live org := by
  have hinOrder : InOrder env s.db := by
    rw [hc]
    exact inOrder_run (sealedTrail_idle hdb) hrun
  have hnil : ∀ t ∈ s.detached, t.2 = [] := archived_nil hv hinOrder hs hok hsealed
  have hhash (x : SealedEvent) (hx : HasEvent s.db x) : x.Rehashes env.nfc :=
    ((verified_live_iff hv hinOrder hs).mp (hok _)).2 x hx rfl (archived_of_nil hnil x)
  have ha : Archived env s s' name := archived_archive he hinOrder hhash hnil h
  constructor
  · intro org
    rw [verified_archived_iff hv hinOrder (hok org) hs hsealed ha]
    have hread (x : SealedEvent) : x ∈ trailEvents s.live org ↔
        HasEvent s.db x ∧ x.event.organizationId = org := by
      rw [mem_trailEvents, hasEvent_live, archived_of_nil hnil]
      exact and_congr_left' (and_iff_left rfl)
    constructor
    · intro hout x hx
      obtain ⟨hx, ho⟩ := (hread x).mp hx
      exact hout x hx ho
    · exact fun hout x hx ho => hout x ((hread x).mpr ⟨hx, ho⟩)
  · intro later c' period' r start' stop' s'' hlater hturn hread hr hrestore
    exact verified_restored hv hinOrder hs hok ha hlater hturn hread hr hrestore

end Cycle

namespace Sample

def sealedThrough : List (Event Req) :=
  appendedOnce ++ [.start 0 (.sealOrganization 7 9000), .step 0, .step 0, .step 0, .step 0]

/-- One partition, with the first second. -/
def partitioned (db : Db) : Site := ⟨db, [("audit_event_old", 0, 1000000)], []⟩

def archived (db : Db) : Site × Option ArchiveError :=
  archive env (.unwired : Emitter "" archiveReason) (partitioned db) "audit_event_old" 0 1000000000

def restored (s : Site) : Site × Option ArchiveError :=
  restore env (.unwired : Emitter "" restoreReason) s "audit_event_old" 0 1000000000

def coveredBySeal (db : Db) : Bool :=
  db.keys.all fun
    | .event org _ n => (seals db org).any fun s => n ≤ s.seqEnd
    | _ => true

theorem fullySealed_of_covered {db : Db} (h : coveredBySeal db = true) : FullySealed db := by
  intro e he
  obtain ⟨v, hv, -⟩ := Option.map_eq_some_iff.mp he
  have hkey := List.all_eq_true.mp h _ (db.covers _ _ hv)
  obtain ⟨s, hs, hle⟩ := List.any_eq_true.mp hkey
  exact ⟨s, hs, of_decide_eq_true hle⟩

theorem holdsEvents_partitioned (db : Db) : (partitioned db).HoldsEvents :=
  fun _ ht => absurd ht List.not_mem_nil

theorem verified_partitioned {c : AuditCfg}
    (h : run (exec (auditProgram env)) (Cfg.idle Store.empty) sealedThrough = some c) (org : Uuid) :
    Verified (some verify) env (partitioned c.db).live org := by
  have hturn : Along (exec (auditProgram env)) SealsInTurn (Cfg.idle Store.empty) sealedThrough :=
    along_of_check ok_of_inTurn (by decide)
  obtain ⟨htrail, htiles⟩ := contiguous_run (sealedTrail_idle noTrail_empty)
    (contiguous_idle noTrail_empty) hturn h
  have hhash : ∀ x, HasEvent c.db x → x.Rehashes env.nfc := by
    refine rehashes_run (inv_idle noTrail_empty) (fun x hx => ?_)
      (along_of_check commitsReadable_of_plain (by decide)) h
    cases hx
  exact verified_of_nil accepts_verify (s := partitioned c.db) htrail.inOrder
    (fun _ ht => absurd ht List.not_mem_nil) (htiles org) hhash

end Sample

/-- The trail of organization 7 verifies and is sealed to its end; once the partition with its
event is archived, the seal no longer finds it. -/
theorem archive_reports_sealed_trail :
    ∃ c, run (exec (auditProgram Sample.env)) (Cfg.idle Store.empty) Sample.sealedThrough = some c ∧
      (∀ org, Verified (some Sample.verify) Sample.env (Sample.partitioned c.db).live org) ∧
      FullySealed c.db ∧ (Sample.archived c.db).2 = none ∧
      ∃ rep, verifyOrganization (some Sample.verify) 7 Sample.env.nfc
        (Sample.archived c.db).1.live = .ok rep ∧ rep.ok = false := by
  have hrun : (run (exec (auditProgram Sample.env)) (Cfg.idle Store.empty)
      Sample.sealedThrough).any (fun c => Sample.coveredBySeal c.db &&
        ((Sample.archived c.db).2 = none) &&
        (verifyOrganization (some Sample.verify) 7 Sample.env.nfc
          (Sample.archived c.db).1.live).toOption.any fun rep => !rep.ok) = true := by
    decide +kernel
  obtain ⟨c, hc, hdec⟩ := (Option.any_eq_true _ _).mp hrun
  obtain ⟨hdec, hrep⟩ := Bool.and_eq_true_iff.mp hdec
  obtain ⟨hsealed, harch⟩ := Bool.and_eq_true_iff.mp hdec
  obtain ⟨rep, hrep, hnot⟩ := (Option.any_eq_true _ _).mp hrep
  refine ⟨c, hc, Sample.verified_partitioned hc, Sample.fullySealed_of_covered hsealed,
    of_decide_eq_true harch, rep, ?_, Bool.not_eq_true' _ |>.mp hnot⟩
  cases hv : verifyOrganization (some Sample.verify) 7 Sample.env.nfc
      (Sample.archived c.db).1.live with
  | error err =>
    rw [hv] at hrep
    cases hrep
  | ok r =>
    rw [hv] at hrep
    exact congrArg Except.ok (Option.some.inj hrep)

/-- Organization 8, with no event in the partition, still verifies; organization 7 does again when
the partition is back. -/
theorem archive_verified_restored :
    ∃ c, run (exec (auditProgram Sample.env)) (Cfg.idle Store.empty) Sample.sealedThrough = some c ∧
      Verified (some Sample.verify) Sample.env (Sample.archived c.db).1.live 8 ∧
      ¬Verified (some Sample.verify) Sample.env (Sample.archived c.db).1.live 7 ∧
      Verified (some Sample.verify) Sample.env (Sample.restored (Sample.archived c.db).1).1.live
        7 := by
  have hrun : (run (exec (auditProgram Sample.env)) (Cfg.idle Store.empty)
      Sample.sealedThrough).any (fun c => Sample.coveredBySeal c.db &&
        ((Sample.archived c.db).2 = none) &&
        ((Sample.restored (Sample.archived c.db).1).2 = none) &&
        (trailEvents (Sample.partitioned c.db).live 8 = []) &&
        (trailEvents (Sample.partitioned c.db).live 7).any fun x =>
          0 ≤ x.event.occurredAt.unixMicro && x.event.occurredAt.unixMicro < 1000000) = true := by
    decide +kernel
  obtain ⟨c, hc, hdec⟩ := (Option.any_eq_true _ _).mp hrun
  obtain ⟨hdec, hseven⟩ := Bool.and_eq_true_iff.mp hdec
  obtain ⟨hdec, height⟩ := Bool.and_eq_true_iff.mp hdec
  obtain ⟨hdec, hback⟩ := Bool.and_eq_true_iff.mp hdec
  obtain ⟨hsealed, harch⟩ := Bool.and_eq_true_iff.mp hdec
  have harch' : Sample.archived c.db = ((Sample.archived c.db).1, none) :=
    Prod.ext rfl (of_decide_eq_true harch)
  have hback' : Sample.restored (Sample.archived c.db).1 =
      ((Sample.restored (Sample.archived c.db).1).1, none) :=
    Prod.ext rfl (of_decide_eq_true hback)
  obtain ⟨hiff, hrestored⟩ := archive_verified_iff Sample.accepts_verify
    (e := (.unwired : Emitter "" archiveReason)) trivial Sample.noTrail_empty hc
    (s := Sample.partitioned c.db) rfl (Sample.holdsEvents_partitioned c.db)
    (Sample.verified_partitioned hc) (Sample.fullySealed_of_covered hsealed) harch'
  refine ⟨c, hc, ?_, ?_, ?_⟩
  · rw [hiff 8, of_decide_eq_true height]
    exact fun _ hx => absurd hx List.not_mem_nil
  · rw [hiff 7]
    intro hout
    obtain ⟨x, hx, hin⟩ := List.any_eq_true.mp hseven
    obtain ⟨hlo, hhi⟩ := Bool.and_eq_true_iff.mp hin
    exact hout x hx ⟨(0, 1000000), rfl, of_decide_eq_true hlo, of_decide_eq_true hhi⟩
  · exact hrestored [] (Cfg.idle (Sample.archived c.db).1.db) "" .unwired 0 1000000000 _ rfl
      trivial trivial trivial hback' 7

end ArchGuard.Audit
