import ArchGuard.AuditSealing

/-! The scheduled verification of every trail, while appends and a sealer go on. -/
namespace ArchGuard.Audit
open ReadCommitted TransitionRun

inductive Severity
  | info | warning | critical
  deriving DecidableEq, Repr

structure Alert where
  severity : Severity
  subject : String
  detail : String
  deriving DecidableEq, Repr

/-- What `VerifyOrganization` returned for an organization. -/
abbrev OrgReport := Uuid × Except VerifyError VerifyReport

def raise (org : Uuid) (severity : Severity) (subject detail : String) : Alert :=
  ⟨severity, subject, "organization_id=" ++ org.text ++ ": " ++ detail⟩

/-- The alert that `RunOnce` raises on a report, if it raises one. -/
def alertOf : OrgReport → Option Alert
  | (org, .error err) =>
    some (raise org .critical "verificação da trilha não pôde ser concluída" err.text)
  | (org, .ok rep) =>
    if !rep.ok then some (raise org .critical "ADULTERAÇÃO DA TRILHA DETECTADA"
      ("primeira divergência no seq " ++ toString rep.firstDivergence ++ " (" ++ rep.kind.text ++
        "): " ++ rep.detail))
    else none

def chainOrg (db : Db) : Key → Option Uuid
  | .head org => (db.row (.head org)).map fun _ => org
  | _ => none

/-- The organizations with a chain, ordered by id. -/
def allChainOrgs (db : Db) : List Uuid :=
  (db.keys.filterMap (chainOrg db)).insertionSort fun a b => a.toNat ≤ b.toNat

/-- The next read of the job; each is a transaction of its own. -/
inductive JobPc
  | allChainOrgs
  | genesis (org : Uuid) (rest : List Uuid)
  | events (org : Uuid) (genesis : Bytes) (rest : List Uuid)
  | verifySeals (org : Uuid) (rep : VerifyReport) (events : List SealedEvent) (rest : List Uuid)
  | done

structure Job where
  pc : JobPc
  reports : List OrgReport

def Job.alerts (j : Job) : List Alert := j.reports.filterMap alertOf

def nextOrg : List Uuid → JobPc
  | [] => .done
  | org :: rest => .genesis org rest

def Job.report (j : Job) (org : Uuid) (rep : Except VerifyError VerifyReport) (rest : List Uuid) :
    Job := ⟨nextOrg rest, j.reports ++ [(org, rep)]⟩

variable (verifier : Option SealVerifier) (nfc : GoText.GoString → GoText.GoString)

/-- The report on a chain that verified, once the seals are read. -/
def sealReport (org : Uuid) (rep : VerifyReport) (events : List SealedEvent) (db : Db) :
    VerifyReport :=
  let sealRep := verifySeals verifier org (hashIndex events) db
  if !sealRep.ok then { sealRep with eventsChecked := rep.eventsChecked }
  else { rep with
    sealsChecked := sealRep.sealsChecked
    sealSignaturesChecked := verifier.isSome }

/-- One read of `RunOnce`, over the rows committed when it happens. -/
def Job.step (j : Job) (db : Db) : Option Job :=
  match j.pc with
  | .allChainOrgs => some { j with pc := nextOrg (Audit.allChainOrgs db) }
  | .genesis org rest =>
    match readGenesisHash db org with
    | .error err => some (j.report org (.error (.genesis err)) rest)
    | .ok none => some (j.report org (.ok { ok := true }) rest)
    | .ok (some genesis) => some { j with pc := .events org genesis rest }
  | .events org genesis rest =>
    match readSealedEvents db org with
    | .error err => some (j.report org (.error (.events err)) rest)
    | .ok events =>
      let rep := verifyChain nfc genesis events
      if !rep.ok then some (j.report org (.ok rep) rest)
      else some { j with pc := .verifySeals org rep events rest }
  | .verifySeals org rep events rest =>
    some (j.report org (.ok (sealReport verifier org rep events db)) rest)
  | .done => none

/-- The database with its transactions, and the job beside it. -/
structure JobCfg where
  audit : AuditCfg
  job : Job

inductive JobEvent
  | audit (e : Event Req)
  | read

def jobExec (env : Env) (s : JobCfg) : JobEvent → Option JobCfg
  | .audit e => (exec (auditProgram env) s.audit e).map fun c => { s with audit := c }
  | .read => (s.job.step verifier env.nfc s.audit.db).map fun j => { s with job := j }

/-- The whole job, or the verification of one organization. -/
inductive JobReq
  | runOnce
  | verifyOrganization (org : Uuid)

def JobReq.entry : JobReq → JobPc
  | .runOnce => .allChainOrgs
  | .verifyOrganization org => .genesis org []

def startJob (db : Db) (q : JobReq) : JobCfg := ⟨Cfg.idle db, ⟨q.entry, []⟩⟩

section Heads

variable {env : Env} {c c' : AuditCfg} {e : Event Req} {org : Uuid}

/-- A pending head is a later version of the committed one, of the same genesis. -/
def HeadsKept (c : AuditCfg) : Prop :=
  ∀ org i v h, c.lock (.head org) = some (i, v) → c.db.row (.head org) = some h →
    ∃ h', v = some h' ∧ h'.genesisNonce = h.genesisNonce

theorem headsKept_idle (db : Db) : HeadsKept (Cfg.idle db) := fun _ _ _ _ h => by cases h

/-- What a statement writes to a head keeps the genesis of the head it saw. -/
theorem writes_head {i : ℕ} {l : Pc} {v : Option (Row (.head org))}
    (h : Writes c i ((auditProgram env).next l) (.head org) v) :
    c.viewRow i (.head org) = none ∨
      ∃ w h', c.viewRow i (.head org) = some w ∧ v = some h' ∧ h'.genesisNonce = w.genesisNonce := by
  cases l with
  | createHead e g nonce after =>
    simp only [auditProgram] at h
    cases h with
    | insert hk => exact Or.inl hk
  | lockHead e after =>
    simp only [auditProgram] at h
    cases h with
    | update hv => exact Or.inr ⟨_, _, hv, rfl, rfl⟩
  | advanceHead x after =>
    simp only [auditProgram] at h
    cases h with
    | update hv => exact Or.inr ⟨_, _, hv, rfl, rfl⟩
  | _ =>
    simp only [auditProgram] at h
    cases h

theorem HeadsKept.step (hc : HeadsKept c) (h : exec (auditProgram env) c e = some c') :
    HeadsKept c' := by
  intro org j v hd hl hrow
  rw [row_of_locked h hl] at hrow
  rcases lock_of_exec h hl with hold | ⟨l, -, -, hw⟩
  · exact hc org j v hd hold hrow
  -- what the transaction saw is its own version of the committed head, or that head itself
  have hview : ∃ w, c.viewRow j (.head org) = some w ∧ w.genesisNonce = hd.genesisNonce := by
    rcases c.viewRow_cases j (.head org) with ⟨r, hr, he⟩ | ⟨-, he⟩
    · obtain ⟨w, rfl, hw⟩ := hc org j r hd hr hrow
      exact ⟨w, he, hw⟩
    · exact ⟨hd, he.trans hrow, rfl⟩
  obtain ⟨w, hview, hnonce⟩ := hview
  rcases writes_head hw with hnone | ⟨w', h', hw', hv, hkept⟩
  · rw [hview] at hnone
    cases hnone
  · obtain rfl : w = w' := Option.some.inj (hview.symm.trans hw')
    exact ⟨h', hv, hkept.trans hnonce⟩

theorem HeadsKept.head_of_exec (hc : HeadsKept c) (h : exec (auditProgram env) c e = some c')
    {hd : ChainHead} (hrow : c.db.row (.head org) = some hd) :
    ∃ h', c'.db.row (.head org) = some h' ∧ h'.genesisNonce = hd.genesisNonce := by
  rcases row_of_exec h with heq | ⟨i, l, n, -, -, -, rfl⟩
  · exact ⟨hd, heq ▸ hrow, rfl⟩
  · rcases c.viewRow_cases i (.head org) with ⟨r, hr, he⟩ | ⟨-, he⟩
    · obtain ⟨w, rfl, hw⟩ := hc org i r hd hr hrow
      exact ⟨w, he, hw⟩
    · exact ⟨hd, he.trans hrow, rfl⟩

end Heads

/-- The organization has a chain with this genesis. -/
def Begun (db : Db) (org : Uuid) (genesis : Bytes) : Prop :=
  ∃ h, db.row (.head org) = some h ∧ genesisHash org h.genesisNonce = .ok genesis

theorem HeadsKept.begun_of_exec {env : Env} {c c' : AuditCfg} {e : Event Req} {org : Uuid}
    {g : Bytes} (hc : HeadsKept c) (h : exec (auditProgram env) c e = some c')
    (hb : Begun c.db org g) : Begun c'.db org g := by
  obtain ⟨hd, hrow, hg⟩ := hb
  obtain ⟨h', hrow', hnonce⟩ := hc.head_of_exec h hrow
  exact ⟨h', hrow', hnonce ▸ hg⟩

/-- The list is a first part of the organization's trail. -/
structure FirstPart (db : Db) (org : Uuid) (events : List SealedEvent) : Prop where
  stored : ∀ e ∈ events, HasEvent db e ∧ e.event.organizationId = org
  seq : events.map SealedEvent.seq = List.range' 1 events.length

/-- What the job knows before each of its reads: the events are a first part of the trail, as their
rows were read. -/
def JobPcOk (db : Db) : JobPc → Prop
  | .events org genesis _ => Begun db org genesis
  | .verifySeals org rep events _ => rep.ok = true ∧
      ∃ es, events = es.map SealedEvent.readBack ∧ FirstPart db org es
  | _ => True

section Reads

variable {verifier nfc} {env : Env} {c : AuditCfg} {org : Uuid} {events : List SealedEvent}

theorem jobPcOk_nextOrg (db : Db) (orgs : List Uuid) : JobPcOk db (nextOrg orgs) := by
  cases orgs <;> trivial

theorem readGenesisHash_cases (hi : Inv nfc c) (org : Uuid) :
    readGenesisHash c.db org = .ok none ∨
      ∃ g, readGenesisHash c.db org = .ok (some g) ∧ Begun c.db org g := by
  rcases hi.base org with ⟨hn, -⟩ | ⟨h, g, es, hc, -⟩
  · apply Or.inl
    simp only [readGenesisHash, hn]
  · exact Or.inr ⟨g, readGenesisHash_of_head hc.head hc.genesis, h, hc.head, hc.genesis⟩

theorem begun_of_head (hi : Inv nfc c) (h : (c.db.row (.head org)).isSome = true) :
    ∃ g, Begun c.db org g := by
  rcases hi.base org with ⟨hn, -⟩ | ⟨hd, g, es, hc, -⟩
  · rw [hn] at h
    cases h
  · exact ⟨g, hd, hc.head, hc.genesis⟩

theorem chain_of_begun (hi : Inv nfc c) {g : Bytes} (hb : Begun c.db org g) :
    ∃ h es, ChainOf nfc c.db org h g es ∧ Trail c.db org es := by
  obtain ⟨h, hh, hg⟩ := hb
  rcases hi.base org with ⟨hn, -⟩ | ⟨h', g', es, hc, ht⟩
  · rw [hn] at hh
    cases hh
  obtain rfl : h' = h := Option.some.inj (hc.head.symm.trans hh)
  obtain rfl : g' = g := Except.ok.inj (hc.genesis.symm.trans hg)
  exact ⟨h', es, hc, ht⟩

theorem firstPart_read (hi : Inv nfc c) {g : Bytes} (hb : Begun c.db org g) :
    FirstPart c.db org (trailEvents c.db org) := by
  obtain ⟨h, es, hc, ht⟩ := chain_of_begun hi hb
  refine ⟨fun e he => mem_trailEvents.mp he, ?_⟩
  rw [trailEvents_eq ht (pairwise_of_linked hc.linked), seq_of_linked hc.linked]

theorem accepted_of_begun_iff (hi : Inv nfc c) {g : Bytes} (hb : Begun c.db org g) :
    (∃ read, readSealedEvents c.db org = .ok read ∧ (verifyChain nfc g read).ok = true) ↔
      ∀ e ∈ trailEvents c.db org, e.Rehashes nfc := by
  obtain ⟨h, es, hc, ht⟩ := chain_of_begun hi hb
  exact hc.accepted_iff ht

theorem read_of_rehashes (hi : Inv nfc c) {g : Bytes} (hb : Begun c.db org g)
    (hall : ∀ e ∈ trailEvents c.db org, e.Rehashes nfc) :
    readSealedEvents c.db org = .ok ((trailEvents c.db org).map SealedEvent.readBack) ∧
      (verifyChain nfc g ((trailEvents c.db org).map SealedEvent.readBack)).ok = true := by
  obtain ⟨read, hread, hok⟩ := (accepted_of_begun_iff hi hb).mpr hall
  obtain ⟨-, rfl⟩ := readSealedEvents_iff.mp hread
  exact ⟨hread, hok⟩

theorem step_events {rest : List Uuid} {reports : List OrgReport} (hi : Inv nfc c) {g : Bytes}
    (hb : Begun c.db org g) (hall : ∀ e ∈ trailEvents c.db org, e.Rehashes nfc) :
    Job.step verifier nfc ⟨.events org g rest, reports⟩ c.db =
      some ⟨.verifySeals org (verifyChain nfc g ((trailEvents c.db org).map SealedEvent.readBack))
        ((trailEvents c.db org).map SealedEvent.readBack) rest, reports⟩ := by
  obtain ⟨hread, hok⟩ := read_of_rehashes hi hb hall
  simp only [Job.step, hread, hok, Bool.not_true, Bool.false_eq_true, ↓reduceIte]

theorem sealReport_ok_iff {rep : VerifyReport} {db : Db} (hrep : rep.ok = true) :
    (sealReport verifier org rep events db).ok = true ↔
      (verifySeals verifier org (hashIndex events) db).ok = true := by
  unfold sealReport
  cases hs : (verifySeals verifier org (hashIndex events) db).ok with
  | false => simp [hs]
  | true => simp [hs, hrep]

theorem verifySeals_firstPart_iff (hv : Accepts env verifier) (hi : Inv env.nfc c)
    (hs : SealInv env c) (ht : Contiguous c.db) (hf : FirstPart c.db org events) :
    (verifySeals verifier org (hashIndex events) c.db).ok = true ↔
      ∀ t ∈ seals c.db org, t.seqEnd ≤ events.length := by
  have hok (s : SealRow) (hs' : s ∈ sortedSeals org c.db) : SealOk env c.db org s :=
    sealOk_of_mem hs.stored hs'
  have hlt : events.Pairwise fun a b => a.seq < b.seq := by
    rw [← List.pairwise_map (R := fun a b => a < b), hf.seq]
    exact List.pairwise_lt_range'
  have hseq (e : SealedEvent) (he : e ∈ events) : 1 ≤ e.seq ∧ e.seq < 1+events.length := by
    have hmem := List.mem_map_of_mem (f := SealedEvent.seq) he
    rwa [hf.seq, List.mem_range'_1] at hmem
  rw [verifySeals, verifySealsFrom_ok_iff fun s hs' => checkSignature_none hv (hok s hs')]
  rw [and_iff_right (ht org)]
  refine ⟨fun h t ht' => ?_, fun h t ht' => ?_⟩
  · by_contra hbeyond
    have hnone : hashIndex events t.seqEnd = none := by
      refine hashIndex_of_not_mem fun e he hend => hbeyond ?_
      have := hseq e he
      omega
    rw [h t (mem_sortedSeals.mpr ht')] at hnone
    cases hnone
  · -- the event the seal closes on is the one of that number among those read
    have hend := h t (mem_sortedSeals.mp ht')
    obtain ⟨a, ha, horg, haseq, hahash⟩ := (hok t ht').ends
    have hpos : 1 ≤ t.seqEnd := (hok t ht').start.trans (hok t ht').range
    have hmem : t.seqEnd ∈ events.map SealedEvent.seq := by
      rw [hf.seq, List.mem_range'_1]
      omega
    obtain ⟨b, hb, hbseq⟩ := List.mem_map.mp hmem
    have hab : b = a := by
      refine eq_of_seq_eq (strict_trailEvents hi org) ?_ ?_ (hbseq.trans haseq.symm)
      · exact mem_trailEvents.mpr (hf.stored b hb)
      · exact mem_trailEvents.mpr ⟨ha, horg⟩
    rw [← hbseq, hashIndex_of_mem hlt hb, hab, hahash]

end Reads

section Alarm

variable {verifier} {env : Env} {k : ℕ} {s s' : JobCfg}

/-- No committed seal of the organization ends beyond the events that the job read before. -/
def SealsWithinRead (s : JobCfg) (e : JobEvent) : Prop :=
  ∀ org rep events rest, e = .read → s.job.pc = .verifySeals org rep events rest →
    ∀ t ∈ seals s.audit.db org, t.seqEnd ≤ events.length

/-- The rows that the job reads give the actors of their events back. -/
def EventsReadable (s : JobCfg) (e : JobEvent) : Prop :=
  ∀ org genesis rest, e = .read → s.job.pc = .events org genesis rest →
    ∀ x ∈ trailEvents s.audit.db org, x.event.Readable

/-- The rows that the job reads hash to their stored hashes. -/
def EventsRehash (nfc : GoText.GoString → GoText.GoString) (s : JobCfg) (e : JobEvent) : Prop :=
  ∀ org genesis rest, e = .read → s.job.pc = .events org genesis rest →
    ∀ x ∈ trailEvents s.audit.db org, x.Rehashes nfc

/-- Every report so far is in order. -/
def Job.quiet (j : Job) : Prop := ∀ r ∈ j.reports, ∃ rep, r.2 = .ok rep ∧ rep.ok = true

structure JobInv (env : Env) (k : ℕ) (s : JobCfg) : Prop where
  trail : SealedTrail env s.audit
  one : OneSealing k s.audit
  contiguous : Contiguous s.audit.db
  heads : HeadsKept s.audit
  pc : JobPcOk s.audit.db s.job.pc

theorem jobInv_startJob {db : Db} (hdb : NoTrail db) (q : JobReq) :
    JobInv env k (startJob db q) where
  trail := sealedTrail_idle hdb
  one := oneSealing_idle k db
  contiguous := contiguous_idle hdb
  heads := headsKept_idle db
  pc := by cases q <;> trivial

theorem jobPcOk_of_grows {db db' : Db} {pc : JobPc} (hgrow : Grows db db')
    (hbegun : ∀ org g, Begun db org g → Begun db' org g) (h : JobPcOk db pc) : JobPcOk db' pc := by
  cases pc with
  | events org genesis rest => exact hbegun _ _ h
  | verifySeals org rep events rest =>
    obtain ⟨hrep, es, hes, hf⟩ := h
    exact ⟨hrep, es, hes, fun e he => ⟨hgrow e (hf.stored e he).1, (hf.stored e he).2⟩, hf.seq⟩
  | _ => trivial

theorem JobInv.audit (hs : JobInv env k s) {e : Event Req} {c : AuditCfg} (hone : OneSealer k e)
    (h : exec (auditProgram env) s.audit e = some c) : JobInv env k { s with audit := c } where
  trail := hs.trail.step h
  one := hs.one.step hs.trail.1 hs.trail.2.2 hone h
  contiguous := (contiguous_step_iff hs.trail.2.1 hs.trail.2.2 hs.contiguous h).mpr hs.one.inTurn
  heads := hs.heads.step h
  pc := jobPcOk_of_grows (hs.trail.2.1.grows_db h) (fun _ _ hb => hs.heads.begun_of_exec h hb) hs.pc

theorem sealsWithinRead_of_ne
    (h : ∀ org rep events rest, s.job.pc ≠ .verifySeals org rep events rest) :
    SealsWithinRead s .read := fun org rep events rest _ hpc => absurd hpc (h org rep events rest)

theorem eventsRehash_of_ne {nfc : GoText.GoString → GoText.GoString}
    (h : ∀ org genesis rest, s.job.pc ≠ .events org genesis rest) :
    EventsRehash nfc s .read := fun org genesis rest _ hpc => absurd hpc (h org genesis rest)

/-- A read makes no report, or a report that is in order exactly if the read meets the conditions. -/
theorem JobInv.read (hv : Accepts env verifier) (hs : JobInv env k s) {j : Job}
    (h : s.job.step verifier env.nfc s.audit.db = some j) :
    JobPcOk s.audit.db j.pc ∧
      ((j.reports = s.job.reports ∧ SealsWithinRead s .read ∧ EventsRehash env.nfc s .read) ∨
        ∃ org rep, j.reports = s.job.reports ++ [(org, rep)] ∧
          ((∃ r, rep = .ok r ∧ r.ok = true) ↔
            SealsWithinRead s .read ∧ EventsRehash env.nfc s .read)) := by
  have hpc := hs.pc
  unfold Job.step at h
  cases hjob : s.job.pc with
  | allChainOrgs =>
    rw [hjob] at h
    obtain rfl := Option.some.inj h
    refine ⟨jobPcOk_nextOrg _ _, Or.inl ⟨rfl, sealsWithinRead_of_ne ?_, eventsRehash_of_ne ?_⟩⟩
    · simp [hjob]
    · simp [hjob]
  | genesis org rest =>
    rw [hjob] at h
    have hmeets : SealsWithinRead s .read ∧ EventsRehash env.nfc s .read :=
      ⟨sealsWithinRead_of_ne (by simp [hjob]), eventsRehash_of_ne (by simp [hjob])⟩
    rcases readGenesisHash_cases hs.trail.1 org with hnone | ⟨g, hsome, hbegun⟩
    · simp only [hnone, Option.some.injEq] at h
      subst h
      exact ⟨jobPcOk_nextOrg _ _, Or.inr ⟨org, _, rfl, iff_of_true ⟨_, rfl, rfl⟩ hmeets⟩⟩
    · simp only [hsome, Option.some.injEq] at h
      subst h
      exact ⟨hbegun, Or.inl ⟨rfl, hmeets⟩⟩
  | events org genesis rest =>
    rw [hjob] at h hpc
    have hwithin : SealsWithinRead s .read := sealsWithinRead_of_ne (by simp [hjob])
    have haccepted := accepted_of_begun_iff hs.trail.1 hpc
    have hrehash : EventsRehash env.nfc s .read ↔
        ∀ x ∈ trailEvents s.audit.db org, x.Rehashes env.nfc := by
      refine ⟨fun hall => hall org genesis rest rfl hjob, fun hall org' g' rest' _ hpc' => ?_⟩
      obtain ⟨rfl, -⟩ := JobPc.events.inj (hjob.symm.trans hpc')
      exact hall
    rw [and_iff_right hwithin, hrehash, ← haccepted]
    cases hread : readSealedEvents s.audit.db org with
    | error err =>
      simp only [hread, Option.some.injEq] at h
      subst h
      refine ⟨jobPcOk_nextOrg _ _, Or.inr ⟨org, _, rfl, iff_of_false ?_ ?_⟩⟩
      · rintro ⟨r, hr, -⟩
        cases hr
      · rintro ⟨read, hok, -⟩
        cases hok
    | ok read =>
      obtain ⟨-, rfl⟩ := readSealedEvents_iff.mp hread
      simp only [hread] at h
      cases hchain : (verifyChain env.nfc genesis
          ((trailEvents s.audit.db org).map SealedEvent.readBack)).ok with
      | true =>
        simp only [hchain, Bool.not_true, Bool.false_eq_true, ↓reduceIte, Option.some.injEq] at h
        subst h
        exact ⟨⟨hchain, _, rfl, firstPart_read hs.trail.1 hpc⟩, Or.inl ⟨rfl, _, rfl, hchain⟩⟩
      | false =>
        simp only [hchain, Bool.not_false, ↓reduceIte, Option.some.injEq] at h
        subst h
        refine ⟨jobPcOk_nextOrg _ _, Or.inr ⟨org, _, rfl, ?_⟩⟩
        simp only [Except.ok.injEq, exists_eq_left']
  | verifySeals org rep events rest =>
    rw [hjob] at h hpc
    obtain ⟨hrep, es, rfl, hf⟩ := hpc
    obtain rfl := Option.some.inj h
    refine ⟨jobPcOk_nextOrg _ _, Or.inr ⟨org, _, rfl, ?_⟩⟩
    have hrehash : EventsRehash env.nfc s .read := eventsRehash_of_ne (by simp [hjob])
    simp only [Except.ok.injEq, exists_eq_left']
    rw [and_iff_left hrehash, sealReport_ok_iff hrep, hashIndex_map_readBack,
      verifySeals_firstPart_iff hv hs.trail.1 hs.trail.2.1 hs.contiguous hf]
    constructor
    · intro hle org' rep' events' rest' _ hpc'
      obtain ⟨rfl, -, rfl, -⟩ := JobPc.verifySeals.inj (hjob.symm.trans hpc')
      rwa [List.length_map]
    · intro hwithin
      have hle := hwithin org rep _ rest rfl hjob
      rwa [List.length_map] at hle
  | done =>
    rw [hjob] at h
    cases h

theorem JobInv.step (hv : Accepts env verifier) (hs : JobInv env k s) {e : JobEvent}
    (hone : ∀ a, e = .audit a → OneSealer k a) (h : jobExec verifier env s e = some s') :
    JobInv env k s' := by
  cases e with
  | audit a =>
    obtain ⟨c, hc, rfl⟩ := Option.map_eq_some_iff.mp h
    exact hs.audit (hone a rfl) hc
  | read =>
    obtain ⟨j, hj, rfl⟩ := Option.map_eq_some_iff.mp h
    exact ⟨hs.trail, hs.one, hs.contiguous, hs.heads, (hs.read hv hj).1⟩

theorem jobInv_of_run (hv : Accepts env verifier) {db : Db} (hdb : NoTrail db) {q : JobReq}
    {es : List JobEvent} (hone : ∀ e ∈ es, ∀ a, e = .audit a → OneSealer k a)
    (hrun : run (jobExec verifier env) (startJob db q) es = some s) : JobInv env k s :=
  run_invariant (fun _ _ _ hs ho he => hs.step hv ho he) (jobInv_startJob hdb q)
    (along_of_mem hone _) hrun

theorem quiet_step_iff (hv : Accepts env verifier) (hs : JobInv env k s) (hq : s.job.quiet)
    {e : JobEvent} (h : jobExec verifier env s e = some s') :
    s'.job.quiet ↔ SealsWithinRead s e ∧ EventsRehash env.nfc s e := by
  cases e with
  | audit a =>
    obtain ⟨c, -, rfl⟩ := Option.map_eq_some_iff.mp h
    refine iff_of_true hq ⟨?_, ?_⟩
    · intro org rep events rest he
      cases he
    · intro org genesis rest he
      cases he
  | read =>
    obtain ⟨j, hj, rfl⟩ := Option.map_eq_some_iff.mp h
    rcases (hs.read hv hj).2 with ⟨hsame, hmeets⟩ | ⟨org, rep, hadd, hiff⟩
    · refine iff_of_true ?_ hmeets
      unfold Job.quiet
      rw [hsame]
      exact hq
    · rw [← hiff]
      unfold Job.quiet
      rw [hadd]
      constructor
      · exact fun hall => hall (org, rep) (by simp)
      · intro hok r hr
        rcases List.mem_append.mp hr with hr | hr
        · exact hq r hr
        · obtain rfl := List.mem_singleton.mp hr
          exact hok

theorem reports_step {e : JobEvent} (h : jobExec verifier env s e = some s') :
    ∀ r ∈ s.job.reports, r ∈ s'.job.reports := by
  intro r hr
  cases e with
  | audit a =>
    obtain ⟨c, -, rfl⟩ := Option.map_eq_some_iff.mp h
    exact hr
  | read =>
    obtain ⟨j, hj, rfl⟩ := Option.map_eq_some_iff.mp h
    have happ (org : Uuid) (rep : Except VerifyError VerifyReport) (rest : List Uuid) :
        r ∈ (s.job.report org rep rest).reports := List.mem_append_left _ hr
    unfold Job.step at hj
    split at hj
    · exact Option.some.inj hj ▸ hr
    · split at hj
      · exact Option.some.inj hj ▸ happ ..
      · exact Option.some.inj hj ▸ happ ..
      · exact Option.some.inj hj ▸ hr
    · split at hj
      · exact Option.some.inj hj ▸ happ ..
      dsimp only at hj
      split_ifs at hj
      · exact Option.some.inj hj ▸ happ ..
      · exact Option.some.inj hj ▸ hr
    · exact Option.some.inj hj ▸ happ ..
    · cases hj

theorem alerts_eq_nil_iff (j : Job) : j.alerts = [] ↔ j.quiet := by
  unfold Job.alerts Job.quiet
  rw [List.filterMap_eq_nil_iff]
  apply forall₂_congr
  intro r _
  obtain ⟨org, rep⟩ := r
  cases rep with
  | error err => simp [alertOf]
  | ok rep => cases hok : rep.ok <;> simp [alertOf, hok]

end Alarm

section Runs

variable {verifier : Option SealVerifier} {env : Env} {db : Db} {k : ℕ} {q : JobReq}
  {es : List JobEvent} {s : JobCfg}

/-- No report takes exception and no alert is raised exactly if each read meets the conditions. -/
theorem quiet_iff_along (hv : Accepts env verifier) (hdb : NoTrail db)
    (hone : ∀ e ∈ es, ∀ a, e = .audit a → OneSealer k a)
    (hrun : run (jobExec verifier env) (startJob db q) es = some s) :
    (s.job.quiet ∧ s.job.alerts = []) ↔
      Along (jobExec verifier env) (fun s e => SealsWithinRead s e ∧ EventsRehash env.nfc s e)
        (startJob db q) es := by
  have hiff := stays_iff_along_of_run (J := JobInv env k) (I := fun s => s.job.quiet)
    (fun s e s' ho hs _ he => hs.step hv ho he) (fun s e s' hs hq he => quiet_step_iff hv hs hq he)
    hone (jobInv_startJob hdb q) (by simp [startJob, Job.quiet]) hrun
  rw [← hiff, alerts_eq_nil_iff]
  constructor
  · intro ⟨hquiet, _⟩ pre post s' he hpre r hr
    -- reports are never taken back
    rw [he, run_append_eq hpre] at hrun
    refine hquiet r (relation_always (R := fun a b => ∀ r ∈ a.job.reports, r ∈ b.job.reports)
      (fun _ _ h => h) (fun _ _ _ hab hbc r hr => hbc r (hab r hr))
      (fun a e b he => reports_step he) hrun r hr)
  · intro h
    have hquiet := h es [] s (List.append_nil es).symm hrun
    exact ⟨hquiet, hquiet⟩

theorem JobInv.eventsRehash (hs : JobInv env k s) {e : JobEvent} (h : EventsReadable s e) :
    EventsRehash env.nfc s e := fun org g rest he hpc x hx =>
  rehashes_of_readable (hs.trail.1.hash_eq (mem_trailEvents.mp hx).1) (h org g rest he hpc x hx)

theorem JobInv.eventsReadable (hnfc : KeepsReplacement env.nfc) (hs : JobInv env k s) {e : JobEvent}
    (hfree : ∀ org, ∀ x ∈ trailEvents s.audit.db org, x.HashedApart env.nfc)
    (h : EventsRehash env.nfc s e) : EventsReadable s e := fun org g rest he hpc x hx =>
  readable_of_rehashes hnfc (hfree org x hx) (hs.trail.1.hash_eq (mem_trailEvents.mp hx).1)
    (h org g rest he hpc x hx)

/-- While appends and one sealer go on, a verification of the untampered trail reports no
divergence, and the job raises no alert, if each event it reads is readable and no seal that it
reads ends beyond the events it read before: no seal was committed in between over an event
appended in between. Where the hash does not collide, only then. -/
theorem noFalseAlarm_iff (hv : Accepts env verifier) (hdb : NoTrail db)
    (hone : ∀ e ∈ es, ∀ a, e = .audit a → OneSealer k a)
    (hrun : run (jobExec verifier env) (startJob db q) es = some s) :
    (Along (jobExec verifier env) (fun s e => SealsWithinRead s e ∧ EventsReadable s e)
        (startJob db q) es →
      (∀ r ∈ s.job.reports, ∃ rep, r.2 = .ok rep ∧ rep.ok = true) ∧ s.job.alerts = []) ∧
    (KeepsReplacement env.nfc →
      Along (jobExec verifier env)
        (fun s _ => ∀ org, ∀ x ∈ trailEvents s.audit.db org, x.HashedApart env.nfc)
        (startJob db q) es →
      (∀ r ∈ s.job.reports, ∃ rep, r.2 = .ok rep ∧ rep.ok = true) ∧ s.job.alerts = [] →
      Along (jobExec verifier env) (fun s e => SealsWithinRead s e ∧ EventsReadable s e)
        (startJob db q) es) := by
  have hiff := quiet_iff_along hv hdb hone hrun
  have hkeep : Along (jobExec verifier env) (fun _ e => ∀ a, e = .audit a → OneSealer k a)
      (startJob db q) es := along_of_mem hone _
  constructor
  · intro hok
    apply hiff.mpr
    refine along_imp (I := JobInv env k) (fun t e t' ht ho he => ht.step hv ho.2 he)
      (fun t e ht ho => ?_) (jobInv_startJob hdb q) (along_and hok hkeep)
    exact ⟨ho.1.1, ht.eventsRehash ho.1.2⟩
  · intro hnfc hfree hquiet
    refine along_imp (I := JobInv env k) (fun t e t' ht ho he => ht.step hv ho.2 he)
      (fun t e ht ho => ?_) (jobInv_startJob hdb q)
      (along_and (along_and (hiff.mp hquiet) hfree) hkeep)
    exact ⟨ho.1.1.1, ht.eventsReadable hnfc ho.1.2 ho.1.1.2⟩

end Runs

section Interrupted

variable {verifier : Option SealVerifier} {env : Env} {db : Db} {c c₁ c₂ : AuditCfg} {org : Uuid}
  {es₁ es₂ : List (Event Req)} {g : Bytes}

theorem run_audit {es : List (Event Req)} {c c' : AuditCfg} (j : Job)
    (h : run (exec (auditProgram env)) c es = some c') :
    run (jobExec verifier env) ⟨c, j⟩ (es.map .audit) = some ⟨c', j⟩ := by
  induction es generalizing c with
  | nil =>
    obtain rfl := Option.some.inj h
    rfl
  | cons e es ih =>
    obtain ⟨d, hd, hrest⟩ := run_cons_eq_some.mp h
    rw [List.map_cons, run_cons_eq_some]
    refine ⟨⟨d, j⟩, ?_, ih hrest⟩
    simp only [jobExec, hd, Option.map_some]

theorem along_audit (s : JobCfg) (es : List (Event Req)) :
    Along (jobExec verifier env) (fun s e => SealsWithinRead s e ∧ EventsReadable s e) s
      (es.map .audit) := by
  induction es generalizing s with
  | nil => trivial
  | cons e es ih =>
    refine ⟨⟨?_, ?_⟩, fun s' _ => ih s'⟩
    · intro org rep events rest he
      cases he
    · intro org genesis rest he
      cases he

theorem eventsReadable_of_ne {s : JobCfg}
    (h : ∀ org genesis rest, s.job.pc ≠ .events org genesis rest) :
    EventsReadable s .read := fun org genesis rest _ hpc => absurd hpc (h org genesis rest)

/-- The verification of `org` reads the genesis and the events after `es₁`, and the seals
after `es₂`. -/
def reads (es₁ es₂ : List (Event Req)) : List JobEvent :=
  es₁.map .audit ++ (.read :: .read :: (es₂.map .audit ++ [.read]))

theorem read_begun (hb : Begun c₁.db org g) :
    jobExec verifier env ⟨c₁, ⟨.genesis org [], []⟩⟩ .read = some ⟨c₁, ⟨.events org g [], []⟩⟩ := by
  obtain ⟨h, hrow, hg⟩ := hb
  simp only [jobExec, Job.step, readGenesisHash_of_head hrow hg, Option.map_some]

theorem read_events (hi : Inv env.nfc c₁) (hb : Begun c₁.db org g)
    (hread : ∀ x ∈ trailEvents c₁.db org, x.event.Readable) :
    jobExec verifier env ⟨c₁, ⟨.events org g [], []⟩⟩ .read =
      some ⟨c₁, ⟨.verifySeals org
        (verifyChain env.nfc g ((trailEvents c₁.db org).map SealedEvent.readBack))
        ((trailEvents c₁.db org).map SealedEvent.readBack) [], []⟩⟩ := by
  have hall : ∀ x ∈ trailEvents c₁.db org, x.Rehashes env.nfc := fun x hx =>
    rehashes_of_readable (hi.hash_eq (mem_trailEvents.mp hx).1) (hread x hx)
  simp only [jobExec, step_events hi hb hall, Option.map_some]

variable (hdb : NoTrail db) (h₁ : run (exec (auditProgram env)) (Cfg.idle db) es₁ = some c₁)
  (hb : Begun c₁.db org g) (hread : ∀ x ∈ trailEvents c₁.db org, x.event.Readable)
  (h₂ : run (exec (auditProgram env)) c₁ es₂ = some c₂)

include hdb h₁ hb hread h₂

variable (verifier) in
/-- The report of an interrupted verification, on the events and seals as they were read. -/
theorem run_reads :
    run (jobExec verifier env) (startJob db (.verifyOrganization org)) (reads es₁ es₂) =
      some ⟨c₂, ⟨.done, [(org, .ok (sealReport verifier org
        (verifyChain env.nfc g ((trailEvents c₁.db org).map SealedEvent.readBack))
        ((trailEvents c₁.db org).map SealedEvent.readBack) c₂.db))]⟩⟩ := by
  refine run_append.mpr ⟨_, run_audit _ h₁, run_cons_eq_some.mpr ⟨_, read_begun hb, ?_⟩⟩
  refine run_cons_eq_some.mpr ⟨_, read_events (inv_of_run hdb h₁) hb hread, ?_⟩
  exact run_append.mpr ⟨_, run_audit _ h₂, rfl⟩

theorem along_reads
    (hle : ∀ t ∈ seals c₂.db org, t.seqEnd ≤ (trailEvents c₁.db org).length) :
    Along (jobExec verifier env) (fun s e => SealsWithinRead s e ∧ EventsReadable s e)
      (startJob db (.verifyOrganization org)) (reads es₁ es₂) := by
  refine along_append.mpr ⟨along_audit _ _, fun s hs => ?_⟩
  obtain rfl := Option.some.inj ((run_audit _ h₁).symm.trans hs)
  refine ⟨⟨sealsWithinRead_of_ne ?_, eventsReadable_of_ne ?_⟩, fun s hs => ?_⟩
  · simp [JobReq.entry]
  · simp [JobReq.entry]
  obtain rfl := Option.some.inj ((read_begun hb).symm.trans hs)
  refine ⟨⟨sealsWithinRead_of_ne (by simp), fun org' g' rest _ hpc => ?_⟩, fun s hs => ?_⟩
  · obtain ⟨rfl, -⟩ := JobPc.events.inj hpc
    exact hread
  obtain rfl := Option.some.inj ((read_events (inv_of_run hdb h₁) hb hread).symm.trans hs)
  refine along_append.mpr ⟨along_audit _ _, fun s hs => ?_⟩
  obtain rfl := Option.some.inj ((run_audit _ h₂).symm.trans hs)
  refine ⟨⟨fun org' rep events rest _ hpc => ?_, eventsReadable_of_ne (by simp)⟩, fun _ _ => trivial⟩
  obtain ⟨rfl, -, rfl, -⟩ := JobPc.verifySeals.inj hpc
  rwa [List.length_map]

end Interrupted

namespace Sample

def appendOne (eventId : Uuid) (now : Time) : List (Event Req) :=
  .start 0 (.append [login eventId 7 now]) :: List.replicate 5 (.step 0)

def sealAll (sealedAt : Time) : List (Event Req) :=
  .start 1 (.sealOrganization 7 sealedAt) :: List.replicate 4 (.step 1)

/-- Everything is sealed before the events are read; another event follows. -/
def sealedBefore : List JobEvent := reads (appendOne 1 5000 ++ sealAll 8000) (appendOne 2 6000)

/-- A second event is appended and sealed after the events are read. -/
def sealedBetween : List JobEvent := reads (appendOne 1 5000) (appendOne 2 6000 ++ sealAll 9000)

/-- Whatever seals is process 1. -/
def sealsAsOne : Event Req → Bool
  | .start i (.sealOrganization _ _) => i = 1
  | _ => true

theorem oneSealer_reads {es₁ es₂ : List (Event Req)} (h₁ : es₁.all sealsAsOne = true)
    (h₂ : es₂.all sealsAsOne = true) : ∀ e ∈ reads es₁ es₂, ∀ a, e = .audit a → OneSealer 1 a := by
  have hone (es : List (Event Req)) (h : es.all sealsAsOne = true) (a : Event Req)
      (ha : JobEvent.audit a ∈ es.map .audit) : OneSealer 1 a := by
    intro i org sealedAt hstart
    obtain ⟨a', ha', heq⟩ := List.mem_map.mp ha
    obtain rfl := JobEvent.audit.inj heq
    have hseal := List.all_eq_true.mp h _ ha'
    subst hstart
    simpa [sealsAsOne] using hseal
  intro e he a hea
  subst hea
  simp only [reads, List.mem_append, List.mem_cons, reduceCtorEq, false_or, List.not_mem_nil,
    or_false] at he
  exact he.elim (hone es₁ h₁ a) (hone es₂ h₂ a)

/-- One event of a plain actor, under a head. -/
def firstAppended (c : Cfg Row Pc) : Bool :=
  ((trailEvents c.db 7).length = 1 && (c.db.row (.head 7)).isSome) &&
    (trailEvents c.db 7).all fun e => e.event.actor.act.isNone

theorem begun_of_firstAppended {es : List (Event Req)}
    (h : (run (exec (auditProgram env)) (Cfg.idle Store.empty) es).any firstAppended = true) :
    ∃ c g, run (exec (auditProgram env)) (Cfg.idle Store.empty) es = some c ∧
      (trailEvents c.db 7).length = 1 ∧ Begun c.db 7 g ∧
      ∀ x ∈ trailEvents c.db 7, x.event.Readable := by
  obtain ⟨c, hrun, hc⟩ := (Option.any_eq_true _ _).mp h
  obtain ⟨hc, hplain⟩ := Bool.and_eq_true_iff.mp hc
  obtain ⟨hlen, hhead⟩ := Bool.and_eq_true_iff.mp hc
  obtain ⟨g, hb⟩ := begun_of_head (inv_of_run noTrail_empty hrun) hhead
  exact ⟨c, g, hrun, of_decide_eq_true hlen, hb, readable_of_plain hplain⟩

end Sample

theorem noFalseAlarm_sealed_before :
    ∃ s, run (jobExec (some Sample.verify) Sample.env) (startJob Store.empty (.verifyOrganization 7))
        Sample.sealedBefore = some s ∧ s.job.reports.length = 1 ∧ s.job.alerts = [] := by
  have hrun₁ : (run (exec (auditProgram Sample.env)) (Cfg.idle Store.empty)
      (Sample.appendOne 1 5000 ++ Sample.sealAll 8000)).any Sample.firstAppended = true := by
    decide +kernel
  have hrun₂ : (run (exec (auditProgram Sample.env)) (Cfg.idle Store.empty)
      ((Sample.appendOne 1 5000 ++ Sample.sealAll 8000) ++ Sample.appendOne 2 6000)).any (fun c =>
        (seals c.db 7).all fun t => t.seqEnd ≤ 1) = true := by
    decide +kernel
  obtain ⟨c₁, g, h₁, hlen, hb, hread⟩ := Sample.begun_of_firstAppended hrun₁
  obtain ⟨c₂, h₂, hc₂⟩ := (Option.any_eq_true _ _).mp hrun₂
  rw [run_append_eq h₁] at h₂
  have hle : ∀ t ∈ seals c₂.db 7, t.seqEnd ≤ (trailEvents c₁.db 7).length := by
    intro t ht
    rw [hlen]
    exact of_decide_eq_true (List.all_eq_true.mp hc₂ t ht)
  have hone : ∀ e ∈ Sample.sealedBefore, ∀ a, e = .audit a → OneSealer 1 a :=
    Sample.oneSealer_reads (by decide) (by decide)
  have hrun := run_reads (some Sample.verify) Sample.noTrail_empty h₁ hb hread h₂
  refine ⟨_, hrun, rfl, ?_⟩
  exact ((noFalseAlarm_iff Sample.accepts_verify Sample.noTrail_empty hone hrun).1
    (along_reads Sample.noTrail_empty h₁ hb hread h₂ hle)).2

/-- A seal over an event that was appended after the verifier read the events: the trail is
untampered, there is one sealer, and the tamper alert is raised. -/
theorem tamper_alert_on_honest_trail :
    (∀ e ∈ Sample.sealedBetween, ∀ a, e = .audit a → OneSealer 1 a) ∧
      ∃ s, run (jobExec (some Sample.verify) Sample.env)
          (startJob Store.empty (.verifyOrganization 7)) Sample.sealedBetween = some s ∧
        Contiguous s.audit.db ∧ s.job.alerts ≠ [] := by
  have hone : ∀ e ∈ Sample.sealedBetween, ∀ a, e = .audit a → OneSealer 1 a :=
    Sample.oneSealer_reads (by decide) (by decide)
  refine ⟨hone, ?_⟩
  have hrun₁ : (run (exec (auditProgram Sample.env)) (Cfg.idle Store.empty)
      (Sample.appendOne 1 5000)).any Sample.firstAppended = true := by
    decide +kernel
  have hrun₂ : (run (exec (auditProgram Sample.env)) (Cfg.idle Store.empty)
      (Sample.appendOne 1 5000 ++ (Sample.appendOne 2 6000 ++ Sample.sealAll 9000))).any (fun c =>
        (seals c.db 7).any fun t => t.seqEnd = 2) = true := by
    decide +kernel
  obtain ⟨c₁, g, h₁, hlen, hb, hread⟩ := Sample.begun_of_firstAppended hrun₁
  obtain ⟨c₂, h₂, hc₂⟩ := (Option.any_eq_true _ _).mp hrun₂
  rw [run_append_eq h₁] at h₂
  have hi := inv_of_run Sample.noTrail_empty h₁
  have hrun := run_reads (some Sample.verify) Sample.noTrail_empty h₁ hb hread h₂
  have hinv := jobInv_of_run Sample.accepts_verify Sample.noTrail_empty hone hrun
  refine ⟨_, hrun, hinv.contiguous, fun halerts => ?_⟩
  obtain ⟨rep, hrep, hok⟩ := (alerts_eq_nil_iff _).mp halerts _ (List.mem_singleton_self _)
  obtain rfl := Except.ok.inj hrep
  have hchain := (read_of_rehashes hi hb fun x hx =>
    rehashes_of_readable (hi.hash_eq (mem_trailEvents.mp hx).1) (hread x hx)).2
  rw [sealReport_ok_iff hchain, hashIndex_map_readBack, verifySeals, verifySealsFrom_ok_iff fun t ht =>
    checkSignature_none Sample.accepts_verify (sealOk_of_mem hinv.trail.2.1.stored ht)] at hok
  obtain ⟨t, ht, hend⟩ := List.any_eq_true.mp hc₂
  -- the seal ends on event 2, and the events read are only event 1
  have hnone : hashIndex (trailEvents c₁.db 7) t.seqEnd = none := by
    apply hashIndex_of_not_mem
    intro e he hseq
    have hmem := List.mem_map_of_mem (f := SealedEvent.seq) he
    rw [(firstPart_read hi hb).seq, List.mem_range'_1, hlen, hseq,
      of_decide_eq_true hend] at hmem
    omega
  rw [hok.2 t (mem_sortedSeals.mpr ht)] at hnone
  cases hnone

end ArchGuard.Audit
