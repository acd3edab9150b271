import ArchGuard.AuditSealRanges

/-! When the seals of sealers that interleave follow one another. -/
namespace ArchGuard.Audit
open ReadCommitted TransitionRun

/-- A seal waits in the transaction that inserted it, and began no later than right behind
the seals committed by then. -/
structure Sealing (c : AuditCfg) : Prop where
  holder : ∀ org n i v, c.lock (.sealed org n) = some (i, v) → c.proc i = some (.commit none)
  single : ∀ org n i v org' n' v', c.lock (.sealed org n) = some (i, v) →
    c.lock (.sealed org' n') = some (i, v') → org' = org ∧ n' = n
  fresh : ∀ org n i v, c.lock (.sealed org n) = some (i, v) → c.db.row (.sealed org n) = none
  pending : ∀ org n i v, c.lock (.sealed org n) = some (i, v) →
    ∃ s, v = some s ∧ s.1.seqStart ≤ maxSealed c.db org+1
  pcs : ∀ i org row, c.proc i = some (.insertSeal org row) → row.seqStart ≤ maxSealed c.db org+1

section Steps

variable {env : Env} {c c' : AuditCfg} {e : Event Req}

theorem sealing_idle (db : Db) : Sealing (Cfg.idle db : AuditCfg) where
  holder _ _ _ _ h := by cases h
  single _ _ _ _ _ _ _ h := by cases h
  fresh _ _ _ _ h := by cases h
  pending _ _ _ _ h := by cases h
  pcs _ _ _ h := by cases h

theorem writes_sealed {i : ℕ} {l : Pc} {org : Uuid} {n : ℕ} {v : Option (Row (.sealed org n))}
    (h : Writes c i ((auditProgram env).next l) (.sealed org n) v) :
    ∃ row, l = .insertSeal org row ∧ n = row.seqEnd ∧ v.map Subtype.val = some row ∧
      c.viewRow i (.sealed org n) = none := by
  cases l with
  | insertSeal o row =>
    simp only [auditProgram] at h
    cases h with
    | insert hk => exact ⟨row, rfl, rfl, rfl, hk⟩
  | _ =>
    simp only [auditProgram] at h
    cases h

/-- The statements of a sealer before its seal is in. -/
def Pc.sealing : Pc → Bool
  | .readHead .. | .lastSealedSeq .. | .insertSeal .. => true
  | _ => false

theorem sealing_of_starts {l : Pc} (h : Starts l) : l.sealing = false := by
  cases l with
  | createHead e g nonce after => rfl
  | lookupSubject id row rest eventId nonce => rfl
  | fail => rfl
  | _ => exact h.elim

theorem sealing_startAppends (items : List AppendItem) : (startAppends items).sealing = false := by
  cases items with
  | nil => rfl
  | cons item items =>
    simp only [startAppends]
    cases newAuditEvent item.input item.eventId item.now with
    | error err => rfl
    | ok event => exact sealing_of_starts (starts_startSeal event item.nonce (.appends items))

theorem sealing_resume (after : After) : (resume after).sealing = false := by
  cases after with
  | appends items => exact sealing_startAppends items
  | dequeue id rest nonce => rfl
  | publish id rest eventId nonce => rfl

theorem sealing_entry {r : Req} (h : ((auditProgram env).entry r).sealing = true) :
    ∃ org sealedAt, r = .sealOrganization org sealedAt ∧
      (auditProgram env).entry r = .readHead org sealedAt := by
  cases r with
  | append items =>
    have happ : (startAppends items).sealing = true := h
    rw [sealing_startAppends] at happ
    cases happ
  | enqueue input now eventId id =>
    simp only [auditProgram] at h
    split_ifs at h
    · cases h
    split at h
    · cases h
    · rename_i event _
      rcases startEnqueue_cases event id with hstart | ⟨row, hstart⟩ <;> rw [hstart] at h <;> cases h
  | sealOrganization org sealedAt => exact ⟨org, sealedAt, rfl, rfl⟩
  | _ => cases h

theorem entry_ne_insertSeal (r : Req) (org : Uuid) (row : SealRow) :
    (auditProgram env).entry r ≠ .insertSeal org row := by
  intro h
  have hsealing : ((auditProgram env).entry r).sealing = true := by
    rw [h]
    rfl
  obtain ⟨o, sealedAt, -, hread⟩ := sealing_entry hsealing
  rw [hread] at h
  cases h

theorem sealPending_insertSeal {org o : Uuid} {sealedAt : Time} {head : ChainHead} {m : ℕ}
    {row : SealRow} (h : sealPending env o sealedAt head m = .insertSeal org row) :
    o = org ∧ row.seqStart = m+1 := by
  unfold sealPending at h
  split_ifs at h
  split at h
  · cases h
  split at h
  · cases h
  cases h
  exact ⟨rfl, rfl⟩

theorem reaches_sealing {i : ℕ} {l l' : Pc} (hstarts : ∀ next, l = .commit (some next) → Starts next)
    (h : Reaches c i ((auditProgram env).next l) l') (hl : l'.sealing = true) :
    l.sealing = true ∧
      ∀ org row, l' = .insertSeal org row → row.seqStart = maxSealed (c.view i) org+1 := by
  cases l with
  | createHead | insertEvent | dequeue | enqueue | insertSeal | enqueueTenantSwitch =>
    simp only [auditProgram] at h
    cases h <;> cases hl
  | readQueue | readOutbox =>
    simp only [auditProgram] at h
    cases h
    cases hl
  | lockHead e after =>
    simp only [auditProgram] at h
    cases h with
    | absent hk => cases hl
    | present hv =>
      dsimp only at hl
      rcases sealAfter_cases env e _ after with hseal | ⟨x, hseal, -⟩ <;> rw [hseal] at hl <;>
        cases hl
  | advanceHead x after =>
    simp only [auditProgram] at h
    cases h with
    | absent hk =>
      rw [sealing_resume] at hl
      cases hl
    | present hv =>
      rw [sealing_resume] at hl
      cases hl
  | publish id rest eventId nonce =>
    simp only [auditProgram] at h
    cases h with
    | absent hk => cases hl
    | present hv =>
      dsimp only at hl
      split at hl <;> cases hl
  | lookupSubject id r rest eventId nonce =>
    simp only [auditProgram] at h
    cases h
    dsimp only at hl
    split at hl
    · cases hl
    split at hl <;> cases hl
  | readHead o sealedAt =>
    simp only [auditProgram] at h
    cases h
    refine ⟨rfl, fun org row hrow => ?_⟩
    dsimp only at hrow
    split at hrow <;> cases hrow
  | lastSealedSeq o sealedAt head =>
    simp only [auditProgram] at h
    cases h
    refine ⟨rfl, fun org row hrow => ?_⟩
    obtain ⟨rfl, hstart⟩ := sealPending_insertSeal hrow
    exact hstart
  | commit next =>
    simp only [auditProgram] at h
    cases h
    rw [sealing_of_starts (hstarts _ rfl)] at hl
    cases hl
  | fail =>
    simp only [auditProgram] at h
    cases h

theorem Sealing.seals_grow (hc : Sealing c) (h : exec (auditProgram env) c e = some c') {org : Uuid}
    {s : SealRow} (hs : s ∈ seals c.db org) : s ∈ seals c'.db org := by
  rw [mem_seals] at hs ⊢
  rcases row_of_exec h with hrow | ⟨i, l, n, -, -, -, rfl⟩
  · rw [hrow]
    exact hs
  · rw [Cfg.commit_row_of_not_own fun r hr => ?_, hs]
    rw [hc.fresh _ _ _ _ hr] at hs
    cases hs

theorem maxSealed_view {i : ℕ} {org : Uuid} (h : ∀ n v, c.lock (.sealed org n) ≠ some (i, v)) :
    maxSealed (c.view i) org = maxSealed c.db org := by
  have hmem (s : SealRow) : s ∈ seals (c.view i) org ↔ s ∈ seals c.db org := by
    rw [mem_seals, mem_seals, Cfg.view_row, Cfg.viewRow_other (h _)]
  exact le_antisymm (maxSealed_mono fun s => (hmem s).mp) (maxSealed_mono fun s => (hmem s).mpr)

theorem Sealing.lock_cases (hc : Sealing c) (h : exec (auditProgram env) c e = some c') {org : Uuid}
    {n j : ℕ} {v : Option (Row (.sealed org n))} (hl : c'.lock (.sealed org n) = some (j, v)) :
    (c.lock (.sealed org n) = some (j, v) ∧ j ≠ e.actor) ∨
      ∃ row, e = .step j ∧ c.proc j = some (.insertSeal org row) ∧ v.map Subtype.val = some row ∧
        c.db.row (.sealed org n) = none ∧ c'.db.row (.sealed org n) = none ∧
        c'.proc j = some (.commit none) := by
  rcases lock_of_exec h hl with hold | ⟨l, rfl, hj, hw⟩
  · refine Or.inl ⟨hold, fun hja => ?_⟩
    -- the holder is about to commit, and its step releases the lock
    have hproc := hc.holder _ _ _ _ hold
    subst hja
    rcases exec_cases h with ⟨i, r, rfl, hi, rfl⟩ | ⟨i, rfl, -, rfl⟩ | ⟨i, l, rfl, hi, ha⟩
    · rw [show c.proc i = _ from hproc] at hi
      cases hi
    · exact (Cfg.releaseLock_eq_some.mp hl).2 rfl
    · obtain rfl : .commit none = l := Option.some.inj (hproc.symm.trans hi)
      obtain rfl := act_commit ha
      exact (Cfg.releaseLock_eq_some.mp hl).2 rfl
  · obtain ⟨row, rfl, rfl, hv, hview⟩ := writes_sealed hw
    have hnone (n : ℕ) (w : Option (Row (.sealed org n))) : c.lock (.sealed org n) ≠ some (j, w) := by
      intro hw
      have hproc := hc.holder _ _ _ _ hw
      rw [hj] at hproc
      cases hproc
    have hdb : c.db.row (.sealed org row.seqEnd) = none := by
      rw [← hview]
      exact (Cfg.viewRow_other (hnone _)).symm
    refine Or.inr ⟨row, rfl, hj, hv, hdb, (row_of_locked h hl).trans hdb, ?_⟩
    simp only [exec, hj, Option.bind_some] at h
    rcases act_insert h with ⟨-, -, rfl⟩ | ⟨-, rfl⟩ <;> simp

theorem Sealing.step (hi : Inv env.nfc c) (hc : Sealing c)
    (h : exec (auditProgram env) c e = some c') : Sealing c' := by
  have hmono (org : Uuid) : maxSealed c.db org ≤ maxSealed c'.db org :=
    maxSealed_mono fun s hs => hc.seals_grow h hs
  refine ⟨?_, ?_, ?_, ?_, ?_⟩
  · intro org n j v hl
    rcases hc.lock_cases h hl with ⟨hold, hj⟩ | ⟨row, -, -, -, -, -, hproc⟩
    · rw [(frame_of_exec h hj).2]
      exact hc.holder _ _ _ _ hold
    · exact hproc
  · intro org n j v org' n' v' hl hl'
    rcases hc.lock_cases h hl with ⟨hold, hj⟩ | ⟨row, rfl, hproc, hv, hdb, -⟩
    · rcases hc.lock_cases h hl' with ⟨hold', -⟩ | ⟨row', rfl, -⟩
      · exact hc.single _ _ _ _ _ _ _ hold hold'
      · exact absurd rfl hj
    · rcases hc.lock_cases h hl' with ⟨-, hj⟩ | ⟨row', -, hproc', hv', -⟩
      · exact absurd rfl hj
      -- one statement inserts one seal
      · obtain ⟨rfl, rfl⟩ := Pc.insertSeal.inj (Option.some.inj (hproc.symm.trans hproc'))
        obtain ⟨w, rfl, rfl⟩ := Option.map_eq_some_iff.mp hv
        obtain ⟨w', rfl, hw⟩ := Option.map_eq_some_iff.mp hv'
        exact ⟨rfl, by rw [← w'.2, hw, w.2]⟩
  · intro org n j v hl
    rcases hc.lock_cases h hl with ⟨hold, -⟩ | ⟨row, -, -, -, -, hdb, -⟩
    · rw [row_of_locked h hl]
      exact hc.fresh _ _ _ _ hold
    · exact hdb
  · intro org n j v hl
    rcases hc.lock_cases h hl with ⟨hold, -⟩ | ⟨row, -, hproc, hv, -⟩
    · obtain ⟨s, hs, hle⟩ := hc.pending _ _ _ _ hold
      exact ⟨s, hs, hle.trans (Nat.add_le_add_right (hmono org) 1)⟩
    · obtain ⟨s, rfl, rfl⟩ := Option.map_eq_some_iff.mp hv
      exact ⟨s, rfl, (hc.pcs _ _ _ hproc).trans (Nat.add_le_add_right (hmono org) 1)⟩
  · intro j org row hl
    rcases proc_of_exec h hl with ⟨hold, -⟩ | ⟨r, -, -, hentry⟩ | ⟨l, rfl, hj, hr⟩
    · exact (hc.pcs _ _ _ hold).trans (Nat.add_le_add_right (hmono org) 1)
    · exact absurd hentry.symm (entry_ne_insertSeal r org row)
    · have hrow := (reaches_sealing (fun next hnext => ?_) hr rfl).2 org row rfl
      · rw [hrow, maxSealed_view fun n v hl' => ?_]
        · exact Nat.add_le_add_right (hmono org) 1
        -- a holder of a seal goes on to no further statement
        · rw [hc.holder _ _ _ _ hl', Option.some.injEq] at hj
          subst hj
          simp only [auditProgram] at hr
          cases hr
      · subst hnext
        exact (hi.pcs j _ hj).2 next rfl

/-- The seal a sealer commits begins right behind the last committed one. -/
def SealsInTurn (c : AuditCfg) (e : Event Req) : Prop :=
  ∀ i org n s, e = .step i → c.lock (.sealed org n) = some (i, some s) →
    s.1.seqStart = maxSealed c.db org+1

theorem SealInv.range (hs : SealInv env c) {org : Uuid} {s : SealRow} (h : s ∈ seals c.db org) :
    s.seqStart ≤ s.seqEnd := by
  obtain ⟨v, hv, hvs⟩ := Option.map_eq_some_iff.mp (mem_seals.mp h)
  have hrange := (hs.stored _ _ v hv).range
  rwa [hvs] at hrange

theorem Sealing.mem_seals_commit (hc : Sealing c) {i n : ℕ} {org : Uuid} {s : Row (.sealed org n)}
    (hl : c.lock (.sealed org n) = some (i, some s)) (org' : Uuid) (t : SealRow) :
    t ∈ seals (c.commit i none).db org' ↔ (org' = org ∧ t = s.1) ∨ t ∈ seals c.db org' := by
  rw [mem_seals, mem_seals, Cfg.commit_row]
  by_cases hkey : org' = org ∧ t.seqEnd = n
  · obtain ⟨rfl, rfl⟩ := hkey
    rw [Cfg.viewRow_own hl, hc.fresh _ _ _ _ hl]
    simp [eq_comm]
  · have hother : c.viewRow i (.sealed org' t.seqEnd) = c.db.row (.sealed org' t.seqEnd) :=
      Cfg.viewRow_other fun r hr => hkey (hc.single _ _ _ _ _ _ _ hl hr)
    have hne : ¬(org' = org ∧ t = s.1) := fun h => hkey ⟨h.1, h.2 ▸ s.2⟩
    rw [hother]
    simp only [hne, false_or]

theorem contiguous_commit_iff (hs : SealInv env c) (hc : Sealing c) (ht : Contiguous c.db) {i n : ℕ}
    {org : Uuid} {s : Row (.sealed org n)} (hl : c.lock (.sealed org n) = some (i, some s)) :
    Contiguous (c.commit i none).db ↔ s.1.seqStart = maxSealed c.db org+1 := by
  have hmem := hc.mem_seals_commit hl
  obtain ⟨s', hs', hle⟩ := hc.pending _ _ _ _ hl
  obtain rfl : s = s' := Option.some.inj hs'
  have hok := hs.pending _ _ _ _ hl
  have hend := endOf_sortedSeals (fun t ht => hs.range ht) (ht org)
  have hnew : s.1 ∉ seals c.db org := by
    intro h
    rw [mem_seals, s.2, hc.fresh _ _ _ _ hl] at h
    cases h
  have hperm : (sortedSeals org (c.commit i none).db).Perm (s.1 :: sortedSeals org c.db) := by
    refine (List.perm_insertionSort _ _).trans (.trans ?_ ((List.perm_insertionSort _ _).symm.cons s.1))
    apply (List.perm_ext_iff_of_nodup nodup_seals (nodup_seals.cons hnew)).mpr
    intro t
    rw [hmem org t, List.mem_cons, eq_self, true_and]
  have hiff := tiles_insert_iff (fun t ht => hs.range (mem_sortedSeals.mp ht)) (ht org) hok.range
    hok.start (hend ▸ hle) hperm sorted_sortedSeals
  rw [hend] at hiff
  constructor
  · exact fun h => hiff.mp (h org)
  · intro hstart org'
    by_cases ho : org' = org
    · subst ho
      exact hiff.mpr hstart
    · refine tiles_congr (fun t ht => hs.range ht) (fun t => ?_) (ht org')
      rw [hmem org' t]
      simp only [ho, false_and, false_or]

def SealCommit (c : AuditCfg) (e : Event Req) : Prop :=
  ∃ i org n s, e = .step i ∧ c.lock (.sealed org n) = some (i, some s)

theorem Sealing.mem_seals_of_not_commit (hc : Sealing c) (h : exec (auditProgram env) c e = some c')
    (hseal : ¬SealCommit c e) (org : Uuid) (t : SealRow) :
    t ∈ seals c'.db org ↔ t ∈ seals c.db org := by
  have hrow : c'.db.row (.sealed org t.seqEnd) = c.db.row (.sealed org t.seqEnd) := by
    rcases row_of_exec h with hrow | ⟨i, l, n, rfl, -, -, rfl⟩
    · rw [hrow]
    · refine Cfg.commit_row_of_not_own fun r hr => hseal ?_
      obtain ⟨s, rfl, -⟩ := hc.pending _ _ _ _ hr
      exact ⟨i, org, _, s, rfl, hr⟩
  rw [mem_seals, mem_seals, hrow]

theorem contiguous_step_iff (hs : SealInv env c) (hc : Sealing c) (ht : Contiguous c.db)
    (h : exec (auditProgram env) c e = some c') : Contiguous c'.db ↔ SealsInTurn c e := by
  by_cases hseal : SealCommit c e
  · obtain ⟨i, org, n, s, rfl, hl⟩ := hseal
    simp only [exec, hc.holder _ _ _ _ hl, Option.bind_some] at h
    obtain rfl := act_commit h
    rw [contiguous_commit_iff hs hc ht hl]
    constructor
    · rintro hstart j org' n' s' he hl'
      obtain rfl := Event.step.inj he
      obtain ⟨rfl, rfl⟩ := hc.single _ _ _ _ _ _ _ hl hl'
      obtain rfl : s = s' := by simpa using hl.symm.trans hl'
      exact hstart
    · exact fun hturn => hturn i org n s rfl hl
  · have hturn : SealsInTurn c e := fun i org n s he hl => absurd ⟨i, org, n, s, he, hl⟩ hseal
    refine iff_of_true (fun org => tiles_congr (fun t ht => hs.range ht) (fun t => ?_) (ht org)) hturn
    exact hc.mem_seals_of_not_commit h hseal org t

/-- Every sealing transaction of the run is one and the same process. -/
def OneSealer (k : ℕ) (e : Event Req) : Prop :=
  ∀ i org sealedAt, e = .start i (.sealOrganization org sealedAt) → i = k

/-- The one sealer's seal begins right behind the committed ones. -/
structure OneSealing (k : ℕ) (c : AuditCfg) : Prop where
  only : ∀ i l, c.proc i = some l → l.sealing = true → i = k
  holder : ∀ org n i v, c.lock (.sealed org n) = some (i, v) → i = k
  pcs : ∀ org row, c.proc k = some (.insertSeal org row) → row.seqStart = maxSealed c.db org+1
  pending : ∀ org n i s, c.lock (.sealed org n) = some (i, some s) →
    s.1.seqStart = maxSealed c.db org+1

theorem oneSealing_idle (k : ℕ) (db : Db) : OneSealing k (Cfg.idle db : AuditCfg) where
  only _ _ h := by cases h
  holder _ _ _ _ h := by cases h
  pcs _ _ h := by cases h
  pending _ _ _ _ h := by cases h

theorem OneSealing.inTurn {k : ℕ} (ho : OneSealing k c) : SealsInTurn c e :=
  fun i org n s _ hl => ho.pending org n i s hl

theorem OneSealing.step {k : ℕ} (hi : Inv env.nfc c) (hc : Sealing c) (ho : OneSealing k c)
    (hone : OneSealer k e) (h : exec (auditProgram env) c e = some c') : OneSealing k c' := by
  have hstarts (j : ℕ) (l next : Pc) (hj : c.proc j = some l) (hl : l = .commit (some next)) :
      Starts next := by
    subst hl
    exact (hi.pcs j _ hj).2 next rfl
  have honly : ∀ j l, c'.proc j = some l → l.sealing = true → j = k := by
    intro j l hl hsealing
    rcases proc_of_exec h hl with ⟨hold, -⟩ | ⟨r, rfl, -, rfl⟩ | ⟨l', rfl, hj, hr⟩
    · exact ho.only j l hold hsealing
    · obtain ⟨org, sealedAt, rfl, -⟩ := sealing_entry hsealing
      exact hone j org sealedAt rfl
    · exact ho.only j l' hj (reaches_sealing (fun next => hstarts j l' next hj) hr hsealing).1
  have hholder : ∀ org n j v, c'.lock (.sealed org n) = some (j, v) → j = k := by
    intro org n j v hl
    rcases hc.lock_cases h hl with ⟨hold, -⟩ | ⟨row, -, hj, -⟩
    · exact ho.holder org n j v hold
    · exact ho.only j _ hj rfl
  by_cases hseal : SealCommit c e
  -- the sealer commits: it is done, and nobody else has a seal
  · obtain ⟨i, org, n, s, rfl, hl⟩ := hseal
    obtain rfl := ho.holder org n i _ hl
    simp only [exec, hc.holder _ _ _ _ hl, Option.bind_some] at h
    obtain rfl := act_commit h
    refine ⟨honly, hholder, fun o row hproc => ?_, fun o m j s' hl' => ?_⟩
    · simp at hproc
    · exact absurd (hholder o m j _ hl') (Cfg.releaseLock_eq_some.mp hl').2
  · have hmem := hc.mem_seals_of_not_commit h hseal
    have hmax (org : Uuid) : maxSealed c'.db org = maxSealed c.db org :=
      le_antisymm (maxSealed_mono fun t => (hmem org t).mp) (maxSealed_mono fun t => (hmem org t).mpr)
    refine ⟨honly, hholder, fun org row hproc => ?_, fun org n j s hl => ?_⟩
    · rw [hmax]
      rcases proc_of_exec h hproc with ⟨hold, -⟩ | ⟨r, -, -, hentry⟩ | ⟨l', rfl, hj, hr⟩
      · exact ho.pcs org row hold
      · exact absurd hentry.symm (entry_ne_insertSeal r org row)
      · have hreach := reaches_sealing (fun next => hstarts k l' next hj) hr rfl
        rw [hreach.2 org row rfl, maxSealed_view fun n v hl => ?_]
        rw [hc.holder _ _ _ _ hl, Option.some.injEq] at hj
        subst hj
        cases hreach.1
    · rw [hmax]
      rcases hc.lock_cases h hl with ⟨hold, -⟩ | ⟨row, -, hj, hv, -⟩
      · exact ho.pending org n j s hold
      · obtain rfl := ho.only j _ hj rfl
        rw [Option.map_some, Option.some.injEq] at hv
        rw [hv]
        exact ho.pcs org row hj

end Steps

section Runs

variable {env : Env} {db : Db} {c : AuditCfg} {es : List (Event Req)} {verifier : Option SealVerifier}

theorem strict_trailEvents {nfc : GoText.GoString → GoText.GoString} (hi : Inv nfc c) (org : Uuid) :
    (trailEvents c.db org).Pairwise fun a b => a.seq < b.seq := by
  rcases hi.base org with ⟨-, ht⟩ | ⟨h, g, trail, hc, ht⟩
  · rw [trailEvents_eq ht List.Pairwise.nil]
    exact List.Pairwise.nil
  · have hlt := pairwise_of_linked hc.linked
    rw [trailEvents_eq ht hlt]
    exact hlt

theorem verifySeals_ok_iff (hv : Accepts env verifier) (hi : Inv env.nfc c)
    (hs : SealInv env c) (org : Uuid) :
    (verifySeals verifier org (hashIndex (trailEvents c.db org)) c.db).ok = true ↔
      Tiles 0 (sortedSeals org c.db) := by
  have hok (s : SealRow) (hs' : s ∈ sortedSeals org c.db) : SealOk env c.db org s :=
    sealOk_of_mem hs.stored hs'
  rw [verifySeals, verifySealsFrom_ok_iff fun s hs' => checkSignature_none hv (hok s hs')]
  apply and_iff_left
  intro s hs'
  obtain ⟨e, he, ho, hseq, hhash⟩ := (hok s hs').ends
  rw [← hseq, ← hhash]
  exact hashIndex_of_mem (strict_trailEvents hi org) (mem_trailEvents.mpr ⟨he, ho⟩)

/-- What a run of the audit transactions keeps of every trail and its seals. -/
def SealedTrail (env : Env) (c : AuditCfg) : Prop := Inv env.nfc c ∧ SealInv env c ∧ Sealing c

theorem SealedTrail.step {c' : AuditCfg} {e : Event Req} (hc : SealedTrail env c)
    (h : exec (auditProgram env) c e = some c') : SealedTrail env c' :=
  ⟨hc.1.step h, hc.2.1.step hc.1 h, hc.2.2.step hc.1 h⟩

theorem sealedTrail_idle (hdb : NoTrail db) : SealedTrail env (Cfg.idle db) :=
  ⟨inv_idle hdb, sealInv_idle hdb, sealing_idle db⟩

theorem contiguous_idle (hdb : NoTrail db) : Contiguous (Cfg.idle db : AuditCfg).db := by
  intro org
  have hnil : sortedSeals org db = [] := by
    rw [List.eq_nil_iff_forall_not_mem]
    intro s hs
    rw [mem_sortedSeals, mem_seals, hdb.noSeal] at hs
    cases hs
  change Tiles 0 (sortedSeals org db)
  rw [hnil]
  trivial

/-- The committed seals of every organization tile, and the seal leg accepts them. -/
def SealsAccepted (verifier : Option SealVerifier) (db : Db) : Prop :=
  ∀ org, Tiles 0 (sortedSeals org db) ∧
    (verifySeals verifier org (hashIndex (trailEvents db org)) db).ok = true

/-- Over any run of appends and sealers, the seals are contiguous and accepted in every state
exactly when each sealer commits a seal that begins right behind the last committed one,
that is, when no other seal was committed since it read the last sealed number. -/
theorem sealsAccepted_iff_inTurn (hv : Accepts env verifier) (hdb : NoTrail db)
    (hrun : run (exec (auditProgram env)) (Cfg.idle db) es = some c) :
    (∀ pre post c', es = pre ++ post →
        run (exec (auditProgram env)) (Cfg.idle db) pre = some c' → SealsAccepted verifier c'.db) ↔
      Along (exec (auditProgram env)) SealsInTurn (Cfg.idle db) es := by
  have hiff := stays_iff_along_of_run (J := SealedTrail env) (I := fun c => Contiguous c.db)
    (A := fun _ => True) (fun s e s' _ hs _ he => hs.step he)
    (fun s e s' hs ht he => contiguous_step_iff hs.2.1 hs.2.2 ht he)
    (fun _ _ => trivial) (sealedTrail_idle hdb) (contiguous_idle hdb) hrun
  rw [← hiff]
  have hacc (pre : List (Event Req)) (c' : AuditCfg)
      (hpre : run (exec (auditProgram env)) (Cfg.idle db) pre = some c') :
      SealsAccepted verifier c'.db ↔ Contiguous c'.db := by
    have hinv := inv_of_run hdb hpre
    have hseal := sealInv_of_run hdb hpre
    exact forall_congr' fun org => and_iff_left_of_imp (verifySeals_ok_iff hv hinv hseal org).mpr
  constructor
  · exact fun h pre post c' he hpre => (hacc pre c' hpre).mp (h pre post c' he hpre)
  · exact fun h pre post c' he hpre => (hacc pre c' hpre).mpr (h pre post c' he hpre)

end Runs

namespace Sample

/-- Two events are appended, and each is sealed before the next one comes. -/
def sealedTwice : List (Event Req) :=
  sealedOnce ++ [.start 0 (.sealOrganization 7 9500), .step 0, .step 0, .step 0, .step 0]

/-- A sealer stops before its INSERT; an event is appended, and a second sealer overtakes it. -/
def overtaken : List (Event Req) :=
  [.start 0 (.append [login 1 7 5000]), .step 0, .step 0, .step 0, .step 0, .step 0,
    .start 1 (.sealOrganization 7 8000), .step 1, .step 1,
    .start 0 (.append [login 2 7 6000]), .step 0, .step 0, .step 0, .step 0, .step 0,
    .start 2 (.sealOrganization 7 9000), .step 2, .step 2, .step 2, .step 2, .step 1, .step 1]

def inTurn (c : AuditCfg) : Event Req → Bool
  | .step i => c.db.keys.all fun
    | .sealed org n =>
      match c.lock (.sealed org n) with
      | some (j, some s) => j ≠ i || s.1.seqStart = maxSealed c.db org+1
      | _ => true
    | _ => true
  | _ => true

theorem ok_of_inTurn (c : AuditCfg) (e : Event Req) (h : inTurn c e = true) : SealsInTurn c e := by
  intro i org n s he hl
  subst he
  have hkey := List.all_eq_true.mp h _ (c.locked_mem _ _ _ hl)
  simpa [hl] using hkey

end Sample

theorem sealsAccepted_sealed_twice :
    ∃ c, run (exec (auditProgram Sample.env)) (Cfg.idle Store.empty) Sample.sealedTwice = some c ∧
      ((sortedSeals 7 c.db).map fun s => (s.seqStart, s.seqEnd)) = [(1, 1), (2, 2)] ∧
      SealsAccepted (some Sample.verify) c.db := by
  have hrun : (run (exec (auditProgram Sample.env)) (Cfg.idle Store.empty) Sample.sealedTwice).any
      (fun c => ((sortedSeals 7 c.db).map fun s => (s.seqStart, s.seqEnd)) = [(1, 1), (2, 2)]) =
        true := by
    decide +kernel
  have hturn : Along (exec (auditProgram Sample.env)) SealsInTurn (Cfg.idle Store.empty)
      Sample.sealedTwice := along_of_check Sample.ok_of_inTurn (by decide +kernel)
  obtain ⟨c, hc, hends⟩ := (Option.any_eq_true _ _).mp hrun
  refine ⟨c, hc, of_decide_eq_true hends, ?_⟩
  exact (sealsAccepted_iff_inTurn Sample.accepts_verify Sample.noTrail_empty hc).mpr hturn
    Sample.sealedTwice [] c (by simp) hc

/-- Two sealers that read the same last number both commit: the seals overlap, and the seal
leg rejects the untampered trail. -/
theorem concurrent_seals_overlap :
    ∃ c, run (exec (auditProgram Sample.env)) (Cfg.idle Store.empty) Sample.overtaken = some c ∧
      ((sortedSeals 7 c.db).map fun s => (s.seqStart, s.seqEnd)) = [(1, 1), (1, 2)] ∧
      ¬Tiles 0 (sortedSeals 7 c.db) ∧
      (verifySeals (some Sample.verify) 7 (hashIndex (trailEvents c.db 7)) c.db).ok = false := by
  have hrun : (run (exec (auditProgram Sample.env)) (Cfg.idle Store.empty) Sample.overtaken).any
      (fun c => ((sortedSeals 7 c.db).map fun s => (s.seqStart, s.seqEnd)) = [(1, 1), (1, 2)]) =
        true := by
    decide +kernel
  obtain ⟨c, hc, hdec⟩ := (Option.any_eq_true _ _).mp hrun
  have hseals := of_decide_eq_true hdec
  have htiles : ¬Tiles 0 (sortedSeals 7 c.db) := by
    intro h
    obtain ⟨a, rest, hsorted, ha, hrest⟩ := List.map_eq_cons_iff.mp hseals
    obtain ⟨b, rest, rfl, hb, -⟩ := List.map_eq_cons_iff.mp hrest
    rw [hsorted] at h
    have hstart : b.seqStart = a.seqEnd+1 := h.2.1
    obtain ⟨-, hend⟩ := Prod.mk.inj ha
    obtain ⟨hbstart, -⟩ := Prod.mk.inj hb
    omega
  refine ⟨c, hc, hseals, htiles, ?_⟩
  have hiff := verifySeals_ok_iff Sample.accepts_verify (inv_of_run Sample.noTrail_empty hc)
    (sealInv_of_run Sample.noTrail_empty hc) 7
  rw [← Bool.not_eq_true, hiff]
  exact htiles

end ArchGuard.Audit
