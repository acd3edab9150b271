import ArchGuard.AuditInvariant

/-! Every interleaving of the audit transactions keeps every chain in order. -/
namespace ArchGuard.Audit
open ReadCommitted TransitionRun Sha256

variable {nfc : GoText.GoString → GoText.GoString} {env : Env} {c c' : AuditCfg} {i j : ℕ} {org : Uuid}

theorem HoldsHead.unique (hi : HoldsHead c i org) (hj : HoldsHead c j org) : i = j := by
  obtain ⟨v, hv⟩ := hi
  obtain ⟨w, hw⟩ := hj
  rw [hv, Option.some.injEq, Prod.mk.injEq] at hw
  exact hw.1

theorem holdsHead_frame (hf : Frame c c' j) : HoldsHead c' j org ↔ HoldsHead c j org :=
  exists_congr fun v => hf.lock _ v

theorem Inv.sameOrg_commit (hc : Inv nfc c) (hij : j ≠ i) (hj : HoldsHead c j org)
    (n : Option Pc) : SameOrg (c.view j) ((c.commit i n).view j) org := by
  have hf : Frame c (c.commit i n) j := .commit n hij
  have hown (k : Key) (hi : ∀ r, c.lock k ≠ some (i, r)) :
      (c.commit i n).viewRow j k = c.viewRow j k := by
    rcases c.viewRow_cases j k with ⟨r, hr, he⟩ | ⟨hn, he⟩
    · rw [he, Cfg.viewRow_own ((hf.lock k r).mpr hr)]
    · rw [he, Cfg.viewRow_other fun r hr => hn r ((hf.lock k r).mp hr),
        Cfg.commit_row_of_not_own hi]
  -- `i` does not hold the head of `j`, so it has written neither the head nor an event there
  have hni : ¬HoldsHead c i org := fun hi => hij (hj.unique hi)
  exact ⟨hown _ fun r hr => hni ⟨r, hr⟩, fun t s => hown _ fun r hr => hni (hc.guard org t s i r hr)⟩

/-- What a step must establish: the committed rows are the same, or those the acting
transaction saw in order; its event locks; and what it sees at its next statement. -/
theorem Inv.of_step {e : Event Req} (hc : Inv nfc c) (h : exec (auditProgram env) c e = some c')
    (hbase : c'.db.row = c.db.row ∨
      ∃ n, c' = c.commit e.actor n ∧ ∀ org, ChainOk nfc (c.view e.actor) org)
    (hguard : ∀ org t s v, c'.lock (.event org t s) = some (e.actor, v) → HoldsHead c' e.actor org)
    (hpc : ∀ l, c'.proc e.actor = some l → ViewOk nfc (c'.view e.actor) l ∧
      ∀ org, needsHead l = some org → HoldsHead c' e.actor org) : Inv nfc c' := by
  have hchain (org : Uuid) : ChainOk nfc c'.db org := by
    rcases hbase with hrow | ⟨n, rfl, hok⟩
    · exact SameOrg.chainOk ⟨congrFun hrow _, fun t s => congrFun hrow _⟩ (hc.base org)
    · exact SameOrg.chainOk ⟨rfl, fun t s => rfl⟩ (hok org)
  have hlocks (org : Uuid) (t : ℤ) (s k : ℕ) (v : Option (Row (.event org t s)))
      (hl : c'.lock (.event org t s) = some (k, v)) : HoldsHead c' k org := by
    by_cases hk : k = e.actor
    · exact hk ▸ hguard org t s v (hk ▸ hl)
    · have hf := (frame_of_exec h hk).1
      exact (holdsHead_frame hf).mpr (hc.guard org t s k v ((hf.lock _ _).mp hl))
  refine ⟨hc.live.step h, hchain, hlocks, fun k l hl => ?_, fun k l org hl hneed => ?_⟩
  · by_cases hk : k = e.actor
    · exact hk ▸ (hpc l (hk ▸ hl)).1
    obtain ⟨hf, hproc⟩ := frame_of_exec h hk
    have hl' : c.proc k = some l := hproc ▸ hl
    refine ViewOk.renew (fun org => ?_) (hc.pcs k l hl')
    rcases hbase with hrow | ⟨n, rfl, -⟩
    · exact Or.inl ⟨hf.viewRow hrow _, fun t s => hf.viewRow hrow _⟩
    -- a commit of another transaction: the chain in progress is locked against it
    · by_cases hh : HoldsHead c k org
      · exact Or.inl (hc.sameOrg_commit hk hh n)
      · refine Or.inr ⟨fun hneed => hh (hc.heads k l org hl' hneed), ?_⟩
        have hh' : ¬HoldsHead (c.commit e.actor n) k org := fun hx =>
          hh ((holdsHead_frame hf).mp hx)
        refine SameOrg.chainOk ⟨?_, fun t s => ?_⟩ (hchain org)
        · exact Cfg.viewRow_other fun r hr => hh' ⟨r, hr⟩
        · exact Cfg.viewRow_other fun r hr => hh' (hlocks org t s k r hr)
  · by_cases hk : k = e.actor
    · exact hk ▸ (hpc l (hk ▸ hl)).2 org hneed
    obtain ⟨hf, hproc⟩ := frame_of_exec h hk
    exact (holdsHead_frame hf).mpr (hc.heads k l org (hproc ▸ hl) hneed)

theorem Inv.rollback {e : Event Req} (hc : Inv nfc c)
    (h : exec (auditProgram env) c e = some c') (hc' : c' = c.rollback e.actor) : Inv nfc c' := by
  subst hc'
  refine hc.of_step h (Or.inl rfl) (fun org t s v hl => ?_) fun l hl => ?_
  · exact absurd rfl (Cfg.releaseLock_eq_some.mp hl).2
  · simp at hl

section Steps

variable {l l' : Pc} (hc : Inv nfc c) (h : exec (auditProgram env) c (.step i) = some c')

include hc h

theorem Inv.goto (hc' : c' = c.goto i l') (hview : ViewOk nfc (c.view i) l')
    (hneed : needsHead l' = none) : Inv nfc c' := by
  subst hc'
  apply hc.of_step h (Or.inl rfl) (fun org t s v hl => hc.guard org t s i v hl)
  intro l hl
  obtain rfl : l' = l := by simpa [Event.actor] using hl
  exact ⟨hview, fun org ho => by rw [hneed] at ho; cases ho⟩

theorem Inv.write {k : Key} {r : Option (Row k)} (hc' : c' = (c.write i k r).goto i l')
    (hevent : ∀ org t s, k = .event org t s → HoldsHead c i org)
    (hview : ViewOk nfc (c'.view i) l')
    (hneed : ∀ org, needsHead l' = some org → HoldsHead c' i org) : Inv nfc c' := by
  have hkeep (org : Uuid) (hh : HoldsHead c i org) : HoldsHead c' i org := by
    subst hc'
    by_cases hk : Key.head org = k
    · subst hk
      exact ⟨r, by simp⟩
    · exact hh.imp fun v hv => by simpa [Function.update_of_ne hk] using hv
  refine hc.of_step h (Or.inl (by rw [hc']; rfl)) (fun org t s v hl => hkeep org ?_) fun l hl => ?_
  · by_cases hk : Key.event org t s = k
    · exact hevent org t s hk.symm
    · apply hc.guard org t s i v
      rw [hc'] at hl
      simpa [Function.update_of_ne hk, Event.actor] using hl
  · obtain rfl : l' = l := by
      rw [hc'] at hl
      simpa [Event.actor] using hl
    exact ⟨hview, hneed⟩

theorem Inv.commit {n : Option Pc} (hc' : c' = c.commit i n)
    (hview : ∀ org, ChainOk nfc (c.view i) org) (hn : ∀ l, n = some l → Starts l) :
    Inv nfc c' := by
  subst hc'
  refine hc.of_step h (Or.inr ⟨n, rfl, hview⟩) (fun org t s v hl => ?_) fun l hl => ?_
  · exact absurd rfl (Cfg.releaseLock_eq_some.mp hl).2
  · have hl' : n = some l := by simpa [Event.actor] using hl
    refine ⟨viewOk_of_starts (fun org => ?_) (hn l hl'), fun org ho => ?_⟩
    · refine SameOrg.chainOk ⟨?_, fun t s => ?_⟩ (hview org) <;> exact viewRow_commit_self n _
    · rw [needsHead_of_starts (hn l hl')] at ho
      cases ho

end Steps

theorem sameOrg_write {k : Key} {r : Option (Row k)} (l : Pc) (hhead : Key.head org ≠ k)
    (hevent : ∀ t s, Key.event org t s ≠ k) :
    SameOrg (c.view i) (((c.write i k r).goto i l).view i) org where
  head := viewRow_write_of_ne l hhead
  event t s := viewRow_write_of_ne l (hevent t s)

section Statements

variable (hc : Inv env.nfc c) (h : exec (auditProgram env) c (.step i) = some c')

include hc h

theorem Inv.write_other {k : Key} {r : Option (Row k)} {l' : Pc}
    (hc' : c' = (c.write i k r).goto i l') (hhead : ∀ org, Key.head org ≠ k)
    (hevent : ∀ org t s, Key.event org t s ≠ k) (hview : ViewOk env.nfc (c.view i) l')
    (hneed : needsHead l' = none) : Inv env.nfc c' := by
  refine hc.write h hc' (fun org t s hk => absurd hk.symm (hevent org t s)) ?_ fun org ho => by
    rw [hneed] at ho
    cases ho
  subst hc'
  exact hview.renew fun org => Or.inl (sameOrg_write l' (hhead org) (hevent org))

theorem Inv.insert_other {k : Key} {v : Row k} {a b : Pc}
    (ha : c.act i (.insert k v a b) = some c') (hhead : ∀ org, Key.head org ≠ k)
    (hevent : ∀ org t s, Key.event org t s ≠ k)
    (hinserted : ViewOk env.nfc (c.view i) a ∧ needsHead a = none)
    (hconflict : ViewOk env.nfc (c.view i) b ∧ needsHead b = none) : Inv env.nfc c' := by
  rcases act_insert ha with ⟨-, -, hc'⟩ | ⟨-, hc'⟩
  · exact hc.write_other h hc' hhead hevent hinserted.1 hinserted.2
  · exact hc.goto h hc' hconflict.1 hconflict.2

theorem Inv.createHead {e : AuditEvent} {genesis : Bytes} {nonce : Nonce} {after : After}
    (hl : c.proc i = some (.createHead e genesis nonce after))
    (ha : c.act i ((auditProgram env).next (.createHead e genesis nonce after)) = some c') :
    Inv env.nfc c' := by
  obtain ⟨hchains, hg⟩ := hc.pcs i _ hl
  rcases act_insert ha with ⟨hn, hfree, hc'⟩ | ⟨-, hc'⟩
  swap
  · exact hc.goto h hc' hchains rfl
  refine hc.write h hc' (fun org t s hk => by cases hk) ?_ fun org ho => by cases ho
  -- the new head row starts its own chain; the others are as they were
  intro org
  subst hc'
  by_cases ho : org = e.organizationId
  · subst ho
    exact chainOk_createHead hg (hchains _) hn (viewRow_write_self _) fun o t n =>
      viewRow_write_of_ne _ (by simp)
  · exact (sameOrg_write _ (by simpa using ho) (by simp)).chainOk (hchains org)

theorem Inv.lockHead {e : AuditEvent} {after : After} (hl : c.proc i = some (.lockHead e after))
    (ha : c.act i ((auditProgram env).next (.lockHead e after)) = some c') :
    Inv env.nfc c' := by
  have hchains : ∀ org, ChainOk env.nfc (c.view i) org := hc.pcs i _ hl
  rcases act_update ha with ⟨-, hc'⟩ | ⟨hd, hrow, hfree, hc'⟩
  · exact hc.goto h hc' trivial rfl
  -- the head is locked, and its row as it was
  have hsame (org : Uuid) : SameOrg (c.view i) (c'.view i) org := by
    subst hc'
    refine ⟨?_, fun t n => viewRow_write_of_ne _ (by simp)⟩
    by_cases ho : org = e.organizationId
    · subst ho
      exact (viewRow_write_self _).trans hrow.symm
    · exact viewRow_write_of_ne _ (by simpa using ho)
  have hchains' (org : Uuid) : ChainOk env.nfc (c'.view i) org := (hsame org).chainOk (hchains org)
  have hheld : HoldsHead c' i e.organizationId := by
    subst hc'
    exact ⟨some hd, by simp⟩
  rcases sealAfter_cases env e hd after with hx | ⟨x, hx, hsealed⟩
  · rw [hx] at hc'
    exact hc.write h hc' (fun org t s hk => by cases hk) trivial fun org ho => by cases ho
  · rw [hx] at hc'
    have horg : x.1.event.organizationId = e.organizationId := by rw [hsealed]
    refine hc.write h hc' (fun org t s hk => by cases hk) ⟨hchains', hd, ?_⟩ fun org ho => ?_
    · rw [hsealed]
      exact ⟨(hsame _).head.trans hrow, rfl, rfl, rfl⟩
    · rw [← Option.some.inj ho, horg]
      exact hheld

theorem Inv.insertEvent {x : StoredEvent} {after : After}
    (hl : c.proc i = some (.insertEvent x after))
    (ha : c.act i ((auditProgram env).next (.insertEvent x after)) = some c') :
    Inv env.nfc c' := by
  obtain ⟨hchains, hd, hx⟩ := hc.pcs i _ hl
  have hheld : HoldsHead c i x.1.event.organizationId := hc.heads i _ _ hl rfl
  rcases act_insert ha with ⟨hn, hfree, hc'⟩ | ⟨-, hc'⟩
  swap
  · exact hc.goto h hc' trivial rfl
  refine hc.write h hc' (fun org t s hk => ?_) ⟨fun org ho => ?_, ?_⟩ fun org ho => ?_
  · cases hk
    exact hheld
  · subst hc'
    exact (sameOrg_write _ (by simp) (by simp [ho])).chainOk (hchains org)
  · subst hc'
    refine midAppend_insertEvent (hchains _) hx (viewRow_write_of_ne _ (by simp)) ?_ ?_ ?_
    · exact congrArg (Option.map fun v => v.1.1) hn
    · rw [eventAt, Cfg.view_row, viewRow_write_self]
      rfl
    · intro t n htn
      rw [eventAt, Cfg.view_row, viewRow_write_of_ne _ (by simpa using htn)]
      rfl
  · obtain rfl : x.1.event.organizationId = org := Option.some.inj ho
    subst hc'
    exact hheld.imp fun v hv => by simpa using hv

theorem Inv.advanceHead {x : SealedEvent} {after : After}
    (hl : c.proc i = some (.advanceHead x after))
    (ha : c.act i ((auditProgram env).next (.advanceHead x after)) = some c') :
    Inv env.nfc c' := by
  obtain ⟨hchains, hm⟩ := hc.pcs i _ hl
  rcases act_update ha with ⟨hn, -⟩ | ⟨hd, hrow, hfree, hc'⟩
  -- the head cannot be missing: the transaction has it locked
  · obtain ⟨hd, g, es, hof, -⟩ := hm
    exact absurd (hof.head.symm.trans hn) (Option.some_ne_none hd)
  have hchains' (org : Uuid) : ChainOk env.nfc (c'.view i) org := by
    subst hc'
    by_cases ho : org = x.event.organizationId
    · subst ho
      refine chainOk_advanceHead hm (fun hd' hd'' => ?_) fun t n => viewRow_write_of_ne _ (by simp)
      obtain rfl : hd = hd' := Option.some.inj (hrow.symm.trans hd'')
      exact viewRow_write_self _
    · exact (sameOrg_write _ (by simpa using ho) (by simp)).chainOk (hchains org ho)
  apply hc.write h hc' (fun org t s hk => by cases hk) (viewOk_resume hchains' after)
  rw [needsHead_resume]
  intro org ho
  cases ho

theorem Inv.sealPending {org : Uuid} {sealedAt : Time} {head : ChainHead} {n : ℕ}
    (hchains : ∀ org, ChainOk env.nfc (c.view i) org)
    (hc' : c' = c.goto i (sealPending env org sealedAt head n)) : Inv env.nfc c' := by
  unfold Audit.sealPending at hc'
  split_ifs at hc'
  · exact hc.goto h hc' (viewOk_commit_none hchains) rfl
  split at hc'
  · exact hc.goto h hc' trivial rfl
  split at hc'
  · exact hc.goto h hc' trivial rfl
  · exact hc.goto h hc' hchains rfl

theorem Inv.lookupSubject {id : Uuid} {row : SwitchOutboxRow} {rest : List (Uuid × SwitchOutboxRow)}
    {eventId : Uuid → Uuid} {nonce : Uuid → Nonce}
    (hl : c.proc i = some (.lookupSubject id row rest eventId nonce))
    (ha : c.act i ((auditProgram env).next (.lookupSubject id row rest eventId nonce)) = some c') :
    Inv env.nfc c' := by
  have hc' := act_read ha
  have hchains : ∀ org, ChainOk env.nfc (c.view i) org := hc.pcs i _ hl
  split at hc'
  · exact hc.goto h hc' trivial rfl
  split at hc'
  · exact hc.goto h hc' trivial rfl
  · refine hc.goto h hc' ⟨hchains, fun l hl => ?_⟩ rfl
    obtain rfl := Option.some.inj hl
    exact starts_startSeal ..

end Statements

theorem Inv.step {e : Event Req} (hc : Inv env.nfc c)
    (h : exec (auditProgram env) c e = some c') : Inv env.nfc c' := by
  rcases exec_cases h with ⟨i, r, rfl, hi, rfl⟩ | ⟨i, rfl, -, rfl⟩ | ⟨i, l, rfl, hl, ha⟩
  · -- a new transaction holds nothing and sees the committed rows
    have hfree (k : Key) (v : Option (Row k)) : c.lock k ≠ some (i, v) := fun hk =>
      hc.live k i v hk hi
    refine hc.of_step h (Or.inl rfl) (fun org t s v hl => absurd hl (hfree _ v)) fun l hl => ?_
    obtain rfl : (auditProgram env).entry r = l := by simpa [Event.actor] using hl
    have hchains (org : Uuid) : ChainOk env.nfc (c.view i) org :=
      SameOrg.chainOk ⟨Cfg.viewRow_other (hfree _), fun t s => Cfg.viewRow_other (hfree _)⟩
        (hc.base org)
    exact ⟨viewOk_entry hchains r, fun org ho => by rw [needsHead_entry] at ho; cases ho⟩
  · exact hc.rollback h rfl
  have hview := hc.pcs i l hl
  cases l with
  | createHead e g n after => exact hc.createHead h hl ha
  | lockHead e after => exact hc.lockHead h hl ha
  | insertEvent x after => exact hc.insertEvent h hl ha
  | advanceHead x after => exact hc.advanceHead h hl ha
  | dequeue id rest nonce =>
    rcases act_update ha with ⟨-, hc'⟩ | ⟨v, -, -, hc'⟩
    · exact hc.goto h hc' trivial rfl
    · exact hc.write_other h hc' (by simp) (by simp)
        ⟨hview, fun l hl => starts_nextQueued hl⟩ rfl
  | publish id rest eventId nonce =>
    rcases act_update ha with ⟨-, hc'⟩ | ⟨v, -, -, hc'⟩
    · exact hc.goto h hc' trivial rfl
    · split at hc'
      · exact hc.write_other h hc' (by simp) (by simp) trivial rfl
      · exact hc.write_other h hc' (by simp) (by simp)
          ⟨hview, fun l hl => starts_nextSwitch hl⟩ rfl
  | enqueue e id =>
    exact hc.insert_other h ha (by simp) (by simp) ⟨viewOk_commit_none hview, rfl⟩ ⟨trivial, rfl⟩
  | readQueue batch nonce =>
    exact hc.goto h (act_read ha) ⟨hview, fun l hl => starts_nextQueued hl⟩ rfl
  | readOutbox batch eventId nonce =>
    exact hc.goto h (act_read ha) ⟨hview, fun l hl => starts_nextSwitch hl⟩ rfl
  | lookupSubject id row rest eventId nonce => exact hc.lookupSubject h hl ha
  | readHead org sealedAt =>
    have hc' := act_read ha
    split at hc'
    · exact hc.goto h hc' (viewOk_commit_none hview) rfl
    · exact hc.goto h hc' hview rfl
  | lastSealedSeq org sealedAt head => exact hc.sealPending h hview (act_read ha)
  | insertSeal org row =>
    exact hc.insert_other h ha (by simp) (by simp) ⟨viewOk_commit_none hview, rfl⟩
      ⟨viewOk_commit_none hview, rfl⟩
  | enqueueTenantSwitch id row =>
    exact hc.insert_other h ha (by simp) (by simp) ⟨viewOk_commit_none hview, rfl⟩ ⟨trivial, rfl⟩
  | commit next => exact hc.commit h (act_commit ha) hview.1 hview.2
  | fail => exact hc.rollback h (act_abort ha)

end ArchGuard.Audit
