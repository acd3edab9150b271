import ArchGuard.AuditConcurrency

/-! Every stored seal signs the hash of a stored event. -/
namespace ArchGuard.Audit
open ReadCommitted TransitionRun

/-- No event is lost from the first state to the second. -/
def Grows (s s' : Db) : Prop := ∀ e, HasEvent s e → HasEvent s' e

def Ends (s : Db) (org : Uuid) (n : ℕ) (hash : Bytes) : Prop :=
  ∃ e, HasEvent s e ∧ e.event.organizationId = org ∧ e.seq = n ∧ e.hash = hash

structure SealOk (env : Env) (s : Db) (org : Uuid) (r : SealRow) : Prop where
  start : 1 ≤ r.seqStart
  range : r.seqStart ≤ r.seqEnd
  ends : Ends s org r.seqEnd r.headHash
  signed : ∃ content,
    sealContent org r.seqStart r.seqEnd r.headHash r.sealedAt.unixMicro = .ok content ∧
      env.sign content = some (r.signature, r.keyId)

/-- What the sealing transaction knows at each of its statements. -/
def SealPc (env : Env) (s : Db) : Pc → Prop
  | .lastSealedSeq org _ head => 0 < head.lastSeq → Ends s org head.lastSeq head.headHash
  | .insertSeal org row => SealOk env s org row
  | _ => True

structure SealInv (env : Env) (c : AuditCfg) : Prop where
  fresh : ∀ org t n i v, c.lock (.event org t n) = some (i, v) → c.db.row (.event org t n) = none
  stored : ∀ org n s, c.db.row (.sealed org n) = some s → SealOk env c.db org s.1
  pending : ∀ org n i s, c.lock (.sealed org n) = some (i, some s) → SealOk env (c.view i) org s.1
  pcs : ∀ i l, c.proc i = some l → SealPc env (c.view i) l

section Growth

variable {env : Env} {s s' : Db} {org : Uuid}

theorem Ends.grow {n : ℕ} {hash : Bytes} (hg : Grows s s') (h : Ends s org n hash) :
    Ends s' org n hash := h.imp fun e he => ⟨hg e he.1, he.2⟩

theorem SealOk.grow {r : SealRow} (hg : Grows s s') (h : SealOk env s org r) :
    SealOk env s' org r := ⟨h.start, h.range, h.ends.grow hg, h.signed⟩

theorem SealPc.grow {l : Pc} (hg : Grows s s') (h : SealPc env s l) : SealPc env s' l := by
  cases l with
  | lastSealedSeq org sealedAt head => exact fun hpos => (h hpos).grow hg
  | insertSeal org row => exact SealOk.grow hg h
  | _ => trivial

theorem grows_of_rows
    (h : ∀ org t n v, s.row (.event org t n) = some v → s'.row (.event org t n) = some v) :
    Grows s s' := by
  intro e he
  obtain ⟨v, hv, hve⟩ := Option.map_eq_some_iff.mp he
  exact Option.map_eq_some_iff.mpr ⟨v, h _ _ _ v hv, hve⟩

theorem sealPc_of_starts {l : Pc} (hl : Starts l) : SealPc env s l := by
  cases l with
  | createHead e g n after => trivial
  | lookupSubject id row rest eventId nonce => trivial
  | fail => trivial
  | _ => exact hl.elim

theorem sealPc_startAppends (items : List AppendItem) : SealPc env s (startAppends items) := by
  cases items with
  | nil => trivial
  | cons item items =>
    simp only [startAppends]
    cases newAuditEvent item.input item.eventId item.now with
    | error err => trivial
    | ok event => exact sealPc_of_starts (starts_startSeal event item.nonce (.appends items))

theorem sealPc_resume (after : After) : SealPc env s (resume after) := by
  cases after with
  | appends items => exact sealPc_startAppends items
  | dequeue id rest nonce => trivial
  | publish id rest eventId nonce => trivial

theorem sealPc_entry (r : Req) : SealPc env s ((auditProgram env).entry r) := by
  cases r with
  | append items => exact sealPc_startAppends items
  | enqueue input now eventId id =>
    simp only [auditProgram]
    split_ifs
    · trivial
    split
    · trivial
    · rcases startEnqueue_cases _ id with h | ⟨row, h⟩ <;> rw [h] <;> trivial
  | drainQueue batch nonce => trivial
  | drainOutbox batch eventId nonce => trivial
  | sealOrganization org sealedAt => trivial
  | enqueueTenantSwitch id row => trivial

theorem ends_of_chainOk {h : ChainHead} (hc : ChainOk env.nfc s org)
    (hh : s.row (.head org) = some h) (hpos : 0 < h.lastSeq) : Ends s org h.lastSeq h.headHash := by
  rcases hc with ⟨hn, -⟩ | ⟨h', g, es, hc, ht⟩
  · rw [hn] at hh
    cases hh
  obtain rfl : h' = h := Option.some.inj (hc.head.symm.trans hh)
  -- a head past 0 has a last event, and carries its hash
  rcases List.eq_nil_or_concat' es with rfl | ⟨es, e, rfl⟩
  · exact absurd hc.lastSeq (Nat.ne_of_lt hpos)
  have hlinked := (linked_append.mp hc.linked).2
  have hmem := (ht e).mp (List.mem_append_right es (List.mem_singleton_self e))
  refine ⟨e, hmem.1, hmem.2, ?_, ?_⟩
  · rw [← hc.lastSeq, hlinked.1, List.length_append, List.length_singleton, Nat.zero_add]
  · rw [← hc.headHash, headHash_append]
    rfl

theorem sealPc_sealPending {sealedAt : Time} {head : ChainHead} (n : ℕ)
    (h : 0 < head.lastSeq → Ends s org head.lastSeq head.headHash) :
    SealPc env s (sealPending env org sealedAt head n) := by
  unfold sealPending
  split_ifs with hle
  · trivial
  split
  · trivial
  rename_i content hcontent
  split
  · trivial
  rename_i signature keyId hsign
  have hlt : n < head.lastSeq := Nat.lt_of_not_le hle
  refine ⟨Nat.le_add_left 1 n, hlt, h (Nat.zero_lt_of_lt hlt), content, ?_, hsign⟩
  rw [Time.stored_unixMicro]
  exact hcontent

end Growth

variable {env : Env} {c c' : AuditCfg} {i : ℕ}

theorem SealInv.grows_view (hc : SealInv env c) (j : ℕ) : Grows c.db (c.view j) := by
  apply grows_of_rows
  intro org t n v hv
  rw [Cfg.view_row, Cfg.viewRow_other fun r hr => ?_, hv]
  rw [hc.fresh org t n j r hr] at hv
  cases hv

theorem SealInv.grows_frame {j : ℕ} (hc : SealInv env c) (hf : Frame c c' j)
    (hbase : c'.db.row = c.db.row ∨ ∃ n, c' = c.commit i n) : Grows (c.view j) (c'.view j) := by
  apply grows_of_rows
  intro org t n v hv
  rw [Cfg.view_row] at hv ⊢
  rcases c.viewRow_cases j (.event org t n) with ⟨r, hr, he⟩ | ⟨hn, he⟩
  · rw [Cfg.viewRow_own ((hf.lock _ r).mpr hr), ← he, hv]
  · rw [Cfg.viewRow_other fun r hr => hn r ((hf.lock _ r).mp hr)]
    rw [he] at hv
    rcases hbase with hrow | ⟨n, rfl⟩
    · rw [hrow, hv]
    · refine (Cfg.commit_row_of_not_own fun r hr => ?_).trans hv
      rw [hc.fresh org t _ i r hr] at hv
      cases hv

/-- What a step must establish about the acting transaction. -/
theorem SealInv.of_step {e : Event Req} (hc : SealInv env c)
    (h : exec (auditProgram env) c e = some c')
    (hbase : c'.db.row = c.db.row ∨ ∃ n, c' = c.commit e.actor n)
    (hfresh : ∀ org t n v, c'.lock (.event org t n) = some (e.actor, v) →
      c'.db.row (.event org t n) = none)
    (hpending : ∀ org n s, c'.lock (.sealed org n) = some (e.actor, some s) →
      SealOk env (c'.view e.actor) org s.1)
    (hpc : ∀ l, c'.proc e.actor = some l → SealPc env (c'.view e.actor) l) : SealInv env c' := by
  refine ⟨fun org t n j v hl => ?_, fun org n s hs => ?_, fun org n j s hl => ?_, fun j l hl => ?_⟩
  · by_cases hj : j = e.actor
    · exact hfresh org t n v (hj ▸ hl)
    · have hf := (frame_of_exec h hj).1
      have hl' := (hf.lock _ _).mp hl
      rw [hf.row _ _ hl']
      exact hc.fresh org t n j v hl'
  -- a stored seal was there before, or was pending in the transaction that commits
  · rcases hbase with hrow | ⟨next, rfl⟩
    · rw [hrow] at hs
      exact (hc.stored org n s hs).grow (grows_of_rows fun _ _ _ _ hv => by rw [hrow]; exact hv)
    · rcases c.viewRow_cases e.actor (.sealed org n) with ⟨r, hr, he⟩ | ⟨-, he⟩
      · rw [Cfg.commit_row, he] at hs
        exact hc.pending org n e.actor s (hs ▸ hr)
      · rw [Cfg.commit_row, he] at hs
        exact (hc.stored org n s hs).grow (hc.grows_view e.actor)
  · by_cases hj : j = e.actor
    · subst hj
      exact hpending org n s hl
    · have hf := (frame_of_exec h hj).1
      exact (hc.pending org n j s ((hf.lock _ _).mp hl)).grow (hc.grows_frame hf hbase)
  · by_cases hj : j = e.actor
    · subst hj
      exact hpc l hl
    · obtain ⟨hf, hproc⟩ := frame_of_exec h hj
      exact (hc.pcs j l (hproc ▸ hl)).grow (hc.grows_frame hf hbase)

theorem SealInv.rollback {e : Event Req} (hc : SealInv env c)
    (h : exec (auditProgram env) c e = some c') (hc' : c' = c.rollback e.actor) :
    SealInv env c' := by
  subst hc'
  refine hc.of_step h (Or.inl rfl) (fun org t n v hl => ?_) (fun org n s hl => ?_) fun l hl => ?_
  · exact absurd rfl (Cfg.releaseLock_eq_some.mp hl).2
  · exact absurd rfl (Cfg.releaseLock_eq_some.mp hl).2
  · simp at hl

section Steps

variable {l : Pc} (hc : SealInv env c) (h : exec (auditProgram env) c (.step i) = some c')

include hc h

theorem SealInv.goto (hc' : c' = c.goto i l) (hpc : SealPc env (c.view i) l) : SealInv env c' := by
  subst hc'
  refine hc.of_step h (Or.inl rfl) (fun org t n v => hc.fresh org t n i v)
    (fun org n s => hc.pending org n i s) fun l' hl' => ?_
  obtain rfl : l = l' := by simpa [Event.actor] using hl'
  exact hpc

theorem SealInv.write {k : Key} {r : Option (Row k)} (hc' : c' = (c.write i k r).goto i l)
    (hevent : ∀ org t n, Key.event org t n = k → c.viewRow i k = none)
    (hseal : ∀ org n s, c'.lock (.sealed org n) = some (i, some s) → Key.sealed org n = k →
      SealOk env (c.view i) org s.1)
    (hpc : SealPc env (c.view i) l) : SealInv env c' := by
  have hgrow : Grows (c.view i) (c'.view i) := by
    apply grows_of_rows
    intro org t n v hv
    by_cases hk : Key.event org t n = k
    · subst hk
      rw [Cfg.view_row, hevent org t n rfl] at hv
      cases hv
    · rw [hc', Cfg.view_row, viewRow_write_of_ne l hk]
      exact hv
  refine hc.of_step h (Or.inl (by rw [hc']; rfl)) (fun org t n v hl => ?_) (fun org n s hl => ?_)
    fun l' hl' => ?_
  · have hrow : c'.db.row = c.db.row := by rw [hc']; rfl
    rw [hrow]
    by_cases hk : Key.event org t n = k
    · subst hk
      rcases c.viewRow_cases i (.event org t n) with ⟨w, hw, -⟩ | ⟨-, he⟩
      · exact hc.fresh org t n i w hw
      · rw [← he]
        exact hevent org t n rfl
    · apply hc.fresh org t n i v
      rw [hc'] at hl
      simpa [Function.update_of_ne hk, Event.actor] using hl
  · by_cases hk : Key.sealed org n = k
    · exact (hseal org n s hl hk).grow hgrow
    · refine (hc.pending org n i s ?_).grow hgrow
      rw [hc'] at hl
      simpa [Function.update_of_ne hk, Event.actor] using hl
  · obtain rfl : l = l' := by
      rw [hc'] at hl'
      simpa [Event.actor] using hl'
    exact hpc.grow hgrow

theorem SealInv.write_other {k : Key} {r : Option (Row k)}
    (hc' : c' = (c.write i k r).goto i l) (hevent : ∀ org t n, Key.event org t n ≠ k)
    (hseal : ∀ org n, Key.sealed org n ≠ k) (hpc : SealPc env (c.view i) l) : SealInv env c' :=
  hc.write h hc' (fun org t n hk => absurd hk (hevent org t n))
    (fun org n _ _ hk => absurd hk (hseal org n)) hpc

theorem SealInv.update_other {k : Key} {a : Pc} {f : Row k → Option (Row k) × Pc}
    (ha : c.act i (.update k a f) = some c') (hevent : ∀ org t n, Key.event org t n ≠ k)
    (hseal : ∀ org n, Key.sealed org n ≠ k) (habsent : SealPc env (c.view i) a)
    (hpresent : ∀ v, SealPc env (c.view i) (f v).2) : SealInv env c' := by
  rcases act_update ha with ⟨-, hc'⟩ | ⟨v, -, -, hc'⟩
  · exact hc.goto h hc' habsent
  · exact hc.write_other h hc' hevent hseal (hpresent v)

theorem SealInv.insert_other {k : Key} {v : Row k} {a b : Pc}
    (ha : c.act i (.insert k v a b) = some c') (hevent : ∀ org t n, Key.event org t n ≠ k)
    (hseal : ∀ org n, Key.sealed org n ≠ k) (hinserted : SealPc env (c.view i) a)
    (hconflict : SealPc env (c.view i) b) : SealInv env c' := by
  rcases act_insert ha with ⟨-, -, hc'⟩ | ⟨-, hc'⟩
  · exact hc.write_other h hc' hevent hseal hinserted
  · exact hc.goto h hc' hconflict

theorem SealInv.commit {n : Option Pc} (hc' : c' = c.commit i n)
    (hn : ∀ l, n = some l → Starts l) : SealInv env c' := by
  subst hc'
  refine hc.of_step h (Or.inr ⟨n, rfl⟩) (fun org t n v hl => ?_) (fun org n s hl => ?_) fun l hl => ?_
  · exact absurd rfl (Cfg.releaseLock_eq_some.mp hl).2
  · exact absurd rfl (Cfg.releaseLock_eq_some.mp hl).2
  · exact sealPc_of_starts (hn l (by simpa [Event.actor] using hl))

end Steps

theorem SealInv.step {e : Event Req} (hi : Inv env.nfc c) (hc : SealInv env c)
    (h : exec (auditProgram env) c e = some c') : SealInv env c' := by
  rcases exec_cases h with ⟨i, r, rfl, -, rfl⟩ | ⟨i, rfl, -, rfl⟩ | ⟨i, l, rfl, hl, ha⟩
  · refine hc.of_step h (Or.inl rfl) (fun org t n v => hc.fresh org t n i v)
      (fun org n s => hc.pending org n i s) fun l hl => ?_
    obtain rfl : (auditProgram env).entry r = l := by simpa [Event.actor] using hl
    exact sealPc_entry r
  · exact hc.rollback h rfl
  cases l with
  | createHead e g n after => exact hc.insert_other h ha (by simp) (by simp) trivial trivial
  | lockHead e after =>
    apply hc.update_other h ha (by simp) (by simp) trivial
    intro hd
    rcases sealAfter_cases env e hd after with hx | ⟨x, hx, -⟩
    · rw [hx]
      trivial
    · rw [hx]
      trivial
  | insertEvent x after =>
    rcases act_insert ha with ⟨hn, -, hc'⟩ | ⟨-, hc'⟩
    · exact hc.write h hc' (fun _ _ _ _ => hn) (fun _ _ _ _ hk => by cases hk) trivial
    · exact hc.goto h hc' trivial
  | advanceHead x after =>
    exact hc.update_other h ha (by simp) (by simp) (sealPc_resume after) fun _ => sealPc_resume after
  | dequeue id rest nonce =>
    exact hc.update_other h ha (by simp) (by simp) trivial fun _ => trivial
  | publish id rest eventId nonce =>
    apply hc.update_other h ha (by simp) (by simp) trivial
    intro r
    split <;> trivial
  | enqueue e id => exact hc.insert_other h ha (by simp) (by simp) trivial trivial
  | enqueueTenantSwitch id row => exact hc.insert_other h ha (by simp) (by simp) trivial trivial
  | readQueue batch nonce => exact hc.goto h (act_read ha) trivial
  | readOutbox batch eventId nonce => exact hc.goto h (act_read ha) trivial
  | lookupSubject id row rest eventId nonce =>
    apply hc.goto h (act_read ha)
    split
    · trivial
    split <;> trivial
  | readHead org sealedAt =>
    apply hc.goto h (act_read ha)
    split
    · trivial
    · rename_i hd hrow
      exact ends_of_chainOk (hi.pcs i _ hl org) hrow
  | lastSealedSeq org sealedAt head =>
    exact hc.goto h (act_read ha) (sealPc_sealPending _ (hc.pcs i _ hl))
  | insertSeal org row =>
    rcases act_insert ha with ⟨-, -, hc'⟩ | ⟨-, hc'⟩
    · refine hc.write h hc' (fun _ _ _ hk => by cases hk) (fun o n s hs hk => ?_) trivial
      cases hk
      obtain rfl : ⟨row, rfl⟩ = s := by simpa [hc'] using hs
      exact hc.pcs i _ hl
    · exact hc.goto h hc' trivial
  | commit next => exact hc.commit h (act_commit ha) (hi.pcs i _ hl).2
  | fail => exact hc.rollback h (act_abort ha)

end ArchGuard.Audit
