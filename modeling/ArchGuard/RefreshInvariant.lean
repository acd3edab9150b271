import ArchGuard.RefreshExchange

/-! What interleaved exchanges keep true of every token family. -/
namespace ArchGuard.Oidc
open ReadCommitted TransitionRun

/-- A rotation in progress: `tok` is still the committed active token of the family. -/
structure Rotating (c : ExchangeCfg) (tok s : RefreshToken) : Prop where
  committed : Committed c tok
  active : tok.status = .active
  family : s.familyId = tok.familyId
  org : s.organizationId = tok.organizationId

/-- A version of a committed row that does not bring it back into use. -/
def Lowers (c : ExchangeCfg) (r : RefreshToken) : Prop :=
  ∃ w, Committed c w ∧ w.id = r.id ∧ w.familyId = r.familyId ∧
    w.organizationId = r.organizationId ∧ (r.status = .active → w.status = .active)

/-- A revocation in progress, for the reuse of the locked token `tok`. -/
structure Revoking (c : ExchangeCfg) (i : ℕ) (q : ExchangeReq) (tok : RefreshToken) : Prop where
  committed : Committed c tok
  org : tok.organizationId = q.org
  locked : ∃ r, Held c i r ∧ r.id = tok.id
  lowers : ∀ r, Held c i r → Lowers c r

def rotated (tok : RefreshToken) : RefreshToken := { tok with status := .rotated }

/-- What holds of transaction `i` at each of its statements. -/
def Local (c : ExchangeCfg) (i : ℕ) : ExchangePc → Prop
  | .getByHash _ | .lockRow _ _ => ∀ r, ¬Held c i r
  | .setRotated _ tok s => Rotating c tok s ∧ ∀ r, Held c i r ↔ r = tok
  | .create _ tok s => Rotating c tok s ∧ ∀ r, Held c i r ↔ r = rotated tok
  | .commitRotation tok s => Rotating c tok s ∧ committed c s.id = none ∧
      ∀ r, Held c i r ↔ r = rotated tok ∨ r = s.stored
  | .revokeFamily q tok | .revokeRows q tok _ => Revoking c i q tok
  | .fail => True

structure Inv (c : ExchangeCfg) : Prop where
  live : OwnersLive c
  locks : ∀ k j v, c.lock k = some (j, v) → ∃ s, k = .token s.id ∧ Held c j s
  unique : ∀ r s, Committed c r → Committed c s → r.familyId = s.familyId →
    r.status = .active → s.status = .active → r = s
  org : ∀ r s, Committed c r → Committed c s → r.familyId = s.familyId →
    r.organizationId = s.organizationId
  pcs : ∀ i l, c.proc i = some l → Local c i l

section Frame

variable {c c' : ExchangeCfg} {j : ℕ} (hf : Frame c c' j)

include hf

theorem Rotating.frame {tok s r : RefreshToken} (h : Rotating c tok s) (hr : Held c j r)
    (hid : r.id = tok.id) : Rotating c' tok s := by
  refine ⟨?_, h.active, h.family, h.org⟩
  rw [Committed, ← hid, committed_frame hf hr, hid]
  exact h.committed

theorem Lowers.frame {r : RefreshToken} (h : Lowers c r) (hr : Held c j r) : Lowers c' r := by
  obtain ⟨w, hw, hid, hrest⟩ := h
  refine ⟨w, ?_, hid, hrest⟩
  rw [Committed, hid, committed_frame hf hr, ← hid]
  exact hw

theorem Revoking.frame {q : ExchangeReq} {tok : RefreshToken} (h : Revoking c j q tok) :
    Revoking c' j q tok := by
  obtain ⟨r, hr, hid⟩ := h.locked
  refine ⟨?_, h.org, ⟨r, (held_frame hf).mpr hr, hid⟩, fun s hs => ?_⟩
  · rw [Committed, ← hid, committed_frame hf hr, hid]
    exact h.committed
  · have hs' := (held_frame hf).mp hs
    exact (h.lowers s hs').frame hf hs'

/-- No other transaction can disturb what holds of `j`. -/
theorem Local.frame {l : ExchangePc} (h : Local c j l) : Local c' j l := by
  have hheld (r : RefreshToken) : Held c' j r ↔ Held c j r := held_frame hf
  cases l with
  | getByHash q => exact fun r hr => h r ((hheld r).mp hr)
  | lockRow q id => exact fun r hr => h r ((hheld r).mp hr)
  | setRotated q tok s =>
    exact ⟨h.1.frame hf ((h.2 tok).mpr rfl) rfl, fun r => (hheld r).trans (h.2 r)⟩
  | create q tok s =>
    exact ⟨h.1.frame hf ((h.2 _).mpr rfl) rfl, fun r => (hheld r).trans (h.2 r)⟩
  | commitRotation tok s =>
    refine ⟨h.1.frame hf ((h.2.2 _).mpr (Or.inl rfl)) rfl, ?_,
      fun r => (hheld r).trans (h.2.2 r)⟩
    rw [← h.2.1]
    exact committed_frame (s := s.stored) hf ((h.2.2 s.stored).mpr (Or.inr rfl))
  | revokeFamily q tok => exact Revoking.frame hf h
  | revokeRows q tok ids => exact Revoking.frame hf h
  | fail => trivial

end Frame

theorem afterLock_cases (q : ExchangeReq) (tok : RefreshToken) :
    (afterLock q tok = .fail) ∨
      (tok.organizationId = q.org ∧ tok.status ≠ .active ∧ afterLock q tok = .revokeFamily q tok) ∨
      ∃ s, tok.status = .active ∧ s.familyId = tok.familyId ∧
        s.organizationId = tok.organizationId ∧ afterLock q tok = .setRotated q tok s := by
  by_cases hq : tok.tokenHash ≠ hashRefreshToken q.presentedSecret ∨ tok.organizationId ≠ q.org
  · exact Or.inl (if_pos hq)
  have horg : tok.organizationId = q.org := not_not.mp (not_or.mp hq).2
  rw [afterLock, if_neg hq]
  cases hr : tok.checkReuse with
  | error e =>
    refine Or.inr (Or.inl ⟨horg, fun ha => ?_, rfl⟩)
    rw [tok.checkReuse_ok_iff.mpr ha] at hr
    cases hr
  | ok u =>
    dsimp only
    split_ifs
    · exact Or.inl rfl
    cases hs : tok.rotate q.draw.id (hashRefreshToken q.draw.secret) q.newExpiry with
    | error e => exact Or.inl rfl
    | ok s =>
      obtain ⟨ha, rfl⟩ := RefreshToken.rotate_ok hs
      refine Or.inr (Or.inr ⟨_, ha, ?_, ?_, rfl⟩) <;> rfl

/-- What a step must establish: the locks it leaves, the committed rows, and the
assertion at the statement the acting transaction reaches. -/
theorem Inv.of_step {c c' : ExchangeCfg} {e : Event ExchangeReq} (hc : Inv c)
    (h : exec exchangeProgram c e = some c')
    (hlocks : ∀ k v, c'.lock k = some (e.actor, v) → ∃ s, k = .token s.id ∧ Held c' e.actor s)
    (hunique : ∀ r s, Committed c' r → Committed c' s → r.familyId = s.familyId →
      r.status = .active → s.status = .active → r = s)
    (horg : ∀ r s, Committed c' r → Committed c' s → r.familyId = s.familyId →
      r.organizationId = s.organizationId)
    (hpc : ∀ l, c'.proc e.actor = some l → Local c' e.actor l) : Inv c' where
  live := hc.live.step h
  locks k j v hl := by
    by_cases hj : j = e.actor
    · subst hj
      exact hlocks k v hl
    · obtain ⟨hf, -⟩ := frame_of_exec h hj
      obtain ⟨s, hk, hs⟩ := hc.locks k j v ((hf.lock k v).mp hl)
      exact ⟨s, hk, (held_frame hf).mpr hs⟩
  unique := hunique
  org := horg
  pcs i l hi := by
    by_cases hj : i = e.actor
    · subst hj
      exact hpc l hi
    · obtain ⟨hf, hproc⟩ := frame_of_exec h hj
      exact (hc.pcs i l (hproc ▸ hi)).frame hf

section Preserved

variable {c : ExchangeCfg} {e : Event ExchangeReq} {i : ℕ}

theorem Inv.goto (hc : Inv c) {l : ExchangePc} (he : e.actor = i)
    (h : exec exchangeProgram c e = some (c.goto i l)) (hpc : Local c i l) :
    Inv (c.goto i l) := by
  subst he
  apply hc.of_step h (fun k v => hc.locks k _ v) hc.unique hc.org
  intro l' hl
  simp only [Cfg.goto_proc, Function.update_self, Option.some.injEq] at hl
  exact hl ▸ hpc.frame (.goto l)

theorem Inv.write (hc : Inv c) {l : ExchangePc} {id : Uuid} {v : Row (.token id)}
    (he : e.actor = i)
    (h : exec exchangeProgram c e = some ((c.write i (.token id) (some v)).goto i l))
    (hpc : Local ((c.write i (.token id) (some v)).goto i l) i l) :
    Inv ((c.write i (.token id) (some v)).goto i l) := by
  subst he
  refine hc.of_step h (fun k w hl => ?_) hc.unique hc.org fun l' hl => ?_
  · simp only [Cfg.goto_lock, Cfg.write_lock] at hl
    by_cases hk : k = .token id
    · refine ⟨v.1, by rw [hk, v.2], held_write.mpr (Or.inl rfl)⟩
    · rw [Function.update_of_ne hk] at hl
      obtain ⟨s, hks, hs⟩ := hc.locks k _ w hl
      refine ⟨s, hks, held_write.mpr (Or.inr ⟨fun hid => hk (hid ▸ hks), hs⟩)⟩
  · simp only [Cfg.goto_proc, Function.update_self, Option.some.injEq] at hl
    exact hl ▸ hpc

theorem Inv.rollback (hc : Inv c) (he : e.actor = i)
    (h : exec exchangeProgram c e = some (c.rollback i)) : Inv (c.rollback i) := by
  subst he
  refine hc.of_step h (fun k v hl => ?_) hc.unique hc.org fun l hl => ?_
  · exact absurd rfl (Cfg.releaseLock_eq_some.mp hl).2
  · simp at hl

theorem Inv.commit (hc : Inv c) (he : e.actor = i)
    (h : exec exchangeProgram c e = some (c.commit i none))
    (hunique : ∀ r s, Committed (c.commit i none) r → Committed (c.commit i none) s →
      r.familyId = s.familyId → r.status = .active → s.status = .active → r = s)
    (horg : ∀ r s, Committed (c.commit i none) r → Committed (c.commit i none) s →
      r.familyId = s.familyId → r.organizationId = s.organizationId) :
    Inv (c.commit i none) := by
  subst he
  refine hc.of_step h (fun k v hl => ?_) hunique horg fun l hl => ?_
  · exact absurd rfl (Cfg.releaseLock_eq_some.mp hl).2
  · simp at hl

theorem committed_of_rotation (hc : Inv c) {tok s r : RefreshToken}
    (hl : Local c i (.commitRotation tok s)) (hr : Committed (c.commit i none) r) :
    r = rotated tok ∨ r = s.stored ∨ (Committed c r ∧ r.id ≠ tok.id) := by
  rcases (committed_commit hc.locks).mp hr with hh | ⟨hr, hn⟩
  · rcases (hl.2.2 r).mp hh with h | h
    · exact Or.inl h
    · exact Or.inr (Or.inl h)
  · exact Or.inr (Or.inr ⟨hr, (hn (rotated tok) ((hl.2.2 _).mpr (Or.inl rfl))).symm⟩)

/-- A token committed by a revocation was committed before, with the same family and
tenant, and was active if it is. -/
theorem committed_of_revocation (hc : Inv c) {q : ExchangeReq} {tok r : RefreshToken}
    (hl : Revoking c i q tok) (hr : Committed (c.commit i none) r) : Lowers c r := by
  rcases (committed_commit hc.locks).mp hr with hh | ⟨hr, -⟩
  · exact hl.lowers r hh
  · exact ⟨r, hr, rfl, rfl, rfl, id⟩

theorem Inv.commitRotation (hc : Inv c) {tok s : RefreshToken} (he : e.actor = i)
    (h : exec exchangeProgram c e = some (c.commit i none))
    (hl : Local c i (.commitRotation tok s)) : Inv (c.commit i none) := by
  have hrot := hl.1
  have hfam (r : RefreshToken) (hr : Committed (c.commit i none) r) :
      ∃ w, Committed c w ∧ w.familyId = r.familyId ∧ w.organizationId = r.organizationId := by
    rcases committed_of_rotation hc hl hr with rfl | rfl | ⟨hr, -⟩
    · exact ⟨tok, hrot.committed, rfl, rfl⟩
    · exact ⟨tok, hrot.committed, hrot.family.symm, hrot.org.symm⟩
    · exact ⟨r, hr, rfl, rfl⟩
  have hnew (r : RefreshToken) (hr : Committed (c.commit i none) r) (ha : r.status = .active)
      (hf : r.familyId = tok.familyId) : r = s.stored := by
    rcases committed_of_rotation hc hl hr with rfl | rfl | ⟨hr, hid⟩
    · cases ha
    · rfl
    · exact absurd (congrArg _ (hc.unique r tok hr hrot.committed hf ha hrot.active)) hid
  refine hc.commit he h (fun r r' hr hr' hf ha ha' => ?_) fun r r' hr hr' hf => ?_
  · by_cases hft : r.familyId = tok.familyId
    · rw [hnew r hr ha hft, hnew r' hr' ha' (hf ▸ hft)]
    · have hold (t : RefreshToken) (ht : Committed (c.commit i none) t)
          (hft : t.familyId ≠ tok.familyId) : Committed c t := by
        rcases committed_of_rotation hc hl ht with rfl | rfl | ⟨ht, -⟩
        · exact absurd rfl hft
        · exact absurd hrot.family hft
        · exact ht
      exact hc.unique r r' (hold r hr hft) (hold r' hr' (hf ▸ hft)) hf ha ha'
  · obtain ⟨w, hw, hwf, hwo⟩ := hfam r hr
    obtain ⟨w', hw', hwf', hwo'⟩ := hfam r' hr'
    rw [← hwo, ← hwo']
    exact hc.org w w' hw hw' (by rw [hwf, hwf', hf])

theorem Inv.commitReuse (hc : Inv c) {q : ExchangeReq} {tok : RefreshToken} (he : e.actor = i)
    (h : exec exchangeProgram c e = some (c.commit i none)) (hl : Revoking c i q tok) :
    Inv (c.commit i none) := by
  refine hc.commit he h (fun r r' hr hr' hf ha ha' => ?_) fun r r' hr hr' hf => ?_
  · obtain ⟨w, hw, hid, hwf, -, hwa⟩ := committed_of_revocation hc hl hr
    obtain ⟨w', hw', hid', hwf', -, hwa'⟩ := committed_of_revocation hc hl hr'
    have hww := hc.unique w w' hw hw' (by rw [hwf, hwf', hf]) (hwa ha) (hwa' ha')
    exact hr.inj hr' (by rw [← hid, ← hid', hww])
  · obtain ⟨w, hw, -, hwf, hwo, -⟩ := committed_of_revocation hc hl hr
    obtain ⟨w', hw', -, hwf', hwo', -⟩ := committed_of_revocation hc hl hr'
    rw [← hwo, ← hwo']
    exact hc.org w w' hw hw' (by rw [hwf, hwf', hf])

end Preserved

theorem revokeInFamily_lowers (org familyId : Uuid) (r : RefreshToken) :
    (revokeInFamily org familyId r).familyId = r.familyId ∧
      (revokeInFamily org familyId r).organizationId = r.organizationId ∧
      ((revokeInFamily org familyId r).status = .active → r.status = .active) := by
  unfold revokeInFamily
  split_ifs
  · exact ⟨rfl, rfl, fun h => by cases h⟩
  · exact ⟨rfl, rfl, id⟩

section Statements

variable {c c' : ExchangeCfg} {e : Event ExchangeReq} {i : ℕ}

theorem Inv.viewed (hc : Inv c) {id : Uuid} {v : Row (.token id)}
    (hv : c.viewRow i (.token id) = some v) :
    Held c i v.1 ∨ (Committed c v.1 ∧ ∀ r, Held c i r → r.id ≠ id) := by
  rcases viewRow_token i id hc.locks with ⟨s, hs, -, he⟩ | ⟨hn, he⟩
  · rw [hv, Option.map_some, Option.some.injEq] at he
    exact Or.inl (he ▸ hs)
  · rw [hv, Option.map_some] at he
    refine Or.inr ⟨?_, hn⟩
    rw [Committed, v.2]
    exact he.symm

theorem Inv.lockRow (hc : Inv c) {q : ExchangeReq} {id : Uuid} (he : e.actor = i)
    (h : exec exchangeProgram c e = some c') (hl : Local c i (.lockRow q id))
    (ha : c.act i (exchangeProgram.next (.lockRow q id)) = some c') : Inv c' := by
  rcases act_update ha with ⟨-, rfl⟩ | ⟨v, hv, -, rfl⟩
  · exact hc.goto he h trivial
  have hcom : Committed c v.1 := by
    rcases hc.viewed hv with hh | ⟨hcom, -⟩
    · exact absurd hh (hl _)
    · exact hcom
  have hheld (l : ExchangePc) (r : RefreshToken) :
      Held ((c.write i (.token id) (some v)).goto i l) i r ↔ r = v.1 := by
    rw [held_write]
    exact ⟨fun hr => hr.elim (fun h => h) fun hr => absurd hr.2 (hl r), Or.inl⟩
  apply hc.write he h
  rcases afterLock_cases q v.1 with hf | ⟨horg, hs, hf⟩ | ⟨s, hs, hfam, horg, hf⟩
  · rw [hf]
    trivial
  · rw [hf]
    refine ⟨hcom, horg, ⟨v.1, (hheld _ _).mpr rfl, rfl⟩, fun r hr => ?_⟩
    obtain rfl := (hheld _ r).mp hr
    exact ⟨v.1, hcom, rfl, rfl, rfl, fun h => h⟩
  · rw [hf]
    exact ⟨⟨hcom, hs, hfam, horg⟩, hheld _⟩

theorem Inv.setRotated (hc : Inv c) {q : ExchangeReq} {tok s : RefreshToken} (he : e.actor = i)
    (h : exec exchangeProgram c e = some c') (hl : Local c i (.setRotated q tok s))
    (ha : c.act i (exchangeProgram.next (.setRotated q tok s)) = some c') : Inv c' := by
  rcases act_update ha with ⟨-, rfl⟩ | ⟨v, hv, -, rfl⟩
  · exact hc.goto he h trivial
  have htok : v.1 = tok := by
    rcases hc.viewed hv with hh | ⟨-, hn⟩
    · exact (hl.2 _).mp hh
    · exact absurd rfl (hn tok ((hl.2 tok).mpr rfl))
  split_ifs at h ⊢ with horg
  · refine hc.write he h ⟨⟨hl.1.committed, hl.1.active, hl.1.family, hl.1.org⟩, fun r => ?_⟩
    have hrow : (setRow v .rotated).1 = rotated tok := congrArg rotated htok
    rw [held_write, hl.2, hrow]
    constructor
    · rintro (h | ⟨hid, rfl⟩)
      · exact h
      · exact absurd rfl hid
    · exact Or.inl
  · exact hc.write he h trivial

theorem Inv.create (hc : Inv c) {q : ExchangeReq} {tok s : RefreshToken} (he : e.actor = i)
    (h : exec exchangeProgram c e = some c') (hl : Local c i (.create q tok s))
    (ha : c.act i (exchangeProgram.next (.create q tok s)) = some c') : Inv c' := by
  simp only [exchangeProgram] at ha
  split_ifs at ha with horg
  · exact act_abort ha ▸ hc.rollback he (act_abort ha ▸ h)
  rcases act_insert ha with ⟨hv, -, rfl⟩ | ⟨-, rfl⟩
  · have hnone : committed c s.id = none := by
      rcases viewRow_token i s.id hc.locks with ⟨r, -, -, hr⟩ | ⟨-, hr⟩
      · rw [hv] at hr
        cases hr
      · rw [← hr, hv]
        rfl
    have hne : tok.id ≠ s.id := by
      intro hid
      have hcom := hl.1.committed
      rw [Committed, hid, hnone] at hcom
      cases hcom
    refine hc.write he h
      ⟨⟨hl.1.committed, hl.1.active, hl.1.family, hl.1.org⟩, hnone, fun r => ?_⟩
    rw [held_write, hl.2]
    constructor
    · rintro (rfl | ⟨-, rfl⟩)
      · exact Or.inr rfl
      · exact Or.inl rfl
    · rintro (rfl | rfl)
      · exact Or.inr ⟨hne, rfl⟩
      · exact Or.inl rfl
  · exact hc.goto he h trivial

theorem Inv.revokeRows (hc : Inv c) {q : ExchangeReq} {tok : RefreshToken} {id : Uuid}
    {ids : List Uuid} (he : e.actor = i) (h : exec exchangeProgram c e = some c')
    (hl : Revoking c i q tok)
    (ha : c.act i (exchangeProgram.next (.revokeRows q tok (id :: ids))) = some c') : Inv c' := by
  rcases act_update ha with ⟨-, rfl⟩ | ⟨v, hv, -, rfl⟩
  · exact hc.goto he h hl
  have hlow : Lowers c (revokeRow q.org tok.familyId v).1 := by
    obtain ⟨hfam, horg, hst⟩ := revokeInFamily_lowers q.org tok.familyId v.1
    have hid := revokeInFamily_id q.org tok.familyId v.1
    have hv' : Lowers c v.1 := by
      rcases hc.viewed hv with hh | ⟨hcom, -⟩
      · exact hl.lowers _ hh
      · exact ⟨v.1, hcom, rfl, rfl, rfl, fun h => h⟩
    obtain ⟨w, hw, hwid, hwf, hwo, hwa⟩ := hv'
    exact ⟨w, hw, hwid.trans hid.symm, hwf.trans hfam.symm, hwo.trans horg.symm,
      fun ha => hwa (hst ha)⟩
  refine hc.write he h ⟨hl.committed, hl.org, ?_, fun r hr => ?_⟩
  · by_cases hid : tok.id = id
    · exact ⟨_, held_write.mpr (Or.inl rfl), (revokeRow q.org tok.familyId v).2.trans hid.symm⟩
    · obtain ⟨r, hr, hrid⟩ := hl.locked
      exact ⟨r, held_write.mpr (Or.inr ⟨hrid ▸ hid, hr⟩), hrid⟩
  · rcases held_write.mp hr with rfl | ⟨-, hr⟩
    · exact hlow
    · exact hl.lowers r hr

theorem Inv.step (hc : Inv c) (h : exec exchangeProgram c e = some c') : Inv c' := by
  rcases exec_cases h with ⟨i, q, rfl, hi, rfl⟩ | ⟨i, rfl, -, rfl⟩ | ⟨i, l, rfl, hi, ha⟩
  · apply hc.goto rfl h
    intro r hr
    obtain ⟨⟨j, v⟩, hv, hj⟩ := Option.map_eq_some_iff.mp hr
    obtain ⟨rfl, -⟩ := Prod.mk.inj hj
    exact hc.live _ _ _ hv hi
  · exact hc.rollback rfl h
  have hl := hc.pcs i l hi
  cases l with
  | getByHash q =>
    obtain rfl := act_read ha
    apply hc.goto rfl h
    split
    · exact hl
    · trivial
  | lockRow q id => exact hc.lockRow rfl h hl ha
  | setRotated q tok s => exact hc.setRotated rfl h hl ha
  | create q tok s => exact hc.create rfl h hl ha
  | commitRotation tok s =>
    obtain rfl := act_commit ha
    exact hc.commitRotation rfl h hl
  | revokeFamily q tok =>
    obtain rfl := act_read ha
    exact hc.goto rfl h hl
  | revokeRows q tok ids =>
    cases ids with
    | nil =>
      obtain rfl := act_commit ha
      exact hc.commitReuse rfl h hl
    | cons id ids => exact hc.revokeRows rfl h hl ha
  | fail =>
    obtain rfl := act_abort ha
    exact hc.rollback rfl h

end Statements

end ArchGuard.Oidc
