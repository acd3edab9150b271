import ArchGuard.RefreshInvariant

/-! Containment of a detected reuse: the family revocation works on the rows of its
snapshot, so it is complete as long as no rotation of the family commits under it. -/
namespace ArchGuard.Oidc
open ReadCommitted TransitionRun

def UniqueActive (db : Db) : Prop :=
  ∀ r ∈ tokens db, ∀ s ∈ tokens db, r.familyId = s.familyId →
    r.status = .active → s.status = .active → r = s

def NoneActive (db : Db) (familyId : Uuid) : Prop :=
  ∀ r ∈ tokens db, r.familyId = familyId → r.status ≠ .active

/-- The rows an exchange may start from. -/
structure FamiliesOk (db : Db) : Prop where
  unique : UniqueActive db
  org : ∀ r ∈ tokens db, ∀ s ∈ tokens db, r.familyId = s.familyId →
    r.organizationId = s.organizationId

/-- Transaction `i` has the snapshot of its family revocation and has not ended. -/
def InRevocation (c : ExchangeCfg) (i : ℕ) (familyId : Uuid) : Prop :=
  ∃ q tok ids, c.proc i = some (.revokeRows q tok ids) ∧ tok.familyId = familyId

/-- The next statement of `i` commits the revocation of a reused family. -/
def CommitsReuse (c : ExchangeCfg) (i : ℕ) (familyId : Uuid) : Prop :=
  ∃ q tok, c.proc i = some (.revokeRows q tok []) ∧ tok.familyId = familyId

/-- No rotation commits while a transaction is inside a revocation of its family. -/
def NoRotationUnderRevocation (c : ExchangeCfg) (e : Event ExchangeReq) : Prop :=
  ∀ i tok s, e = .step i → c.proc i = some (.commitRotation tok s) →
    ∀ j, ¬InRevocation c j tok.familyId

/-- At every state of the run at most one token of each family is active, and after a
committed reuse none of its family is. -/
def Contained (db : Db) (es : List (Event ExchangeReq)) : Prop :=
  ∀ c, run (exec exchangeProgram) (Cfg.idle db) es = some c → UniqueActive c.db ∧
    ∀ pre i post c₁ f, es = pre ++ .step i :: post →
      run (exec exchangeProgram) (Cfg.idle db) pre = some c₁ → CommitsReuse c₁ i f →
        NoneActive c.db f

theorem Inv.idle {db : Db} (h : FamiliesOk db) : Inv (Cfg.idle db) where
  live := ownersLive_idle db
  locks k j v hl := by cases hl
  unique r s hr hs := h.unique r (mem_tokens_iff_committed.mpr hr) s
    (mem_tokens_iff_committed.mpr hs)
  org r s hr hs := h.org r (mem_tokens_iff_committed.mpr hr) s (mem_tokens_iff_committed.mpr hs)
  pcs i l hl := by cases hl

section Step

variable {c c' : ExchangeCfg} {e : Event ExchangeReq}

theorem committed_step (h : exec exchangeProgram c e = some c') :
    (∀ r, Committed c' r → Committed c r) ∨
      (∃ i tok s, e = .step i ∧ c.proc i = some (.commitRotation tok s) ∧ c' = c.commit i none) ∨
      ∃ i q tok, e = .step i ∧ c.proc i = some (.revokeRows q tok []) ∧ c' = c.commit i none := by
  rcases exec_cases h with ⟨i, q, rfl, hi, rfl⟩ | ⟨i, rfl, -, rfl⟩ | ⟨i, l, rfl, hi, ha⟩
  · exact Or.inl fun r hr => hr
  · exact Or.inl fun r hr => hr
  cases l with
  | getByHash q =>
    obtain rfl := act_read ha
    exact Or.inl fun r hr => hr
  | lockRow q id =>
    rcases act_update ha with ⟨-, rfl⟩ | ⟨v, -, -, rfl⟩ <;> exact Or.inl fun r hr => hr
  | setRotated q tok s =>
    rcases act_update ha with ⟨-, rfl⟩ | ⟨v, -, -, rfl⟩ <;> exact Or.inl fun r hr => hr
  | create q tok s =>
    simp only [exchangeProgram] at ha
    split_ifs at ha
    · obtain rfl := act_abort ha
      exact Or.inl fun r hr => hr
    · rcases act_insert ha with ⟨-, -, rfl⟩ | ⟨-, rfl⟩ <;> exact Or.inl fun r hr => hr
  | commitRotation tok s => exact Or.inr (Or.inl ⟨i, tok, s, rfl, hi, act_commit ha⟩)
  | revokeFamily q tok =>
    obtain rfl := act_read ha
    exact Or.inl fun r hr => hr
  | revokeRows q tok ids =>
    cases ids with
    | nil => exact Or.inr (Or.inr ⟨i, q, tok, rfl, hi, act_commit ha⟩)
    | cons id ids =>
      rcases act_update ha with ⟨-, rfl⟩ | ⟨v, -, -, rfl⟩ <;> exact Or.inl fun r hr => hr
  | fail =>
    obtain rfl := act_abort ha
    exact Or.inl fun r hr => hr

/-- Every active row of the family is still to come, or already taken out of use. -/
def Swept (c : ExchangeCfg) (i : ℕ) (familyId : Uuid) (ids : List Uuid) : Prop :=
  ∀ r, Committed c r → r.familyId = familyId → r.status = .active →
    r.id ∈ ids ∨ ∃ r', Held c i r' ∧ r'.id = r.id ∧ r'.status ≠ .active

theorem swept_snapshot (hc : Inv c) {i : ℕ} {q : ExchangeReq} {tok : RefreshToken}
    (hl : Revoking c i q tok) : Swept c i tok.familyId (familyIds (c.view i) q.org tok.familyId) := by
  intro r hr hf ha
  have horg : r.organizationId = q.org := (hc.org r tok hr hl.committed hf).trans hl.org
  have hids (s : RefreshToken) (hs : (c.viewRow i (.token r.id)).map Subtype.val = some s)
      (hsf : s.familyId = tok.familyId) (hso : s.organizationId = q.org)
      (hst : s.status ≠ .revoked) : r.id ∈ familyIds (c.view i) q.org tok.familyId := by
    obtain ⟨v, hv, rfl⟩ := Option.map_eq_some_iff.mp hs
    exact List.mem_map.mpr ⟨v.1, List.mem_filter.mpr
      ⟨mem_tokens_of_row (show (c.view i).row (.token r.id) = some v from hv),
        decide_eq_true ⟨hsf, hso, hst⟩⟩, v.2⟩
  rcases viewRow_token i r.id hc.locks with ⟨s, hs, hid, hv⟩ | ⟨-, hv⟩
  · obtain ⟨w, hw, hwid, hwf, hwo, -⟩ := hl.lowers s hs
    obtain rfl := hw.inj hr (hwid.trans hid)
    by_cases hst : s.status = .revoked
    · exact Or.inr ⟨s, hs, hid, by rw [hst]; decide⟩
    · exact Or.inl (hids s hv (hwf ▸ hf) (hwo ▸ horg) hst)
  · exact Or.inl (hids r (hv.trans hr) hf horg (by rw [ha]; decide))

theorem swept_row (hc : Inv c) {i : ℕ} {q : ExchangeReq} {tok : RefreshToken} {id : Uuid}
    {ids : List Uuid} (hl : Revoking c i q tok) (hs : Swept c i tok.familyId (id :: ids))
    (ha : c.act i (exchangeProgram.next (.revokeRows q tok (id :: ids))) = some c') :
    Swept c' i tok.familyId ids := by
  rcases act_update ha with ⟨hv, rfl⟩ | ⟨v, hv, -, rfl⟩
  · intro r (hr : Committed c r) hf hact
    rcases hs r hr hf hact with hmem | hheld
    · rcases List.mem_cons.mp hmem with rfl | hmem
      · rcases viewRow_token i r.id hc.locks with ⟨s, -, -, hv'⟩ | ⟨-, hv'⟩
        · rw [hv] at hv'
          cases hv'
        · rw [hv, hr] at hv'
          cases hv'
      · exact Or.inl hmem
    · exact Or.inr hheld
  · intro r (hr : Committed c r) hf hact
    by_cases hid : r.id = id
    · refine Or.inr ⟨_, held_write.mpr (Or.inl rfl), (revokeRow _ _ v).2.trans hid.symm, ?_⟩
      have hv' : Lowers c v.1 := by
        rcases hc.viewed hv with hh | ⟨hcom, -⟩
        · exact hl.lowers _ hh
        · exact ⟨v.1, hcom, rfl, rfl, rfl, fun h => h⟩
      obtain ⟨w, hw, hwid, hwf, hwo, -⟩ := hv'
      obtain rfl := hw.inj hr (hwid.trans (v.2.trans hid.symm))
      have horg : w.organizationId = q.org := (hc.org w tok hr hl.committed hf).trans hl.org
      change (revokeInFamily q.org tok.familyId v.1).status ≠ _
      unfold revokeInFamily
      split_ifs with hp
      · exact fun h => by cases h
      · have hrev : v.1.status = .revoked := by
          by_contra hne
          exact hp ⟨hwf ▸ hf, hwo ▸ horg, hne⟩
        rw [hrev]
        decide
    · rcases hs r hr hf hact with hmem | ⟨r', hr', hid', hst⟩
      · exact Or.inl ((List.mem_cons.mp hmem).resolve_left hid)
      · exact Or.inr ⟨r', held_write.mpr (Or.inr ⟨hid' ▸ hid, hr'⟩), hid', hst⟩

/-- What every admissible run keeps: the invariant, and that each open revocation
still reaches every active row of its family. -/
structure SweptInv (c : ExchangeCfg) : Prop where
  inv : Inv c
  swept : ∀ i q tok ids, c.proc i = some (.revokeRows q tok ids) → Swept c i tok.familyId ids

theorem SweptInv.idle {db : Db} (h : FamiliesOk db) : SweptInv (Cfg.idle db) :=
  ⟨.idle h, fun i q tok ids hi => by cases hi⟩

theorem SweptInv.other (hc : SweptInv c) (hok : NoRotationUnderRevocation c e)
    (h : exec exchangeProgram c e = some c') {j : ℕ} (hj : j ≠ e.actor) {q : ExchangeReq}
    {tok : RefreshToken} {ids : List Uuid} (hp : c.proc j = some (.revokeRows q tok ids)) :
    Swept c' j tok.familyId ids := by
  have hf := (frame_of_exec h hj).1
  have hback (r : RefreshToken) (hr : Committed c' r) (hfam : r.familyId = tok.familyId)
      (ha : r.status = .active) :
      ∃ w, Committed c w ∧ w.id = r.id ∧ w.familyId = tok.familyId ∧ w.status = .active := by
    rcases committed_step h with hsame | ⟨i, t, s, rfl, hi, rfl⟩ | ⟨i, q', t, rfl, hi, rfl⟩
    · exact ⟨r, hsame r hr, rfl, hfam, ha⟩
    · have hl := hc.inv.pcs i _ hi
      have hne : t.familyId ≠ tok.familyId := fun ht => hok i t s rfl hi j ⟨q, tok, ids, hp, ht.symm⟩
      rcases committed_of_rotation hc.inv hl hr with rfl | rfl | ⟨hr, -⟩
      · exact absurd hfam hne
      · exact absurd (hl.1.family.symm.trans hfam) hne
      · exact ⟨r, hr, rfl, hfam, ha⟩
    · obtain ⟨w, hw, hid, hwf, -, hwa⟩ :=
        committed_of_revocation hc.inv (hc.inv.pcs i _ hi) hr
      exact ⟨w, hw, hid, hwf.trans hfam, hwa ha⟩
  intro r hr hfam ha
  obtain ⟨w, hw, hid, hwf, hwa⟩ := hback r hr hfam ha
  rcases hc.swept j q tok ids hp w hw hwf hwa with hmem | ⟨r', hr', hid', hst⟩
  · exact Or.inl (hid ▸ hmem)
  · exact Or.inr ⟨r', (held_frame hf).mpr hr', hid'.trans hid, hst⟩

theorem SweptInv.step (hc : SweptInv c) (hok : NoRotationUnderRevocation c e)
    (h : exec exchangeProgram c e = some c') : SweptInv c' := by
  refine ⟨hc.inv.step h, fun j q tok ids hp => ?_⟩
  by_cases hj : j = e.actor
  swap
  · exact hc.other hok h hj ((frame_of_exec h hj).2 ▸ hp)
  -- The acting transaction reaches a revocation by its snapshot or by one more row.
  rcases exec_cases h with ⟨i, q', rfl, hi, rfl⟩ | ⟨i, rfl, -, rfl⟩ | ⟨i, l, rfl, hi, ha⟩
  all_goals
    obtain rfl : j = i := hj
  · simp [exchangeProgram] at hp
  · simp at hp
  have hl := hc.inv.pcs j l hi
  cases l with
  | getByHash q' =>
    obtain rfl := act_read ha
    simp only [Cfg.goto_proc, Function.update_self, Option.some.injEq] at hp
    split at hp <;> cases hp
  | lockRow q' id =>
    rcases act_update ha with ⟨-, rfl⟩ | ⟨v, -, -, rfl⟩
    · simp at hp
    · simp only [Cfg.goto_proc, Function.update_self, Option.some.injEq] at hp
      rcases afterLock_cases q' v.1 with hf | ⟨-, -, hf⟩ | ⟨s, -, -, -, hf⟩ <;>
        · rw [hf] at hp
          cases hp
  | setRotated q' tok' s =>
    rcases act_update ha with ⟨-, rfl⟩ | ⟨v, -, -, rfl⟩
    · simp at hp
    · simp only [Cfg.goto_proc, Function.update_self, Option.some.injEq] at hp
      split_ifs at hp
  | create q' tok' s =>
    simp only [exchangeProgram] at ha
    split_ifs at ha
    · obtain rfl := act_abort ha
      simp at hp
    · rcases act_insert ha with ⟨-, -, rfl⟩ | ⟨-, rfl⟩ <;> simp at hp
  | commitRotation tok' s =>
    obtain rfl := act_commit ha
    simp at hp
  | revokeFamily q' tok' =>
    obtain rfl := act_read ha
    simp only [Cfg.goto_proc, Function.update_self, Option.some.injEq,
      ExchangePc.revokeRows.injEq] at hp
    obtain ⟨rfl, rfl, rfl⟩ := hp
    exact swept_snapshot hc.inv hl
  | revokeRows q' tok' ids' =>
    cases ids' with
    | nil =>
      obtain rfl := act_commit ha
      simp at hp
    | cons id ids' =>
      have hs := swept_row hc.inv hl (hc.swept j q' tok' _ hi) ha
      rcases act_update ha with ⟨-, rfl⟩ | ⟨v, -, -, rfl⟩ <;>
        · simp only [Cfg.goto_proc, Function.update_self, Option.some.injEq,
            ExchangePc.revokeRows.injEq] at hp
          obtain ⟨rfl, rfl, rfl⟩ := hp
          exact hs
  | fail =>
    obtain rfl := act_abort ha
    simp at hp

theorem SweptInv.commitReuse (hc : SweptInv c) {i : ℕ} {f : Uuid} (hr : CommitsReuse c i f)
    (h : exec exchangeProgram c (.step i) = some c') : NoneActive c'.db f := by
  obtain ⟨q, tok, hi, rfl⟩ := hr
  rcases exec_cases h with ⟨j, q', he, -, -⟩ | ⟨j, he, -, -⟩ | ⟨j, l, he, hj, ha⟩
  · cases he
  · cases he
  cases he
  rw [hi, Option.some.injEq] at hj
  subst hj
  obtain rfl := act_commit ha
  intro r hr hfam hact
  have hl : Revoking c i q tok := hc.inv.pcs i _ hi
  have hrow := mem_tokens_iff_committed (c := c.commit i none) |>.mp hr
  obtain ⟨w, hw, hid, hwf, -, hwa⟩ := committed_of_revocation hc.inv hl hrow
  rcases hc.swept i q tok [] hi w hw (hwf.trans hfam) (hwa hact) with hmem | ⟨r', hr', hid', hst⟩
  · cases hmem
  · rcases (committed_commit hc.inv.locks).mp hrow with hheld | ⟨-, hn⟩
    · exact hst ((hr'.inj hheld (hid'.trans hid)).2 ▸ hact)
    · exact hn r' hr' (hid'.trans hid)

theorem NoneActive.step (hc : Inv c) {f : Uuid} (hn : NoneActive c.db f)
    (h : exec exchangeProgram c e = some c') : NoneActive c'.db f := by
  intro r hr hfam ha
  have hrow := mem_tokens_iff_committed.mp hr
  have hdead (w : RefreshToken) (hw : Committed c w) : w.familyId = f → w.status ≠ .active :=
    hn w (mem_tokens_iff_committed.mpr hw)
  rcases committed_step h with hsame | ⟨i, t, s, rfl, hi, rfl⟩ | ⟨i, q, t, rfl, hi, rfl⟩
  · exact hdead r (hsame r hrow) hfam ha
  · have hl := hc.pcs i _ hi
    rcases committed_of_rotation hc hl hrow with rfl | rfl | ⟨hr, -⟩
    · cases ha
    · exact hdead t hl.1.committed (hl.1.family.symm.trans hfam) hl.1.active
    · exact hdead r hr hfam ha
  · obtain ⟨w, hw, -, hwf, -, hwa⟩ := committed_of_revocation hc (hc.pcs i _ hi) hrow
    exact hdead w hw (hwf.trans hfam) (hwa ha)

end Step

/-- In every run in which no rotation of a family commits while another transaction is
inside the revocation of that family, a detected reuse is contained. -/
theorem contained_of_noRotationUnderRevocation {db : Db} (hdb : FamiliesOk db)
    {es : List (Event ExchangeReq)}
    (hok : Along (exec exchangeProgram) NoRotationUnderRevocation (Cfg.idle db) es) :
    Contained db es := by
  intro c hrun
  have hinv : SweptInv c := run_invariant (fun s e s' hs hok h => hs.step hok h) (.idle hdb) hok hrun
  refine ⟨fun r hr s hs => hinv.inv.unique r s (mem_tokens_iff_committed.mp hr)
    (mem_tokens_iff_committed.mp hs), ?_⟩
  rintro pre i post c₁ f rfl hpre hreuse
  rw [run_append_eq hpre] at hrun
  obtain ⟨hok₁, hok₂⟩ := along_append.mp hok
  have hinv₁ : SweptInv c₁ :=
    run_invariant (fun s e s' hs hok h => hs.step hok h) (.idle hdb) hok₁ hpre
  obtain ⟨c₂, hstep, hrest⟩ := run_cons_eq_some.mp hrun
  have hok₃ := (hok₂ c₁ hpre).2 c₂ hstep
  have hinv₂ : SweptInv c₂ := hinv₁.step (hok₂ c₁ hpre).1 hstep
  exact (run_invariant (I := fun c => Inv c ∧ NoneActive c.db f)
    (fun s e s' hs _ h => ⟨hs.1.step h, hs.2.step hs.1 h⟩)
    ⟨hinv₂.inv, hinv₁.commitReuse hreuse hstep⟩ hok₃ hrest).2

/-- Whatever the exchanges and the order of their statements, at most one token of each family is
active, and a family that has none left never gets one again. -/
theorem exchange_keeps_families {db : Db} (hdb : FamiliesOk db) {es later : List (Event ExchangeReq)}
    {c c' : ExchangeCfg} (h : run (exec exchangeProgram) (Cfg.idle db) es = some c)
    (hlater : run (exec exchangeProgram) c later = some c') :
    FamiliesOk c.db ∧ ∀ f, NoneActive c.db f → NoneActive c'.db f := by
  have hc : Inv c := run_always (fun _ _ _ hs he => hs.step he) (Inv.idle hdb) h
  refine ⟨⟨fun r hr s hs => ?_, fun r hr s hs => ?_⟩, fun f hn => ?_⟩
  · exact hc.unique r s (mem_tokens_iff_committed.mp hr) (mem_tokens_iff_committed.mp hs)
  · exact hc.org r s (mem_tokens_iff_committed.mp hr) (mem_tokens_iff_committed.mp hs)
  · exact (run_always (I := fun d => Inv d ∧ NoneActive d.db f)
      (fun _ _ _ hs he => ⟨hs.1.step he, hs.2.step hs.1 he⟩) ⟨hc, hn⟩ hlater).2

namespace Sample

def expiry : Time := 1767229200*10^9

def member (id : Uuid) (secret : String) (status : RefreshTokenStatus) : RefreshToken :=
  ⟨id, 4, 2, 3, hashRefreshToken secret, status, expiry⟩

def family (first second : RefreshTokenStatus) : Db :=
  (Store.empty.set (.token 10) (some ⟨member 10 "a" first, rfl⟩)).set (.token 11)
    (some ⟨member 11 "b" second, rfl⟩)

def present (secret : String) (draw : Draw) : ExchangeReq := ⟨3, secret, expiry, draw⟩

theorem family_ok : FamiliesOk (family .rotated .active) := by
  constructor
  · unfold UniqueActive
    decide +kernel
  · decide

/-- A reuse of the rotated token, alone. -/
def reuse : List (Event ExchangeReq) :=
  [.start 0 (present "a" ⟨"x", 0, 0⟩), .step 0, .step 0, .step 0, .step 0, .step 0, .step 0]

/-- The active token is rotated while the reuse of its predecessor waits for its row. -/
def beforeCommit : List (Event ExchangeReq) :=
  [.start 1 (present "b" ⟨"c", 0, 12⟩), .step 1, .step 1, .step 1, .step 1,
   .start 2 (present "a" ⟨"x", 0, 0⟩), .step 2, .step 2, .step 2, .step 1, .step 2, .step 2]

def escape : List (Event ExchangeReq) := beforeCommit ++ [.step 2]

def notRotating (c : ExchangeCfg) : Event ExchangeReq → Bool
  | .step i => match c.proc i with
    | some (.commitRotation _ _) => false
    | _ => true
  | _ => true

theorem ok_of_notRotating (c : ExchangeCfg) (e : Event ExchangeReq) (h : notRotating c e = true) :
    NoRotationUnderRevocation c e := by
  rintro i tok s rfl hi
  simp only [notRotating, hi, Bool.false_eq_true] at h

end Sample

theorem reuse_alone_contained :
    Contained (Sample.family .rotated .active) Sample.reuse ∧
      (run (exec exchangeProgram) (Cfg.idle (Sample.family .rotated .active)) Sample.reuse).any
        (fun c => (tokens c.db).all fun r => r.status = .revoked) = true :=
  ⟨contained_of_noRotationUnderRevocation Sample.family_ok
    (along_of_check Sample.ok_of_notRotating (by decide +kernel)), by decide +kernel⟩

theorem exchange_keeps_families_escape :
    ∃ c, run (exec exchangeProgram) (Cfg.idle (Sample.family .rotated .active)) Sample.escape =
      some c ∧ FamiliesOk c.db := by
  have hrun : (run (exec exchangeProgram) (Cfg.idle (Sample.family .rotated .active))
      Sample.escape).isSome = true := by
    decide +kernel
  obtain ⟨c, hc⟩ := Option.isSome_iff_exists.mp hrun
  exact ⟨c, hc, (exchange_keeps_families Sample.family_ok hc (rfl : run _ c [] = some c)).1⟩

/-- The successor that a waiting revocation did not see stays active after it. -/
theorem successor_escapes_revocation :
    FamiliesOk (Sample.family .rotated .active) ∧
      ¬Contained (Sample.family .rotated .active) Sample.escape := by
  refine ⟨Sample.family_ok, fun h => ?_⟩
  have hrun : (run (exec exchangeProgram) (Cfg.idle (Sample.family .rotated .active))
      Sample.escape).any (fun c => (tokens c.db).any fun r =>
        r.familyId = 4 && r.status = .active) = true := by
    decide +kernel
  have hpre : (run (exec exchangeProgram) (Cfg.idle (Sample.family .rotated .active))
      Sample.beforeCommit).any (fun c => c.proc 2 =
        some (.revokeRows (Sample.present "a" ⟨"x", 0, 0⟩) (Sample.member 10 "a" .rotated) [])) =
          true := by
    decide +kernel
  obtain ⟨c, hc, hact⟩ := (Option.any_eq_true _ _).mp hrun
  obtain ⟨c₁, hc₁, hproc⟩ := (Option.any_eq_true _ _).mp hpre
  obtain ⟨r, hr, hst⟩ := List.any_eq_true.mp hact
  simp only [Bool.and_eq_true, decide_eq_true_eq] at hst
  exact (h c hc).2 Sample.beforeCommit 2 [] c₁ 4 rfl hc₁
    ⟨_, _, of_decide_eq_true hproc, rfl⟩ r hr hst.1 hst.2

end ArchGuard.Oidc
