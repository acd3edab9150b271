import ArchGuard.SwitchSerial

/-! The assurance of a session under interleaved step-ups: its methods attest it always, and it
does not fall where no step-up is saved over a higher one. -/
namespace ArchGuard.Sessions
open ReadCommitted Tenancy TransitionRun

/-- The methods of a session are within reach of its level. -/
def SessionAttested (r : SessionRow) : Prop :=
  Attested r.session.authMethods r.session.provenAAL

/-- Sessions stay, and their level does not fall. -/
def assuranceOrder : VersionOrder Row :=
  .above (fun
      | .session _, r, r' => r.1.session.provenAAL.rank ≤ r'.1.session.provenAAL.rank
      | _, _, _ => True)
    (fun k v => by
      cases k with
      | session id => exact le_rfl
      | membership id => trivial
      | event id => trivial)
    (fun k u v w h h' => by
      cases k with
      | session id => exact le_trans (b := v.1.session.provenAAL.rank) h h'
      | membership id => trivial
      | event id => trivial)

/-- A step-up that is saved finds no higher level than its own on the active session. -/
def SavesRaise (c : SessionCfg) (e : Event Req) : Prop :=
  ∀ i s, e = .step i → c.proc i = some (.saveStepUp s) →
    ∀ v, c.viewRow i (.session s.id) = some v → stepUpMatches s v.1 = true →
      v.1.session.provenAAL.rank ≤ s.provenAAL.rank

/-- The state of a run from attested sessions. -/
structure SoundLevels (c : SessionCfg) : Prop where
  sound : Sound c
  attested : ∀ sid v, Version c (.session sid) v → SessionAttested v.1

section Steps

variable {c c' : SessionCfg} {e : Event Req} {i : ℕ}

theorem sessionAttested_revoked (test : Bool) {r : SessionRow} (h : SessionAttested r) :
    SessionAttested (if test then r.revoked else r) := by
  split
  · exact h
  · exact h

theorem SoundLevels.step (hc : SoundLevels c) (h : exec sessionProgram c e = some c') :
    SoundLevels c' := by
  refine ⟨hc.sound.step h, fun sid v hv => ?_⟩
  rcases version_of_exec h hv with hold | ⟨i, l, rfl, hl, hw⟩
  · exact hc.attested sid v hold
  · -- what is written is attested as what the statement found, or by the step-up itself
    cases hc.sound.writes hl hw with
    | switch hm hread hu hmatch =>
      have hfound := hc.attested _ _ (version_of_view hu)
      exact hfound
    | stepUp hs hu hmatch => exact hs
    | revoke hu => exact sessionAttested_revoked _ (hc.attested _ _ (version_of_view hu))
    | kept hk hu => exact hc.attested _ _ (version_of_view hu)

theorem SoundLevels.writesForward (hc : SoundLevels c) (hok : SavesRaise c e) :
    WritesForward assuranceOrder sessionProgram c e := by
  intro i l k r he hl hw
  cases hc.sound.writes hl hw with
  | switch hm hread hv hmatch =>
    rw [hv]
    exact VersionOrder.above_some le_rfl
  | event hm hold hnone =>
    rw [hnone]
    exact VersionOrder.above_none
  | @stepUp s v hs hv hmatch =>
    rw [hv]
    exact VersionOrder.above_some (hok i s he hl v hv hmatch)
  | @revoke q id ids v hv =>
    rw [hv]
    apply VersionOrder.above_some
    change v.1.session.provenAAL.rank ≤ (if _ then _ else _ : SessionRow).session.provenAAL.rank
    split
    · exact le_rfl
    · exact le_rfl
  | removal hv =>
    rw [hv]
    exact VersionOrder.above_some trivial
  | kept hk hv =>
    rw [hv]
    exact assuranceOrder.refl k _

end Steps

section Runs

variable (db : Db) (es : List (Event Req))

/-- In every committed state the methods of a session attest its level. -/
def AttestedThroughout : Prop :=
  ∀ pre post c, es = pre ++ post → run (exec sessionProgram) (Cfg.idle db) pre = some c →
    ∀ sid r, sessionAt c.db sid = some r → SessionAttested r

/-- The level of a session in a later committed state is not below the one before. -/
def LevelKept : Prop :=
  ∀ pre mid post c c' sid r, es = pre ++ mid ++ post →
    run (exec sessionProgram) (Cfg.idle db) pre = some c →
    run (exec sessionProgram) c mid = some c' → sessionAt c.db sid = some r →
      ∃ r', sessionAt c'.db sid = some r' ∧ r.session.provenAAL.rank ≤ r'.session.provenAAL.rank

/-- What is asked of interleaved step-ups and switches. -/
structure AssuranceHolds : Prop where
  attested : AttestedThroughout db es
  kept : LevelKept db es

variable {db es}

/-- The sessions are attested in every run; their level is kept in every run in which no step-up is
saved over a higher one. -/
theorem assurance_of_savesRaise (hdb : ∀ sid r, sessionAt db sid = some r → SessionAttested r) :
    AttestedThroughout db es ∧
      (Along (exec sessionProgram) SavesRaise (Cfg.idle db) es → AssuranceHolds db es) := by
  have hidle : SoundLevels (Cfg.idle db) := by
    refine ⟨sound_idle db, fun sid v hv => ?_⟩
    rcases hv with hv | ⟨i, hl⟩
    · exact hdb sid v.1 (Option.map_eq_some_iff.mpr ⟨v, hv, rfl⟩)
    · cases hl
  have hattested : AttestedThroughout db es := by
    intro pre post c _ hpre sid r hr
    have hc : SoundLevels c := run_always (fun _ _ _ hI h => hI.step h) hidle hpre
    obtain ⟨v, hv, rfl⟩ := Option.map_eq_some_iff.mp hr
    exact hc.attested sid v (Or.inl hv)
  refine ⟨hattested, fun hok => ⟨hattested, ?_⟩⟩
  rintro pre mid post c c' sid r rfl hpre hmid hr
  have hrows : RowsForward assuranceOrder c c' :=
    rows_forward_of_invariant (fun _ _ _ hI h => SoundLevels.step hI h)
      (fun _ _ hI he => hI.writesForward he) hidle (along_append.mp hok).1 hpre hmid
  obtain ⟨v, hv, rfl⟩ := Option.map_eq_some_iff.mp hr
  obtain ⟨w, hw, hle⟩ := hrows (.session sid) v hv
  exact ⟨w.1, Option.map_eq_some_iff.mpr ⟨w, hw, rfl⟩, hle⟩

end Runs

namespace Sample

def session : AuthSession := ⟨9, 1, some 20, some 30, .active, .aal1, 1, 5, [.password]⟩

def elsewhere : Membership := ⟨21, 1, 31, .active, none⟩

def loggedIn : Db :=
  ((Store.empty.set (.session 9) (some ⟨⟨session, none⟩, rfl⟩)).set
    (.membership 20) (some ⟨⟨20, 1, 30, .active, none⟩, rfl⟩)).set
    (.membership 21) (some ⟨elsewhere, rfl⟩)

def steps (i n : ℕ) : List (Event Req) := List.replicate n (.step i)

/-- A code, a switch and a key, one after the other. -/
def inTurn : List (Event Req) :=
  .start 0 (.stepUpTotp 1 9 6) :: steps 0 3 ++
    .start 0 (.switchTenant 1 9 elsewhere "aal2" 50) :: steps 0 5 ++
    .start 0 (.stepUpWebAuthn 1 9 "aal3" 7) :: steps 0 3

/-- A code is read before a key is proved, and saved afterwards. -/
def overlapping : List (Event Req) :=
  [.start 0 (.stepUpTotp 1 9 6), .start 1 (.stepUpWebAuthn 1 9 "aal3" 7)] ++ steps 0 1 ++
    steps 1 3 ++ steps 0 2

def raiseTest (c : SessionCfg) : Event Req → Bool
  | .step i =>
    match c.proc i with
    | some (.saveStepUp s) => (c.viewRow i (.session s.id)).all fun v =>
        v.1.session.provenAAL.rank ≤ s.provenAAL.rank
    | _ => true
  | _ => true

theorem savesRaise_of_test (c : SessionCfg) (e : Event Req) (h : raiseTest c e = true) :
    SavesRaise c e := by
  rintro i s rfl hl v hv -
  simp only [raiseTest, hl, hv, Option.all_some, decide_eq_true_eq] at h
  exact h

theorem attested_loggedIn (sid : Uuid) (r : SessionRow) (h : sessionAt loggedIn sid = some r) :
    SessionAttested r := by
  by_cases hsid : sid = 9
  · subst hsid
    obtain rfl : (⟨session, none⟩ : SessionRow) = r := Option.some.inj h
    change (strongestCeiling session.authMethods).any (·.atLeast session.provenAAL) = true
    decide
  · have hnone : sessionAt loggedIn sid = none := by
      rw [sessionAt, loggedIn, Store.set_row_of_ne _ _ _ _ (by simp),
        Store.set_row_of_ne _ _ _ _ (by simp), Store.set_row_of_ne _ _ _ _ (by simpa using hsid)]
      rfl
    rw [hnone] at h
    cases h

end Sample

/-- The level of a session rises with a code and then with a key, over a switch. -/
theorem assurance_in_turn : AssuranceHolds Sample.loggedIn Sample.inTurn ∧
    (run (exec sessionProgram) (Cfg.idle Sample.loggedIn) Sample.inTurn).any
      (fun c => (sessionAt c.db 9).any fun r => r.session.provenAAL = .aal3) = true := by
  refine ⟨?_, by decide +kernel⟩
  apply (assurance_of_savesRaise Sample.attested_loggedIn).2
  exact along_of_check Sample.savesRaise_of_test (by decide +kernel)

/-- The level that a key has proved falls to that of the code. -/
theorem assurance_lowered : ¬AssuranceHolds Sample.loggedIn Sample.overlapping := by
  intro h
  have hraised : (run (exec sessionProgram) (Cfg.idle Sample.loggedIn)
      (Sample.overlapping.take 6)).any
        (fun c => (sessionAt c.db 9).any fun r => r.session.provenAAL = .aal3) = true := by
    decide +kernel
  have hlowered : (run (exec sessionProgram) (Cfg.idle Sample.loggedIn) Sample.overlapping).any
        (fun c => (sessionAt c.db 9).any fun r => r.session.provenAAL = .aal2) = true := by
    decide +kernel
  obtain ⟨c, hc, hany⟩ := (Option.any_eq_true ..).mp hraised
  obtain ⟨c', hc', hany'⟩ := (Option.any_eq_true ..).mp hlowered
  obtain ⟨r, hr, hlevel⟩ := (Option.any_eq_true ..).mp hany
  obtain ⟨r', hr', hlevel'⟩ := (Option.any_eq_true ..).mp hany'
  rw [← List.take_append_drop 6 Sample.overlapping, run_append_eq hc] at hc'
  have hsplit : Sample.overlapping =
      Sample.overlapping.take 6 ++ Sample.overlapping.drop 6 ++ [] := by simp
  obtain ⟨r'', hr'', hle⟩ := h.kept _ _ _ c c' 9 r hsplit hc hc' hr
  obtain rfl := Option.some.inj (hr'.symm.trans hr'')
  rw [of_decide_eq_true hlevel, of_decide_eq_true hlevel'] at hle
  exact absurd hle (by decide)

end ArchGuard.Sessions
