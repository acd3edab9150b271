import ArchGuard.TenancyProgram

/-! What interleaved decisions on a grant keep of its final statuses. -/
namespace ArchGuard.Tenancy
open ReadCommitted TransitionRun

/-- A version of a grant that is final wherever the committed one is. -/
def KeepsFinal (c : TenancyCfg) (id : Uuid) (r : Option (Row (.grant id))) : Prop :=
  ∀ g, c.db.row (.grant id) = some g → g.1.status.terminal = true →
    ∃ g', r = some g' ∧ g'.1.status.terminal = true

/-- No transaction holds a version that would reopen a final grant. -/
def NoReopening (c : TenancyCfg) : Prop :=
  ∀ id i r, c.lock (.grant id) = some (i, r) → KeepsFinal c id r

/-- A statement that saves a status that is not final does not find a final one. -/
def SavesOverOpen (c : TenancyCfg) (e : Event Req) : Prop :=
  ∀ i g after, e = .step i → c.proc i = some (.saveDecision g [] after) →
    ∀ row, c.viewRow i (.grant g.id) = some row → row.1.status.terminal = true →
      g.status.terminal = true

section Steps

variable {c c' : TenancyCfg} {e : Event Req} {i : ℕ} {id : Uuid}

theorem NoReopening.view (hc : NoReopening c) : KeepsFinal c id (c.viewRow i (.grant id)) := by
  intro g hg ht
  rcases c.viewRow_cases i (.grant id) with ⟨r, hr, he⟩ | ⟨-, he⟩
  · rw [he]
    exact hc id i r hr g hg ht
  · exact ⟨g, he.trans hg, ht⟩

/-- The only statements that write grants are the save of a decision and a request. -/
theorem writes_grant {l : Pc} {r : Option (Row (.grant id))}
    (h : Writes c i (tenancyProgram.next l) (.grant id) r) :
    (∃ g after v, l = .saveDecision g [] after ∧ g.id = id ∧ c.viewRow i (.grant id) = some v ∧
      ∃ v', r = some v' ∧ (v'.1.status = g.status ∨ v' = v)) ∨
      c.viewRow i (.grant id) = none := by
  cases l with
  | saveDecision g approvals after =>
    cases approvals with
    | cons a approvals => cases h
    | nil =>
      simp only [tenancyProgram] at h
      cases h with
      | update hv =>
        refine Or.inl ⟨g, after, _, rfl, rfl, hv, ?_⟩
        dsimp only
        split
        · exact ⟨_, rfl, Or.inl rfl⟩
        · exact ⟨_, rfl, Or.inr rfl⟩
  | createGrant g =>
    simp only [tenancyProgram] at h
    cases h with
    | insert hk => exact Or.inr hk
  | revokeSessions q ids after =>
    cases ids with
    | cons s ids => cases h
    | nil => cases after <;> cases h
  | _ => cases h

/-- A statement under the condition writes only versions that keep final grants final. -/
theorem NoReopening.step (hc : NoReopening c) (hok : SavesOverOpen c e)
    (h : exec tenancyProgram c e = some c') : NoReopening c' := by
  intro id j r hl g hg ht
  rw [row_of_locked h hl] at hg
  rcases lock_of_exec h hl with hlock | ⟨l, rfl, hp, hw⟩
  · exact hc id j r hlock g hg ht
  · obtain ⟨v, hv, hvt⟩ := hc.view (i := j) g hg ht
    rcases writes_grant hw with ⟨d, after, v', rfl, rfl, hv', w, rfl, hst⟩ | hnone
    · obtain rfl : v = v' := Option.some.inj (hv.symm.trans hv')
      refine ⟨w, rfl, ?_⟩
      rcases hst with hst | rfl
      · rw [hst]
        exact hok j d after rfl hp v hv hvt
      · exact hvt
    · rw [hnone] at hv
      cases hv

end Steps

def FinalStays (c c' : TenancyCfg) : Prop :=
  ∀ id g, grantAt c.db id = some g → g.status.terminal = true →
    ∃ g', grantAt c'.db id = some g' ∧ g'.status.terminal = true

theorem finalStays_step {c c' : TenancyCfg} {e : Event Req} (hc : NoReopening c)
    (h : exec tenancyProgram c e = some c') : FinalStays c c' := by
  intro id g hg ht
  rcases row_of_exec h with heq | ⟨i, l, n, -, -, -, rfl⟩
  · exact ⟨g, by rw [grantAt, heq]; exact hg, ht⟩
  · obtain ⟨v, hv, rfl⟩ := Option.map_eq_some_iff.mp hg
    obtain ⟨v', hv', ht'⟩ := hc.view (i := i) v hv ht
    exact ⟨v'.1, Option.map_eq_some_iff.mpr ⟨v', hv', rfl⟩, ht'⟩

/-- Once committed final, a grant is committed neither active nor awaiting approval again. -/
def TerminalStatusesHold (db : Db) (es : List (Event Req)) : Prop :=
  ∀ pre post c c' id g, es = pre ++ post →
    run (exec tenancyProgram) (Cfg.idle db) pre = some c →
    run (exec tenancyProgram) c post = some c' →
    grantAt c.db id = some g → g.status.terminal = true →
      ∃ g', grantAt c'.db id = some g' ∧ g'.status ≠ .active ∧ g'.status ≠ .awaitingApproval

/-- In every run in which no approval or step-up is saved over a final status, final
statuses hold. -/
theorem terminalStatusesHold_of_savesOverOpen {db : Db} {es : List (Event Req)}
    (hok : Along (exec tenancyProgram) SavesOverOpen (Cfg.idle db) es) :
    TerminalStatusesHold db es := by
  rintro pre post c c' id g rfl hpre hpost hg ht
  obtain ⟨hokpre, hokpost⟩ := along_append.mp hok
  have hidle : NoReopening (Cfg.idle db) := fun _ _ _ hl => by cases hl
  have hc : NoReopening c :=
    run_invariant (fun _ _ _ hI hs he => hI.step hs he) hidle hokpre hpre
  have hstays : FinalStays c c' := by
    refine run_relation (R := FinalStays) (fun _ _ g hg ht => ⟨g, hg, ht⟩)
      (fun s t u hst htu id g hg ht => ?_)
      (fun _ _ _ hI hs he => ⟨NoReopening.step hI hs he, finalStays_step hI he⟩) hc
      (hokpost c hpre) hpost
    obtain ⟨g', hg', ht'⟩ := hst id g hg ht
    exact htu id g' hg' ht'
  obtain ⟨g', hg', ht'⟩ := hstays id g hg ht
  refine ⟨g', hg', ?_, ?_⟩
  · intro hs
    rw [hs] at ht'
    cases ht'
  · intro hs
    rw [hs] at ht'
    cases ht'

namespace Sample

def steps (i n : ℕ) : List (Event Req) := List.replicate n (.step i)

/-- A grant that needs one approval is requested and passes its step-up. -/
def requested : List (Event Req) :=
  .start 0 (.request 5 1 3 ⟨"asset", "a", "admin"⟩ 1 "outage" "INC-1" 1000 9000) :: steps 0 2 ++
    .start 0 (.decide 1 5 (.passStepUp .aal3 true)) :: steps 0 4

def approved (i : ℕ) (approver : Uuid) : List (Event Req) :=
  .start i (.decide 1 5 (.approve approver)) :: steps i 5

def revoked (i : ℕ) : List (Event Req) := .start i (.decide 1 5 .revoke) :: steps i 6

/-- An approval reads the grant, which is then approved by another peer and revoked. -/
def staleApproval : List (Event Req) :=
  requested ++ .start 0 (.decide 1 5 (.approve 8)) :: steps 0 2 ++ approved 1 9 ++ revoked 2

def savesTest (c : TenancyCfg) : Event Req → Bool
  | .step i =>
    match c.proc i with
    | some (.saveDecision g [] _) => g.status.terminal ||
        !(c.viewRow i (.grant g.id)).any fun r => r.1.status.terminal
    | _ => true
  | _ => true

theorem savesOverOpen_of_test (c : TenancyCfg) (e : Event Req) (h : savesTest c e = true) :
    SavesOverOpen c e := by
  rintro i g after rfl hp row hrow ht
  simp only [savesTest, hp, hrow, Option.any_some, ht, Bool.not_true, Bool.or_false] at h
  exact h

end Sample

theorem terminalStatusesHold_in_turn :
    TerminalStatusesHold Store.empty (Sample.requested ++ Sample.approved 1 9 ++ Sample.revoked 2) ∧
      (run (exec tenancyProgram) (Cfg.idle Store.empty)
        (Sample.requested ++ Sample.approved 1 9 ++ Sample.revoked 2)).any
          (fun c => (grantAt c.db 5).any fun g => g.status = .revoked) = true :=
  ⟨terminalStatusesHold_of_savesOverOpen
    (along_of_check Sample.savesOverOpen_of_test (by decide +kernel)), by decide +kernel⟩

/-- The approval decided on the grant as it was before it was revoked makes it active again. -/
theorem revoked_grant_reactivated :
    ¬TerminalStatusesHold Store.empty (Sample.staleApproval ++ Sample.steps 0 3) := by
  intro h
  have hpre : (run (exec tenancyProgram) (Cfg.idle Store.empty) Sample.staleApproval).any
      (fun c => (grantAt c.db 5).any (fun g => g.status = .revoked) &&
        (run (exec tenancyProgram) c (Sample.steps 0 3)).any
          fun c' => (grantAt c'.db 5).any fun g => g.status = .active) = true := by
    decide +kernel
  obtain ⟨c, hc, hboth⟩ := (Option.any_eq_true _ _).mp hpre
  obtain ⟨hrev, hlater⟩ := Bool.and_eq_true_iff.mp hboth
  obtain ⟨g, hg, hst⟩ := (Option.any_eq_true _ _).mp hrev
  obtain ⟨c', hc', hact⟩ := (Option.any_eq_true _ _).mp hlater
  obtain ⟨g', hg', hst'⟩ := (Option.any_eq_true _ _).mp hact
  have ht : g.status.terminal = true := by
    rw [of_decide_eq_true hst]
    rfl
  obtain ⟨w, hw, hne, -⟩ := h _ _ c c' 5 g rfl hc hc' hg ht
  obtain rfl := Option.some.inj (hw.symm.trans hg')
  exact hne (of_decide_eq_true hst')

end ArchGuard.Tenancy
