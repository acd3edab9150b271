import ArchGuard.SessionRuns

/-! Interleaved switches of a session are serial: those that commit follow one another, each with
its event in the outbox, and one that has lost conflicts and changes nothing. -/
namespace ArchGuard.Sessions
open ReadCommitted Tenancy TransitionRun

/-- The switches lead from the one place to the other: each was read where the one before had
arrived, and raises the generation by one. -/
def Leads : Place → List Move → Place → Prop
  | p, [], q => p = q
  | p, m :: ms, q =>
    p = ⟨some m.event.fromMembershipId, some m.event.fromOrganizationId, m.read.tokenGeneration⟩ ∧
      m.event.tokenGeneration = m.read.tokenGeneration+1 ∧
      Leads ⟨some m.event.toMembershipId, some m.event.toOrganizationId, m.event.tokenGeneration⟩ ms q

theorem leads_append {p q : Place} {ms ns : List Move} :
    Leads p (ms ++ ns) q ↔ ∃ o, Leads p ms o ∧ Leads o ns q := by
  induction ms generalizing p with
  | nil =>
    constructor
    · intro h
      exact ⟨p, rfl, h⟩
    · rintro ⟨o, rfl, h⟩
      exact h
  | cons m ms ih =>
    simp only [List.cons_append, Leads, ih]
    constructor
    · rintro ⟨hp, hgen, o, ho, hq⟩
      exact ⟨o, ⟨hp, hgen, ho⟩, hq⟩
    · rintro ⟨o, ⟨hp, hgen, ho⟩, hq⟩
      exact ⟨hp, hgen, o, ho, hq⟩

theorem leads_single {m : Move} (hm : Moves m) : Leads m.source [m] m.target :=
  ⟨rfl, hm.generation, rfl⟩

theorem Leads.generation {p q : Place} {ms : List Move} (h : Leads p ms q) :
    q.generation = p.generation+ms.length := by
  induction ms generalizing p with
  | nil =>
    obtain rfl : p = q := h
    simp
  | cons m ms ih =>
    obtain ⟨rfl, hgen, h⟩ := h
    have hrest := ih h
    simp only [List.length_cons] at hrest ⊢
    omega

def committedSwitch (c : SessionCfg) : Event Req → Option Move
  | .step i =>
    match c.proc i with
    | some (.commit (some m)) => some m
    | _ => none
  | _ => none

/-- The switches that a run commits, in the order of their commits. -/
def switches (c : SessionCfg) (es : List (Event Req)) : List Move :=
  trace (exec sessionProgram) committedSwitch c es

def switchesOf (sid : Uuid) (ms : List Move) : List Move :=
  ms.filter fun m => m.event.sessionId = sid

/-- The switch that a transaction has decided on the session that it read, and is about to save. -/
def departing : Pc → Option Move
  | .saveSwitch m => some m
  | .updateSwitch m => some m
  | _ => none

section Steps

variable {c c' : SessionCfg} {e : Event Req} {i : ℕ}

theorem committedSwitch_eq_some {m : Move} (h : committedSwitch c e = some m) :
    ∃ i, e = .step i ∧ c.proc i = some (.commit (some m)) := by
  cases e with
  | start i r => cases h
  | kill i => cases h
  | step i =>
    rw [committedSwitch] at h
    split at h
    · rename_i hl
      obtain rfl := Option.some.inj h
      exact ⟨i, rfl, hl⟩
    · cases h

theorem Sound.other_commit (hc : Sound c) {l : Pc} {n : Option Pc} (hl : c.proc i = some l)
    (hn : sessionProgram.next l = .commit n) (hno : committedSwitch c (.step i) = none) :
    Still c i ∧ ∀ id r, c.lock (.event id) ≠ some (i, r) := by
  cases hc.accounted i l hl with
  | getForSwitch identityId sessionId dest required eventId => cases hn
  | saveSwitch hm hread => cases hn
  | updateSwitch hm hread => cases hn
  | enqueue hm hold =>
    simp only [sessionProgram] at hn
    split at hn <;> cases hn
  | getForStepUp identityId sessionId now aal methods => cases hn
  | saveStepUp hs => cases hn
  | snapshotSessions q hstill => cases hn
  | revokeSessions q ids hstill =>
    exact ⟨hstill, fun id r => hc.held.unlocked hl (fun hown => hown id rfl) r⟩
  | getMembership op org membershipId => cases hn
  | saveRemoval op m => cases hn
  | switched hm hold hevent hnew => simp [committedSwitch, hl] at hno
  | commit hstill => exact ⟨hstill, fun id r => hc.held.unlocked hl (fun hown => hown id rfl) r⟩
  | fail err => cases hn

theorem Sound.place_commit (hc : Sound c) (hstill : Still c i) (n : Option Pc) {sid : Uuid}
    {w : Row (.session sid)} (hw : c.db.row (.session sid) = some w) :
    ∃ w', (c.commit i n).db.row (.session sid) = some w' ∧ place w'.1 = place w.1 := by
  rw [Cfg.commit_row]
  rcases c.viewRow_cases i (.session sid) with ⟨r, hr, heq⟩ | ⟨-, heq⟩
  · obtain ⟨w', hw', -⟩ := hc.forward (.session sid) i r hr w hw
    subst hw'
    obtain ⟨u, hu, hplace⟩ := hstill sid w' hr
    obtain rfl := Option.some.inj (hw.symm.trans hu)
    exact ⟨w', heq, hplace.symm⟩
  · exact ⟨w, heq.trans hw, rfl⟩

/-- What the switches of a run so far say of the rows. -/
structure Serial (db : Db) (done : List Move) (c : SessionCfg) : Prop where
  sound : Sound c
  chain : ∀ sid v, db.row (.session sid) = some v → ∃ w, c.db.row (.session sid) = some w ∧
    Leads (place v.1) (switchesOf sid done) (place w.1)
  events : ∀ id event, c.db.row (.event id) = some event ↔
    db.row (.event id) = some event ∨ ∃ m ∈ done, m.eventId = id ∧ m.event = event
  nodup : (done.map Move.eventId).Nodup
  fresh : ∀ m ∈ done, db.row (.event m.eventId) = none

theorem serial_start (hc : Sound c) : Serial c.db [] c := by
  refine ⟨hc, fun sid v hv => ⟨v, hv, rfl⟩, fun id event => ?_, List.nodup_nil, ?_⟩
  · simp
  · exact fun m hm => absurd hm List.not_mem_nil

variable {db : Db} {done : List Move}

/-- An id that the outbox does not hold is of no switch so far, and was of no event before. -/
theorem Serial.unused (hs : Serial db done c) {id : Uuid} (hnew : c.db.row (.event id) = none) :
    id ∉ done.map Move.eventId ∧ db.row (.event id) = none := by
  constructor
  · intro hmem
    obtain ⟨m, hm, heq⟩ := List.mem_map.mp hmem
    have hrow := (hs.events id m.event).mpr (Or.inr ⟨m, hm, heq, rfl⟩)
    rw [hnew] at hrow
    cases hrow
  · cases hrow : db.row (.event id) with
    | none => rfl
    | some event =>
      have hcommitted := (hs.events id event).mpr (Or.inl hrow)
      rw [hnew] at hcommitted
      cases hcommitted

theorem Sound.row_switched (hc : Sound c) {m : Move} (hl : c.proc i = some (.commit (some m)))
    {k : Key} (hsession : k ≠ .session m.moved.id) (hevent : k ≠ .event m.eventId) :
    (c.commit i none).db.row k = c.db.row k := by
  apply Cfg.commit_row_of_not_own
  apply hc.held.unlocked hl
  rintro (hown | hown)
  · exact hsession hown
  · exact hevent hown

theorem Serial.chain_switched (hs : Serial db done c) {m : Move} (hm : Moves m)
    (hl : c.proc i = some (.commit (some m))) (hold : Holding c i m) (sid : Uuid)
    (v₀ : Row (.session sid)) (hv₀ : db.row (.session sid) = some v₀) :
    ∃ w, (c.commit i none).db.row (.session sid) = some w ∧
      Leads (place v₀.1) (switchesOf sid (done ++ [m])) (place w.1) := by
  obtain ⟨w₀, hw₀, hleads⟩ := hs.chain sid v₀ hv₀
  by_cases hsid : sid = m.moved.id
  · subst hsid
    obtain ⟨v, w, hlock, hv, hdb, hw⟩ := hold
    obtain rfl := Option.some.inj (hdb.symm.trans hw₀)
    have hof : switchesOf m.moved.id (done ++ [m]) = switchesOf m.moved.id done ++ [m] := by
      simp [switchesOf, hm.session]
    refine ⟨v, Cfg.viewRow_own hlock, ?_⟩
    -- the version that is replaced is where the switch departed from
    rw [hof, hv]
    exact leads_append.mpr ⟨m.source, hw ▸ hleads, leads_single hm⟩
  · have hof : switchesOf sid (done ++ [m]) = switchesOf sid done := by
      simp [switchesOf, hm.session, Ne.symm hsid]
    rw [hof, hs.sound.row_switched hl (by simpa using hsid) (by simp)]
    exact ⟨w₀, hw₀, hleads⟩

theorem Serial.events_switched (hs : Serial db done c) {m : Move}
    (hl : c.proc i = some (.commit (some m)))
    (hevent : c.lock (.event m.eventId) = some (i, some m.event))
    (hnew : c.db.row (.event m.eventId) = none) (id : Uuid) (event : TenantSwitchEvent) :
    (c.commit i none).db.row (.event id) = some event ↔ db.row (.event id) = some event ∨
      ∃ m' ∈ done ++ [m], m'.eventId = id ∧ m'.event = event := by
  obtain ⟨hnotdone, hnone⟩ := hs.unused hnew
  by_cases hid : id = m.eventId
  · subst hid
    rw [Cfg.commit_row, Cfg.viewRow_own hevent, Option.some.injEq]
    constructor
    · intro heq
      exact Or.inr ⟨m, List.mem_append_right _ List.mem_cons_self, rfl, heq⟩
    · rintro (hold | ⟨m', hm', heq, rfl⟩)
      · rw [hnone] at hold
        cases hold
      · rcases List.mem_append.mp hm' with hm' | hm'
        · exact absurd (heq ▸ List.mem_map_of_mem hm') hnotdone
        · rw [List.mem_singleton.mp hm']
  · rw [hs.sound.row_switched hl (by simp) (by simpa using hid), hs.events id event]
    apply or_congr_right
    constructor
    · rintro ⟨m', hm', heq⟩
      exact ⟨m', List.mem_append_left _ hm', heq⟩
    · rintro ⟨m', hm', heq, hev⟩
      rcases List.mem_append.mp hm' with hm' | hm'
      · exact ⟨m', hm', heq, hev⟩
      · rw [List.mem_singleton.mp hm'] at heq
        exact absurd heq.symm hid

theorem Serial.switched (hs : Serial db done c) {m : Move}
    (hl : c.proc i = some (.commit (some m))) : Serial db (done ++ [m]) (c.commit i none) := by
  have hexec : exec sessionProgram c (.step i) = some (c.commit i none) := by
    rw [exec, hl]
    rfl
  cases hs.sound.accounted i _ hl with
  | switched hm hold hevent hnew =>
    obtain ⟨hnotdone, hnone⟩ := hs.unused hnew
    refine ⟨hs.sound.step hexec, hs.chain_switched hm hl hold,
      hs.events_switched hl hevent hnew, ?_, ?_⟩
    · rw [List.map_append, List.map_singleton]
      apply List.nodup_append.mpr ⟨hs.nodup, List.nodup_singleton _, ?_⟩
      rintro a ha b hb rfl
      exact hnotdone (List.mem_singleton.mp hb ▸ ha)
    · intro m' hm'
      rcases List.mem_append.mp hm' with hm' | hm'
      · exact hs.fresh m' hm'
      · rw [List.mem_singleton.mp hm']
        exact hnone

theorem Serial.step (hs : Serial db done c) (h : exec sessionProgram c e = some c') :
    Serial db (done ++ (committedSwitch c e).toList) c' := by
  cases hout : committedSwitch c e with
  | some m =>
    obtain ⟨i, rfl, hl⟩ := committedSwitch_eq_some hout
    obtain rfl := act_commit (act_of_exec h hl)
    exact hs.switched hl
  | none =>
    rw [Option.toList_none, List.append_nil]
    rcases row_of_exec h with heq | ⟨i, l, n, rfl, hl, hn, rfl⟩
    -- no row is committed, or those of a transaction that moves no session
    · refine { hs with sound := hs.sound.step h, chain := ?_, events := ?_ }
      · rw [heq]
        exact hs.chain
      · rw [heq]
        exact hs.events
    · obtain ⟨hstill, hevents⟩ := hs.sound.other_commit hl hn hout
      refine { hs with
        sound := hs.sound.step h, chain := fun sid v hv => ?_, events := fun id event => ?_ }
      · obtain ⟨w, hw, hleads⟩ := hs.chain sid v hv
        obtain ⟨w', hw', hplace⟩ := hs.sound.place_commit hstill n hw
        exact ⟨w', hw', hplace ▸ hleads⟩
      · rw [Cfg.commit_row_of_not_own (hevents id)]
        exact hs.events id event

theorem Sound.conflict (hc : Sound c) {l : Pc} {m : Move} (hl : c.proc i = some l)
    (hd : departing l = some m)
    (hlost : ∀ v, c.db.row (.session m.moved.id) = some v → m.matches v.1 = false)
    (h : exec sessionProgram c (.step i) = some c') :
    c'.proc i = some (.fail .switchConflict) ∧ c'.db.row = c.db.row := by
  have hact : c.act i (sessionProgram.next l) = some c' := act_of_exec h hl
  cases hc.accounted i l hl with
  | @saveSwitch m₀ hm hread =>
    obtain rfl := Option.some.inj hd
    have hrow : c.viewRow i (.session m₀.moved.id) = c.db.row (.session m₀.moved.id) :=
      hc.held.view_eq hl (fun h => h)
    have htest : (sessionAt (c.view i) m₀.moved.id).any m₀.matches = false := by
      rw [sessionAt, Cfg.view_row, hrow]
      cases hv : c.db.row (.session m₀.moved.id) with
      | none => rfl
      | some v => exact hlost v hv
    -- the lookup by identity, tenant and generation finds no row to replace
    obtain rfl := act_read hact
    simp only [Cfg.goto_proc, Function.update_self, htest, Bool.false_and, Bool.false_eq_true,
      ↓reduceIte, Cfg.goto_db, and_self]
  | @updateSwitch m₀ hm hread =>
    obtain rfl := Option.some.inj hd
    have hrow : c.viewRow i (.session m₀.moved.id) = c.db.row (.session m₀.moved.id) :=
      hc.held.view_eq hl (fun h => h)
    rcases act_update hact with ⟨-, rfl⟩ | ⟨v, hv, -, rfl⟩
    · simp only [Cfg.goto_proc, Function.update_self, Cfg.goto_db, and_self]
    · have htest : m₀.matches v.1 = false := hlost v (hrow.symm.trans hv)
      simp only [htest, Bool.false_eq_true, ↓reduceIte, Cfg.goto_proc, Function.update_self,
        Cfg.goto_db, Cfg.write_row, and_self]
  | _ => cases hd

end Steps

section Runs

variable (db : Db) (es : List (Event Req))

/-- In every committed state the switches of a session have led to where it is. -/
def SwitchesChained : Prop :=
  ∀ pre post c, es = pre ++ post → run (exec sessionProgram) (Cfg.idle db) pre = some c →
    ∀ sid r, sessionAt db sid = some r → ∃ r', sessionAt c.db sid = some r' ∧
      Leads (place r) (switchesOf sid (switches (Cfg.idle db) pre)) (place r')

/-- In every committed state the outbox holds one event for each switch, beside what it held. -/
def SwitchesRecorded : Prop :=
  ∀ pre post c, es = pre ++ post → run (exec sessionProgram) (Cfg.idle db) pre = some c →
    ((switches (Cfg.idle db) pre).map Move.eventId).Nodup ∧
      (∀ m ∈ switches (Cfg.idle db) pre, db.row (.event m.eventId) = none) ∧
      ∀ id event, c.db.row (.event id) = some event ↔ db.row (.event id) = some event ∨
        ∃ m ∈ switches (Cfg.idle db) pre, m.eventId = id ∧ m.event = event

/-- A switch that read the session before another one or a revocation was committed conflicts when
it goes on, and whatever fails ends without a trace. -/
structure LosersConflict : Prop where
  conflict : ∀ pre mid post c c' c'' i l l' m, es = pre ++ mid ++ post →
    run (exec sessionProgram) (Cfg.idle db) pre = some c → run (exec sessionProgram) c mid = some c' →
    c.proc i = some l → departing l = some m → c'.proc i = some l' → departing l' = some m →
    (∃ m' ∈ switches c mid, m'.event.sessionId = m.moved.id) ∨
      (∃ r, sessionAt c'.db m.moved.id = some r ∧ r.session.status = .revoked) →
    exec sessionProgram c' (.step i) = some c'' →
      c''.proc i = some (.fail .switchConflict) ∧ c''.db.row = c'.db.row
  undone : ∀ pre post c c' i err, es = pre ++ post →
    run (exec sessionProgram) (Cfg.idle db) pre = some c → c.proc i = some (.fail err) →
    exec sessionProgram c (.step i) = some c' →
      c'.db.row = c.db.row ∧ c'.proc i = none ∧ ∀ k r, c'.lock k ≠ some (i, r)

structure Serialized : Prop where
  chained : SwitchesChained db es
  recorded : SwitchesRecorded db es
  losers : LosersConflict db es

variable {db es}

theorem serial_of_run {done : List Move} {c c' : SessionCfg} {es : List (Event Req)}
    (hs : Serial db done c) (hrun : run (exec sessionProgram) c es = some c') :
    Serial db (done ++ switches c es) c' :=
  trace_always (I := Serial db) (fun _ _ _ _ hI h => hI.step h) hs hrun

/-- What was read before a switch of the session was committed is behind afterwards. -/
theorem Sound.overtaken {c c' : SessionCfg} {mid : List (Event Req)} {m : Move} (hc : Sound c)
    (hread : Behind c.db m) (hmid : run (exec sessionProgram) c mid = some c')
    (hswitch : ∃ m' ∈ switches c mid, m'.event.sessionId = m.moved.id)
    {v : Row (.session m.moved.id)} (hv : c'.db.row (.session m.moved.id) = some v) :
    m.matches v.1 = false := by
  have hs' := serial_of_run (serial_start hc) hmid
  rw [List.nil_append] at hs'
  obtain ⟨u, hu, hplace⟩ := hread
  obtain ⟨w, hw, hleads⟩ := hs'.chain m.moved.id u hu
  obtain rfl := Option.some.inj (hv.symm.trans hw)
  have hgen := hleads.generation
  have hpos : 0 < (switchesOf m.moved.id (switches c mid)).length := by
    obtain ⟨m', hm', hid⟩ := hswitch
    apply List.length_pos_of_mem (a := m')
    exact List.mem_filter.mpr ⟨hm', decide_eq_true hid⟩
  have hle : m.read.tokenGeneration ≤ (place u.1).generation := hplace.1
  -- the switches between raised the generation, which the guard compares
  rw [Bool.eq_false_iff]
  intro hmatch
  have heq : (place v.1).generation = m.read.tokenGeneration := (Move.matches_iff.mp hmatch).2.2.2
  omega

/-- The switches of every session are serial in every run. -/
theorem switches_serialize (db : Db) (es : List (Event Req)) : Serialized db es := by
  have hserial : ∀ pre c, run (exec sessionProgram) (Cfg.idle db) pre = some c →
      Serial db (switches (Cfg.idle db) pre) c := by
    intro pre c hpre
    have hidle : Serial db [] (Cfg.idle db) := serial_start (sound_idle db)
    simpa only [List.nil_append] using serial_of_run hidle hpre
  refine ⟨?_, ?_, ?_, ?_⟩
  · intro pre post c _ hpre sid r hr
    obtain ⟨v, hv, rfl⟩ := Option.map_eq_some_iff.mp hr
    obtain ⟨w, hw, hleads⟩ := (hserial pre c hpre).chain sid v hv
    exact ⟨w.1, Option.map_eq_some_iff.mpr ⟨w, hw, rfl⟩, hleads⟩
  · intro pre post c _ hpre
    have hs := hserial pre c hpre
    exact ⟨hs.nodup, hs.fresh, hs.events⟩
  · intro pre mid post c c' c'' i l l' m _ hpre hmid hl hd hl' hd' hlost h
    have hc : Sound c := (hserial pre c hpre).sound
    have hc' : Sound c' := (hserial (pre ++ mid) c' (run_append.mpr ⟨c, hpre, hmid⟩)).sound
    apply hc'.conflict hl' hd' _ h
    intro v hv
    rcases hlost with hswitch | ⟨r, hr, hrevoked⟩
    · have hread : Behind c.db m := by
        cases hc.accounted i l hl with
        | saveSwitch hm hread => exact Option.some.inj hd ▸ hread
        | updateSwitch hm hread => exact Option.some.inj hd ▸ hread
        | _ => cases hd
      exact hc.overtaken hread hmid hswitch hv
    · obtain ⟨w, hw, rfl⟩ := Option.map_eq_some_iff.mp hr
      obtain rfl := Option.some.inj (hv.symm.trans hw)
      rw [Bool.eq_false_iff]
      intro hmatch
      have hactive := (Move.matches_iff.mp hmatch).2.1
      rw [hrevoked] at hactive
      cases hactive
  · intro pre post c c' i err _ _ hl h
    obtain rfl := act_abort (act_of_exec h hl)
    refine ⟨rfl, Function.update_self .., fun k r hlock => ?_⟩
    exact (Cfg.releaseLock_eq_some.mp hlock).2 rfl

end Runs

end ArchGuard.Sessions
