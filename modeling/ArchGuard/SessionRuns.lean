import ArchGuard.SessionProgram

/-! What every interleaving of the transactions on live sessions keeps: who is about to record a
switch holds the session as it has moved, over the version that the switch departed from. -/
namespace ArchGuard.Sessions
open ReadCommitted Tenancy TransitionRun

/-- Where a session is: its tenant, and the generation of its tokens. -/
@[ext] structure Place where
  membership : Option Uuid
  organization : Option Uuid
  generation : ℕ
  deriving DecidableEq, Repr

def place (r : SessionRow) : Place :=
  ⟨r.session.membershipId, r.session.organizationId, r.session.tokenGeneration⟩

def Move.source (m : Move) : Place :=
  ⟨some m.event.fromMembershipId, some m.event.fromOrganizationId, m.read.tokenGeneration⟩

def Move.target (m : Move) : Place :=
  ⟨some m.event.toMembershipId, some m.event.toOrganizationId, m.event.tokenGeneration⟩

/-- A session keeps its place under its generation. -/
def Follows (p q : Place) : Prop := p.generation ≤ q.generation ∧ (p.generation = q.generation → p = q)

theorem Follows.refl (p : Place) : Follows p p := ⟨le_rfl, fun _ => rfl⟩

theorem Follows.trans {p q r : Place} (h : Follows p q) (h' : Follows q r) : Follows p r := by
  refine ⟨h.1.trans h'.1, fun heq => ?_⟩
  have hpq : p.generation = q.generation := le_antisymm h.1 (heq ▸ h'.1)
  exact (h.2 hpq).trans (h'.2 (hpq ▸ heq))

theorem follows_of_lt {p q : Place} (h : p.generation < q.generation) : Follows p q :=
  ⟨h.le, fun heq => absurd heq h.ne⟩

/-- Rows stay, and sessions move to higher generations only. -/
def placeOrder : VersionOrder Row :=
  .above (fun
      | .session _, r, r' => Follows (place r.1) (place r'.1)
      | _, _, _ => True)
    (fun k v => by
      cases k with
      | session id => exact .refl _
      | membership id => trivial
      | event id => trivial)
    (fun k u v w h h' => by
      cases k with
      | session id => exact Follows.trans h h'
      | membership id => trivial
      | event id => trivial)

/-- What a switch says of the session it read. -/
structure Moves (m : Move) : Prop where
  membership : m.read.membershipId = some m.event.fromMembershipId
  organization : m.read.organizationId = some m.event.fromOrganizationId
  session : m.event.sessionId = m.moved.id
  generation : m.event.tokenGeneration = m.read.tokenGeneration+1
  moved : m.moved.membershipId = some m.event.toMembershipId ∧
    m.moved.organizationId = some m.event.toOrganizationId ∧
    m.moved.tokenGeneration = m.event.tokenGeneration
  id : m.moved.id = m.read.id

theorem Moves.source_of_read {m : Move} (hm : Moves m) {r : SessionRow} (hread : m.read = r.session) :
    m.source = place r := by
  rw [Move.source, ← hm.membership, ← hm.organization, hread, place]

theorem beginSwitch_cases (identityId : Uuid) (s : AuthSession) (dest : Membership)
    (required : String) (eventId : Uuid) :
    (∃ err, beginSwitch identityId s dest required eventId = .fail err) ∨
      ∃ m, Moves m ∧ m.read = s ∧ beginSwitch identityId s dest required eventId = .saveSwitch m := by
  rcases switchTenant_cases dest required s with
    ⟨err, hcall⟩ | ⟨event, -, -, -, ⟨hm, ho, hid, htm, hto, hgen⟩, hcall⟩
  · refine Or.inl ⟨err, ?_⟩
    rw [beginSwitch, hcall]
  · rw [beginSwitch, hcall]
    dsimp only [ofIdentity]
    split_ifs
    · exact Or.inl ⟨_, rfl⟩
    · exact Or.inl ⟨_, rfl⟩
    · refine Or.inr ⟨_, ⟨hm, ho, hid, hgen, ⟨?_, ?_, hgen.symm⟩, rfl⟩, rfl, rfl⟩
      · rw [htm]
        rfl
      · rw [hto]
        rfl

theorem beginStepUp_cases (identityId : Uuid) (s : AuthSession) (now : Time) (aal : String)
    (methods : List String) : (∃ err, beginStepUp identityId s now aal methods = .fail err) ∨
      ∃ s', s'.id = s.id ∧ s.provenAAL.rank ≤ s'.provenAAL.rank ∧
        Attested s'.authMethods s'.provenAAL ∧
        beginStepUp identityId s now aal methods = .saveStepUp s' := by
  rcases sessionCall_cases (.stepUp now aal methods) s with ⟨err, hcall⟩ | ⟨s', hcall, hedge⟩
  · refine Or.inl ⟨err, ?_⟩
    rw [SessionCall.method] at hcall
    rw [beginStepUp, hcall]
  · have hraised : s'.id = s.id ∧ s.provenAAL.rank ≤ s'.provenAAL.rank ∧
        Attested s'.authMethods s'.provenAAL := by
      cases hedge with
      | stepUp hs hm hne hlevel hceil => exact ⟨rfl, hlevel, hceil⟩
    obtain ⟨hid, hlevel, hceil⟩ := hraised
    rw [SessionCall.method] at hcall
    rw [beginStepUp, hcall]
    dsimp only [ofIdentity]
    split_ifs
    · exact Or.inl ⟨_, rfl⟩
    · exact Or.inl ⟨_, rfl⟩
    · exact Or.inr ⟨s', hid, hlevel, hceil, rfl⟩

/-- The rows that a transaction may hold. -/
def ownedBy : Pc → Key → Prop
  | .enqueue m, k => k = .session m.moved.id
  | .commit (some m), k => k = .session m.moved.id ∨ k = .event m.eventId
  | .snapshotSessions _, k => ∀ id, k ≠ .event id
  | .revokeSessions _ _, k => ∀ id, k ≠ .event id
  | .commit none, k => ∀ id, k ≠ .event id
  | .fail _, _ => True
  | _, _ => False

/-- The session that a switch read was committed, and only generations above follow. -/
def Behind (db : Db) (m : Move) : Prop :=
  ∃ v, db.row (.session m.moved.id) = some v ∧ Follows m.source (place v.1)

/-- The transaction holds the session of its switch where it goes, over where it came from. -/
def Holding (c : SessionCfg) (i : ℕ) (m : Move) : Prop :=
  ∃ v w, c.lock (.session m.moved.id) = some (i, some v) ∧ place v.1 = m.target ∧
    c.db.row (.session m.moved.id) = some w ∧ place w.1 = m.source

def Still (c : SessionCfg) (i : ℕ) : Prop :=
  ∀ id v, c.lock (.session id) = some (i, some v) →
    ∃ w, c.db.row (.session id) = some w ∧ place w.1 = place v.1

inductive Accounted (c : SessionCfg) (i : ℕ) : Pc → Prop
  | getForSwitch (identityId sessionId : Uuid) (dest : Membership) (required : String)
      (eventId : Uuid) : Accounted c i (.getForSwitch identityId sessionId dest required eventId)
  | saveSwitch {m : Move} (hm : Moves m) (hread : Behind c.db m) : Accounted c i (.saveSwitch m)
  | updateSwitch {m : Move} (hm : Moves m) (hread : Behind c.db m) :
      Accounted c i (.updateSwitch m)
  | enqueue {m : Move} (hm : Moves m) (hold : Holding c i m) : Accounted c i (.enqueue m)
  | getForStepUp (identityId sessionId : Uuid) (now : Time) (aal : String) (methods : List String) :
      Accounted c i (.getForStepUp identityId sessionId now aal methods)
  | saveStepUp {s : AuthSession} (hs : Attested s.authMethods s.provenAAL) :
      Accounted c i (.saveStepUp s)
  | snapshotSessions (q : Revocation) (hstill : Still c i) : Accounted c i (.snapshotSessions q)
  | revokeSessions (q : Revocation) (ids : List Uuid) (hstill : Still c i) :
      Accounted c i (.revokeSessions q ids)
  | getMembership (op : Removal) (org membershipId : Uuid) :
      Accounted c i (.getMembership op org membershipId)
  | saveRemoval (op : Removal) (m : Membership) : Accounted c i (.saveRemoval op m)
  | switched {m : Move} (hm : Moves m) (hold : Holding c i m)
      (hevent : c.lock (.event m.eventId) = some (i, some m.event))
      (hnew : c.db.row (.event m.eventId) = none) : Accounted c i (.commit (some m))
  | commit (hstill : Still c i) : Accounted c i (.commit none)
  | fail (err : SessionError) : Accounted c i (.fail err)

/-- The state of a run. -/
structure Sound (c : SessionCfg) : Prop where
  accounted : ∀ i l, c.proc i = some l → Accounted c i l
  held : HeldAt ownedBy c
  forward : LocksForward placeOrder c

section Steps

variable {c c' : SessionCfg} {e : Event Req} {i : ℕ}

/-- Every committed row of the first store is followed in the second. -/
def Grows (db db' : Db) : Prop := ∀ k, placeOrder.le k (db.row k) (db'.row k)

theorem Behind.grows {db db' : Db} {m : Move} (h : Behind db m) (hdb : Grows db db') :
    Behind db' m := by
  obtain ⟨v, hv, hplace⟩ := h
  obtain ⟨w, hw, hvw⟩ := hdb (.session m.moved.id) v hv
  exact ⟨w, hw, hplace.trans hvw⟩

theorem Holding.frame {m : Move} (h : Holding c i m) (hf : Frame c c' i) : Holding c' i m := by
  obtain ⟨v, w, hlock, hv, hdb, hw⟩ := h
  exact ⟨v, w, (hf.lock _ _).mpr hlock, hv, (hf.row _ _ hlock).trans hdb, hw⟩

theorem Still.frame (h : Still c i) (hf : Frame c c' i) : Still c' i := by
  intro id v hlock
  have hlock₀ := (hf.lock _ _).mp hlock
  obtain ⟨w, hw, hplace⟩ := h id v hlock₀
  exact ⟨w, (hf.row _ _ hlock₀).trans hw, hplace⟩

theorem Accounted.frame {l : Pc} (h : Accounted c i l) (hdb : Grows c.db c'.db)
    (hf : Frame c c' i) : Accounted c' i l := by
  cases h with
  | getForSwitch identityId sessionId dest required eventId => exact .getForSwitch ..
  | saveSwitch hm hread => exact .saveSwitch hm (hread.grows hdb)
  | updateSwitch hm hread => exact .updateSwitch hm (hread.grows hdb)
  | enqueue hm hold => exact .enqueue hm (hold.frame hf)
  | getForStepUp identityId sessionId now aal methods => exact .getForStepUp ..
  | saveStepUp hs => exact .saveStepUp hs
  | snapshotSessions q hstill => exact .snapshotSessions q (hstill.frame hf)
  | revokeSessions q ids hstill => exact .revokeSessions q ids (hstill.frame hf)
  | getMembership op org membershipId => exact .getMembership ..
  | saveRemoval op m => exact .saveRemoval op m
  | switched hm hold hevent hnew =>
    exact .switched hm (hold.frame hf) ((hf.lock _ _).mpr hevent)
      ((hf.row _ _ hevent).trans hnew)
  | commit hstill => exact .commit (hstill.frame hf)
  | fail err => exact .fail err

theorem Sound.rows (hc : Sound c) (h : exec sessionProgram c e = some c') : Grows c.db c'.db :=
  hc.forward.rows h

inductive SessionWrites (c : SessionCfg) (i : ℕ) : Pc → (k : Key) → Option (Row k) → Prop
  | switch {m : Move} {v : Row (.session m.moved.id)} (hm : Moves m) (hread : Behind c.db m)
      (hv : c.viewRow i (.session m.moved.id) = some v) (hmatch : m.matches v.1 = true) :
      SessionWrites c i (.updateSwitch m) (.session m.moved.id)
        (some ⟨setSwitch m.moved v.1, (setSwitch_id m.moved v.1).trans v.2⟩)
  | event {m : Move} (hm : Moves m) (hold : Holding c i m)
      (hnone : c.viewRow i (.event m.eventId) = none) :
      SessionWrites c i (.enqueue m) (.event m.eventId) (some m.event)
  | stepUp {s : AuthSession} {v : Row (.session s.id)} (hs : Attested s.authMethods s.provenAAL)
      (hv : c.viewRow i (.session s.id) = some v) (hmatch : stepUpMatches s v.1 = true) :
      SessionWrites c i (.saveStepUp s) (.session s.id)
        (some ⟨setStepUp s v.1, (setStepUp_id s v.1).trans v.2⟩)
  | revoke {q : Revocation} {id : Uuid} {ids : List Uuid} {v : Row (.session id)}
      (hv : c.viewRow i (.session id) = some v) :
      SessionWrites c i (.revokeSessions q (id :: ids)) (.session id)
        (some ⟨if q.matches v.1 then v.1.revoked else v.1, (revoked_if_id _ v.1).trans v.2⟩)
  | removal {op : Removal} {m : Membership} {v : Row (.membership m.id)}
      (hv : c.viewRow i (.membership m.id) = some v) :
      SessionWrites c i (.saveRemoval op m) (.membership m.id)
        (some ⟨setRemoval op v.1, (setRemoval_id op v.1).trans v.2⟩)
  | kept {l : Pc} {k : Key} {v : Row k} (hk : ∀ id, k ≠ .event id) (hv : c.viewRow i k = some v) :
      SessionWrites c i l k (some v)

theorem Sound.writes (hc : Sound c) {l : Pc} (hl : c.proc i = some l) {k : Key}
    {r : Option (Row k)} (hw : Writes c i (sessionProgram.next l) k r) :
    SessionWrites c i l k r := by
  cases hc.accounted i l hl with
  | getForSwitch identityId sessionId dest required eventId => cases hw
  | saveSwitch hm hread => cases hw
  | @updateSwitch m hm hread =>
    simp only [sessionProgram] at hw
    cases hw with
    | update hv =>
      dsimp only
      split_ifs with hmatch
      · exact .switch hm hread hv hmatch
      · exact .kept (by simp) hv
  | @enqueue m hm hold =>
    simp only [sessionProgram] at hw
    split at hw
    · cases hw
    · cases hw with
      | insert hnone => exact .event hm hold hnone
  | getForStepUp identityId sessionId now aal methods => cases hw
  | @saveStepUp s hs =>
    simp only [sessionProgram] at hw
    cases hw with
    | update hv =>
      dsimp only
      split_ifs with hmatch
      · exact .stepUp hs hv hmatch
      · exact .kept (by simp) hv
  | snapshotSessions q hstill => cases hw
  | revokeSessions q ids hstill =>
    cases ids with
    | nil => cases hw
    | cons id ids =>
      simp only [sessionProgram] at hw
      cases hw with
      | update hv => exact .revoke hv
  | getMembership op org membershipId => cases hw
  | saveRemoval op m =>
    simp only [sessionProgram] at hw
    cases hw with
    | update hv =>
      dsimp only
      split_ifs
      · exact .removal hv
      · exact .kept (by simp) hv
  | switched hm hold hevent hnew => cases hw
  | commit hstill => cases hw
  | fail err => cases hw

theorem Move.matches_iff {m : Move} {r : SessionRow} : m.matches r = true ↔
    r.session.identityId = m.moved.identityId ∧ r.session.status = .active ∧
      r.session.membershipId = some m.event.fromMembershipId ∧
      r.session.tokenGeneration = m.read.tokenGeneration := by
  simp only [Move.matches, switchMatches, Bool.and_eq_true, decide_eq_true_eq, and_assoc]

/-- The version that a switch finds is where the switch departed from. -/
theorem Behind.place_eq {m : Move} (hread : Behind c.db m) {v : Row (.session m.moved.id)}
    (hv : c.db.row (.session m.moved.id) = some v) (hmatch : m.matches v.1 = true) :
    place v.1 = m.source := by
  obtain ⟨w, hw, -, hsame⟩ := hread
  obtain rfl := Option.some.inj (hv.symm.trans hw)
  -- the guard names the generation that was read, and a generation has one place
  obtain ⟨-, -, -, hgen⟩ := Move.matches_iff.mp hmatch
  exact (hsame hgen.symm).symm

theorem place_setSwitch {m : Move} (hm : Moves m) (r : SessionRow) :
    place (setSwitch m.moved r) = m.target := by
  obtain ⟨hmem, horg, hgen⟩ := hm.moved
  simp only [place, setSwitch, Move.target, hmem, horg, hgen]

theorem source_generation_lt {m : Move} (hm : Moves m) : m.source.generation < m.target.generation := by
  have hgen := hm.generation
  simp only [Move.source, Move.target]
  omega

@[simp] theorem place_setStepUp (s : AuthSession) (r : SessionRow) :
    place (setStepUp s r) = place r := rfl

@[simp] theorem place_revoked_if (test : Bool) (r : SessionRow) :
    place (if test then r.revoked else r) = place r := by
  split <;> rfl

theorem Sound.writesForward (hc : Sound c) : WritesForward placeOrder sessionProgram c e := by
  intro i l k r _ hl hw
  cases hc.writes hl hw with
  | @switch m v hm hread hv hmatch =>
    have hdb : c.db.row (.session m.moved.id) = some v :=
      (hc.held.view_eq hl (fun h => h)).symm.trans hv
    rw [hv]
    apply VersionOrder.above_some
    change Follows (place v.1) (place (setSwitch m.moved v.1))
    rw [hread.place_eq hdb hmatch, place_setSwitch hm]
    exact follows_of_lt (source_generation_lt hm)
  | event hm hold hnone =>
    rw [hnone]
    exact VersionOrder.above_none
  | stepUp hs hv hmatch =>
    rw [hv]
    exact VersionOrder.above_some (Follows.refl _)
  | @revoke q id ids v hv =>
    rw [hv]
    apply VersionOrder.above_some
    change Follows (place v.1) (place (if _ then _ else _))
    rw [place_revoked_if]
    exact .refl _
  | removal hv =>
    rw [hv]
    exact VersionOrder.above_some trivial
  | kept hk hv =>
    rw [hv]
    exact placeOrder.refl k _

theorem Sound.holds (hc : Sound c) {l l' : Pc} {k : Key} (hl : c.proc i = some l)
    (hgo : (sessionProgram.next l).continues = true)
    (hr : Reaches c i (sessionProgram.next l) l')
    (hk : ownedBy l k ∨ ∃ r, Writes c i (sessionProgram.next l) k r) : ownedBy l' k := by
  cases hc.accounted i l hl with
  | getForSwitch identityId sessionId dest required eventId =>
    rcases hk with hk | ⟨r, hw⟩
    · exact hk.elim
    · cases hw
  | saveSwitch hm hread =>
    rcases hk with hk | ⟨r, hw⟩
    · exact hk.elim
    · cases hw
  | @updateSwitch m hm hread =>
    simp only [sessionProgram] at hr hk
    rcases hk with hk | ⟨r, hw⟩
    · exact hk.elim
    · cases hw with
      | update hv =>
        cases hr with
        | absent hnone => trivial
        | present hv =>
          dsimp only
          split_ifs
          · exact rfl
          · trivial
  | @enqueue m hm hold =>
    simp only [sessionProgram] at hr hk
    split at hr
    · cases hr with
      | read => trivial
    · rename_i hval
      rw [hval] at hk
      cases hr with
      | inserted hnone =>
        rcases hk with hk | ⟨r, hw⟩
        · exact Or.inl hk
        · cases hw with
          | insert hnone => exact Or.inr rfl
      | conflict hsome => trivial
  | getForStepUp identityId sessionId now aal methods =>
    rcases hk with hk | ⟨r, hw⟩
    · exact hk.elim
    · cases hw
  | @saveStepUp s hs =>
    simp only [sessionProgram] at hr hk
    rcases hk with hk | ⟨r, hw⟩
    · exact hk.elim
    · cases hw with
      | update hv =>
        cases hr with
        | absent hnone => trivial
        | present hv =>
          dsimp only
          split_ifs
          · exact fun id => by simp
          · trivial
  | snapshotSessions q hstill =>
    rcases hk with hk | ⟨r, hw⟩
    · simp only [sessionProgram] at hr
      cases hr with
      | read =>
        dsimp only
        split_ifs
        · trivial
        · exact hk
    · cases hw
  | revokeSessions q ids hstill =>
    cases ids with
    | nil => cases hgo
    | cons id ids =>
      simp only [sessionProgram] at hr hk
      have hnot : ∀ event, k ≠ .event event := by
        rcases hk with hk | ⟨r, hw⟩
        · exact hk
        · cases hw with
          | update hv => simp
      cases hr with
      | absent hnone => exact hnot
      | present hv => exact hnot
  | getMembership op org membershipId =>
    rcases hk with hk | ⟨r, hw⟩
    · exact hk.elim
    · cases hw
  | saveRemoval op m =>
    simp only [sessionProgram] at hr hk
    rcases hk with hk | ⟨r, hw⟩
    · exact hk.elim
    · cases hw with
      | update hv =>
        cases hr with
        | absent hnone => trivial
        | present hv =>
          dsimp only
          split_ifs
          · exact fun id => by simp
          · trivial
  | switched hm hold hevent hnew => cases hgo
  | commit hstill => cases hgo
  | fail err => cases hgo

theorem Sound.still (hc : Sound c) {l : Pc} (hl : c.proc i = some l)
    (hno : ∀ id, ¬ownedBy l (.session id)) : Still c i :=
  fun id _ hlock => absurd hlock (hc.held.unlocked hl (hno id) _)

theorem Still.write {k : Key} {v : Row k} {l' : Pc} (h : Still c i)
    (hview : ∀ id, ∀ hk : k = .session id, ∀ u, c.viewRow i (.session id) = some u →
      place (hk ▸ v : Row (.session id)).1 = place u.1)
    (hsome : c.viewRow i k ≠ none) : Still ((c.write i k (some v)).goto i l') i := by
  intro id w hlock
  rcases lock_write hlock with hold | ⟨-, hk, hw⟩
  · exact h id w hold
  · subst hk
    obtain rfl : v = w := Option.some.inj hw
    obtain ⟨u, hu⟩ := Option.ne_none_iff_exists'.mp hsome
    have hplace : place v.1 = place u.1 := hview id rfl u hu
    -- the row that is replaced is a version of the transaction's own, or the committed one
    rcases c.viewRow_cases i (.session id) with ⟨r, hr, heq⟩ | ⟨-, heq⟩
    · rw [heq] at hu
      subst hu
      obtain ⟨w, hw, hwu⟩ := h id u hr
      exact ⟨w, hw, hwu.trans hplace.symm⟩
    · exact ⟨u, heq.symm.trans hu, hplace.symm⟩

theorem Sound.session_read (hc : Sound c) {l : Pc} {identityId sessionId : Uuid} {s : AuthSession}
    (hl : c.proc i = some l) (hno : ¬ownedBy l (.session sessionId))
    (hg : getSession (c.view i) identityId sessionId = some s) :
    ∃ v : Row (.session sessionId), c.db.row (.session sessionId) = some v ∧ v.1.session = s := by
  obtain ⟨r, hr, rfl⟩ := Option.map_eq_some_iff.mp hg
  obtain ⟨hat, -⟩ := Option.filter_eq_some_iff.mp hr
  rw [sessionAt, Cfg.view_row, hc.held.view_eq hl hno] at hat
  obtain ⟨v, hv, rfl⟩ := Option.map_eq_some_iff.mp hat
  exact ⟨v, hv, rfl⟩

theorem Sound.next (hc : Sound c) {l l' : Pc} (hl : c.proc i = some l)
    (h : exec sessionProgram c (.step i) = some c') (hl' : c'.proc i = some l') :
    Accounted c' i l' := by
  have hact : c.act i (sessionProgram.next l) = some c' := act_of_exec h hl
  cases hc.accounted i l hl with
  | getForSwitch identityId sessionId dest required eventId =>
    obtain rfl := act_read hact
    obtain rfl := eq_of_goto_proc hl'
    cases hg : getSession (c.view i) identityId sessionId with
    | none => exact .fail _
    | some s =>
      dsimp only
      rcases beginSwitch_cases identityId s dest required eventId with
        ⟨err, heq⟩ | ⟨m, hm, hread, heq⟩
      · rw [heq]
        exact .fail err
      · rw [heq]
        obtain ⟨v, hv, rfl⟩ := hc.session_read hl (fun h => h) hg
        have hid : sessionId = m.moved.id := by
          rw [hm.id, hread]
          exact v.2.symm
        subst hid
        refine .saveSwitch hm ⟨v, hv, ?_⟩
        rw [hm.source_of_read hread]
        exact .refl _
  | saveSwitch hm hread =>
    obtain rfl := act_read hact
    obtain rfl := eq_of_goto_proc hl'
    split_ifs
    · exact .updateSwitch hm hread
    · exact .fail _
  | @updateSwitch m hm hread =>
    -- the update finds the committed session: only now does the transaction come to hold it
    rcases act_update hact with ⟨-, rfl⟩ | ⟨v, hv, -, rfl⟩
    · obtain rfl := eq_of_goto_proc hl'
      exact .fail _
    · obtain rfl := eq_of_goto_proc hl'
      split_ifs with hmatch
      · have hdb : c.db.row (.session m.moved.id) = some v :=
          (hc.held.view_eq hl (fun h => h)).symm.trans hv
        refine .enqueue hm ⟨⟨setSwitch m.moved v.1, _⟩, v, Function.update_self .., ?_, hdb, ?_⟩
        · exact place_setSwitch hm v.1
        · exact hread.place_eq hdb hmatch
      · exact .fail _
  | @enqueue m hm hold =>
    simp only [sessionProgram] at hact
    split at hact
    · obtain rfl := act_read hact
      obtain rfl := eq_of_goto_proc hl'
      exact .fail _
    · rcases act_insert hact with ⟨hnone, -, rfl⟩ | ⟨-, rfl⟩
      · obtain rfl := eq_of_goto_proc hl'
        obtain ⟨v, w, hlock, hv, hdb, hw⟩ := hold
        -- the id of the event was free, and the session stays held as it has moved
        have hnew : c.db.row (.event m.eventId) = none :=
          (hc.held.view_eq hl (fun h => by cases h)).symm.trans hnone
        refine .switched hm ⟨v, w, ?_, hv, hdb, hw⟩ (Function.update_self ..) hnew
        rw [Cfg.goto_lock, Cfg.write_lock, Function.update_of_ne (by simp)]
        exact hlock
      · obtain rfl := eq_of_goto_proc hl'
        exact .fail _
  | getForStepUp identityId sessionId now aal methods =>
    obtain rfl := act_read hact
    obtain rfl := eq_of_goto_proc hl'
    cases hg : getSession (c.view i) identityId sessionId with
    | none => exact .fail _
    | some s =>
      dsimp only
      rcases beginStepUp_cases identityId s now aal methods with
        ⟨err, heq⟩ | ⟨s', -, -, hs, heq⟩
      · rw [heq]
        exact .fail err
      · rw [heq]
        exact .saveStepUp hs
  | @saveStepUp s hs =>
    have hstill : Still c i := hc.still hl fun id h => h
    rcases act_update hact with ⟨-, rfl⟩ | ⟨v, hv, -, rfl⟩
    · obtain rfl := eq_of_goto_proc hl'
      exact .fail _
    · obtain rfl := eq_of_goto_proc hl'
      split_ifs
      · refine .commit (hstill.write ?_ (by rw [hv]; simp))
        rintro id hk u hu
        cases hk
        obtain rfl := Option.some.inj (hv.symm.trans hu)
        rfl
      · exact .fail _
  | snapshotSessions q hstill =>
    obtain rfl := act_read hact
    obtain rfl := eq_of_goto_proc hl'
    split_ifs
    · exact .fail _
    · exact .revokeSessions q _ hstill
  | revokeSessions q ids hstill =>
    cases ids with
    | nil =>
      obtain rfl := act_commit hact
      simp at hl'
    | cons id ids =>
      rcases act_update hact with ⟨-, rfl⟩ | ⟨v, hv, -, rfl⟩
      · obtain rfl := eq_of_goto_proc hl'
        exact .revokeSessions q ids hstill
      · obtain rfl := eq_of_goto_proc hl'
        refine .revokeSessions q ids (hstill.write ?_ (by rw [hv]; simp))
        rintro id' hk u hu
        cases hk
        obtain rfl := Option.some.inj (hv.symm.trans hu)
        exact place_revoked_if _ v.1
  | getMembership op org membershipId =>
    obtain rfl := act_read hact
    obtain rfl := eq_of_goto_proc hl'
    split
    · exact .fail _
    · rename_i m hm
      have hstill : Still c i := hc.still hl fun id h => h
      cases op with
      | revoke => exact .saveRemoval _ _
      | suspend =>
        -- a suspended membership is left as it is
        rw [applyRemoval]
        split_ifs
        · exact .commit hstill
        · split
          · exact .fail _
          · exact .saveRemoval _ _
  | @saveRemoval op m =>
    have hstill : Still c i := hc.still hl fun id h => h
    rcases act_update hact with ⟨-, rfl⟩ | ⟨v, hv, -, rfl⟩
    · obtain rfl := eq_of_goto_proc hl'
      exact .fail _
    · obtain rfl := eq_of_goto_proc hl'
      split_ifs
      -- what is written is the membership; its sessions are revoked by the statements that follow
      · refine .snapshotSessions _ (hstill.write ?_ (by rw [hv]; simp))
        rintro id hk
        cases hk
      · exact .fail _
  | switched hm hold hevent hnew =>
    obtain rfl := act_commit hact
    simp at hl'
  | commit hstill =>
    obtain rfl := act_commit hact
    simp at hl'
  | fail err =>
    obtain rfl := act_abort hact
    simp at hl'

theorem accounted_entry (r : Req) : Accounted c i (sessionProgram.entry r) ∨
    ∃ q, sessionProgram.entry r = .snapshotSessions q := by
  cases r with
  | switchTenant identityId sessionId dest required eventId => exact Or.inl (.getForSwitch ..)
  | stepUpTotp identityId sessionId now => exact Or.inl (.getForStepUp ..)
  | stepUpWebAuthn identityId sessionId aal now => exact Or.inl (.getForStepUp ..)
  | revoke q => exact Or.inr ⟨q, rfl⟩
  | remove op org membershipId => exact Or.inl (.getMembership ..)

theorem Sound.step (hc : Sound c) (h : exec sessionProgram c e = some c') : Sound c' := by
  refine ⟨fun i l hl => ?_, ?_, hc.forward.step hc.writesForward h⟩
  · rcases proc_of_exec h hl with ⟨hl, hi⟩ | ⟨r, rfl, hi, rfl⟩ | ⟨l₀, rfl, hl₀, hr⟩
    · exact (hc.accounted i l hl).frame (hc.rows h) (frame_of_exec h hi).1
    · rcases accounted_entry (c := c') (i := i) r with hentry | ⟨q, heq⟩
      · exact hentry
      · -- who has just begun holds nothing
        rw [heq]
        refine .snapshotSessions q fun id v hlock => ?_
        rcases lock_of_exec h hlock with hold | ⟨l, he, -, -⟩
        · obtain ⟨l, hl, -⟩ := hc.held _ _ _ hold
          rw [hi] at hl
          cases hl
        · cases he
    · exact hc.next hl₀ h hl
  · apply hc.held.step _ h
    exact fun i l l' k _ hl hgo hr hk => hc.holds hl hgo hr hk

end Steps

theorem sound_idle (db : Db) : Sound (Cfg.idle db) := by
  refine ⟨fun _ _ hl => ?_, heldAt_idle _ _, locksForward_idle _⟩
  cases hl

end ArchGuard.Sessions
