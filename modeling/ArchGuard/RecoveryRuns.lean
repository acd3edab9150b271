import ArchGuard.RecoveryRequest
import Mathlib.Data.List.Perm.Subperm

/-! What interleaved decisions on recovery requests keep: the peers that approved always, the final
statuses where no decision is saved over one. -/
namespace ArchGuard.Recovery
open ReadCommitted TransitionRun

/-- The columns that no decision changes. -/
structure SameRequest (r r' : RecoveryRequest) : Prop where
  target : r.targetIdentityId = r'.targetIdentityId
  organization : r.organizationId = r'.organizationId
  requestedBy : r.requestedBy = r'.requestedBy
  required : r.requiredApprovals = r'.requiredApprovals

theorem SameRequest.refl (r : RecoveryRequest) : SameRequest r r := ⟨rfl, rfl, rfl, rfl⟩

theorem SameRequest.symm {r r' : RecoveryRequest} (h : SameRequest r r') : SameRequest r' r :=
  ⟨h.target.symm, h.organization.symm, h.requestedBy.symm, h.required.symm⟩

theorem SameRequest.trans {r r' r'' : RecoveryRequest} (h : SameRequest r r')
    (h' : SameRequest r' r'') : SameRequest r r'' :=
  ⟨h.target.trans h'.target, h.organization.trans h'.organization,
    h.requestedBy.trans h'.requestedBy, h.required.trans h'.required⟩

theorem SameRequest.peer {r r' : RecoveryRequest} (h : SameRequest r r') {a : Uuid}
    (ha : r.Peer a) : r'.Peer a := by
  rw [RecoveryRequest.Peer, ← h.target, ← h.requestedBy]
  exact ha

def Enough (db : Db) (r : RecoveryRequest) : Prop :=
  ∃ as : List Uuid, as.Nodup ∧ r.requiredApprovals ≤ as.length ∧
    ∀ a ∈ as, db.row (.approval r.id a) = some r.organizationId

/-- Rows stay: approvals as they are, requests but for their status. -/
def sameRows : VersionOrder Row :=
  .above (fun
      | .request _, r, r' => SameRequest r.1 r'.1
      | .approval _ _, o, o' => o' = o)
    (fun k v => by
      cases k with
      | request id => exact .refl _
      | approval id a => exact rfl)
    (fun k u v w h h' => by
      cases k with
      | request id => exact SameRequest.trans h h'
      | approval id a => exact Eq.trans h' h)

/-- Every row of the first store is in the second. -/
def Grows (db db' : Db) : Prop := ∀ k, sameRows.le k (db.row k) (db'.row k)

theorem Grows.approval {db db' : Db} (h : Grows db db') {id a org : Uuid}
    (ha : db.row (.approval id a) = some org) : db'.row (.approval id a) = some org := by
  obtain ⟨w, hw, hsame⟩ := h (.approval id a) org ha
  exact hw.trans (congrArg some hsame)

theorem Grows.enough {db db' : Db} (h : Grows db db') {r : RecoveryRequest} (he : Enough db r) :
    Enough db' r := by
  obtain ⟨as, hnodup, hlen, has⟩ := he
  exact ⟨as, hnodup, hlen, fun a ha => h.approval (has a ha)⟩

theorem Enough.same {db : Db} {r r' : RecoveryRequest} (h : Enough db r) (hid : r.id = r'.id)
    (hs : SameRequest r r') : Enough db r' := by
  obtain ⟨as, hnodup, hlen, has⟩ := h
  refine ⟨as, hnodup, hs.required ▸ hlen, fun a ha => ?_⟩
  rw [← hid, ← hs.organization]
  exact has a ha

/-- The request that a decision is about is that of a committed row, but for its status. -/
def Matches (db : Db) (r : RecoveryRequest) : Prop :=
  ∃ v, db.row (.request r.id) = some v ∧ SameRequest v.1 r

theorem Grows.matches {db db' : Db} (h : Grows db db') {r : RecoveryRequest} (hm : Matches db r) :
    Matches db' r := by
  obtain ⟨v, hv, hsame⟩ := hm
  obtain ⟨w, hw, hvw⟩ := h (.request r.id) v hv
  exact ⟨w, hw, hvw.symm.trans hsame⟩

theorem Matches.same {db : Db} {r r' : RecoveryRequest} (h : Matches db r) (hid : r.id = r'.id)
    (hs : SameRequest r r') : Matches db r' := by
  obtain ⟨v, hv, hsame⟩ := h
  cases r' with
  | mk id target org requestedBy justification status required approvals =>
    subst hid
    exact ⟨v, hv, hsame.trans hs⟩

/-- The request of the organization is there, and the approver is one of its peers. -/
def PeerOf (db : Db) (id a org : Uuid) : Prop :=
  ∃ v, db.row (.request id) = some v ∧ v.1.organizationId = org ∧ v.1.Peer a

theorem Grows.peerOf {db db' : Db} (h : Grows db db') {id a org : Uuid} (hp : PeerOf db id a org) :
    PeerOf db' id a org := by
  obtain ⟨v, hv, horg, hpeer⟩ := hp
  obtain ⟨w, hw, hvw⟩ := h (.request id) v hv
  exact ⟨w, hw, hvw.organization.symm.trans horg, hvw.peer hpeer⟩

/-- The rows that a transaction may hold. -/
def ownedBy : Pc → Key → Prop
  | .saveDecision r _ _, k => ∃ a ∈ r.approvals, k = .approval r.id a
  | .commit _ _, _ => True
  | .fail, _ => True
  | _, _ => False

/-- What a decision has read and decided, by its next statement. -/
structure Saving (c : RecoveryCfg) (i : ℕ) (r : RecoveryRequest) (rest : List Uuid) (d : Decision) :
    Prop where
  row : Matches c.db r
  left : rest ⊆ r.approvals
  peers : ∀ a ∈ r.approvals, r.Peer a
  nodup : r.approvals.Nodup
  seen : ∀ a ∈ r.approvals, a ∈ rest ∨ c.viewRow i (.approval r.id a) = some r.organizationId
  approved : r.status = .approved → r.requiredApprovals ≤ r.approvals.length
  consumed : r.status = .consumed → Enough c.db r
  decision : r.status = .consumed ↔ d = .consume

inductive Accounted (c : RecoveryCfg) (i : ℕ) : Pc → Prop
  | createRequest {r : RecoveryRequest} (hst : r.status = .pending) :
      Accounted c i (.createRequest r)
  | getRequest (org id : Uuid) (d : Decision) : Accounted c i (.getRequest org id d)
  | loadApprovals {r : RecoveryRequest} (d : Decision) (hm : Matches c.db r)
      (hgranted : r.Granted → Enough c.db r) :
      Accounted c i (.loadApprovals r.organizationId r d)
  | saveDecision {r : RecoveryRequest} {rest : List Uuid} {d : Decision}
      (hs : Saving c i r rest d) : Accounted c i (.saveDecision r rest d)
  | commit (id : Uuid) (d : Option Decision) : Accounted c i (.commit id d)
  | fail : Accounted c i .fail

/-- The state of a run. -/
structure Sound (c : RecoveryCfg) : Prop where
  accounted : ∀ i l, c.proc i = some l → Accounted c i l
  held : HeldAt ownedBy c
  forward : LocksForward sameRows c
  peers : ∀ id a org, Version c (.approval id a) org → PeerOf c.db id a org
  granted : ∀ id v, c.db.row (.request id) = some v → v.1.Granted → Enough c.db v.1
  granting : ∀ id i v, c.lock (.request id) = some (i, some v) → v.1.Granted →
    Enough (c.view i) v.1

section Steps

variable {c c' : RecoveryCfg} {e : Event Req} {i : ℕ}

theorem Accounted.grows {l : Pc} (h : Accounted c i l) (hdb : Grows c.db c'.db)
    (hview : Grows (c.view i) (c'.view i)) : Accounted c' i l := by
  cases h with
  | createRequest hst => exact .createRequest hst
  | getRequest org id d => exact .getRequest org id d
  | loadApprovals d hm hgranted =>
    exact .loadApprovals d (hdb.matches hm) fun hg => hdb.enough (hgranted hg)
  | saveDecision hs =>
    refine .saveDecision { hs with row := hdb.matches hs.row, seen := ?_, consumed := ?_ }
    · exact fun a ha => (hs.seen a ha).imp_right fun hv => hview.approval hv
    · exact fun hst => hdb.enough (hs.consumed hst)
  | commit id d => exact .commit id d
  | fail => exact .fail

theorem Sound.rows (hc : Sound c) (h : exec recoveryProgram c e = some c') : Grows c.db c'.db :=
  hc.forward.rows h

theorem Sound.sees (hc : Sound c) (i : ℕ) : Grows c.db (c.view i) := fun _ => hc.forward.view _

theorem Sound.approval_seen (hc : Sound c) {r : RecoveryRequest} (hm : Matches c.db r) {a org : Uuid}
    (ha : c.viewRow i (.approval r.id a) = some org) : org = r.organizationId ∧ r.Peer a := by
  obtain ⟨v, hv, rfl, hpeer⟩ := hc.peers r.id a org (version_of_view ha)
  obtain ⟨w, hw, hsame⟩ := hm
  obtain rfl := Option.some.inj (hv.symm.trans hw)
  exact ⟨hsame.organization, hsame.peer hpeer⟩

theorem loadApprovals_nodup (db : Db) (id org : Uuid) : (loadApprovals db id org).Nodup := by
  apply db.scan_nodup
  intro k k' v v' x hk hk'
  cases k with
  | request r => cases hk
  | approval r a =>
    cases k' with
    | request r' => cases hk'
    | approval r' a' =>
      simp only [Option.ite_none_right_eq_some, Option.some.injEq] at hk hk'
      rw [hk.1.1, hk'.1.1, hk.2, hk'.2]

theorem mem_loadApprovals {db : Db} {id org a : Uuid} :
    a ∈ loadApprovals db id org ↔ db.row (.approval id a) = some org := by
  rw [loadApprovals, db.mem_scan]
  constructor
  · rintro ⟨k, v, hv, ha⟩
    cases k with
    | request r => cases ha
    | approval r b =>
      simp only [Option.ite_none_right_eq_some, Option.some.injEq] at ha
      obtain ⟨⟨rfl, rfl⟩, rfl⟩ := ha
      exact hv
  · intro h
    exact ⟨.approval id a, org, h, by simp⟩

theorem Sound.accounted_applyDecision (hc : Sound c) {r : RecoveryRequest} {d : Decision}
    (hm : Matches c.db r) (hgranted : r.Granted → Enough c.db r) :
    Accounted c i (applyDecision r.organizationId
      { r with approvals := loadApprovals (c.view i) r.id r.organizationId } d) := by
  rw [applyDecision]
  cases happly : ({ r with approvals := loadApprovals (c.view i) r.id r.organizationId } :
      RecoveryRequest).apply d with
  | error err => exact .fail
  | ok r' =>
    have hd := decided_of_apply happly
    dsimp only
    split_ifs with horg
    · exact .fail
    have hsame : SameRequest r r' :=
      ⟨hd.target.symm, hd.organization.symm, hd.requestedBy.symm, hd.required.symm⟩
    have hid : r'.id = r.id := hd.id
    have hloaded : ∀ a ∈ loadApprovals (c.view i) r.id r.organizationId,
        c.viewRow i (.approval r'.id a) = some r'.organizationId ∧ r'.Peer a := by
      intro a ha
      have hrow := mem_loadApprovals.mp ha
      rw [hid, ← hsame.organization]
      exact ⟨hrow, hsame.peer (hc.approval_seen hm hrow).2⟩
    have hnodup := loadApprovals_nodup (c.view i) r.id r.organizationId
    refine .saveDecision ⟨hm.same hid.symm hsame, fun _ ha => ha, ?_, ?_, fun a ha => Or.inl ha,
      hd.enough, fun hst => ?_, hd.consumed⟩
    -- those that were loaded are peers, and so is the one that an approval adds
    · intro a ha
      rcases hd.approvals with happ | ⟨b, hb, -, happ⟩
      · rw [happ] at ha
        exact (hloaded a ha).2
      · rw [happ] at ha
        rcases List.mem_append.mp ha with ha | ha
        · exact (hloaded a ha).2
        · rw [List.mem_singleton.mp ha]
          exact hsame.peer hb
    · rcases hd.approvals with happ | ⟨b, -, hnew, happ⟩
      · rw [happ]
        exact hnodup
      · rw [happ]
        exact List.nodup_append.mpr ⟨hnodup, List.nodup_singleton b, by
          rintro a ha x hx rfl
          rw [List.mem_singleton.mp hx] at ha
          exact hnew ha⟩
    · exact (hgranted (Or.inl (hd.before hst))).same hid.symm hsame

theorem Sound.row_seen (hc : Sound c) {r : RecoveryRequest} (hm : Matches c.db r)
    {v : Row (.request r.id)} (hv : c.viewRow i (.request r.id) = some v) : SameRequest v.1 r := by
  obtain ⟨w, hw, hsame⟩ := hc.sees i |>.matches hm
  obtain rfl := Option.some.inj (hv.symm.trans hw)
  exact hsame

inductive RequestWrites (c : RecoveryCfg) (i : ℕ) : Pc → (k : Key) → Option (Row k) → Prop
  | create {r : RecoveryRequest} (hst : r.status = .pending)
      (hnone : c.viewRow i (.request r.id) = none) :
      RequestWrites c i (.createRequest r) (.request r.id)
        (some ⟨{ r with approvals := [] }, stored_row r⟩)
  | approval {r : RecoveryRequest} {a : Uuid} {rest : List Uuid} {d : Decision}
      (hs : Saving c i r (a :: rest) d) (hnone : c.viewRow i (.approval r.id a) = none) :
      RequestWrites c i (.saveDecision r (a :: rest) d) (.approval r.id a) (some r.organizationId)
  | status {r : RecoveryRequest} {d : Decision} {v : Row (.request r.id)} (hs : Saving c i r [] d)
      (hv : c.viewRow i (.request r.id) = some v) (hsame : SameRequest v.1 r) :
      RequestWrites c i (.saveDecision r [] d) (.request r.id) (some (saved r v))

theorem Sound.writes (hc : Sound c) {l : Pc} (hl : c.proc i = some l) {k : Key}
    {r : Option (Row k)} (hw : Writes c i (recoveryProgram.next l) k r) :
    RequestWrites c i l k r := by
  cases hc.accounted i l hl with
  | createRequest hst =>
    cases hw with
    | insert hnone => exact .create hst hnone
  | getRequest org id d => cases hw
  | loadApprovals d hm hgranted => cases hw
  | @saveDecision r rest d hs =>
    cases rest with
    | cons a rest =>
      cases hw with
      | insert hnone => exact .approval hs hnone
    | nil =>
      simp only [recoveryProgram] at hw
      cases hw with
      | @update _ _ _ v hv =>
        have hsame : SameRequest v.1 r := hc.row_seen hs.row hv
        dsimp only
        rw [if_pos hsame.organization]
        exact .status hs hv hsame
  | commit id d => cases hw
  | fail => cases hw

theorem Sound.writesForward (hc : Sound c) : WritesForward sameRows recoveryProgram c e := by
  intro i l k r _ hl hw
  cases hc.writes hl hw with
  | create hst hnone =>
    rw [hnone]
    exact VersionOrder.above_none
  | approval hs hnone =>
    rw [hnone]
    exact VersionOrder.above_none
  | status hs hv hsame =>
    rw [hv]
    exact VersionOrder.above_some ⟨rfl, rfl, rfl, rfl⟩

theorem Sound.holds (hc : Sound c) {l l' : Pc} {k : Key} (hl : c.proc i = some l)
    (hgo : (recoveryProgram.next l).continues = true)
    (hr : Reaches c i (recoveryProgram.next l) l')
    (hk : ownedBy l k ∨ ∃ r, Writes c i (recoveryProgram.next l) k r) : ownedBy l' k := by
  cases hc.accounted i l hl with
  | createRequest hst =>
    cases hr with
    | inserted hnone => trivial
    | conflict hsome => trivial
  | getRequest org id d =>
    rcases hk with hk | ⟨r, hw⟩
    · exact hk.elim
    · cases hw
  | loadApprovals d hm hgranted =>
    rcases hk with hk | ⟨r, hw⟩
    · exact hk.elim
    · cases hw
  | @saveDecision r rest d hs =>
    cases rest with
    | cons a rest =>
      have hown : ∃ b ∈ r.approvals, k = .approval r.id b := by
        rcases hk with hk | ⟨_, hw⟩
        · exact hk
        · cases hc.writes hl hw with
          | approval hs hnone => exact ⟨a, hs.left List.mem_cons_self, rfl⟩
      cases hr with
      | inserted hnone => exact hown
      | conflict hsome => exact hown
    | nil =>
      simp only [recoveryProgram] at hr
      cases hr with
      | absent hnone => trivial
      | @present _ _ _ v hv =>
        have hsame : SameRequest v.1 r := hc.row_seen hs.row hv
        dsimp only
        rw [if_pos hsame.organization]
        trivial
  | commit id d => cases hgo
  | fail => cases hgo

theorem Saving.insert (hc : Sound c) {r : RecoveryRequest} {a : Uuid} {rest : List Uuid}
    {d : Decision} (hs : Saving c i r (a :: rest) d)
    (hact : c.act i (recoveryProgram.next (.saveDecision r (a :: rest) d)) = some c') :
    Saving c' i r rest d := by
  have hleft : rest ⊆ r.approvals := fun b hb => hs.left (List.mem_cons_of_mem a hb)
  rcases act_insert hact with ⟨hnone, -, rfl⟩ | ⟨hsome, rfl⟩
  · refine { hs with left := hleft, seen := fun b hb => ?_ }
    by_cases hba : b = a
    · subst hba
      exact Or.inr (viewRow_write_self _)
    · rcases hs.seen b hb with hmem | hrow
      · exact Or.inl ((List.mem_cons.mp hmem).resolve_left hba)
      · apply Or.inr
        rw [viewRow_write_of_ne _ (by simpa using hba)]
        exact hrow
  · -- the approval was recorded before: the insert changes nothing
    refine { hs with left := hleft, seen := fun b hb => ?_ }
    by_cases hba : b = a
    · subst hba
      obtain ⟨org, horg⟩ := Option.ne_none_iff_exists'.mp hsome
      exact Or.inr (horg.trans (congrArg some (hc.approval_seen hs.row horg).1))
    · rcases hs.seen b hb with hmem | hrow
      · exact Or.inl ((List.mem_cons.mp hmem).resolve_left hba)
      · exact Or.inr hrow

theorem Sound.next (hc : Sound c) {l l' : Pc} (hl : c.proc i = some l)
    (h : exec recoveryProgram c (.step i) = some c') (hl' : c'.proc i = some l') :
    Accounted c' i l' := by
  have hact : c.act i (recoveryProgram.next l) = some c' := act_of_exec h hl
  have hr : Reaches c i (recoveryProgram.next l) l' := proc_of_act hact hl'
  cases hc.accounted i l hl with
  | createRequest hst =>
    cases hr with
    | inserted hnone => exact .commit _ _
    | conflict hsome => exact .fail
  | getRequest org id d =>
    obtain rfl := act_read hact
    obtain rfl := eq_of_goto_proc hl'
    have hrow : c.viewRow i (.request id) = c.db.row (.request id) := hc.held.view_eq hl (fun h => h)
    cases hg : (requestAt (c.view i) id).filter fun r => r.organizationId = org with
    | none => exact .fail
    | some r =>
      obtain ⟨hat, horg⟩ := Option.filter_eq_some_iff.mp hg
      obtain rfl := of_decide_eq_true horg
      rw [requestAt, Cfg.view_row, hrow] at hat
      obtain ⟨v, hv, rfl⟩ := Option.map_eq_some_iff.mp hat
      obtain ⟨r, rfl, happ⟩ := v
      exact .loadApprovals d ⟨_, hv, .refl r⟩ (hc.granted _ _ hv)
  | loadApprovals d hm hgranted =>
    obtain rfl := act_read hact
    obtain rfl := eq_of_goto_proc hl'
    exact (hc.accounted_applyDecision hm hgranted).grows (fun k => sameRows.refl k _)
      fun k => sameRows.refl k _
  | @saveDecision r rest d hs =>
    cases rest with
    | cons a rest =>
      obtain rfl : l' = .saveDecision r rest d := by
        cases hr with
        | inserted hnone => rfl
        | conflict hsome => rfl
      exact .saveDecision (hs.insert hc hact)
    | nil =>
      simp only [recoveryProgram] at hr
      cases hr with
      | absent hnone => exact .fail
      | present hv =>
        dsimp only
        split
        · exact .commit _ _
        · exact .fail
  | commit id d =>
    simp only [recoveryProgram] at hr
    cases hr
  | fail =>
    simp only [recoveryProgram] at hr
    cases hr

theorem Saving.enough {r : RecoveryRequest} {d : Decision} (hs : Saving c i r [] d)
    {v : Row (.request r.id)} (hsame : SameRequest v.1 r)
    (hsees : Grows c.db (c.view i)) (hg : (saved r v).1.Granted) : Enough (c.view i) (saved r v).1 := by
  have hid : r.id = (saved r v).1.id := v.2.1.symm
  have hrow : SameRequest r (saved r v).1 :=
    ⟨hsame.target.symm, hsame.organization.symm, hsame.requestedBy.symm, hsame.required.symm⟩
  rcases hg with happroved | hconsumed
  · -- the approvals are all there: none is left to insert
    have henough : Enough (c.view i) r := by
      refine ⟨r.approvals, hs.nodup, hs.approved happroved, fun a ha => ?_⟩
      exact (hs.seen a ha).resolve_left List.not_mem_nil
    exact henough.same hid hrow
  · exact (hsees.enough (hs.consumed hconsumed)).same hid hrow

theorem accounted_entry (r : Req) : Accounted c i (recoveryProgram.entry r) := by
  cases r with
  | create id target org requestedBy justification required =>
    simp only [recoveryProgram]
    cases hnew : newRecoveryRequest id target org requestedBy justification required with
    | error err => exact .fail
    | ok r => exact .createRequest (newRecoveryRequest_pending hnew)
  | decide org id d => exact .getRequest org id d

theorem Sound.step (hc : Sound c) (h : exec recoveryProgram c e = some c') : Sound c' := by
  have hdb : Grows c.db c'.db := hc.rows h
  have hview : ∀ j k r, c'.lock k = some (j, r) → Grows (c.view j) (c'.view j) :=
    fun j k r hl => hc.forward.view_held hc.writesForward h hl
  refine ⟨fun i l hl => ?_, ?_, hc.forward.step hc.writesForward h, ?_, ?_, ?_⟩
  · rcases proc_of_exec h hl with ⟨hl, hi⟩ | ⟨r, rfl, -, rfl⟩ | ⟨l₀, rfl, hl₀, hr⟩
    · exact (hc.accounted i l hl).grows hdb fun k => hc.forward.view_other h hi k
    · exact accounted_entry r
    · exact hc.next hl₀ h hl
  · apply hc.held.step _ h
    exact fun i l l' k _ hl hgo hr hk => hc.holds hl hgo hr hk
  · intro id a org hv
    rcases version_of_exec h hv with hold | ⟨i, l, rfl, hl, hw⟩
    · exact hdb.peerOf (hc.peers id a org hold)
    · cases hc.writes hl hw with
      | approval hs hnone =>
        obtain ⟨v, hv, hsame⟩ := hs.row
        have hpeer := hs.peers a (hs.left List.mem_cons_self)
        exact hdb.peerOf ⟨v, hv, hsame.organization, hsame.symm.peer hpeer⟩
  -- what is granted in a committed state: nothing is committed, or what a transaction held
  · intro id v hv hg
    rcases row_of_exec h with heq | ⟨i, l, n, -, -, -, rfl⟩
    · rw [heq] at hv
      exact hdb.enough (hc.granted id v hv hg)
    · rcases c.viewRow_cases i (.request id) with ⟨r, hr, hseen⟩ | ⟨-, hseen⟩
      · -- the version that is committed was held by its transaction
        rw [Cfg.commit_row, hseen] at hv
        rw [hv] at hr
        exact hc.granting id i v hr hg
      · rw [Cfg.commit_row, hseen] at hv
        exact hdb.enough (hc.granted id v hv hg)
  · intro id i v hl hg
    apply (hview i _ _ hl).enough
    rcases lock_of_exec h hl with hold | ⟨l, rfl, hp, hw⟩
    · exact hc.granting id i v hold hg
    · cases hc.writes hp hw with
      | create hst hnone =>
        rcases hg with hg | hg
        · cases hst.symm.trans hg
        · cases hst.symm.trans hg
      | status hs hv hsame => exact hs.enough hsame (hc.sees i) hg

end Steps

/-- The approvals are of peers, and what is approved or consumed has as many as it requires. -/
structure Consistent (db : Db) : Prop where
  peers : ∀ id a org, db.row (.approval id a) = some org → PeerOf db id a org
  granted : ∀ id v, db.row (.request id) = some v → v.1.Granted → Enough db v.1

theorem sound_idle {db : Db} (h : Consistent db) : Sound (Cfg.idle db) := by
  refine ⟨fun _ _ hl => ?_, heldAt_idle _ _, locksForward_idle _, ?_, h.granted, fun _ _ _ hl => ?_⟩
  · cases hl
  · rintro id a org (hv | ⟨i, hv⟩)
    · exact h.peers id a org hv
    · cases hv
  · cases hl

theorem Sound.consistent {c : RecoveryCfg} (hc : Sound c) : Consistent c.db :=
  ⟨fun id a org hv => hc.peers id a org (Or.inl hv), hc.granted⟩

/-- No status is saved over a consumed request, and none but a rejection over a rejected one. -/
def SavesOverOpen (c : RecoveryCfg) (e : Event Req) : Prop :=
  ∀ i r d, e = .step i → c.proc i = some (.saveDecision r [] d) →
    ∀ v, c.viewRow i (.request r.id) = some v →
      v.1.status ≠ .consumed ∧ (v.1.status = .rejected → r.status = .rejected)

/-- A rejected request stays rejected, a consumed one consumed. -/
structure KeepsFinal (r r' : RecoveryRequest) : Prop where
  rejected : r.status = .rejected → r'.status = .rejected
  consumed : r.status = .consumed → r'.status = .consumed

def finalStatuses : VersionOrder Row :=
  .above (fun
      | .request _, r, r' => KeepsFinal r.1 r'.1
      | .approval _ _, _, _ => True)
    (fun k v => by
      cases k with
      | request id => exact ⟨fun h => h, fun h => h⟩
      | approval id a => trivial)
    (fun k u v w h h' => by
      cases k with
      | request id => exact ⟨fun hu => h'.rejected (h.rejected hu),
          fun hu => h'.consumed (h.consumed hu)⟩
      | approval id a => trivial)

section Final

variable {c c' : RecoveryCfg} {e : Event Req}

theorem Sound.keepsFinal (hc : Sound c) (hok : SavesOverOpen c e) :
    WritesForward finalStatuses recoveryProgram c e := by
  intro i l k r he hl hw
  cases hc.writes hl hw with
  | create hst hnone =>
    rw [hnone]
    exact VersionOrder.above_none
  | approval hs hnone =>
    rw [hnone]
    exact VersionOrder.above_none
  | @status r d v hs hv hsame =>
    -- only here can a final status go: the row is found by its id alone
    obtain ⟨hne, hrej⟩ := hok i r d he hl v hv
    rw [hv]
    exact VersionOrder.above_some ⟨hrej, fun hcon => absurd hcon hne⟩

/-- The request that a committed consumption is of. -/
def consumption (c : RecoveryCfg) : Event Req → Option Uuid
  | .step i =>
    match c.proc i with
    | some (.commit id (some .consume)) => some id
    | _ => none
  | _ => none

theorem consumption_eq_some {id : Uuid} (h : consumption c e = some id) :
    ∃ i, e = .step i ∧ c.proc i = some (.commit id (some .consume)) := by
  cases e with
  | start i r => cases h
  | kill i => cases h
  | step i =>
    rw [consumption] at h
    split at h
    · rename_i hl
      obtain rfl := Option.some.inj h
      exact ⟨i, rfl, hl⟩
    · cases h

/-- Who is about to commit a consumption holds the request as consumed, and it is not yet. -/
def ConsumingHeld (c : RecoveryCfg) : Prop :=
  ∀ i id, c.proc i = some (.commit id (some .consume)) →
    ∃ v w, c.lock (.request id) = some (i, some v) ∧ v.1.status = .consumed ∧
      c.db.row (.request id) = some w ∧ w.1.status ≠ .consumed

theorem Sound.consumingHeld (hc : Sound c) (hheld : ConsumingHeld c) (hok : SavesOverOpen c e)
    (h : exec recoveryProgram c e = some c') : ConsumingHeld c' := by
  intro i id hl
  rcases proc_of_exec h hl with ⟨hl, hi⟩ | ⟨r, rfl, -, hr⟩ | ⟨l, rfl, hl₀, hr⟩
  · obtain ⟨v, w, hlock, hv, hw, hne⟩ := hheld i id hl
    have hlock' := ((frame_of_exec h hi).1.lock _ _).mpr hlock
    exact ⟨v, w, hlock', hv, (row_of_locked h hlock').trans hw, hne⟩
  · cases r with
    | create id target org requestedBy justification required =>
      simp only [recoveryProgram] at hr
      split at hr <;> cases hr
    | decide org id d => cases hr
  · generalize hgoal : Pc.commit id (some .consume) = l' at hr
    cases hc.accounted i l hl₀ with
    | createRequest hst => cases hr <;> cases hgoal
    | getRequest org id₀ d =>
      cases hr with
      | read =>
        dsimp only at hgoal
        split at hgoal <;> cases hgoal
    | loadApprovals d hm hgranted =>
      cases hr with
      | read =>
        dsimp only [applyDecision] at hgoal
        split at hgoal
        · cases hgoal
        · split_ifs at hgoal
    | @saveDecision r rest d hs =>
      cases rest with
      | cons a rest => cases hr <;> cases hgoal
      | nil =>
        rcases act_update (act_of_exec h hl₀) with ⟨-, rfl⟩ | ⟨v, hv, -, rfl⟩
        · obtain heq := eq_of_goto_proc hl
          cases heq
        · have hsame : SameRequest v.1 r := hc.row_seen hs.row hv
          have heq := eq_of_goto_proc hl
          rw [if_pos hsame.organization] at heq ⊢
          cases heq
          -- no version of the request is its own yet, so the consumption replaces the committed row
          have hdb : c.db.row (.request r.id) = some v := by
            rw [← hv]
            exact (hc.held.view_eq hl₀ (by rintro ⟨a, -, hk⟩; cases hk)).symm
          exact ⟨saved r v, v, Function.update_self .., hs.decision.mpr rfl, hdb,
            (hok i r .consume rfl hl₀ v hv).1⟩
    | commit id₀ d => cases hr
    | fail => cases hr

/-- What is kept along a run that saves nothing over a final status. -/
structure Finals (db : Db) (done : List Uuid) (c : RecoveryCfg) : Prop where
  sound : Sound c
  forward : LocksForward finalStatuses c
  since : RowsForward finalStatuses (Cfg.idle db : RecoveryCfg) c
  holding : ConsumingHeld c
  nodup : done.Nodup
  consumed : ∀ id ∈ done, ∃ r, requestAt c.db id = some r ∧ r.status = .consumed
  fresh : ∀ id ∈ done, ∀ r, requestAt db id = some r → r.status ≠ .consumed

theorem Finals.step {db : Db} {done : List Uuid} (hf : Finals db done c) (hok : SavesOverOpen c e)
    (h : exec recoveryProgram c e = some c') :
    Finals db (done ++ (consumption c e).toList) c' := by
  have hw : WritesForward finalStatuses recoveryProgram c e := hf.sound.keepsFinal hok
  have hrows : RowsForward finalStatuses c c' := hf.forward.rows h
  have hkept : ∀ id ∈ done, ∃ r, requestAt c'.db id = some r ∧ r.status = .consumed := by
    intro id hid
    obtain ⟨r, hr, hst⟩ := hf.consumed id hid
    obtain ⟨v, hv, rfl⟩ := Option.map_eq_some_iff.mp hr
    obtain ⟨w, hw, hvw⟩ := hrows (.request id) v hv
    exact ⟨w.1, Option.map_eq_some_iff.mpr ⟨w, hw, rfl⟩, hvw.consumed hst⟩
  have hbase : Finals db done c' := { hf with
    sound := hf.sound.step h
    forward := hf.forward.step hw h
    since := fun k => finalStatuses.trans (hf.since k) (hrows k)
    holding := hf.sound.consumingHeld hf.holding hok h
    consumed := hkept }
  cases hcon : consumption c e with
  | none => simpa using hbase
  | some id =>
    obtain ⟨i, rfl, hl⟩ := consumption_eq_some hcon
    obtain ⟨v, w, hlock, hv, hdb, hne⟩ := hf.holding i id hl
    -- it was not consumed before, and the transaction commits it as consumed
    have hbefore : requestAt c.db id = some w.1 := Option.map_eq_some_iff.mpr ⟨w, hdb, rfl⟩
    have hnew : id ∉ done := by
      intro hid
      obtain ⟨r, hr, hst⟩ := hf.consumed id hid
      obtain rfl := Option.some.inj (hbefore.symm.trans hr)
      exact hne hst
    have hafter : ∃ r, requestAt c'.db id = some r ∧ r.status = .consumed := by
      obtain rfl := act_commit (act_of_exec h hl)
      exact ⟨v.1, Option.map_eq_some_iff.mpr ⟨v, Cfg.viewRow_own hlock, rfl⟩, hv⟩
    refine { hbase with nodup := ?_, consumed := ?_, fresh := ?_ }
    · apply List.nodup_append.mpr ⟨hf.nodup, List.nodup_singleton id, ?_⟩
      rintro a ha b hb rfl
      exact hnew (List.mem_singleton.mp hb ▸ ha)
    · intro a ha
      rcases List.mem_append.mp ha with ha | ha
      · exact hkept a ha
      · rw [List.mem_singleton.mp ha]
        exact hafter
    · intro a ha r hr hst
      rcases List.mem_append.mp ha with ha | ha
      · exact hf.fresh a ha r hr hst
      · obtain rfl := List.mem_singleton.mp ha
        obtain ⟨u, hu, rfl⟩ := Option.map_eq_some_iff.mp hr
        obtain ⟨x, hx, hux⟩ := hf.since (.request a) u hu
        obtain rfl := Option.some.inj (hx.symm.trans hdb)
        exact hne (hux.consumed hst)

end Final

section Runs

variable (db : Db) (es : List (Event Req))

/-- In every committed state the approvals are of peers, and enough of what is approved. -/
def ApprovedByPeers : Prop :=
  ∀ pre post c, es = pre ++ post → run (exec recoveryProgram) (Cfg.idle db) pre = some c →
    Consistent c.db

/-- No request is consumed by two transactions, nor one that was consumed before the run. -/
def ConsumedOnce : Prop :=
  ∀ pre post c, es = pre ++ post → run (exec recoveryProgram) (Cfg.idle db) pre = some c →
    (trace (exec recoveryProgram) consumption (Cfg.idle db) pre).Nodup ∧
      ∀ id ∈ trace (exec recoveryProgram) consumption (Cfg.idle db) pre,
        ∀ r, requestAt db id = some r → r.status ≠ .consumed

/-- A request that was committed as rejected or consumed has that status in every later state. -/
def FinalStays : Prop :=
  ∀ pre mid post c c' id r, es = pre ++ mid ++ post →
    run (exec recoveryProgram) (Cfg.idle db) pre = some c →
    run (exec recoveryProgram) c mid = some c' →
    requestAt c.db id = some r → r.status = .rejected ∨ r.status = .consumed →
      ∃ r', requestAt c'.db id = some r' ∧ r'.status = r.status

/-- What is asked of interleaved decisions. -/
structure RecoveryHolds : Prop where
  peers : ApprovedByPeers db es
  once : ConsumedOnce db es
  final : FinalStays db es

variable {db es}

/-- The separation of duties holds in every run; the final statuses in every run in which no
decision is saved over one. -/
theorem recovery_of_savesOverOpen (hdb : Consistent db) : ApprovedByPeers db es ∧
    (Along (exec recoveryProgram) SavesOverOpen (Cfg.idle db) es → RecoveryHolds db es) := by
  have hsound : ∀ pre c, run (exec recoveryProgram) (Cfg.idle db) pre = some c → Sound c := by
    intro pre c hpre
    exact run_always (fun _ _ _ hI h => Sound.step hI h) (sound_idle hdb) hpre
  have hpeers : ApprovedByPeers db es := fun pre post c _ hpre => (hsound pre c hpre).consistent
  refine ⟨hpeers, fun hok => ⟨hpeers, ?_, ?_⟩⟩
  · rintro pre post c rfl hpre
    have hidle : Finals db [] (Cfg.idle db) := {
      sound := sound_idle hdb
      forward := locksForward_idle _
      since := fun k => finalStatuses.refl k _
      holding := fun _ _ hl => by cases hl
      nodup := List.nodup_nil
      consumed := fun _ hid => absurd hid List.not_mem_nil
      fresh := fun _ hid => absurd hid List.not_mem_nil }
    have hfinals := run_trace_invariant (I := Finals db)
      (fun _ _ _ _ hI he h => hI.step he h) hidle (along_append.mp hok).1 hpre
    rw [List.nil_append] at hfinals
    exact ⟨hfinals.nodup, hfinals.fresh⟩
  · rintro pre mid post c c' id r rfl hpre hmid hr hfinal
    have hrows := rows_forward_of_invariant (fun _ _ _ hI h => Sound.step hI h)
      (fun _ _ hI he => hI.keepsFinal he) (sound_idle hdb) (along_append.mp hok).1 hpre hmid
    obtain ⟨v, hv, rfl⟩ := Option.map_eq_some_iff.mp hr
    obtain ⟨w, hw, hvw⟩ := hrows (.request id) v hv
    refine ⟨w.1, Option.map_eq_some_iff.mpr ⟨w, hw, rfl⟩, ?_⟩
    rcases hfinal with hrej | hcon
    · rw [hrej, hvw.rejected hrej]
    · rw [hcon, hvw.consumed hcon]

end Runs

namespace Sample

def steps (i n : ℕ) : List (Event Req) := List.replicate n (.step i)

/-- A request that needs one approval, and its approval. -/
def approved : List (Event Req) :=
  .start 0 (.create 5 3 1 2 "lost device" 1) :: steps 0 2 ++
    .start 0 (.decide 1 5 (.approve 9)) :: steps 0 5

/-- The request is consumed, and then rejected in vain. -/
def consumed : List (Event Req) :=
  approved ++ .start 0 (.decide 1 5 .consume) :: steps 0 5 ++
    .start 0 (.decide 1 5 .reject) :: steps 0 3

/-- Two consumptions read the approved request before either is committed. -/
def consumedTwice : List (Event Req) :=
  approved ++ [.start 0 (.decide 1 5 .consume), .start 1 (.decide 1 5 .consume)] ++
    steps 0 2 ++ steps 1 2 ++ steps 0 3 ++ steps 1 3

def openTest (c : RecoveryCfg) : Event Req → Bool
  | .step i =>
    match c.proc i with
    | some (.saveDecision r [] _) => (c.viewRow i (.request r.id)).all fun v =>
        v.1.status ≠ .consumed && v.1.status ≠ .rejected
    | _ => true
  | _ => true

theorem savesOverOpen_of_test (c : RecoveryCfg) (e : Event Req) (h : openTest c e = true) :
    SavesOverOpen c e := by
  rintro i r d rfl hl v hv
  simp only [openTest, hl, hv, Option.all_some, Bool.and_eq_true, decide_eq_true_eq] at h
  exact ⟨h.1, fun hrej => absurd hrej h.2⟩

theorem consistent_empty : Consistent Store.empty :=
  ⟨fun _ _ _ hv => (by cases hv), fun _ _ hv => (by cases hv)⟩

end Sample

/-- A request is approved, consumed once, and not rejected afterwards. -/
theorem recovery_in_turn : RecoveryHolds Store.empty Sample.consumed ∧
    (run (exec recoveryProgram) (Cfg.idle Store.empty) Sample.consumed).any
      (fun c => (requestAt c.db 5).any fun r => r.status = .consumed) = true := by
  refine ⟨?_, by decide +kernel⟩
  apply (recovery_of_savesOverOpen Sample.consistent_empty).2
  exact along_of_check Sample.savesOverOpen_of_test (by decide +kernel)

/-- Two transactions consume one request. -/
theorem consumed_twice : ¬RecoveryHolds Store.empty Sample.consumedTwice := by
  intro h
  have hrun : (run (exec recoveryProgram) (Cfg.idle Store.empty) Sample.consumedTwice).isSome := by
    decide +kernel
  obtain ⟨c, hc⟩ := Option.isSome_iff_exists.mp hrun
  have htwice : trace (exec recoveryProgram) consumption (Cfg.idle Store.empty)
      Sample.consumedTwice = [5, 5] := by
    decide +kernel
  obtain ⟨hnodup, -⟩ := h.once Sample.consumedTwice [] c (List.append_nil _).symm hc
  rw [htwice] at hnodup
  exact absurd hnodup (by decide)

end ArchGuard.Recovery
