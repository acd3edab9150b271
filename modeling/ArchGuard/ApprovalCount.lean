import ArchGuard.GrantTerminality
import ArchGuard.LifecycleSpec
import ArchGuard.ReadCommittedGuard
import ArchGuard.ReadCommittedOrder

/-! Whether interleaved approvals of a grant are all counted. -/
namespace ArchGuard.Tenancy
open ReadCommitted TransitionRun

/-- At least `n` distinct approvals of the grant are recorded. -/
def Recorded (db : Db) (id org : Uuid) (n : ℕ) : Prop :=
  ∃ approvers : List Uuid, approvers.Nodup ∧ n ≤ approvers.length ∧
    ∀ a ∈ approvers, db.row (.approval id a) = some org

/-- A grant whose required approvals are recorded does not await one more. -/
def Counted (id : Uuid) (db : Db) : Prop :=
  ∀ g, grantAt db id = some g → Recorded db id g.organizationId g.requiredApprovals →
    g.status ≠ .awaitingApproval

/-- A decision that leaves the grant waiting, taken before an approval was committed that makes up
the number with those recorded. -/
def CountsStale (c : TenancyCfg) (i : ℕ) (g : PrivilegedGrant) : Prop :=
  g.status = .awaitingApproval ∧
    (∃ a, c.db.row (.approval g.id a) = some g.organizationId ∧ a ∉ g.approvals) ∧
      Recorded (c.view i) g.id g.organizationId g.requiredApprovals

def SavesCurrentCount (c : TenancyCfg) (e : Event Req) : Prop :=
  ∀ i g after, e = .step i → c.proc i = some (.saveDecision g [] after) → ¬CountsStale c i g

def StartsApproval (e : Event Req) : Prop :=
  ∀ i r, e = .start i r → ∃ org id approver, r = .decide org id (.approve approver)

/-- The grant of a decision is that of its row, up to what decisions change. -/
def Matches (db : Db) (g : PrivilegedGrant) : Prop :=
  ∃ row, grantAt db g.id = some row ∧ row.requiredApprovals = g.requiredApprovals ∧
    row.organizationId = g.organizationId

/-- What an approval has read and decided, by its next statement. -/
inductive Accounted (db : Db) : Pc → Prop
  | getGrant (org id approver : Uuid) : Accounted db (.getGrant org id (.approve approver))
  | loadApprovals {g : PrivilegedGrant} (approver : Uuid) (hm : Matches db g) :
      Accounted db (.loadApprovals g.organizationId g (.approve approver))
  | saveDecision {g : PrivilegedGrant} {rest : List Uuid} (hrest : rest ⊆ g.approvals)
      (hm : Matches db g)
      (hcount : g.status = .awaitingApproval → g.approvals.length < g.requiredApprovals) :
      Accounted db (.saveDecision g rest .done)
  | commit : Accounted db .commit
  | fail : Accounted db .fail

/-- The rows that an approval may hold. -/
def ownedBy : Pc → Key → Prop
  | .saveDecision g _ _, k => ∃ a ∈ g.approvals, k = .approval g.id a
  | .commit, _ => True
  | .fail, _ => True
  | _, _ => False

/-- Decisions change no requirement of a grant. -/
def sameRequirement : VersionOrder Row :=
  .above (fun
      | .grant _, g, g' => g'.1.requiredApprovals = g.1.requiredApprovals ∧
          g'.1.organizationId = g.1.organizationId
      | _, _, _ => True)
    (fun k _ => by cases k <;> first | exact ⟨rfl, rfl⟩ | trivial)
    (fun k _ _ _ h h' => by
      cases k <;> first | exact ⟨h'.1.trans h.1, h'.2.trans h.2⟩ | trivial)

/-- The grant and its approvals, under the lock of the grant. -/
def grantFamily (id : Uuid) : Family Key where
  member k := k = .grant id ∨ ∃ a, k = .approval id a
  guard := .grant id

theorem counted_ofFamily (id : Uuid) : OfFamily (grantFamily id) (Counted id) := by
  intro s s' hrows hs g hg hrec
  have hgrant : grantAt s id = some g := by
    rw [grantAt, hrows (.grant id) (Or.inl rfl)] at hg
    exact hg
  obtain ⟨as, hnodup, hlen, has⟩ := hrec
  refine hs g hgrant ⟨as, hnodup, hlen, fun a ha => ?_⟩
  rw [← hrows (.approval id a) (Or.inr ⟨a, rfl⟩)]
  exact has a ha

section Steps

variable {c c' : TenancyCfg} {e : Event Req} {i : ℕ}

/-- The state of an approvals-only run. -/
structure Approving (c : TenancyCfg) : Prop where
  accounted : ∀ i l, c.proc i = some l → Accounted c.db l
  held : HeldAt ownedBy c
  forward : LocksForward sameRequirement c

theorem Matches.forward {db db' : Db} {g : PrivilegedGrant} (h : Matches db g)
    (hrow : sameRequirement.le (.grant g.id) (db.row (.grant g.id)) (db'.row (.grant g.id))) :
    Matches db' g := by
  obtain ⟨row, hg, hreq, horg⟩ := h
  obtain ⟨v, hv, rfl⟩ := Option.map_eq_some_iff.mp hg
  obtain ⟨w, hw, hsame⟩ := hrow v hv
  exact ⟨w.1, Option.map_eq_some_iff.mpr ⟨w, hw, rfl⟩, hsame.1.trans hreq, hsame.2.trans horg⟩

theorem Accounted.forward {db db' : Db} {l : Pc} (h : Accounted db l)
    (hrows : ∀ k, sameRequirement.le k (db.row k) (db'.row k)) : Accounted db' l := by
  cases h with
  | getGrant org id approver => exact .getGrant org id approver
  | loadApprovals approver hm => exact .loadApprovals approver (hm.forward (hrows _))
  | saveDecision hrest hm hcount => exact .saveDecision hrest (hm.forward (hrows _)) hcount
  | commit => exact .commit
  | fail => exact .fail

theorem Approving.grantAt_view (hc : Approving c) {l : Pc} (hl : c.proc i = some l)
    (hno : ∀ id, ¬ownedBy l (.grant id)) (id : Uuid) : grantAt (c.view i) id = grantAt c.db id := by
  have hrow : c.viewRow i (.grant id) = c.db.row (.grant id) := by
    apply Cfg.viewRow_other
    intro r hr
    obtain ⟨l', hl', hown⟩ := hc.held (.grant id) i r hr
    obtain rfl : l = l' := Option.some.inj (hl.symm.trans hl')
    exact hno id hown
  rw [grantAt, grantAt, Cfg.view_row, hrow]

theorem accounted_applyDecision {db : Db} {g : PrivilegedGrant} {approver : Uuid}
    (hm : Matches db g) : Accounted db (applyDecision g.organizationId g (.approve approver)) := by
  rw [applyDecision]
  cases h : g.approve approver with
  | error err => exact .fail
  | ok g' =>
    obtain ⟨hst, rfl⟩ := PrivilegedGrant.approve_ok h
    dsimp only
    rw [beginSave, if_neg (not_not.mpr rfl)]
    refine .saveDecision (List.Subset.refl _) hm fun hwait => ?_
    dsimp only at hwait ⊢
    split_ifs at hwait with hle
    omega

theorem Approving.next (hc : Approving c) {l l' : Pc} (hl : c.proc i = some l)
    (hr : Reaches c i (tenancyProgram.next l) l') : Accounted c.db l' := by
  cases hc.accounted i l hl with
  | getGrant org id approver =>
    simp only [tenancyProgram] at hr
    cases hr with
    | read =>
      dsimp only
      rw [hc.grantAt_view hl (fun _ h => h)]
      cases hg : (grantAt c.db id).filter fun g => g.organizationId = org with
      | none => exact .fail
      | some g =>
        obtain ⟨hat, ho⟩ := Option.filter_eq_some_iff.mp hg
        obtain rfl := of_decide_eq_true ho
        obtain rfl : g.id = id := grantAt_id hat
        exact .loadApprovals approver ⟨g, hat, rfl, rfl⟩
  | @loadApprovals g approver hm =>
    simp only [tenancyProgram] at hr
    cases hr with
    | read => exact accounted_applyDecision (g := { g with approvals := _ }) hm
  | @saveDecision g rest hrest hm hcount =>
    cases rest with
    | cons a rest =>
      have hrest' : rest ⊆ g.approvals := fun b hb => hrest (List.mem_cons_of_mem a hb)
      simp only [tenancyProgram] at hr
      cases hr with
      | inserted => exact .saveDecision hrest' hm hcount
      | conflict => exact .saveDecision hrest' hm hcount
    | nil =>
      simp only [tenancyProgram] at hr
      cases hr with
      | absent => exact .fail
      | present hv =>
        dsimp only
        split
        · exact .commit
        · exact .fail
  | commit =>
    simp only [tenancyProgram] at hr
    cases hr
  | fail =>
    simp only [tenancyProgram] at hr
    cases hr

theorem decided_key (g : PrivilegedGrant) (v : Row (.grant g.id)) :
    v.1.id = g.id ∧ v.1.approvals = [] := v.2

/-- A decision as it leaves the row: only the status moves, and only in its organization. -/
def decided (g : PrivilegedGrant) (v : Row (.grant g.id)) : Row (.grant g.id) :=
  if v.1.organizationId = g.organizationId then ⟨{ v.1 with status := g.status }, decided_key g v⟩
  else v

inductive ApprovalWrites (c : TenancyCfg) (i : ℕ) : Pc → (k : Key) → Option (Row k) → Prop
  | approval {g : PrivilegedGrant} {a : Uuid} {rest : List Uuid} (ha : a ∈ g.approvals)
      (hnone : c.viewRow i (.approval g.id a) = none) :
      ApprovalWrites c i (.saveDecision g (a :: rest) .done) (.approval g.id a)
        (some g.organizationId)
  | grant {g : PrivilegedGrant} {v : Row (.grant g.id)}
      (hv : c.viewRow i (.grant g.id) = some v) :
      ApprovalWrites c i (.saveDecision g [] .done) (.grant g.id) (some (decided g v))

theorem Approving.writes (hc : Approving c) {l : Pc} (hl : c.proc i = some l) {k : Key}
    {r : Option (Row k)} (hw : Writes c i (tenancyProgram.next l) k r) :
    ApprovalWrites c i l k r := by
  cases hc.accounted i l hl with
  | getGrant org id approver => cases hw
  | loadApprovals approver hm => cases hw
  | @saveDecision g rest hrest hm hcount =>
    cases rest with
    | cons a rest =>
      simp only [tenancyProgram] at hw
      cases hw with
      | insert hnone => exact .approval (hrest List.mem_cons_self) hnone
    | nil =>
      simp only [tenancyProgram] at hw
      cases hw with
      | @update _ _ _ v hv =>
        have hrow : (if v.1.organizationId = g.organizationId then
            ((some ⟨{ v.1 with status := g.status }, v.2⟩ : Option (Row (.grant g.id))),
              afterSave g .done) else (some v, .fail)).1 = some (decided g v) := by
          rw [decided]
          split <;> rfl
        rw [hrow]
        exact .grant hv
  | commit => cases hw
  | fail => cases hw

theorem decided_requirement (g : PrivilegedGrant) (v : Row (.grant g.id)) :
    (decided g v).1.requiredApprovals = v.1.requiredApprovals ∧
      (decided g v).1.organizationId = v.1.organizationId := by
  rw [decided]
  split <;> exact ⟨rfl, rfl⟩

theorem Approving.writesForward (hc : Approving c) :
    WritesForward sameRequirement tenancyProgram c e := by
  intro i l k r _ hl hw
  cases hc.writes hl hw with
  | approval ha hnone => exact fun v _ => ⟨_, rfl, trivial⟩
  | grant hv =>
    intro w hw
    obtain rfl := Option.some.inj (hv.symm.trans hw)
    exact ⟨_, rfl, decided_requirement _ _⟩

theorem Approving.grows (hc : Approving c) {l l' : Pc} {k : Key} (hl : c.proc i = some l)
    (hgo : (tenancyProgram.next l).continues = true)
    (hr : Reaches c i (tenancyProgram.next l) l')
    (hk : ownedBy l k ∨ ∃ r, Writes c i (tenancyProgram.next l) k r) : ownedBy l' k := by
  cases hc.accounted i l hl with
  | getGrant org id approver =>
    rcases hk with hk | ⟨r, hw⟩
    · exact hk.elim
    · cases hc.writes hl hw
  | loadApprovals approver hm =>
    rcases hk with hk | ⟨r, hw⟩
    · exact hk.elim
    · cases hc.writes hl hw
  | @saveDecision g rest hrest hm hcount =>
    cases rest with
    | cons a rest =>
      have hown : ∃ a ∈ g.approvals, k = .approval g.id a := by
        rcases hk with hk | ⟨r, hw⟩
        · exact hk
        · cases hc.writes hl hw with
          | approval ha hnone => exact ⟨a, ha, rfl⟩
      simp only [tenancyProgram] at hr
      cases hr with
      | inserted => exact hown
      | conflict => exact hown
    | nil =>
      simp only [tenancyProgram] at hr
      cases hr with
      | absent => trivial
      | present hv =>
        dsimp only
        split <;> trivial
  | commit => cases hgo
  | fail => cases hgo

theorem Approving.step (hc : Approving c) (hstart : StartsApproval e)
    (h : exec tenancyProgram c e = some c') : Approving c' := by
  refine ⟨fun i l hl => ?_, ?_, hc.forward.step hc.writesForward h⟩
  · rcases proc_of_exec h hl with ⟨hl, -⟩ | ⟨r, rfl, -, rfl⟩ | ⟨l₀, rfl, hl₀, hr⟩
    · exact (hc.accounted i l hl).forward (hc.forward.rows h)
    · obtain ⟨org, id, approver, rfl⟩ := hstart i r rfl
      exact .getGrant org id approver
    · exact (hc.next hl₀ hr).forward (hc.forward.rows h)
  · apply hc.held.step _ h
    exact fun i l l' k _ hl hgo hr hk => hc.grows hl hgo hr hk

theorem applyDecision_not_commit {g : PrivilegedGrant} {approver : Uuid} {n : Option Pc} :
    tenancyProgram.next (applyDecision g.organizationId g (.approve approver)) ≠ .commit n := by
  intro h
  rw [applyDecision] at h
  cases happroved : g.approve approver with
  | error err =>
    rw [happroved] at h
    cases h
  | ok g' =>
    obtain ⟨-, rfl⟩ := PrivilegedGrant.approve_ok happroved
    rw [happroved] at h
    dsimp only at h
    rw [beginSave, if_neg (not_not.mpr rfl)] at h
    dsimp only at h
    cases hall : g.approvals ++ [approver] with
    | nil =>
      rw [hall] at h
      cases h
    | cons a rest =>
      rw [hall] at h
      cases h

theorem Approving.saved (hc : Approving c) (hstart : StartsApproval e)
    (h : exec tenancyProgram c e = some c') (hcommit : Commits tenancyProgram c' e.actor) :
    ∃ i g v, e = .step i ∧ c.proc i = some (.saveDecision g [] .done) ∧
      c.viewRow i (.grant g.id) = some v ∧ v.1.organizationId = g.organizationId ∧
      c' = (c.write i (.grant g.id) (some (decided g v))).goto i .commit := by
  obtain ⟨l', n, hl', hn⟩ := hcommit
  rcases proc_of_exec h hl' with ⟨-, hne⟩ | ⟨r, he, -, rfl⟩ | ⟨l, he, hl, hr⟩
  · exact absurd rfl hne
  · obtain ⟨org, id, approver, rfl⟩ := hstart _ r he
    cases hn
  · cases hc.accounted _ l hl with
    | getGrant org id approver =>
      simp only [tenancyProgram] at hr
      cases hr with
      | read =>
        dsimp only at hn
        split at hn <;> cases hn
    | loadApprovals approver hm =>
      simp only [tenancyProgram] at hr
      cases hr with
      | read => exact absurd hn applyDecision_not_commit
    | @saveDecision g rest hrest hm hcount =>
      cases rest with
      | cons a rest =>
        have hgoes : l' = .saveDecision g rest .done := by
          simp only [tenancyProgram] at hr
          cases hr with
          | inserted => rfl
          | conflict => rfl
        subst hgoes
        cases rest with
        | nil => cases hn
        | cons b rest => cases hn
      | nil =>
        -- the update of the grant's row is the last statement before the commit
        rw [he] at h
        rcases act_update (act_of_exec h hl) with ⟨-, rfl⟩ | ⟨v, hv, -, rfl⟩
        · obtain rfl := eq_of_goto_proc hl'
          cases hn
        · by_cases horg : v.1.organizationId = g.organizationId
          · refine ⟨e.actor, g, v, he, hl, hv, horg, ?_⟩
            rw [decided, if_pos horg, if_pos horg]
            rfl
          · rw [if_neg horg] at hl'
            obtain rfl := eq_of_goto_proc hl'
            cases hn
    | commit =>
      simp only [tenancyProgram] at hr
      cases hr
    | fail =>
      simp only [tenancyProgram] at hr
      cases hr

theorem ne_grant_of_other {g : PrivilegedGrant} {id : Uuid} (hid : g.id ≠ id) {k : Key}
    (hk : (grantFamily id).member k) : k ≠ .grant g.id := by
  rintro rfl
  rcases hk with hk | ⟨a, hk⟩
  · exact hid (Key.grant.inj hk)
  · cases hk

theorem not_owned_of_other {g : PrivilegedGrant} {rest : List Uuid} {id : Uuid} (hid : g.id ≠ id)
    {k : Key} (hk : (grantFamily id).member k) : ¬ownedBy (.saveDecision g rest .done) k := by
  rintro ⟨a, -, rfl⟩
  rcases hk with hk | ⟨b, hk⟩
  · cases hk
  · cases hk
    exact hid rfl

theorem Approving.guarded (hc : Approving c) (hstart : StartsApproval e) {id : Uuid}
    (hg : Guarded tenancyProgram (grantFamily id) c) (h : exec tenancyProgram c e = some c') :
    Guarded tenancyProgram (grantFamily id) c' := by
  apply hg.step h
  intro hcommit
  obtain ⟨i, g, v, rfl, hl, hv, -, rfl⟩ := hc.saved hstart h hcommit
  by_cases hid : g.id = id
  · subst hid
    exact Or.inl ⟨_, Function.update_self ..⟩
  · -- it holds no row of another grant
    apply Or.inr
    intro k hk r hr
    rw [Cfg.goto_lock, Cfg.write_lock, Function.update_of_ne (ne_grant_of_other hid hk)] at hr
    exact hc.held.unlocked hl (not_owned_of_other hid hk) r hr

theorem Approving.viewRow_other_grant (hc : Approving c) {g : PrivilegedGrant} {rest : List Uuid}
    (hl : c.proc i = some (.saveDecision g rest .done)) {id : Uuid} (hid : g.id ≠ id) {k : Key}
    (hk : (grantFamily id).member k) : c.viewRow i k = c.db.row k :=
  hc.held.view_eq hl (not_owned_of_other hid hk)

theorem Approving.not_recorded (hc : Approving c) {g : PrivilegedGrant}
    (hl : c.proc i = some (.saveDecision g [] .done)) (hok : ¬CountsStale c i g)
    (hwait : g.status = .awaitingApproval) :
    ¬Recorded (c.view i) g.id g.organizationId g.requiredApprovals := by
  intro hrec
  obtain ⟨as, hnodup, hlen, has⟩ := hrec
  have hcurrent : ∀ a, c.db.row (.approval g.id a) = some g.organizationId → a ∈ g.approvals := by
    intro a ha
    by_contra hnot
    exact hok ⟨hwait, ⟨a, ha, hnot⟩, as, hnodup, hlen, has⟩
  have hsub : as ⊆ g.approvals := by
    intro a ha
    rcases c.viewRow_cases i (.approval g.id a) with ⟨r, hr, -⟩ | ⟨-, heq⟩
    · -- an approval of its own, which its decision has counted
      obtain ⟨l, hl', hown⟩ := hc.held _ i r hr
      obtain rfl := Option.some.inj (hl.symm.trans hl')
      obtain ⟨b, hb, hk⟩ := hown
      cases hk
      exact hb
    · exact hcurrent a (heq.symm.trans (has a ha))
  cases hc.accounted i _ hl with
  | saveDecision hrest hm hcount =>
    have hle : as.length ≤ g.approvals.length := (hnodup.subperm hsub).length_le
    have hlt := hcount hwait
    omega

theorem Approving.counted (hc : Approving c) (hstart : StartsApproval e) (hok : SavesCurrentCount c e)
    {id : Uuid} (hg : Guarded tenancyProgram (grantFamily id) c)
    (hs : Sealed tenancyProgram (Counted id) c) (h : exec tenancyProgram c e = some c') :
    Sealed tenancyProgram (Counted id) c' := by
  apply hs.step (counted_ofFamily id) hg h
  intro hcommit
  obtain ⟨i, g, v, rfl, hl, hv, horg, rfl⟩ := hc.saved hstart h hcommit
  by_cases hid : g.id = id
  · subst hid
    intro g' hg' hrec hwait
    -- the grant as it is about to be committed is the row under the status of the decision
    have hrow : g' = { v.1 with status := g.status } := by
      rw [grantAt, Cfg.view_row, Event.actor, viewRow_write_self, decided, if_pos horg] at hg'
      exact (Option.some.inj hg').symm
    subst hrow
    -- the requirement that the decision compared with is that of the row
    have hreq : v.1.requiredApprovals = g.requiredApprovals := by
      cases hc.accounted i _ hl with
      | saveDecision _ hm _ =>
        obtain ⟨row, hrow, hreq, -⟩ := hm
        obtain ⟨u, hu, rfl⟩ := Option.map_eq_some_iff.mp hrow
        obtain ⟨w, hw, hsame, -⟩ := hc.forward.view (i := i) (.grant g.id) u hu
        obtain rfl := Option.some.inj (hv.symm.trans hw)
        exact hsame.trans hreq
    apply hc.not_recorded hl (hok i g .done rfl hl) hwait
    obtain ⟨as, hnodup, hlen, has⟩ := hrec
    dsimp only at hlen has
    rw [hreq] at hlen
    refine ⟨as, hnodup, hlen, fun a ha => ?_⟩
    have hview := has a ha
    rw [horg, Cfg.view_row, Event.actor, viewRow_write_of_ne _ (by simp)] at hview
    exact hview
  · apply counted_ofFamily id c.db _ _ hs.db
    intro k hk
    rw [Cfg.view_row, Event.actor, viewRow_write_of_ne _ (ne_grant_of_other hid hk)]
    exact hc.viewRow_other_grant hl hid hk

end Steps

/-- In every committed state, a grant whose required approvals are recorded does not await one
more. -/
def ApprovalsCounted (db : Db) (es : List (Event Req)) : Prop :=
  ∀ pre post c id, es = pre ++ post → run (exec tenancyProgram) (Cfg.idle db) pre = some c →
    Counted id c.db

/-- Of approvals in any interleaving none is lost, unless a decision is saved that counted too
few. -/
theorem approvalsCounted_of_currentCount {db : Db} {es : List (Event Req)}
    (hdb : ∀ id, Counted id db) (hes : ∀ e ∈ es, StartsApproval e)
    (hok : Along (exec tenancyProgram) SavesCurrentCount (Cfg.idle db) es) :
    ApprovalsCounted db es := by
  rintro pre post c id rfl hpre
  have hboth : Along (exec tenancyProgram) (fun c e => StartsApproval e ∧ SavesCurrentCount c e)
      (Cfg.idle db) pre := by
    apply along_and
    · exact along_of_mem (fun e he => hes e (List.mem_append_left post he)) _
    · exact (along_append.mp hok).1
  have hidle : Approving (Cfg.idle db) :=
    ⟨fun _ _ hl => (by cases hl), heldAt_idle _ _, locksForward_idle _⟩
  have hinv := run_invariant (I := fun c => Approving c ∧
      Guarded tenancyProgram (grantFamily id) c ∧ Sealed tenancyProgram (Counted id) c)
    (fun c e c' hI he h => ⟨hI.1.step he.1 h, hI.1.guarded he.1 hI.2.1 h,
      hI.1.counted he.1 he.2 hI.2.1 hI.2.2 h⟩)
    ⟨hidle, guarded_idle _ _ _, sealed_idle _ (hdb id)⟩ hboth hpre
  exact hinv.2.2.db

namespace Sample

/-- A grant of organization 1 that needs two approvals and has none. -/
def awaiting : Db := Store.empty.set (.grant 5)
  (some ⟨⟨5, 1, 3, ⟨"asset", "a", "admin"⟩, .breakglass, .awaitingApproval, 2, [], 1000, 9000,
    "outage", "INC-1"⟩, rfl, rfl⟩)

theorem awaiting_counted (id : Uuid) : Counted id awaiting := by
  rintro g hg ⟨as, -, hlen, has⟩
  obtain ⟨v, hv, rfl⟩ := Option.map_eq_some_iff.mp hg
  cases as with
  | nil =>
    -- nothing is recorded, and the only grant needs two
    by_cases hid : id = 5
    · subst hid
      rw [awaiting, Store.set_row_self] at hv
      obtain rfl := Option.some.inj hv
      cases hlen
    · rw [awaiting, Store.set_row_of_ne _ _ _ _ (by simpa using hid)] at hv
      cases hv
  | cons a as =>
    have hrow := has a List.mem_cons_self
    rw [awaiting, Store.set_row_of_ne _ _ _ _ (by simp)] at hrow
    cases hrow

theorem startsApproval_approved {i : ℕ} {a : Uuid} {e : Event Req} (he : e ∈ approved i a) :
    StartsApproval e := by
  intro j r hr
  rcases List.mem_cons.mp he with rfl | he
  · cases hr
    exact ⟨1, 5, a, rfl⟩
  · rw [List.eq_of_mem_replicate he] at hr
    cases hr

/-- Two peers approve one after the other. -/
def inTurn : List (Event Req) := approved 0 8 ++ approved 1 9 ++ steps 1 1

/-- Two peers approve, each before the other commits. -/
def overlapping : List (Event Req) :=
  [.start 0 (.decide 1 5 (.approve 8)), .start 1 (.decide 1 5 (.approve 9))] ++
    steps 0 2 ++ steps 1 2 ++ steps 0 3 ++ steps 1 3

def currentTest (c : TenancyCfg) : Event Req → Bool
  | .step i =>
    match c.proc i with
    | some (.saveDecision g [] _) => g.status ≠ .awaitingApproval ||
        (loadApprovals c.db g.id g.organizationId).all fun a => a ∈ g.approvals
    | _ => true
  | _ => true

theorem savesCurrentCount_of_test (c : TenancyCfg) (e : Event Req) (h : currentTest c e = true) :
    SavesCurrentCount c e := by
  rintro i g after rfl hl ⟨hwait, ⟨a, ha, hnot⟩, -⟩
  have hmem : a ∈ loadApprovals c.db g.id g.organizationId :=
    (Store.mem_scan c.db).mpr ⟨.approval g.id a, g.organizationId, ha, by simp⟩
  simp only [currentTest, hl, hwait, ne_eq, not_true_eq_false, decide_false, Bool.false_or,
    List.all_eq_true, decide_eq_true_eq] at h
  exact hnot (h a hmem)

end Sample

/-- Approvals in turn are both counted. -/
theorem approvalsCounted_in_turn : ApprovalsCounted Sample.awaiting Sample.inTurn ∧
    (run (exec tenancyProgram) (Cfg.idle Sample.awaiting) Sample.inTurn).any
      (fun c => (grantAt c.db 5).any fun g => g.status = .active) = true := by
  refine ⟨approvalsCounted_of_currentCount Sample.awaiting_counted ?_ ?_, by decide +kernel⟩
  · intro e he
    rcases List.mem_append.mp he with he | he
    · rcases List.mem_append.mp he with he | he
      · exact Sample.startsApproval_approved he
      · exact Sample.startsApproval_approved he
    · intro j r hr
      rw [List.eq_of_mem_replicate he] at hr
      cases hr
  · exact along_of_check Sample.savesCurrentCount_of_test (by decide +kernel)

/-- Two approvals that overlap leave a grant waiting that has both. -/
theorem overlapping_approvals_lost :
    ¬ApprovalsCounted Sample.awaiting Sample.overlapping := by
  intro h
  have hrun : (run (exec tenancyProgram) (Cfg.idle Sample.awaiting) Sample.overlapping).any
      (fun c => (grantAt c.db 5).any (fun g => g.status = .awaitingApproval &&
        g.organizationId = 1 && g.requiredApprovals = 2) &&
          c.db.row (.approval 5 8) = some 1 && c.db.row (.approval 5 9) = some 1) = true := by
    decide +kernel
  obtain ⟨c, hc, hlost⟩ := (Option.any_eq_true _ _).mp hrun
  simp only [Bool.and_eq_true, decide_eq_true_eq, Option.any_eq_true] at hlost
  obtain ⟨⟨⟨g, hg, ⟨hwait, horg⟩, hreq⟩, hana⟩, hrui⟩ := hlost
  refine h Sample.overlapping [] c 5 (List.append_nil _).symm hc g hg ⟨[8, 9], ?_, ?_, ?_⟩ hwait
  · decide
  · rw [hreq]
    exact le_refl _
  · rw [horg]
    simp only [List.forall_mem_cons, List.not_mem_nil, false_imp_iff, implies_true, and_true]
    exact ⟨hana, hrui⟩

end ArchGuard.Tenancy
