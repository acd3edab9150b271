import ArchGuard.TenancyProgram

/-! Active sessions and the memberships they are bound to, under interleaved
transactions. -/
namespace ArchGuard.Tenancy
open ReadCommitted TransitionRun

def ActiveOn (r : SessionRow) (membershipId : Uuid) : Prop :=
  r.session.status = .active ∧ r.session.membershipId = some membershipId

def Placed (db : Db) (membershipId org : Uuid) : Prop :=
  ∃ m, membershipAt db membershipId = some m ∧ m.organizationId = org

/-- The tenant context of the session is that of a membership row. -/
def Destined (db : Db) (s : AuthSession) : Prop :=
  ∃ id org, s.membershipId = some id ∧ s.organizationId = some org ∧ Placed db id org

def Pinned (db : Db) (s : AuthSession) : Prop := s.status = .active → Destined db s

def Live (db : Db) (membershipId : Uuid) : Prop :=
  ∃ m, membershipAt db membershipId = some m ∧ m.status = .active

/-- Every active session is bound to an active membership, in its organization. -/
structure Bound (db : Db) : Prop where
  pinned : ∀ id r, sessionAt db id = some r → Pinned db r.session
  live : ∀ id r membershipId, sessionAt db id = some r → ActiveOn r membershipId →
    Live db membershipId

def removes : Pc → Option Uuid
  | .listActiveByMembership m => some m.id
  | .saveDecision _ _ (.cascadeNext m _) => some m.id
  | .snapshotSessions (.byMembership id _) _ => some id
  | .revokeSessions (.byMembership id _) _ _ => some id
  | _ => none

/-- The membership whose sessions a transaction has already looked up. -/
def sessionsTaken : Pc → Option Uuid
  | .revokeSessions (.byMembership id _) _ _ => some id
  | _ => none

/-- The commit of `i` will bind a session to a membership it is not committed on. -/
def Binds (c : TenancyCfg) (i : ℕ) (membershipId : Uuid) : Prop :=
  ∃ id r, c.lock (.session id) = some (i, some r) ∧ ActiveOn r.1 membershipId ∧
    ∀ r', sessionAt c.db id = some r' → ¬ActiveOn r' membershipId

/-- A commit binds sessions only to memberships that are committed active and whose
sessions no open removal has looked up yet. -/
def BindsLive (c : TenancyCfg) (e : Event Req) : Prop :=
  ∀ i l n, e = .step i → c.proc i = some l → tenancyProgram.next l = .commit n →
    ∀ membershipId, Binds c i membershipId →
      Live c.db membershipId ∧ ∀ j l', c.proc j = some l' → sessionsTaken l' ≠ some membershipId

/-- Every committed active session of the membership is still to be ended by `i`, or is
ended in its version. -/
def Covered (c : TenancyCfg) (i : ℕ) (membershipId : Uuid) (ids : List Uuid) : Prop :=
  ∀ id r, sessionAt c.db id = some r → ActiveOn r membershipId →
    id ∈ ids ∨ ∃ v, c.lock (.session id) = some (i, v) ∧ ∀ r', v = some r' → ¬ActiveOn r'.1 membershipId

/-- What a statement relies on about the committed memberships. -/
def Settled (db : Db) : Pc → Prop
  | .endListing s | .createSession s => Pinned db s
  | .updateSelection s | .updateSwitch s _ _ => Destined db s
  | .saveRemoval _ m | .listActiveByMembership m | .saveDecision _ _ (.cascadeNext m _) =>
    Placed db m.id m.organizationId
  | .snapshotSessions (.byMembership id org) after | .revokeSessions (.byMembership id org) _ after =>
    after = .commit ∧ Placed db id org
  | _ => True

structure BindInv (c : TenancyCfg) : Prop where
  live : OwnersLive c
  bound : Bound c.db
  kept : ∀ id i v, c.lock (.membership id) = some (i, v) → ∃ m m' : Row (.membership id),
    c.db.row (.membership id) = some m ∧ v = some m' ∧ m'.1.organizationId = m.1.organizationId
  removing : ∀ i l id v, c.proc i = some l → c.lock (.membership id) = some (i, v) →
    l = .fail ∨ removes l = some id
  pinned : ∀ id i r, c.lock (.session id) = some (i, some r) → Pinned c.db r.1.session
  settled : ∀ i l, c.proc i = some l → Settled c.db l
  covered : ∀ i id org ids after,
    c.proc i = some (.revokeSessions (.byMembership id org) ids after) → Covered c i id ids

section Views

variable {c : TenancyCfg} {i : ℕ}

theorem viewRow_membership (hc : BindInv c) {id : Uuid} {m : Row (.membership id)}
    (h : c.viewRow i (.membership id) = some m) : Placed c.db id m.1.organizationId := by
  rcases c.viewRow_cases i (.membership id) with ⟨v, hv, he⟩ | ⟨-, he⟩
  · obtain ⟨m₀, m', hm₀, rfl, horg⟩ := hc.kept id i v hv
    obtain rfl := Option.some.inj (h.symm.trans he)
    exact ⟨m₀.1, Option.map_eq_some_iff.mpr ⟨m₀, hm₀, rfl⟩, horg.symm⟩
  · exact ⟨m.1, Option.map_eq_some_iff.mpr ⟨m, he.symm.trans h, rfl⟩, rfl⟩

theorem placed_of_view (hc : BindInv c) {id : Uuid} {m : Membership}
    (h : membershipAt (c.view i) id = some m) : Placed c.db id m.organizationId := by
  obtain ⟨v, hv, rfl⟩ := Option.map_eq_some_iff.mp h
  exact viewRow_membership hc hv

theorem pinned_of_view (hc : BindInv c) {id : Uuid} {r : Row (.session id)}
    (h : c.viewRow i (.session id) = some r) : Pinned c.db r.1.session := by
  rcases c.viewRow_cases i (.session id) with ⟨v, hv, he⟩ | ⟨-, he⟩
  · obtain rfl := he.symm.trans h
    exact hc.pinned id i r hv
  · exact hc.bound.pinned id r.1 (Option.map_eq_some_iff.mpr ⟨r, he.symm.trans h, rfl⟩)

/-- The cascade's WHERE clause finds every session that is active on its membership. -/
theorem matches_of_activeOn {db : Db} {r : SessionRow} {id org : Uuid} (hp : Pinned db r.session)
    (hr : ActiveOn r id) (hm : Placed db id org) :
    (SessionQuery.byMembership id org).matches r = true := by
  obtain ⟨id', org', hid, horg, m', hm', rfl⟩ := hp hr.1
  obtain rfl := Option.some.inj (hid.symm.trans hr.2)
  obtain ⟨m, hm, rfl⟩ := hm
  -- the session and the cascade name the organization of one and the same row
  obtain rfl := Option.some.inj (hm.symm.trans hm')
  simp [SessionQuery.matches, hid, horg, hr.1]

end Views

section Stable

variable {c c' : TenancyCfg} {e : Event Req}

theorem Placed.step (hc : BindInv c) (h : exec tenancyProgram c e = some c') {id org : Uuid}
    (hp : Placed c.db id org) : Placed c'.db id org := by
  obtain ⟨m, hm, horg⟩ := hp
  obtain ⟨v, hv, rfl⟩ := Option.map_eq_some_iff.mp hm
  rcases row_of_exec h with heq | ⟨i, l, n, -, -, -, rfl⟩
  · exact ⟨v.1, Option.map_eq_some_iff.mpr ⟨v, by rw [heq]; exact hv, rfl⟩, horg⟩
  -- only a commit changes rows: the version it wrote has the organization of the committed one
  rcases c.viewRow_cases i (.membership id) with ⟨r, hr, he⟩ | ⟨-, he⟩
  · obtain ⟨m₀, m', hm₀, rfl, hsame⟩ := hc.kept id i r hr
    obtain rfl := Option.some.inj (hm₀.symm.trans hv)
    exact ⟨m'.1, Option.map_eq_some_iff.mpr ⟨m', he, rfl⟩, hsame.trans horg⟩
  · exact ⟨v.1, Option.map_eq_some_iff.mpr ⟨v, he.trans hv, rfl⟩, horg⟩

theorem Destined.step (hc : BindInv c) (h : exec tenancyProgram c e = some c') {s : AuthSession}
    (hs : Destined c.db s) : Destined c'.db s := by
  obtain ⟨id, org, hid, horg, hp⟩ := hs
  exact ⟨id, org, hid, horg, hp.step hc h⟩

theorem Pinned.step (hc : BindInv c) (h : exec tenancyProgram c e = some c') {s : AuthSession}
    (hs : Pinned c.db s) : Pinned c'.db s := fun ha => (hs ha).step hc h

theorem Settled.step (hc : BindInv c) (h : exec tenancyProgram c e = some c') {l : Pc}
    (hl : Settled c.db l) : Settled c'.db l := by
  cases l with
  | endListing s => exact Pinned.step hc h hl
  | createSession s => exact Pinned.step hc h hl
  | updateSelection s => exact Destined.step hc h hl
  | updateSwitch s m g => exact Destined.step hc h hl
  | saveRemoval op m => exact Placed.step hc h hl
  | listActiveByMembership m => exact Placed.step hc h hl
  | saveDecision g approvals after =>
    cases after with
    | cascadeNext m rest => exact Placed.step hc h hl
    | _ => trivial
  | snapshotSessions q after =>
    cases q with
    | byMembership id org => exact ⟨hl.1, hl.2.step hc h⟩
    | byGrant g org => trivial
  | revokeSessions q ids after =>
    cases q with
    | byMembership id org => exact ⟨hl.1, hl.2.step hc h⟩
    | byGrant g org => trivial
  | _ => trivial

/-- What a cascade covers stays covered while others commit, if they bind only sessions
whose membership is not being removed. -/
theorem Covered.frame {j : ℕ} {id org : Uuid} {ids : List Uuid} {after : AfterSessions}
    (hok : BindsLive c e) (h : exec tenancyProgram c e = some c') (hj : j ≠ e.actor)
    (hp : c.proc j = some (.revokeSessions (.byMembership id org) ids after))
    (hcov : Covered c j id ids) : Covered c' j id ids := by
  have hf := (frame_of_exec h hj).1
  intro sid r hr hact
  have hold (hrow : sessionAt c.db sid = some r) : sid ∈ ids ∨
      ∃ v, c'.lock (.session sid) = some (j, v) ∧ ∀ r', v = some r' → ¬ActiveOn r'.1 id :=
    (hcov sid r hrow hact).imp_right fun ⟨v, hv, hn⟩ => ⟨v, (hf.lock _ v).mpr hv, hn⟩
  rcases row_of_exec h with heq | ⟨i, l, n, rfl, hl, hn, rfl⟩
  · rw [sessionAt, heq] at hr
    exact hold hr
  obtain ⟨w, hw, rfl⟩ := Option.map_eq_some_iff.mp hr
  rcases c.viewRow_cases i (.session sid) with ⟨v, hv, he⟩ | ⟨-, he⟩
  swap
  · exact hold (Option.map_eq_some_iff.mpr ⟨w, he.symm.trans hw, rfl⟩)
  obtain rfl : v = some w := he.symm.trans hw
  -- transaction `i` commits an active version of this session: it was active before, and then not
  -- ended by `j` (whose lock it would need), or `i` binds it now, which `BindsLive` excludes
  by_cases hwas : ∃ r', sessionAt c.db sid = some r' ∧ ActiveOn r' id
  · obtain ⟨r', hr', hact'⟩ := hwas
    refine (hcov sid r' hr' hact').imp_right fun ⟨v', hv', _⟩ => ?_
    rw [hv, Option.some.injEq, Prod.mk.injEq] at hv'
    exact absurd hv'.1.symm hj
  · refine absurd rfl ((hok i l n rfl hl hn id ⟨sid, w, hv, hact, ?_⟩).2 j _ hp)
    exact fun r' hr' ha' => hwas ⟨r', hr', ha'⟩

end Stable

end ArchGuard.Tenancy
