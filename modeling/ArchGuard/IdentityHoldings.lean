import ArchGuard.LifecycleGrants

/-! What an identity that is suspended or deprovisioned can hold. -/
namespace ArchGuard.Tenancy
open ReadCommitted TransitionRun

def HoldsNothing (t : Tables) : Prop :=
  ∀ id i k m, t.identity id = some i → i.status ≠ .active → t.membership k = some m →
    m.identityId = id → m.status ≠ .active

/-- A provisioning call does not give a membership to an identity that is not active. -/
def Admits (c : Collaborators) (db : Db) : Op → Prop
  | .provisionUser org email draw => email ≠ "" → ∀ i, resolved c db email = some i →
      i.status ≠ .active → ¬Joins db org i.id draw.membershipId
  | .provisionFederated org email draw => email ≠ "" → ∀ i, resolved c db email = some i →
      i.status ≠ .active → ¬Joins db org i.id draw.membershipId ∧ ∀ m, ¬Returns db org i.id m
  | _ => True

namespace HoldsNothing

variable {t : Tables}

theorem congr (h : HoldsNothing t) {t' : Tables}
    (he : t'.identity = t.identity ∧ t'.membership = t.membership) : HoldsNothing t' := by
  unfold HoldsNothing
  rw [he.1, he.2]
  exact h

theorem setMemberships (h : HoldsNothing t) {test : Membership → Bool} {status : MembershipStatus}
    (hok : status = .active → ∀ k m i, t.membership k = some m → test m = true →
      t.identity m.identityId = some i → i.status = .active) :
    HoldsNothing (t.setMemberships test status) := by
  intro id i k m hi hne hm hid hact
  obtain ⟨m₀, hm₀, rfl⟩ := Option.map_eq_some_iff.mp hm
  by_cases htest : test m₀ = true
  · simp only [edit, htest, if_true] at hid hact
    exact hne (hok hact k m₀ i hm₀ htest (by rw [show m₀.identityId = id from hid]; exact hi))
  · simp only [edit, htest] at hid hact
    exact h id i k m₀ hi hne hm₀ hid hact

theorem insertMembership (h : HoldsNothing t) {m : Membership}
    (hok : m.status = .active → ∀ i, t.identity m.identityId = some i → i.status = .active) :
    HoldsNothing { t with membership := Function.update t.membership m.id (some m) } := by
  intro id i k r hi hne hr hid hact
  change Function.update t.membership m.id (some m) k = some r at hr
  by_cases hk : k = m.id
  · subst hk
    rw [Function.update_self] at hr
    obtain rfl := Option.some.inj hr
    exact hne (hok hact i (by rw [hid]; exact hi))
  · rw [Function.update_of_ne hk] at hr
    exact h id i k r hi hne hr hid hact

theorem insertIdentity (h : HoldsNothing t) {i : Identity} (hi : i.status = .active) :
    HoldsNothing { t with identity := Function.update t.identity i.id (some i) } := by
  intro id r k m hr hne hm hid
  change Function.update t.identity i.id (some i) id = some r at hr
  by_cases hk : id = i.id
  · subst hk
    rw [Function.update_self] at hr
    obtain rfl := Option.some.inj hr
    exact absurd hi hne
  · rw [Function.update_of_ne hk] at hr
    exact h id r k m hr hne hm hid

end HoldsNothing

section Steps

variable {db : Db} {c : Collaborators}

theorem holdsNothing_cascade (h : HoldsNothing (tables db)) {identityId : Uuid}
    {transition : Identity → Except DirectoryError Identity} {moved : Membership → Bool}
    {status : MembershipStatus} (hkeep : ∀ i i', transition i = .ok i' → i'.id = i.id)
    (hmoved : ∀ m, m.status = .active → moved m = true) (hstatus : status ≠ .active) :
    HoldsNothing (tables (inTx db (cascade db identityId transition moved status)).2) := by
  by_cases hok : ∃ i i', getIdentity db identityId = some i ∧ transition i = .ok i'
  swap
  · rw [cascade_refused fun i i' hi ht => hok ⟨i, i', hi, ht⟩]
    exact h
  obtain ⟨i, i', hi, ht⟩ := hok
  rw [tables_cascade hi ht (hkeep i i' ht)]
  intro id r k m hr hne hm hid hact
  obtain ⟨m₀, hm₀, rfl⟩ := Option.map_eq_some_iff.mp hm
  obtain ⟨r₀, hr₀, rfl⟩ := Option.map_eq_some_iff.mp hr
  by_cases hown : (decide (m₀.identityId = identityId) && moved m₀) = true
  · simp only [edit, hown, if_true] at hact
    exact hstatus hact
  simp only [edit, hown] at hid hact
  -- a membership that stays active is of another identity, whose status stays
  have hother : r₀.id ≠ identityId := by
    intro heq
    refine hown (Bool.and_eq_true_iff.mpr ⟨decide_eq_true ?_, hmoved m₀ hact⟩)
    exact (show m₀.identityId = id from hid).trans ((getIdentity_id hr₀).symm.trans heq)
  simp only [edit, hother, decide_false] at hne
  exact h id r₀ k m₀ hr₀ hne hm₀ hid hact

theorem holdsNothing_join (h : HoldsNothing (tables db)) {org identityId id : Uuid}
    (hi : ∀ r, getIdentity db identityId = some r → r.status = .active) :
    HoldsNothing (tables (insertMembership db ⟨id, identityId, org, .active, none⟩)) := by
  rw [tables_insertMembership]
  exact h.insertMembership fun _ => hi

theorem holdsNothing_ensureMembership (h : HoldsNothing (tables db)) {org identityId id : Uuid}
    (hi : ∀ r, getIdentity db identityId = some r → r.status = .active) :
    HoldsNothing (tables (committed db
      ((ensureMembership db org identityId id).mapError ServiceError.ensureMembership))) := by
  by_cases hj : Joins db org identityId id
  · rw [ensureMembership_joins hj]
    exact holdsNothing_join h hi
  · rw [ensureMembership_stays hj]
    exact h

theorem holdsNothing_ensureActiveMembership (h : HoldsNothing (tables db))
    {org identityId id : Uuid} (hi : ∀ r, getIdentity db identityId = some r → r.status = .active) :
    HoldsNothing (tables (committed db
      ((ensureActiveMembership db org identityId id).mapError
        ServiceError.ensureActiveMembership))) := by
  by_cases hj : Joins db org identityId id
  · rw [ensureActiveMembership_joins hj]
    exact holdsNothing_join h hi
  by_cases hr : ∃ m, Returns db org identityId m
  · obtain ⟨m, hm⟩ := hr
    rw [ensureActiveMembership_returns hm]
    change HoldsNothing (tables (updateMemberships _ _ _))
    rw [tables_updateMemberships]
    refine h.setMemberships fun _ k r i hk htest hri => hi i ?_
    obtain ⟨hrow, hmid, -⟩ := findByIdentity_some hm.2.1
    simp only [Bool.and_eq_true, decide_eq_true_eq] at htest
    have hrm : r = m := by
      have hk' : k = m.id := (membershipAt_id hk).symm.trans htest.1.1
      rw [hk'] at hk
      exact Option.some.inj (hk.symm.trans hrow)
    rw [← hmid, ← hrm]
    exact hri
  · rw [ensureActiveMembership_stays hj fun m hm => hr ⟨m, hm⟩]
    exact h

theorem holdsNothing_provision_unknown (h : HoldsNothing (tables db)) {email : String}
    {draw : ProvisionDraw} {ensure : Db → Uuid → Except ServiceError Db}
    (hr : resolved c db email = none)
    (hensure : ∀ db' id, HoldsNothing (tables db') →
      (∀ r, getIdentity db' id = some r → r.status = .active) →
        HoldsNothing (tables (committed db' (ensure db' id)))) :
    HoldsNothing (tables (provision c db email draw ensure).2) := by
  rcases provision_unknown hr with hdb | ⟨i, hact, -, hdb⟩
  · rw [hdb]
    exact h
  · rw [hdb]
    refine hensure _ _ ?_ fun r hrow => ?_
    · rw [tables_insertIdentity]
      exact h.insertIdentity hact
    · have hself : getIdentity (insertIdentity db i) i.id = some i :=
        (congrFun (congrArg Tables.identity tables_insertIdentity) i.id).trans (Function.update_self ..)
      obtain rfl := Option.some.inj (hself.symm.trans hrow)
      exact hact

theorem holdsNothing_provisionUser (h : HoldsNothing (tables db)) (org : Uuid) (email : String)
    (draw : ProvisionDraw) :
    HoldsNothing (tables (provisionUser c db org email draw).2) ↔
      Admits c db (.provisionUser org email draw) := by
  unfold provisionUser Admits
  by_cases hempty : email = ""
  · simp only [hempty, if_true, ne_eq, not_true_eq_false, false_implies, iff_true]
    exact h
  simp only [hempty, if_false, ne_eq, not_false_eq_true, forall_const]
  cases hr : resolved c db email with
  | none =>
    simp only [reduceCtorEq, false_implies, implies_true, iff_true]
    exact holdsNothing_provision_unknown h hr fun db' id h' hid =>
      holdsNothing_ensureMembership h' hid
  | some i =>
    have hrow := resolved_some hr
    rw [provision_known hr]
    constructor
    · rintro hafter i' hi' hne hj
      obtain rfl := Option.some.inj hi'
      rw [ensureMembership_joins hj] at hafter
      change HoldsNothing (tables (insertMembership _ _)) at hafter
      rw [tables_insertMembership] at hafter
      exact hafter i.id i draw.membershipId _ hrow hne (Function.update_self ..) rfl rfl
    · intro hok
      by_cases hact : i.status = .active
      · apply holdsNothing_ensureMembership h
        intro r hr'
        obtain rfl := Option.some.inj (hrow.symm.trans hr')
        exact hact
      · rw [ensureMembership_stays (hok i rfl hact)]
        exact h

theorem holdsNothing_provisionFederated (h : HoldsNothing (tables db)) (org : Uuid)
    (email : String) (draw : ProvisionDraw) :
    HoldsNothing (tables (provisionFederated c db org email draw).2) ↔
      Admits c db (.provisionFederated org email draw) := by
  unfold provisionFederated Admits
  by_cases hempty : email = ""
  · simp only [hempty, if_true, ne_eq, not_true_eq_false, false_implies, iff_true]
    exact h
  simp only [hempty, if_false, ne_eq, not_false_eq_true, forall_const]
  cases hr : resolved c db email with
  | none =>
    simp only [reduceCtorEq, false_implies, implies_true, iff_true]
    exact holdsNothing_provision_unknown h hr fun db' id h' hid =>
      holdsNothing_ensureActiveMembership h' hid
  | some i =>
    have hrow := resolved_some hr
    rw [provision_known hr]
    constructor
    · rintro hafter i' hi' hne
      obtain rfl := Option.some.inj hi'
      refine ⟨fun hj => ?_, fun m hm => ?_⟩
      · rw [ensureActiveMembership_joins hj] at hafter
        change HoldsNothing (tables (insertMembership _ _)) at hafter
        rw [tables_insertMembership] at hafter
        exact hafter i.id i draw.membershipId _ hrow hne (Function.update_self ..) rfl rfl
      · rw [ensureActiveMembership_returns hm] at hafter
        change HoldsNothing (tables (updateMemberships _ _ _)) at hafter
        rw [tables_updateMemberships] at hafter
        obtain ⟨hmrow, hmid, hmorg⟩ := findByIdentity_some hm.2.1
        refine hafter i.id i m.id (m.setStatus .active) hrow hne ?_ hmid rfl
        change (membershipAt db m.id).map _ = _
        simp [hmrow, edit, hmorg]
    · intro hok
      by_cases hact : i.status = .active
      · apply holdsNothing_ensureActiveMembership h
        intro r hr'
        obtain rfl := Option.some.inj (hrow.symm.trans hr')
        exact hact
      · rw [ensureActiveMembership_stays (hok i rfl hact).1 (hok i rfl hact).2]
        exact h

theorem holdsNothing_accept (h : HoldsNothing (tables db)) (org membershipId identityId : Uuid) :
    HoldsNothing (tables (accept db org membershipId identityId).2) := by
  rcases accept_cases org membershipId identityId with hdb | ⟨m, i, hm, hi, hact, hdb⟩
  · rw [hdb]
    exact h
  rw [hdb, tables_updateMemberships]
  apply h.setMemberships
  intro _ k r i' hk htest hri
  simp only [Bool.and_eq_true, decide_eq_true_eq] at htest
  have hk' : k = m.id := (membershipAt_id hk).symm.trans htest.1.1
  rw [hk'] at hk
  obtain rfl := Option.some.inj (hk.symm.trans hm)
  obtain rfl := Option.some.inj (hri.symm.trans hi)
  exact hact

theorem holdsNothing_perform (h : HoldsNothing (tables db)) (op : Op) :
    HoldsNothing (tables (perform c db op)) ↔ Admits c db op := by
  cases op with
  | provisionUser org email draw => exact holdsNothing_provisionUser h org email draw
  | provisionFederated org email draw => exact holdsNothing_provisionFederated h org email draw
  | suspendIdentity identityId =>
    exact iff_of_true (holdsNothing_cascade h (fun i i' hi => Identity.suspend_id hi)
      (fun m hm => decide_eq_true hm) (by decide)) trivial
  | deprovisionIdentity identityId =>
    refine iff_of_true (holdsNothing_cascade h (fun i i' hi => Except.ok.inj hi ▸ rfl)
      (fun m hm => ?_) (by decide)) trivial
    simp [hm]
  | inviteByEmail org email invitedBy membershipId =>
    refine iff_of_true ?_ trivial
    simp only [perform]
    rcases inviteByEmail_cases org email invitedBy membershipId with hdb | ⟨m, hm, -, hdb⟩
    · rw [hdb]
      exact h
    · rw [hdb, tables_insertMembership]
      exact h.insertMembership fun hact => by rw [hm] at hact; cases hact
  | accept org membershipId identityId =>
    exact iff_of_true (holdsNothing_accept h org membershipId identityId) trivial
  | revokeMembership org membershipId =>
    refine iff_of_true ?_ trivial
    simp only [perform]
    cases hm : getMembership db org membershipId with
    | none =>
      rw [revokeMembership_unknown hm]
      exact h
    | some m =>
      obtain ⟨sessions, htab⟩ := tables_revokeMembership hm
      rw [htab]
      exact h.setMemberships fun hact => absurd hact (by decide)
  | suspendForDeactivation org membershipId =>
    refine iff_of_true ?_ trivial
    simp only [perform]
    by_cases hm : ∃ m, getMembership db org membershipId = some m ∧ m.status = .active
    · obtain ⟨m, hm, hact⟩ := hm
      obtain ⟨sessions, htab⟩ := tables_suspendForDeactivation hm hact
      rw [htab]
      exact h.setMemberships fun hact => absurd hact (by decide)
    · rw [suspendForDeactivation_idle fun m hm' hact => hm ⟨m, hm', hact⟩]
      exact h
  | _ => exact iff_of_true (h.congr (perform_leavesDirectory rfl)) trivial

end Steps

/-- In every state of the run, an identity that is not active has no active membership and
gets no session. -/
def IdentitiesHoldNothing (c : Collaborators) (db : Db) (ops : List Op) : Prop :=
  ∀ pre post db', ops = pre ++ post → run (call c) db pre = some db' →
    HoldsNothing (tables db') ∧
      ∀ q i, getIdentity db' q.identityId = some i → i.status ≠ .active →
        ∃ err, establishSession db' q = (.error err, db')

/-- The runs in which identities that are not active hold nothing are those whose
provisioning calls give them no membership. -/
theorem identitiesHoldNothing_iff {c : Collaborators} {db : Db} {ops : List Op}
    (hdb : HoldsNothing (tables db)) :
    IdentitiesHoldNothing c db ops ↔ Along (call c) (Admits c) db ops := by
  have hstays : (∀ pre post db', ops = pre ++ post → run (call c) db pre = some db' →
      HoldsNothing (tables db')) ↔ Along (call c) (Admits c) db ops :=
    stays_iff_along (I := fun db => HoldsNothing (tables db)) (fun _ _ => rfl)
      (fun _ op _ hs he => Option.some.inj he ▸ holdsNothing_perform hs op) hdb
  rw [← hstays]
  constructor
  · exact fun h pre post db' he hrun => (h pre post db' he hrun).1
  · intro h pre post db' he hrun
    have hI := h pre post db' he hrun
    refine ⟨hI, fun q i hi hne => establishSession_refused fun k m hm hid => ?_⟩
    exact hI q.identityId i k m hi hne hm hid

namespace Sample

def collaborators : Collaborators where
  hashEmail email := if email = "" then .error "e-mail vazio" else .ok (Bytes.ofString email)
  available _ := true
  notify _ := true

/-- A member is provisioned, comes back through federation, and is then suspended. -/
def provisionedThenSuspended : List Op :=
  [.provisionUser 1 "ana@cli.com" ⟨2, "s2", 3⟩, .provisionFederated 1 "ana@cli.com" ⟨4, "s4", 5⟩,
    .suspendIdentity 2]

def suspendedThenFederated : List Op :=
  [.provisionUser 1 "ana@cli.com" ⟨2, "s2", 3⟩, .suspendIdentity 2,
    .provisionFederated 1 "ana@cli.com" ⟨4, "s4", 5⟩]

def resolvesActive (db : Db) : Op → Bool
  | .provisionUser _ email _ => (resolved collaborators db email).all fun i => i.status = .active
  | .provisionFederated _ email _ =>
    (resolved collaborators db email).all fun i => i.status = .active
  | _ => true

theorem admits_of_resolvesActive (db : Db) (op : Op) (h : resolvesActive db op = true) :
    Admits collaborators db op := by
  cases op with
  | provisionUser org email draw =>
    intro _ i hi hne
    rw [resolvesActive, hi] at h
    exact absurd (of_decide_eq_true h) hne
  | provisionFederated org email draw =>
    intro _ i hi hne
    rw [resolvesActive, hi] at h
    exact absurd (of_decide_eq_true h) hne
  | _ => trivial

theorem holdsNothing_empty : HoldsNothing (tables Store.empty) := nofun

end Sample

theorem identitiesHoldNothing_suspended :
    IdentitiesHoldNothing Sample.collaborators Store.empty Sample.provisionedThenSuspended ∧
      (run (call Sample.collaborators) Store.empty Sample.provisionedThenSuspended).any
        (fun db => (getIdentity db 2).any (fun i => i.status = .suspended) &&
          (membershipAt db 3).any fun m => m.status = .suspended) = true :=
  ⟨(identitiesHoldNothing_iff Sample.holdsNothing_empty).mpr
    (along_of_check Sample.admits_of_resolvesActive (by decide +kernel)), by decide +kernel⟩

/-- A federated login of a suspended identity makes its membership active again. -/
theorem suspended_identity_reactivated :
    ¬IdentitiesHoldNothing Sample.collaborators Store.empty Sample.suspendedThenFederated := by
  intro h
  have hrun : (run (call Sample.collaborators) Store.empty Sample.suspendedThenFederated).any
      (fun db => (getIdentity db 2).any (fun i => i.status = .suspended) &&
        (membershipAt db 3).any fun m => m.identityId = 2 && m.status = .active) = true := by
    decide +kernel
  obtain ⟨db, hdb, hboth⟩ := (Option.any_eq_true _ _).mp hrun
  obtain ⟨hidentity, hmember⟩ := Bool.and_eq_true_iff.mp hboth
  obtain ⟨i, hi, hst⟩ := (Option.any_eq_true _ _).mp hidentity
  obtain ⟨m, hm, hm'⟩ := (Option.any_eq_true _ _).mp hmember
  obtain ⟨hid, hact⟩ := Bool.and_eq_true_iff.mp hm'
  refine (h _ [] db (List.append_nil _).symm hdb).1 2 i 3 m hi ?_ hm (of_decide_eq_true hid)
    (of_decide_eq_true hact)
  rw [of_decide_eq_true hst]
  exact nofun

end ArchGuard.Tenancy
