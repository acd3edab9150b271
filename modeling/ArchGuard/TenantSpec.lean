import ArchGuard.AuthzRefs
import ArchGuard.LifecycleGrants
import ArchGuard.TenantOps

/-! What the calls of a tenant enqueue, and what the store holds of a tuple once the outbox
is published. -/
namespace ArchGuard.Authz
open Tenancy

/-- A mutation between two objects of the organization. -/
structure WithinTenant (org : Uuid) (u : TupleUpdate) : Prop where
  user : refOrg u.tuple.user = some org.text
  object : refOrg u.tuple.object = some org.text
  relation : u.tuple.relation ≠ ""

/-- What a mutation leaves in the store under its tuple. -/
def TupleUpdate.effect (u : TupleUpdate) : Option (Option TupleCondition) :=
  match u.op with
  | .write => some (u.condition.map TupleCondition.stored)
  | .delete => none

/-- What the mutations leave of a tuple, one after the other. -/
def outcome (us : List TupleUpdate) (t : RelationTuple) : Option (Option TupleCondition) :=
  us.foldl (fun held u => if u.tuple = t then u.effect else held) none

section Outcome

variable {us vs : List TupleUpdate} {t : RelationTuple}

theorem outcome_append : outcome (us ++ vs) t =
    vs.foldl (fun held u => if u.tuple = t then u.effect else held) (outcome us t) :=
  List.foldl_append

theorem outcome_append_of_ne (h : ∀ u ∈ vs, u.tuple ≠ t) : outcome (us ++ vs) t = outcome us t := by
  rw [outcome_append]
  generalize outcome us t = held
  induction vs with
  | nil => rfl
  | cons v vs ih =>
    rw [List.foldl_cons, if_neg (h v List.mem_cons_self)]
    exact ih fun u hu => h u (List.mem_cons_of_mem v hu)

theorem outcome_append_of_effect {e : Option (Option TupleCondition)}
    (hex : ∃ u ∈ vs, u.tuple = t) (h : ∀ u ∈ vs, u.tuple = t → u.effect = e) :
    outcome (us ++ vs) t = e := by
  have hkeep : ∀ ws : List TupleUpdate, (∀ u ∈ ws, u.tuple = t → u.effect = e) →
      ws.foldl (fun held u => if u.tuple = t then u.effect else held) e = e := by
    intro ws hws
    induction ws with
    | nil => rfl
    | cons w ws ih =>
      have hw : (if w.tuple = t then w.effect else e) = e := by
        split_ifs with ht
        · exact hws w List.mem_cons_self ht
        · rfl
      rw [List.foldl_cons, hw]
      exact ih fun u hu => hws u (List.mem_cons_of_mem w hu)
  obtain ⟨u, hu, ht⟩ := hex
  obtain ⟨before, after, rfl⟩ := List.append_of_mem hu
  rw [outcome_append, List.foldl_append, List.foldl_cons, if_pos ht, h u hu ht]
  exact hkeep after fun v hv => h v (List.mem_append_right _ (List.mem_cons_of_mem u hv))

end Outcome

section Publishing

variable {column : String → Option Uuid} {org : Uuid}

/-- The store holds of each tuple what the mutations leave of it, under the organization. -/
structure Publishes (org : Uuid) (us : List TupleUpdate) (store : List StoredTuple) : Prop where
  organization : ∀ x ∈ store, x.row.organizationId = org
  held : ∀ t c, (∃ x ∈ store, x.tuple = t ∧ x.row.condition = c) ↔ outcome us t = some c

variable {us : List TupleUpdate} {store : List StoredTuple} {u : TupleUpdate}

theorem outcome_other {t : RelationTuple} (ht : u.tuple ≠ t) :
    outcome (us ++ [u]) t = outcome us t :=
  outcome_append_of_ne (by simpa using ht)

theorem outcome_self : outcome (us ++ [u]) u.tuple = u.effect :=
  outcome_append_of_effect ⟨u, by simp, rfl⟩ (by simp)

/-- ON CONFLICT DO UPDATE: the tuple that is there takes the new condition. -/
theorem Publishes.refresh (hs : Publishes org us store) (hop : u.op = .write)
    (hany : ∃ x ∈ store, x.tuple = u.tuple) : Publishes org (us ++ [u]) (store.map fun x =>
      if x.tuple = u.tuple then ⟨x.tuple, x.row.organizationId, u.condition.map TupleCondition.stored⟩
      else x) := by
  constructor
  · intro x hx
    obtain ⟨y, hy, rfl⟩ := List.mem_map.mp hx
    split_ifs
    · exact hs.organization y hy
    · exact hs.organization y hy
  · intro t c
    by_cases ht : u.tuple = t
    · subst ht
      rw [outcome_self, TupleUpdate.effect, hop, Option.some.injEq]
      constructor
      · rintro ⟨x, hx, hxt, rfl⟩
        obtain ⟨y, hy, rfl⟩ := List.mem_map.mp hx
        split_ifs at hxt ⊢ with hyt
        · rfl
        · exact absurd hxt hyt
      · rintro rfl
        obtain ⟨y, hy, hyt⟩ := hany
        exact ⟨_, List.mem_map.mpr ⟨y, hy, rfl⟩, by simp [hyt], by simp [hyt]⟩
    · rw [outcome_other ht, ← hs.held]
      constructor
      · rintro ⟨x, hx, rfl, rfl⟩
        obtain ⟨y, hy, rfl⟩ := List.mem_map.mp hx
        split_ifs at ht ⊢ with hyt
        · exact absurd hyt.symm ht
        · exact ⟨y, hy, rfl, rfl⟩
      · rintro ⟨x, hx, rfl, rfl⟩
        exact ⟨x, List.mem_map.mpr ⟨x, hx, if_neg fun h => ht h.symm⟩, rfl, rfl⟩

theorem Publishes.insert (hs : Publishes org us store) (hop : u.op = .write)
    (hnone : ∀ x ∈ store, x.tuple ≠ u.tuple) : Publishes org (us ++ [u])
      (store ++ [⟨u.tuple, org, u.condition.map TupleCondition.stored⟩]) := by
  constructor
  · intro x hx
    rcases List.mem_append.mp hx with hx | hx
    · exact hs.organization x hx
    · obtain rfl := List.mem_singleton.mp hx
      rfl
  · intro t c
    simp only [List.mem_append, List.mem_singleton]
    by_cases ht : u.tuple = t
    · subst ht
      rw [outcome_self, TupleUpdate.effect, hop, Option.some.injEq]
      constructor
      · rintro ⟨x, hx | rfl, hxt, rfl⟩
        · exact absurd hxt (hnone x hx)
        · rfl
      · rintro rfl
        exact ⟨_, Or.inr rfl, rfl, rfl⟩
    · rw [outcome_other ht, ← hs.held]
      constructor
      · rintro ⟨x, hx | rfl, hxt, hxc⟩
        · exact ⟨x, hx, hxt, hxc⟩
        · exact absurd hxt ht
      · rintro ⟨x, hx, hxt⟩
        exact ⟨x, Or.inl hx, hxt⟩

theorem Publishes.delete (hs : Publishes org us store) (hop : u.op = .delete) :
    Publishes org (us ++ [u]) (store.filter fun x => x.tuple ≠ u.tuple) := by
  constructor
  · exact fun x hx => hs.organization x (List.mem_filter.mp hx).1
  · intro t c
    simp only [List.mem_filter, decide_eq_true_eq, ne_eq]
    by_cases ht : u.tuple = t
    · subst ht
      rw [outcome_self, TupleUpdate.effect, hop]
      constructor
      · rintro ⟨x, ⟨-, hne⟩, hxt, -⟩
        exact absurd hxt hne
      · exact fun h => by cases h
    · rw [outcome_other ht, ← hs.held]
      constructor
      · rintro ⟨x, ⟨hx, -⟩, hxt, hxc⟩
        exact ⟨x, hx, hxt, hxc⟩
      · rintro ⟨x, hx, rfl, rfl⟩
        exact ⟨x, ⟨hx, fun h => ht h.symm⟩, rfl, rfl⟩

theorem publishUpdate_spec (hcolumn : ∀ u : Uuid, column u.text = some u)
    (hs : Publishes org us store) (hu : WithinTenant org u) :
    ∃ store', publishUpdate column store u = some store' ∧ Publishes org (us ++ [u]) store' := by
  have hcol : (refOrg u.tuple.object).bind column = some org := by
    rw [hu.object, Option.bind_some, hcolumn]
  unfold publishUpdate
  cases hop : u.op with
  | write =>
    by_cases hany : ∃ x ∈ store, x.tuple = u.tuple
    · have htest : store.any (fun x => x.tuple = u.tuple) = true := by simpa using hany
      simp only [hcol, htest, if_true]
      exact ⟨_, rfl, hs.refresh hop hany⟩
    · have htest : store.any (fun x => x.tuple = u.tuple) = false := by simpa using hany
      simp only [hcol, htest]
      exact ⟨_, rfl, hs.insert hop fun x hx ht => hany ⟨x, hx, ht⟩⟩
  | delete => exact ⟨_, rfl, hs.delete hop⟩

theorem drain_publishes (hcolumn : ∀ u : Uuid, column u.text = some u)
    (hus : ∀ u ∈ us, WithinTenant org u) :
    ∃ store, drain column us = some store ∧ Publishes org us store := by
  induction us using List.reverseRecOn with
  | nil => exact ⟨[], rfl, fun x hx => absurd hx List.not_mem_nil, fun t c => by simp [outcome]⟩
  | append_singleton us u ih =>
    obtain ⟨store, hdrain, hs⟩ := ih fun v hv => hus v (List.mem_append_left _ hv)
    obtain ⟨store', hpub, hs'⟩ := publishUpdate_spec hcolumn hs (hus u (by simp))
    refine ⟨store', ?_, hs'⟩
    rw [drain, List.foldlM_append]
    change (drain column us >>= fun s => [u].foldlM (publishUpdate column) s) = some store'
    rw [hdrain]
    simp [hpub]

end Publishing

section Enqueueing

variable {parse : String → Option Uuid} {org : Uuid}

theorem enqueue_ok (hparse : ∀ u : Uuid, parse u.text = some u) {us : List TupleUpdate}
    (hus : ∀ u ∈ us, WithinTenant org u) : enqueue parse us = .ok us := by
  induction us with
  | nil => rfl
  | cons u us ih =>
    have hu := hus u List.mem_cons_self
    have horg : enqueueOrg parse u = .ok org := by
      simp only [enqueueOrg, validateTuple_ok hu.user hu.object hu.relation, hu.object, hparse]
    simp only [enqueue, horg, ih fun v hv => hus v (List.mem_cons_of_mem u hv), bind, Except.bind,
      pure, Except.pure]

def namedAsset (parse : String → Option Uuid) (t : GrantTarget) : Option Uuid :=
  if t.type = ObjectType.asset.text then parse t.id else none

def grantTuple (org subject asset : Uuid) : RelationTuple :=
  ⟨qualify org .membership subject.text, relHasActiveGrant, qualify org .asset asset.text⟩

def grantUpdate (g : PrivilegedGrant) (asset : Uuid) : TupleUpdate :=
  let tuple := grantTuple g.organizationId g.subjectMembershipId asset
  if g.status ≠ .active then ⟨.delete, tuple, none⟩
  else ⟨.write, tuple, some ⟨conditionValidWindow, g.notBefore, g.expiresAt⟩⟩

def grantUpdates (parse : String → Option Uuid) (g : PrivilegedGrant) : List TupleUpdate :=
  (namedAsset parse g.target).toList.map (grantUpdate g)

theorem grantUpdate_tuple (g : PrivilegedGrant) (asset : Uuid) :
    (grantUpdate g asset).tuple = grantTuple g.organizationId g.subjectMembershipId asset := by
  unfold grantUpdate
  split_ifs <;> rfl

theorem relHasActiveGrant_ne : relHasActiveGrant ≠ "" := by decide

theorem inTenant_grantUpdate (g : PrivilegedGrant) (asset : Uuid) :
    WithinTenant g.organizationId (grantUpdate g asset) := by
  constructor
  · rw [grantUpdate_tuple]
    exact refOrg_qualify _ _ _
  · rw [grantUpdate_tuple]
    exact refOrg_qualify _ _ _
  · rw [grantUpdate_tuple]
    exact relHasActiveGrant_ne

theorem projectGrant_ok (g : PrivilegedGrant) (asset : Uuid) :
    projectGrant g (qualify g.organizationId .asset asset.text) = .ok (grantUpdate g asset) := by
  have hvalid : validateTuple ⟨qualify g.organizationId .membership g.subjectMembershipId.text,
      relHasActiveGrant, qualify g.organizationId .asset asset.text⟩ = .ok () :=
    validateTuple_ok (refOrg_qualify _ _ _) (refOrg_qualify _ _ _) relHasActiveGrant_ne
  by_cases hs : g.status = .active
  · simp only [projectGrant, hvalid, grantUpdate, grantTuple, hs, ne_eq, not_true_eq_false, if_false]
  · simp only [projectGrant, hvalid, grantUpdate, grantTuple, hs, ne_eq, not_false_eq_true, if_true]

theorem enqueueGrantProjection_ok (hparse : ∀ u : Uuid, parse u.text = some u)
    (g : PrivilegedGrant) : enqueueGrantProjection parse g = .ok (grantUpdates parse g) := by
  unfold enqueueGrantProjection assetRef grantUpdates namedAsset
  by_cases ht : g.target.type = ObjectType.asset.text
  · simp only [ht, ne_eq, not_true_eq_false, if_false, if_true]
    cases parse g.target.id with
    | none => rfl
    | some asset =>
      simp only [projectGrant_ok, bind, Except.bind]
      exact enqueue_ok hparse (by simpa using inTenant_grantUpdate g asset)
  · simp only [ht, ne_eq, not_false_eq_true, if_true, if_false]
    rfl

theorem enqueueGrantProjections_ok (hparse : ∀ u : Uuid, parse u.text = some u)
    (gs : List PrivilegedGrant) :
    enqueueGrantProjections parse gs = .ok (gs.flatMap (grantUpdates parse)) := by
  induction gs with
  | nil => rfl
  | cons g gs ih =>
    simp only [enqueueGrantProjections, enqueueGrantProjection_ok hparse, ih, bind, Except.bind,
      pure, Except.pure, List.flatMap_cons]

def accessTuples (s : TenantState) (org membershipId : Uuid) : List RelationTuple :=
  let subjectRef := qualify org .membership membershipId.text
  ((s.assets.filter fun a => a.organizationId = org && a.ownerMembershipId = some membershipId).map
      fun a => ⟨subjectRef, relOwner, qualify org .asset a.id.text⟩) ++
    ((s.groupMemberships.filter fun g => g.organizationId = org && g.membershipId = membershipId).map
      fun g => ⟨subjectRef, relMember, qualify org .group g.groupId.text⟩) ++
    (s.assignments.filter fun a => a.organizationId = org && a.subjectType = .membership &&
      a.subjectId = membershipId).map
      fun a => ⟨subjectRef, a.relation, qualify org a.objectType a.objectId.text⟩

/-- The relation of every assignment is one that may be assigned. -/
def Assignable (s : TenantState) : Prop := ∀ a ∈ s.assignments, assignableRelation a.relation = true

theorem relOwner_ne : relOwner ≠ "" ∧ relOwner ≠ relHasActiveGrant := by decide

theorem relMember_ne : relMember ≠ "" ∧ relMember ≠ relHasActiveGrant := by decide

theorem assignableRelation_ne {relation : String} (h : assignableRelation relation = true) :
    relation ≠ "" ∧ relation ≠ relHasActiveGrant := by
  simp only [assignableRelation, Bool.or_eq_true, decide_eq_true_eq] at h
  rcases h with rfl | rfl <;> decide

theorem projectRoleAssignment_ok {org : Uuid} {objectRef relation subjectRef : String}
    {present : Bool} (hrel : assignableRelation relation = true)
    (hobject : refOrg objectRef = some org.text) (hsubject : refOrg subjectRef = some org.text) :
    projectRoleAssignment objectRef relation subjectRef present =
      .ok ⟨opFor present, ⟨subjectRef, relation, objectRef⟩, none⟩ := by
  have hvalid : validateTuple ⟨subjectRef, relation, objectRef⟩ = .ok () :=
    validateTuple_ok hsubject hobject (assignableRelation_ne hrel).1
  simp only [projectRoleAssignment, hrel, Bool.not_true, Bool.false_eq_true, if_false, hvalid]

/-- What a change of a membership's status enqueues. -/
def accessUpdates (s : TenantState) (org membershipId : Uuid) (present : Bool) : List TupleUpdate :=
  (accessTuples s org membershipId).map fun t => ⟨opFor present, t, none⟩

theorem mapM_ok {ε α β : Type} {f : α → Except ε β} {g : α → β} {xs : List α}
    (h : ∀ x ∈ xs, f x = .ok (g x)) : xs.mapM f = .ok (xs.map g) := by
  induction xs with
  | nil => rfl
  | cons x xs ih =>
    rw [List.mapM_cons, h x List.mem_cons_self, ih fun y hy => h y (List.mem_cons_of_mem x hy)]
    rfl

variable {s : TenantState} {membershipId : Uuid}

theorem mem_accessTuples (hassign : Assignable s) {t : RelationTuple}
    (h : t ∈ accessTuples s org membershipId) :
    t.user = qualify org .membership membershipId.text ∧ t.relation ≠ "" ∧
      t.relation ≠ relHasActiveGrant ∧ ∃ typ id, t.object = qualify org typ (Uuid.text id) := by
  simp only [accessTuples, List.mem_append, List.mem_map, List.mem_filter] at h
  rcases h with (⟨a, -, rfl⟩ | ⟨g, -, rfl⟩) | ⟨a, ⟨ha, -⟩, rfl⟩
  · exact ⟨rfl, relOwner_ne.1, relOwner_ne.2, .asset, a.id, rfl⟩
  · exact ⟨rfl, relMember_ne.1, relMember_ne.2, .group, g.groupId, rfl⟩
  · obtain ⟨hne, hgrant⟩ := assignableRelation_ne (hassign a ha)
    exact ⟨rfl, hne, hgrant, a.objectType, a.objectId, rfl⟩

theorem inTenant_accessUpdates (hassign : Assignable s) {present : Bool} {u : TupleUpdate}
    (h : u ∈ accessUpdates s org membershipId present) : WithinTenant org u := by
  obtain ⟨t, ht, rfl⟩ := List.mem_map.mp h
  obtain ⟨huser, hrel, -, typ, id, hobject⟩ := mem_accessTuples hassign ht
  constructor
  · rw [huser]
    exact refOrg_qualify _ _ _
  · rw [hobject]
    exact refOrg_qualify _ _ _
  · exact hrel

theorem membershipAccessTupleUpdates_ok (hassign : Assignable s) (present : Bool) :
    membershipAccessTupleUpdates s org membershipId present =
      .ok (accessUpdates s org membershipId present) := by
  have hroles : ((s.assignments.filter fun a => a.organizationId = org &&
      a.subjectType = .membership && a.subjectId = membershipId).mapM fun a => projectRoleAssignment
        (qualify org a.objectType a.objectId.text) a.relation
        (qualify org .membership membershipId.text) present) =
      .ok ((s.assignments.filter fun a => a.organizationId = org && a.subjectType = .membership &&
        a.subjectId = membershipId).map fun a => ⟨opFor present,
          ⟨qualify org .membership membershipId.text, a.relation,
            qualify org a.objectType a.objectId.text⟩, none⟩) := by
    apply mapM_ok
    intro a ha
    exact projectRoleAssignment_ok (hassign a (List.mem_filter.mp ha).1) (refOrg_qualify org _ _)
      (refOrg_qualify org _ _)
  unfold membershipAccessTupleUpdates
  simp only [hroles, bind, Except.bind, pure, Except.pure, accessUpdates, accessTuples,
    List.map_append, List.map_map]
  rfl

theorem enqueueMembershipLifecycle_ok (hparse : ∀ u : Uuid, parse u.text = some u)
    (hassign : Assignable s) (present : Bool) :
    enqueueMembershipLifecycle parse s org membershipId present =
      .ok (accessUpdates s org membershipId present) := by
  unfold enqueueMembershipLifecycle
  rw [membershipAccessTupleUpdates_ok hassign]
  exact enqueue_ok hparse fun u hu => inTenant_accessUpdates hassign hu

end Enqueueing

section Services

def enqueuedBy {ε α : Type} (r : Except ε α) (f : α → List TupleUpdate) : List TupleUpdate :=
  match r with
  | .ok a => f a
  | .error _ => []

theorem commit_eq {ε α : Type} {s : TenantState} {refused : Db} {r : Except ε α × Db}
    {updates : α → Except CatalogError (List TupleUpdate)} {f : α → List TupleUpdate}
    (h : ∀ a, updates a = .ok (f a)) :
    s.commit refused r updates = { s with db := r.2, outbox := s.outbox ++ enqueuedBy r.1 f } := by
  obtain ⟨res, db⟩ := r
  cases res with
  | error err => simp only [TenantState.commit, enqueuedBy, List.append_nil]
  | ok a => simp only [TenantState.commit, enqueuedBy, h a]

/-- The call of the directory or of the grants behind an operation of the tenant. -/
def TenantOp.service (org : Uuid) : TenantOp → Option Op
  | .suspendIdentity identityId => some (.suspendIdentity identityId)
  | .deprovisionIdentity identityId => some (.deprovisionIdentity identityId)
  | .inviteByEmail email invitedBy id => some (.inviteByEmail org email invitedBy id)
  | .accept membershipId identityId => some (.accept org membershipId identityId)
  | .provisionUser email draw => some (.provisionUser org email draw)
  | .provisionFederated email draw => some (.provisionFederated org email draw)
  | .revokeMembership id => some (.revokeMembership org id)
  | .suspendForDeactivation id => some (.suspendForDeactivation org id)
  | .requestBreakglass id subject target n justification incidentRef notBefore expiresAt =>
    some (.requestBreakglass id org subject target n justification incidentRef notBefore expiresAt)
  | .passStepUp grantId aal phishingResistant => some (.passStepUp org grantId aal phishingResistant)
  | .approve grantId approver => some (.approve org grantId approver)
  | .revokeGrant grantId => some (.revokeGrant org grantId)
  | .expireDue now => some (.expireDue org now)
  | _ => none

variable (parse : String → Option Uuid) (c : Collaborators) (org : Uuid) (s : TenantState)

/-- The grants that a call moves, as it saves them. -/
def transitions : TenantOp → List PrivilegedGrant
  | .revokeMembership id =>
    if (getMembership s.db org id).isSome then
      (listActiveByMembership s.db org id).map (PrivilegedGrant.setStatus .revoked)
    else []
  | .requestBreakglass id subject target n justification incidentRef notBefore expiresAt =>
    (requestBreakglass c s.db id org subject target n justification incidentRef notBefore
      expiresAt).1.toOption.toList
  | .passStepUp grantId aal phishingResistant =>
    (passStepUp s.db org grantId aal phishingResistant).1.toOption.toList
  | .approve grantId approver => (approve s.db org grantId approver).1.toOption.toList
  | .revokeGrant grantId => (revokeGrant s.db org grantId).1.toOption.toList
  | .expireDue now =>
    (listActiveExpired s.db org now).map (PrivilegedGrant.setStatus .expired)
  | _ => []

/-- The access that a call gives back to a membership, or takes from it. -/
def lifecycleUpdates : TenantOp → List TupleUpdate
  | .accept membershipId identityId =>
    enqueuedBy (accept s.db org membershipId identityId).1 fun m => accessUpdates s org m.id true
  | .provisionFederated email draw =>
    enqueuedBy (provisionFederated c s.db org email draw).1 fun identityId =>
      match findByIdentity s.db org identityId with
      | none => []
      | some m =>
        if m.status = .suspended ∨ m.status = .invited then accessUpdates s org m.id true else []
  | .revokeMembership id =>
    if (getMembership s.db org id).isSome then accessUpdates s org id false else []
  | .suspendForDeactivation id =>
    if (getMembership s.db org id).any fun m => m.status = .active then accessUpdates s org id false
    else []
  | _ => []

variable {parse c org s}

theorem enqueuedBy_toOption {ε : Type} (r : Except ε PrivilegedGrant) :
    enqueuedBy r (grantUpdates parse) = r.toOption.toList.flatMap (grantUpdates parse) := by
  cases r with
  | error err => rfl
  | ok g => simp [enqueuedBy, Except.toOption]

theorem enqueuedBy_ok {ε α : Type} {r : Except ε α} {us : List TupleUpdate} (h : ∃ a, r = .ok a) :
    enqueuedBy r (fun _ => us) = us := by
  obtain ⟨a, rfl⟩ := h
  rfl

/-- A call of a service goes as without the outbox, and enqueues the change of access and the
moves of grants it makes. -/
theorem performTenant_service (hparse : ∀ u : Uuid, parse u.text = some u) (hassign : Assignable s)
    {op : TenantOp} {o : Op} (h : op.service org = some o) :
    performTenant parse c org s op = { s with
      db := perform c s.db o
      outbox := s.outbox ++ (lifecycleUpdates c org s op ++
        (transitions c org s op).flatMap (grantUpdates parse)) } := by
  have hnone {ε α : Type} {r : Except ε α × Db} : s.commit s.db r (fun _ => .ok []) =
      { s with db := r.2, outbox := s.outbox ++ [] } := by
    rw [commit_eq (f := fun _ => []) fun _ => rfl]
    obtain ⟨res, db⟩ := r
    cases res <;> rfl
  have hgrant {ε : Type} {r : Except ε PrivilegedGrant × Db} :
      s.commit s.db r (fun g => enqueueGrantProjection parse g) = { s with
        db := r.2
        outbox := s.outbox ++ ([] ++ r.1.toOption.toList.flatMap (grantUpdates parse)) } := by
    rw [commit_eq fun g => enqueueGrantProjection_ok hparse g, enqueuedBy_toOption, List.nil_append]
  cases op with
  | suspendIdentity identityId => exact Option.some.inj h ▸ hnone
  | deprovisionIdentity identityId => exact Option.some.inj h ▸ hnone
  | inviteByEmail email invitedBy id => exact Option.some.inj h ▸ hnone
  | provisionUser email draw => exact Option.some.inj h ▸ hnone
  | requestBreakglass id subject target n justification incidentRef notBefore expiresAt =>
    exact Option.some.inj h ▸ hgrant
  | passStepUp grantId aal phishingResistant => exact Option.some.inj h ▸ hgrant
  | approve grantId approver => exact Option.some.inj h ▸ hgrant
  | revokeGrant grantId => exact Option.some.inj h ▸ hgrant
  | accept membershipId identityId =>
    obtain rfl := Option.some.inj h
    simp only [performTenant, lifecycleUpdates, transitions, List.flatMap_nil, List.append_nil]
    rw [commit_eq fun m => enqueueMembershipLifecycle_ok hparse hassign true]
    rfl
  | provisionFederated email draw =>
    obtain rfl := Option.some.inj h
    simp only [performTenant, lifecycleUpdates, transitions, List.flatMap_nil, List.append_nil]
    rw [commit_eq]
    · rfl
    · intro identityId
      unfold enqueueReturn
      cases findByIdentity s.db org identityId with
      | none => rfl
      | some m =>
        dsimp only
        split_ifs
        · exact enqueueMembershipLifecycle_ok hparse hassign true
        · rfl
  | expireDue now =>
    obtain rfl := Option.some.inj h
    have hok : ∃ n, (expireDue s.db org now).1 = .ok n := by
      obtain ⟨db', he, -⟩ := expireDue_eq s.db org now
      exact ⟨_, by rw [he]⟩
    simp only [performTenant, lifecycleUpdates, transitions, List.nil_append]
    rw [commit_eq fun _ => enqueueGrantProjections_ok hparse _, enqueuedBy_ok hok]
    rfl
  | revokeMembership id =>
    obtain rfl := Option.some.inj h
    have hupdates : (do
        let us ← enqueueMembershipLifecycle parse s org id false
        let gs ← enqueueGrantProjections parse
          ((listActiveByMembership s.db org id).map (PrivilegedGrant.setStatus .revoked))
        return us ++ gs) = Except.ok (accessUpdates s org id false ++
          ((listActiveByMembership s.db org id).map (PrivilegedGrant.setStatus .revoked)).flatMap
            (grantUpdates parse)) := by
      rw [enqueueMembershipLifecycle_ok hparse hassign, enqueueGrantProjections_ok hparse]
      rfl
    simp only [performTenant, lifecycleUpdates, transitions]
    rw [commit_eq fun _ => hupdates]
    cases hm : getMembership s.db org id with
    | none => simp [revokeMembership, hm, inTx, enqueuedBy, perform]
    | some m =>
      obtain ⟨p, db₂, hok, -⟩ := revokeMembership_ok hm
      simp only [Option.isSome_some, if_true, hok, enqueuedBy, perform]
  | suspendForDeactivation id =>
    obtain rfl := Option.some.inj h
    simp only [performTenant, lifecycleUpdates, transitions, List.flatMap_nil, List.append_nil]
    by_cases hact : ((getMembership s.db org id).any fun m => m.status = .active) = true
    · simp only [hact, if_true]
      rw [commit_eq fun _ => enqueueMembershipLifecycle_ok hparse hassign false]
      obtain ⟨m, hm, hst⟩ := (Option.any_eq_true _ _).mp hact
      obtain ⟨p, hok⟩ := suspendForDeactivation_ok hm (of_decide_eq_true hst)
      simp only [hok, enqueuedBy, perform]
    · simp only [hact]
      exact hnone
  | createAssetGroup id name parent => cases h
  | createAsset id kind name externalRef parent owner => cases h
  | createAssetAccess id subjectType subjectId relation objectType objectId => cases h
  | createGroupMembership id groupId membershipId => cases h
  | deleteGroupMembership groupId membershipId => cases h

end Services

end ArchGuard.Authz
