import ArchGuard.GrantMoves
import ArchGuard.IdentityHoldings

/-! The tuples of the grants against the grants: what the resolver answers once the outbox
is drained, and which moves of grants keep it in agreement with them. -/
namespace ArchGuard.Authz
open Tenancy TransitionRun

section Resolver

def resolverHolds (graph : GraphReader) (object relation user : String) (at' : Time) : Bool :=
  match evaluate graph object relation user ⟨at'⟩ with
  | .ok d => d.allowed
  | .error _ => false

theorem memKey_eq_iff {object relation object' relation' : String}
    (hobject : '\x00' ∉ object.toList) (hrelation : '\x00' ∉ relation.toList) :
    memKey object' relation' = memKey object relation ↔ object' = object ∧ relation' = relation := by
  constructor
  · intro h
    have hlist : object'.toList ++ '\x00' :: relation'.toList =
        object.toList ++ '\x00' :: relation.toList := by
      have := congrArg String.toList h
      simp only [memKey, String.toList_append, List.append_assoc] at this
      exact this
    obtain ⟨ho, -, hr⟩ := (List.append_cons_inj_of_notMem hobject hrelation).mp hlist.symm
    exact ⟨(String.toList_inj.mp ho).symm, (String.toList_inj.mp hr).symm⟩
  · rintro ⟨rfl, rfl⟩
    rfl

theorem directAnswer_members (ctx : CheckContext) (user relation condition : String)
    (resolve : (object relation : String) → Answer) {subs : List GraphSubject}
    (h : ∀ sub ∈ subs, splitUserset sub.ref = none) :
    ∃ why, directAnswer ctx user resolve relation condition subs = .ok (subs.any fun sub =>
      evalCondition condition sub.window ctx && sub.ref = user, why) := by
  induction subs with
  | nil => exact ⟨_, rfl⟩
  | cons sub subs ih =>
    obtain ⟨why, hrest⟩ := ih fun x hx => h x (List.mem_cons_of_mem sub hx)
    rw [directAnswer, h sub List.mem_cons_self]
    by_cases hcond : evalCondition condition sub.window ctx = true
    · by_cases huser : sub.ref = user
      · simp [hcond, huser]
      · simp [hcond, huser, hrest]
    · simp [hcond, hrest]

variable {org subject asset : Uuid}

theorem rewriteOf_hasActiveGrant {object : String} (h : refType object = ObjectType.asset.text) :
    rewriteOf object relHasActiveGrant = some (directCond conditionValidWindow) := by
  unfold rewriteOf
  rw [h]
  rfl

theorem evaluate_hasActiveGrant {graph : GraphReader} {object : String} (user : String) (at' : Time)
    (hasset : refType object = ObjectType.asset.text)
    (h : ∀ sub ∈ graph object relHasActiveGrant, splitUserset sub.ref = none) :
    ∃ why, evaluate graph object relHasActiveGrant user ⟨at'⟩ =
      .ok ⟨(graph object relHasActiveGrant).any fun sub =>
        evalCondition conditionValidWindow sub.window ⟨at'⟩ && sub.ref = user, why⟩ := by
  have hresolve (fuel : ℕ) : resolve graph ⟨at'⟩ user (fuel+1) [] object relHasActiveGrant =
      directAnswer ⟨at'⟩ user (resolve graph ⟨at'⟩ user fuel [visitKey object relHasActiveGrant])
        relHasActiveGrant conditionValidWindow (graph object relHasActiveGrant) := by
    rw [resolve, if_neg List.not_mem_nil, rewriteOf_hasActiveGrant hasset]
    rfl
  have hdepth : resolve graph ⟨at'⟩ user maxResolveDepth [] object relHasActiveGrant = _ :=
    hresolve 127
  obtain ⟨why, hans⟩ := directAnswer_members ⟨at'⟩ user relHasActiveGrant conditionValidWindow
    (resolve graph ⟨at'⟩ user 127 [visitKey object relHasActiveGrant]) h
  unfold evaluate
  rw [hdepth.trans hans]
  cases (graph object relHasActiveGrant).any fun sub =>
    evalCondition conditionValidWindow sub.window ⟨at'⟩ && sub.ref = user with
  | true => exact ⟨why, rfl⟩
  | false => exact ⟨_, rfl⟩

theorem resolverHolds_direct {graph : GraphReader} {user : String} {at' : Time}
    (h : ∀ sub ∈ graph (qualify org .asset asset.text) relHasActiveGrant,
      splitUserset sub.ref = none) :
    resolverHolds graph (qualify org .asset asset.text) relHasActiveGrant user at' =
      (graph (qualify org .asset asset.text) relHasActiveGrant).any fun sub =>
        evalCondition conditionValidWindow sub.window ⟨at'⟩ && sub.ref = user := by
  obtain ⟨why, hans⟩ := evaluate_hasActiveGrant user at'
    (refType_qualify org .asset asset) h
  rw [resolverHolds, hans]

theorem evalCondition_window {window : Option ValidityWindow} {at' : Time} :
    evalCondition conditionValidWindow window ⟨at'⟩ = true ↔
      ∃ w, window = some w ∧ w.contains at' = true := by
  have hne : conditionValidWindow ≠ "" := by decide
  cases window with
  | none => simp [evalCondition, hne]
  | some w => simp [evalCondition, hne]

theorem resolverHolds_hasActiveGrant {store : List StoredTuple} {at' : Time}
    (hmembers : ∀ x ∈ store, x.tuple.relation = relHasActiveGrant →
      splitUserset x.tuple.user = none) :
    resolverHolds (loadTenantGraph store org) (qualify org .asset asset.text) relHasActiveGrant
        (qualify org .membership subject.text) at' = true ↔
      ∃ x ∈ store, x.row.organizationId = org ∧ x.tuple = grantTuple org subject asset ∧
        ∃ w, x.window = some w ∧ w.contains at' = true := by
  have hkey (t : RelationTuple) : memKey t.object t.relation =
      memKey (qualify org .asset asset.text) relHasActiveGrant ↔
        t.object = qualify org .asset asset.text ∧ t.relation = relHasActiveGrant :=
    memKey_eq_iff (qualify_no_nul org .asset asset) (by decide)
  have hmem (sub : GraphSubject) : sub ∈ loadTenantGraph store org (qualify org .asset asset.text)
      relHasActiveGrant ↔ ∃ x ∈ store, x.row.organizationId = org ∧
        (x.tuple.object = qualify org .asset asset.text ∧ x.tuple.relation = relHasActiveGrant) ∧
          sub = ⟨x.tuple.user, x.window⟩ := by
    simp only [loadTenantGraph, memoryGraph, List.mem_map, List.mem_filter, decide_eq_true_eq, hkey]
    constructor
    · rintro ⟨t, ⟨⟨x, ⟨hx, horg⟩, rfl⟩, hon⟩, rfl⟩
      exact ⟨x, hx, horg, hon, rfl⟩
    · rintro ⟨x, hx, horg, hon, rfl⟩
      exact ⟨_, ⟨⟨x, ⟨hx, horg⟩, rfl⟩, hon⟩, rfl⟩
  have hdirect : ∀ sub ∈ loadTenantGraph store org (qualify org .asset asset.text)
      relHasActiveGrant, splitUserset sub.ref = none := by
    intro sub hsub
    obtain ⟨x, hx, -, hon, rfl⟩ := (hmem sub).mp hsub
    exact hmembers x hx hon.2
  rw [resolverHolds_direct hdirect, List.any_eq_true]
  constructor
  · rintro ⟨sub, hsub, htest⟩
    obtain ⟨x, hx, horg, ⟨hobject, hrelation⟩, rfl⟩ := (hmem sub).mp hsub
    rw [Bool.and_eq_true, decide_eq_true_eq, evalCondition_window] at htest
    refine ⟨x, hx, horg, ?_, htest.1⟩
    rw [grantTuple, ← hobject, ← hrelation, ← htest.2]
  · rintro ⟨x, hx, horg, hx', hwindow⟩
    refine ⟨⟨x.tuple.user, x.window⟩, (hmem _).mpr ⟨x, hx, horg, ?_, rfl⟩, ?_⟩
    · rw [hx']
      exact ⟨rfl, rfl⟩
    · rw [Bool.and_eq_true, decide_eq_true_eq, evalCondition_window, hx']
      exact ⟨hwindow, rfl⟩

end Resolver

section Agreement

variable {parse column : String → Option Uuid} {org : Uuid}

def heldWindow : Option (Option TupleCondition) → Option ValidityWindow
  | some (some c) => if c.name = conditionValidWindow then some c.window else none
  | _ => none

def OnPair (parse : String → Option Uuid) (subject asset : Uuid) (g : PrivilegedGrant) : Prop :=
  g.subjectMembershipId = subject ∧ namedAsset parse g.target = some asset

/-- Some grant of the subject on the asset authorizes at the instant. -/
def Authorized (parse : String → Option Uuid) (org : Uuid) (db : Db) (subject asset : Uuid)
    (at' : Time) : Prop :=
  ∃ id g, grantAt db id = some g ∧ g.organizationId = org ∧ OnPair parse subject asset g ∧
    g.authorizes at' = true

/-- Once the outbox is published in order, the resolver holds `has_active_grant` for a subject
and an asset exactly while some grant of theirs authorizes. -/
def GrantsAgree (parse column : String → Option Uuid) (org : Uuid) (s : TenantState) : Prop :=
  ∃ store, drain column s.outbox = some store ∧ ∀ subject asset at',
    resolverHolds (loadTenantGraph store org) (qualify org .asset asset.text) relHasActiveGrant
        (qualify org .membership subject.text) at' = true ↔
      Authorized parse org s.db subject asset at'

/-- The outbox alone, against the grants. -/
def WindowsAgree (parse : String → Option Uuid) (org : Uuid) (s : TenantState) : Prop :=
  ∀ subject asset at',
    (∃ w, heldWindow (outcome s.outbox (grantTuple org subject asset)) = some w ∧
      w.contains at' = true) ↔ Authorized parse org s.db subject asset at'

theorem mem_of_outcome {us : List TupleUpdate} {t : RelationTuple} {c : Option TupleCondition}
    (h : outcome us t = some c) : ∃ u ∈ us, u.tuple = t := by
  by_contra hno
  have hnone : outcome ([] ++ us) t = outcome [] t :=
    outcome_append_of_ne fun u hu ht => hno ⟨u, hu, ht⟩
  rw [List.nil_append, h] at hnone
  cases hnone

theorem StoredTuple.window_eq (x : StoredTuple) : x.window = heldWindow (some x.row.condition) := by
  unfold StoredTuple.window heldWindow
  cases x.row.condition <;> rfl

theorem grantsAgree_iff {s : TenantState} (hcolumn : ∀ u : Uuid, column u.text = some u)
    (hinv : TenantInv org s) : GrantsAgree parse column org s ↔ WindowsAgree parse org s := by
  obtain ⟨store, hdrain, hpub⟩ := drain_publishes hcolumn hinv.outbox
  have hmembers : ∀ x ∈ store, x.tuple.relation = relHasActiveGrant →
      splitUserset x.tuple.user = none := by
    intro x hx hrel
    obtain ⟨u, hu, ht⟩ := mem_of_outcome ((hpub.held x.tuple x.row.condition).mp ⟨x, hx, rfl, rfl⟩)
    rw [← ht] at hrel ⊢
    exact hinv.grantees u hu hrel
  have hheld (subject asset : Uuid) (at' : Time) : resolverHolds (loadTenantGraph store org)
      (qualify org .asset asset.text) relHasActiveGrant (qualify org .membership subject.text) at' =
        true ↔ ∃ w, heldWindow (outcome s.outbox (grantTuple org subject asset)) = some w ∧
          w.contains at' = true := by
    rw [resolverHolds_hasActiveGrant hmembers]
    constructor
    · rintro ⟨x, hx, -, ht, w, hw, hopen⟩
      refine ⟨w, ?_, hopen⟩
      rw [(hpub.held _ x.row.condition).mp ⟨x, hx, ht, rfl⟩, ← x.window_eq, hw]
    · rintro ⟨w, hw, hopen⟩
      cases hout : outcome s.outbox (grantTuple org subject asset) with
      | none =>
        rw [hout] at hw
        cases hw
      | some c =>
        obtain ⟨x, hx, ht, rfl⟩ := (hpub.held _ c).mpr hout
        rw [hout, ← x.window_eq] at hw
        exact ⟨x, hx, hpub.organization x hx, ht, w, hw, hopen⟩
  constructor
  · rintro ⟨store', hdrain', hall⟩ subject asset at'
    obtain rfl := Option.some.inj (hdrain.symm.trans hdrain')
    rw [← hheld]
    exact hall subject asset at'
  · intro hall
    refine ⟨store, hdrain, fun subject asset at' => ?_⟩
    rw [hheld]
    exact hall subject asset at'

end Agreement

section Step

variable {parse : String → Option Uuid} {c : Collaborators} {org subject asset : Uuid}
  {s s' : TenantState} {op : TenantOp}

theorem authorizes_iff {g : PrivilegedGrant} {at' : Time} : g.authorizes at' = true ↔
    g.status = .active ∧ g.notBefore ≤ at' ∧ at' < g.expiresAt := by
  unfold PrivilegedGrant.authorizes PrivilegedGrant.expired
  by_cases hs : g.status = .active
  · simp [hs]
  · simp [hs]

theorem contains_iff {w : ValidityWindow} {at' : Time} :
    w.contains at' = true ↔ w.notBefore ≤ at' ∧ at' < w.expiresAt := by
  simp [ValidityWindow.contains]

theorem grantTuple_inj {subject' asset' : Uuid}
    (h : grantTuple org subject' asset' = grantTuple org subject asset) :
    subject' = subject ∧ asset' = asset := by
  rw [grantTuple, grantTuple, RelationTuple.mk.injEq] at h
  exact ⟨Uuid.text_injective (qualify_inj h.1), Uuid.text_injective (qualify_inj h.2.2)⟩

def openWindow (g : PrivilegedGrant) : Option ValidityWindow :=
  if g.status = .active then some ⟨g.notBefore, g.expiresAt⟩ else none

theorem heldWindow_grantUpdate (g : PrivilegedGrant) :
    heldWindow (grantUpdate g asset).effect = openWindow g.stored := by
  unfold grantUpdate openWindow
  by_cases hs : g.status = .active
  · simp [hs, TupleUpdate.effect, heldWindow, PrivilegedGrant.stored, TupleCondition.stored]
  · simp [hs, TupleUpdate.effect, heldWindow, PrivilegedGrant.stored]

/-- The updates of a call on the tuple of a pair are those of the grants it moves there. -/
theorem TenantStep.onPair_of_tuple {us : List TupleUpdate} (h : TenantStep parse c org s s' op)
    (hus : ∀ u ∈ us, Structural org u.tuple) {u : TupleUpdate}
    (hu : u ∈ us ++ (transitions c org s op).flatMap (grantUpdates parse))
    (ht : u.tuple = grantTuple org subject asset) :
    ∃ g ∈ transitions c org s op, OnPair parse subject asset g ∧ u = grantUpdate g asset := by
  rcases List.mem_append.mp hu with hu | hu
  · refine absurd ?_ (hus u hu).relation.2
    rw [ht]
    rfl
  · obtain ⟨g, hg, hu⟩ := List.mem_flatMap.mp hu
    obtain ⟨asset', hasset, rfl⟩ := List.mem_map.mp hu
    rw [grantUpdate_tuple, h.moves.organization hg] at ht
    obtain ⟨rfl, rfl⟩ := grantTuple_inj ht
    exact ⟨g, hg, ⟨rfl, Option.mem_toList.mp hasset⟩, rfl⟩

theorem TenantStep.outcome_other (h : TenantStep parse c org s s' op)
    (hno : ∀ g ∈ transitions c org s op, ¬OnPair parse subject asset g) :
    outcome s'.outbox (grantTuple org subject asset) =
      outcome s.outbox (grantTuple org subject asset) := by
  obtain ⟨us, hout, hus⟩ := h.outbox
  rw [hout]
  apply outcome_append_of_ne
  intro u hu ht
  obtain ⟨g, hg, hon, -⟩ := h.onPair_of_tuple hus hu ht
  exact hno g hg hon

theorem TenantStep.window_moved (h : TenantStep parse c org s s' op) {g : PrivilegedGrant}
    (hg : g ∈ transitions c org s op) (hon : OnPair parse subject asset g) :
    heldWindow (outcome s'.outbox (grantTuple org subject asset)) =
      openWindow g.stored := by
  obtain ⟨us, hout, hus⟩ := h.outbox
  have heffect : ∀ u ∈ us ++ (transitions c org s op).flatMap (grantUpdates parse),
      u.tuple = grantTuple org subject asset → u.effect = (grantUpdate g asset).effect := by
    intro u hu ht
    obtain ⟨g', hg', -, rfl⟩ := h.onPair_of_tuple hus hu ht
    -- one grant is moved, or several that are no longer active
    rcases h.moves.alike with ⟨a, ha⟩ | hended
    · rw [ha] at hg hg'
      rw [List.mem_singleton.mp hg, List.mem_singleton.mp hg']
    · simp [grantUpdate, hended g hg, hended g' hg', TupleUpdate.effect]
  have hex : ∃ u ∈ us ++ (transitions c org s op).flatMap (grantUpdates parse),
      u.tuple = grantTuple org subject asset := by
    refine ⟨grantUpdate g asset, List.mem_append_right _ (List.mem_flatMap.mpr ⟨g, hg, ?_⟩), ?_⟩
    · exact List.mem_map.mpr ⟨asset, Option.mem_toList.mpr hon.2, rfl⟩
    · rw [grantUpdate_tuple, h.moves.organization hg, hon.1]
  rw [hout, outcome_append_of_effect hex heffect, heldWindow_grantUpdate]

theorem TenantStep.authorized_iff (h : TenantStep parse c org s s' op) (hinv : TenantInv org s)
    {at' : Time} : Authorized parse org s'.db subject asset at' ↔
      (∃ g ∈ transitions c org s op, OnPair parse subject asset g ∧ g.stored.authorizes at' = true) ∨
        ∃ id r, grantAt s.db id = some r ∧ (∀ g ∈ transitions c org s op, g.id ≠ id) ∧
          OnPair parse subject asset r ∧ r.authorizes at' = true := by
  constructor
  · rintro ⟨id, r, hr, -, hon, hauth⟩
    by_cases hmoved : ∃ g ∈ transitions c org s op, g.id = id
    · obtain ⟨g, hg, rfl⟩ := hmoved
      rw [h.moves.moved g hg, Option.some.injEq] at hr
      subst hr
      exact Or.inl ⟨g, hg, hon, hauth⟩
    · have hkept : ∀ g ∈ transitions c org s op, g.id ≠ id := fun g hg hid => hmoved ⟨g, hg, hid⟩
      rw [h.moves.kept id hkept] at hr
      exact Or.inr ⟨id, r, hr, hkept, hon, hauth⟩
  · rintro (⟨g, hg, hon, hauth⟩ | ⟨id, r, hr, hkept, hon, hauth⟩)
    · exact ⟨g.id, g.stored, h.moves.moved g hg, (h.moves.row g hg).organization, hon, hauth⟩
    · refine ⟨id, r, ?_, (hinv.grants id r hr).organization, hon, hauth⟩
      rw [h.moves.kept id hkept, hr]

/-- The last move on a pair covers the rest: a grant that becomes active has a window that
contains those of the other active grants of its subject on its asset, and a grant that is not
active afterwards leaves no other one active there. -/
def LastCovers (parse : String → Option Uuid) (c : Collaborators) (org : Uuid) (s : TenantState)
    (op : TenantOp) : Prop :=
  ∀ g ∈ transitions c org s op, ∀ asset, namedAsset parse g.target = some asset →
    ∀ id r, grantAt s.db id = some r → r.status = .active →
      (∀ g' ∈ transitions c org s op, g'.id ≠ id) →
        OnPair parse g.subjectMembershipId asset r →
          g.status = .active ∧ g.notBefore ≤ r.notBefore ∧ r.expiresAt ≤ g.expiresAt

theorem openWindow_contains {g : PrivilegedGrant} {at' : Time} :
    (∃ w, openWindow g = some w ∧ w.contains at' = true) ↔
      g.authorizes at' = true := by
  rw [authorizes_iff, openWindow]
  by_cases hs : g.status = .active
  · simp [hs, contains_iff]
  · simp [hs]

theorem covers_of_authorizes {g r : PrivilegedGrant} (hr : r.status = .active)
    (hwindow : r.notBefore < r.expiresAt)
    (h : ∀ at', r.authorizes at' = true → g.authorizes at' = true) :
    g.status = .active ∧ g.notBefore ≤ r.notBefore ∧ r.expiresAt ≤ g.expiresAt := by
  have hfirst := authorizes_iff.mp (h r.notBefore (authorizes_iff.mpr ⟨hr, le_rfl, hwindow⟩))
  refine ⟨hfirst.1, hfirst.2.1, ?_⟩
  by_contra hlate
  have hlate' : g.expiresAt < r.expiresAt := not_le.mp hlate
  -- the grant still authorizes when the window closes
  have hclosing := authorizes_iff.mp (h g.expiresAt
    (authorizes_iff.mpr ⟨hr, hfirst.2.2.le, hlate'⟩))
  exact absurd hclosing.2.2 (lt_irrefl _)

theorem windowsAgree_step (h : TenantStep parse c org s s' op) (hinv : TenantInv org s)
    (hs : WindowsAgree parse org s) : WindowsAgree parse org s' ↔ LastCovers parse c org s op := by
  constructor
  · intro hs' g hg asset hasset id r hr hact hkept hon
    have hstored : ∀ at', r.authorizes at' = true → g.stored.authorizes at' = true := by
      intro at' hauth
      have hafter := (hs' g.subjectMembershipId asset at').mpr
        ((h.authorized_iff hinv).mpr (Or.inr ⟨id, r, hr, hkept, hon, hauth⟩))
      rw [h.window_moved hg ⟨rfl, hasset⟩] at hafter
      exact openWindow_contains.mp hafter
    have hcovers := covers_of_authorizes hact (hinv.grants id r hr).window hstored
    obtain ⟨hnb, hexp⟩ := h.moves.times g hg hcovers.1
    rw [hnb, hexp] at hcovers
    exact hcovers
  · intro hcovers subject asset at'
    rw [h.authorized_iff hinv]
    by_cases hmoved : ∃ g ∈ transitions c org s op, OnPair parse subject asset g
    · obtain ⟨g, hg, hon⟩ := hmoved
      rw [h.window_moved hg hon, openWindow_contains]
      constructor
      · exact fun hauth => Or.inl ⟨g, hg, hon, hauth⟩
      · rintro (⟨g', hg', hon', hauth⟩ | ⟨id, r, hr, hkept, hon', hauth⟩)
        · rcases h.moves.alike with ⟨a, ha⟩ | hended
          · rw [ha] at hg hg'
            rw [List.mem_singleton.mp hg, ← List.mem_singleton.mp hg']
            exact hauth
          · exact absurd (authorizes_iff.mp hauth).1 (hended g' hg')
        · obtain ⟨hact, hnb, hexp⟩ := authorizes_iff.mp hauth
          rw [← hon.1] at hon'
          obtain ⟨hgact, hgnb, hgexp⟩ := hcovers g hg asset hon.2 id r hr hact hkept hon'
          obtain ⟨hsnb, hsexp⟩ := h.moves.times g hg hgact
          rw [authorizes_iff, hsnb, hsexp]
          exact ⟨hgact, hgnb.trans hnb, hexp.trans_le hgexp⟩
    · have hno : ∀ g ∈ transitions c org s op, ¬OnPair parse subject asset g :=
        fun g hg hon => hmoved ⟨g, hg, hon⟩
      rw [h.outcome_other hno, hs subject asset at']
      constructor
      · rintro ⟨id, r, hr, -, hon, hauth⟩
        refine Or.inr ⟨id, r, hr, fun g hg hid => hno g hg ?_, hon, hauth⟩
        subst hid
        obtain ⟨hsub, htarget⟩ := h.moves.same g hg r hr
        exact ⟨hsub ▸ hon.1, htarget ▸ hon.2⟩
      · rintro (⟨g, hg, hon, -⟩ | ⟨id, r, hr, -, hon, hauth⟩)
        · exact absurd hon (hno g hg)
        · exact ⟨id, r, hr, (hinv.grants id r hr).organization, hon, hauth⟩

end Step

section Runs

variable {parse column : String → Option Uuid} {c : Collaborators} {org : Uuid} {ops : List TenantOp}

/-- After every call of the run, what is published agrees with the grants. -/
def GrantsAgreeThroughout (parse column : String → Option Uuid) (c : Collaborators) (org : Uuid)
    (ops : List TenantOp) : Prop :=
  ∀ pre post s, ops = pre ++ post → run (callTenant parse c org) .fresh pre = some s →
    GrantsAgree parse column org s

theorem callTenant_total (parse : String → Option Uuid) (c : Collaborators) (org : Uuid)
    (s : TenantState) (op : TenantOp) : (callTenant parse c org s op).isSome := rfl

theorem windowsAgree_fresh : WindowsAgree parse org .fresh := by
  intro subject asset at'
  constructor
  · rintro ⟨w, hw, -⟩
    cases hw
  · rintro ⟨id, g, hg, -⟩
    cases hg

/-- The runs in which the projection of the grants agrees with them are those in which the
last move on each pair covers the other grants there. -/
theorem grantsAgreeThroughout_iff (hparse : ∀ u : Uuid, parse u.text = some u)
    (hcolumn : ∀ u : Uuid, column u.text = some u) :
    GrantsAgreeThroughout parse column c org ops ↔
      Along (callTenant parse c org) (LastCovers parse c org) .fresh ops := by
  have hkeep (s : TenantState) (op : TenantOp) (s' : TenantState) (hinv : TenantInv org s)
      (he : callTenant parse c org s op = some s') :
      TenantStep parse c org s s' op ∧ TenantInv org s' := by
    obtain rfl := Option.some.inj he
    have hstep := tenantStep_perform (c := c) hparse hinv op
    exact ⟨hstep, hstep.tenantInv hinv⟩
  obtain ⟨t, ht⟩ := run_of_total (callTenant_total parse c org) .fresh ops
  refine stays_iff_along_of_run (J := TenantInv org) (A := fun _ => True)
    (fun s op s' _ hinv _ he => (hkeep s op s' hinv he).2) ?_ (fun _ _ => trivial)
    (tenantInv_fresh org) ?_ ht
  · intro s op s' hinv hs he
    obtain ⟨hstep, hinv'⟩ := hkeep s op s' hinv he
    rw [grantsAgree_iff hcolumn hinv']
    exact windowsAgree_step hstep hinv ((grantsAgree_iff hcolumn hinv).mp hs)
  · exact (grantsAgree_iff hcolumn (tenantInv_fresh org)).mpr windowsAgree_fresh

end Runs

namespace Sample

def server : GrantTarget := ⟨"asset", Uuid.text 7, "admin"⟩

/-- A grant on the server is requested, activated and revoked. -/
def oneGrant : List TenantOp :=
  [.requestBreakglass 6 3 server 0 "outage" "INC-1" 1000000 9000000, .passStepUp 6 .aal3 true,
    .revokeGrant 6]

def activeGrant : List TenantOp :=
  [.requestBreakglass 6 3 server 0 "outage" "INC-1" 1000000 9000000, .passStepUp 6 .aal3 true]

/-- A member asks for another grant on the same server. -/
def anotherRequest : TenantOp :=
  .requestBreakglass 8 3 server 0 "outage" "INC-2" 2000000 5000000

theorem namedAsset_server : namedAsset Uuid.ofText server = some 7 := by
  have htype : server.type = ObjectType.asset.text := rfl
  rw [namedAsset, if_pos htype]
  exact Uuid.ofText_text 7

/-- The request is saved while the other grant is active. -/
def requestsBeside (db : Db) : Bool :=
  let gs := transitions Tenancy.Sample.collaborators 1 { TenantState.fresh with db := db } anotherRequest
  (gs.any fun g => g.subjectMembershipId = 3 && g.target = server && g.status = .requested) &&
    (gs.all fun g => g.id ≠ 6) &&
    (grantAt db 6).any fun r => r.subjectMembershipId = 3 && r.target = server && r.authorizes 3000000

/-- Every active grant is among those that the call moves. -/
def MovesAll (c : Collaborators) (org : Uuid) (db : Db) (op : TenantOp) : Prop :=
  ∀ id r, grantAt db id = some r → r.status = .active →
    ∃ g ∈ transitions c org { TenantState.fresh with db := db } op, g.id = id

def movesAllTest (c : Collaborators) (org : Uuid) (db : Db) (op : TenantOp) : Bool :=
  (db.scan fun
    | .grant _, g => some g.1
    | _, _ => none).all fun r => r.status ≠ .active ||
      (transitions c org { TenantState.fresh with db := db } op).any fun g => g.id = r.id

theorem movesAll_of_test {c : Collaborators} {org : Uuid} (db : Db) (op : TenantOp)
    (h : movesAllTest c org db op = true) : MovesAll c org db op := by
  intro id r hr hact
  have hid := grantAt_id hr
  obtain ⟨v, hv, rfl⟩ := Option.map_eq_some_iff.mp hr
  have hmem : v.1 ∈ db.scan fun
      | .grant _, g => some g.1
      | _, _ => none := (ReadCommitted.Store.mem_scan db).mpr ⟨.grant id, v, hv, rfl⟩
  have htest := List.all_eq_true.mp h v.1 hmem
  rw [hact] at htest
  simpa [hid] using htest

theorem transitions_rows {c : Collaborators} {org : Uuid} (s : TenantState) (op : TenantOp) :
    transitions c org s op = transitions c org { TenantState.fresh with db := s.db } op := by
  cases op <;> rfl

theorem lastCovers_of_movesAll {parse : String → Option Uuid} {c : Collaborators} {org : Uuid}
    {s : TenantState} {op : TenantOp} (h : MovesAll c org s.db op) : LastCovers parse c org s op := by
  intro g hg asset hasset id r hr hact hkept hon
  obtain ⟨g', hg', hid⟩ := h id r hr hact
  rw [← transitions_rows] at hg'
  exact absurd hid (hkept g' hg')

end Sample

theorem grantsAgree_oneGrant :
    GrantsAgreeThroughout Uuid.ofText Uuid.ofText Tenancy.Sample.collaborators 1 Sample.oneGrant := by
  apply (grantsAgreeThroughout_iff Uuid.ofText_text Uuid.ofText_text).mpr
  refine along_of_image (I := TenantInv 1) (f := TenantState.db)
    (fun s op s' => callTenant_rows Uuid.ofText_text s op s')
    (fun s op _ h => Sample.lastCovers_of_movesAll h) (tenantInv_fresh 1) ?_
  exact along_of_check Sample.movesAll_of_test (by decide +kernel)

/-- The request deletes the tuple of the grant that is active. -/
theorem request_deletes_active_grant : ∃ s,
    run (callTenant Uuid.ofText Tenancy.Sample.collaborators 1) .fresh
      (Sample.activeGrant ++ [Sample.anotherRequest]) = some s ∧
        ¬GrantsAgree Uuid.ofText Uuid.ofText 1 s := by
  set c := Tenancy.Sample.collaborators
  obtain ⟨s, hrun⟩ := run_of_total (callTenant_total Uuid.ofText c 1) .fresh Sample.activeGrant
  obtain ⟨hinv, hrows⟩ := run_image (I := TenantInv 1) (f := TenantState.db)
    (fun s op s' => callTenant_rows Uuid.ofText_text s op s') (tenantInv_fresh 1) hrun
  have hbeside : (run (rowsAfter c 1) TenantState.fresh.db Sample.activeGrant).any
      Sample.requestsBeside = true := by decide +kernel
  rw [hrows, Option.any_some] at hbeside
  simp only [Sample.requestsBeside, Bool.and_eq_true, List.any_eq_true, List.all_eq_true,
    Option.any_eq_true, decide_eq_true_eq, ← Sample.transitions_rows] at hbeside
  obtain ⟨⟨⟨g, hg, ⟨hgsub, hgtarget⟩, hgst⟩, hids⟩, r, hr, ⟨hrsub, hrtarget⟩, hauth⟩ := hbeside
  set s' := performTenant Uuid.ofText c 1 s Sample.anotherRequest
  have hstep : TenantStep Uuid.ofText c 1 s s' Sample.anotherRequest :=
    tenantStep_perform Uuid.ofText_text hinv Sample.anotherRequest
  refine ⟨s', run_append.mpr ⟨s, hrun, rfl⟩, ?_⟩
  rw [grantsAgree_iff Uuid.ofText_text (hstep.tenantInv hinv)]
  intro hagree
  have hon : OnPair Uuid.ofText 3 7 g := ⟨hgsub, by rw [hgtarget, Sample.namedAsset_server]⟩
  have hron : OnPair Uuid.ofText 3 7 r := ⟨hrsub, by rw [hrtarget, Sample.namedAsset_server]⟩
  obtain ⟨w, hw, -⟩ := (hagree 3 7 3000000).mpr
    ((hstep.authorized_iff hinv).mpr (Or.inr ⟨6, r, hr, hids, hron, hauth⟩))
  rw [hstep.window_moved hg hon, openWindow, if_neg] at hw
  · cases hw
  · change g.status ≠ .active
    rw [hgst]
    exact nofun

end ArchGuard.Authz
