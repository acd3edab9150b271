import ArchGuard.AuthzListing
import ArchGuard.AuthzReconcileExact

/-! Tuples that are written with a window: which of them confer nothing outside it. -/
namespace ArchGuard.Authz

section Writes

variable (column : String → Option Uuid)

/-- `applyToStore`: the statements of the publisher. -/
def applyToStore (store : List StoredTuple) (u : TupleUpdate) : Option (List StoredTuple) :=
  publishUpdate column store u

/-- `Write`, in one transaction. -/
def write (store : List StoredTuple) : List TupleUpdate → Except PdpError (List StoredTuple)
  | [] => .ok store
  | u :: us =>
    match validateTuple u.tuple with
    | .error err => .error (.resolver err)
    | .ok () =>
      match applyToStore column store u with
      | none => .error .unavailable
      | some store' => write store' us

def granting (t : RelationTuple) (w : ValidityWindow) : TupleUpdate :=
  ⟨.write, t, some ⟨conditionValidWindow, w⟩⟩

def revoking (t : RelationTuple) : TupleUpdate := ⟨.delete, t, none⟩

/-- Whatever the store: what is decided outside the window once the tuple is written is decided
without the tuple as well, for the same reason. -/
def Confined (t : RelationTuple) (w : ValidityWindow) : Prop :=
  ∀ (store : TupleStore) (rows rows' : List StoredTuple),
    write column store.rows [granting t w] = .ok rows → write column rows [revoking t] = .ok rows' →
    ∀ req : CheckRequest, w.contains req.context.evaluatedAt = false →
      ∀ d, check column rows req = .ok d → check column rows' req = .ok d

end Writes

section Model

variable {object relation : String} {rw : Rewrite}

/-- The rewrites of the model, each with what its type defines beside it. -/
inductive Defined (object : String) : String → Rewrite → Prop
  | direct {relation : String} : relation ∈ [relParent, relOwner, relMember] →
    Defined object relation direct
  | inherited {relation : String} : relation ∈ [relOperator, relAuditor] →
    rewriteOf object relParent = some direct →
    Defined object relation (.union [Authz.direct, .ttu relParent relation])
  | session : refType object = ObjectType.asset.text →
    Defined object relCanOpenSession (.union [.computed relOperator, .computed relOwner])
  | grant : refType object = ObjectType.asset.text →
    Defined object relHasActiveGrant (directCond conditionValidWindow)
  | privileged : refType object = ObjectType.asset.text →
    Defined object relCanOpenPrivilegedSession
      (.intersection [.computed relCanOpenSession, .computed relHasActiveGrant])

theorem defined_of_rewriteOf (h : rewriteOf object relation = some rw) : Defined object relation rw := by
  unfold rewriteOf at h
  cases hbind : (objectType (refType object)).bind archGuardModel with
  | none =>
    rw [hbind] at h
    cases h
  | some rels =>
    rw [hbind] at h
    have hparent : rewriteOf object relParent = rels.lookup relParent := by
      unfold rewriteOf
      rw [hbind]
    obtain ⟨t, ht, hrels⟩ := Option.bind_eq_some_iff.mp hbind
    have hfound := List.find?_some ht
    have hname : t.text = refType object := of_decide_eq_true hfound
    obtain ⟨before, after, hsplit, -⟩ := List.lookup_eq_some_iff.mp h
    have hmem : (relation, rw) ∈ rels := hsplit ▸ List.mem_append_right _ List.mem_cons_self
    cases t with
    | asset =>
      cases hrels
      simp only [List.mem_cons, List.not_mem_nil, or_false, Prod.mk.injEq] at hmem
      rcases hmem with ⟨rfl, rfl⟩ | ⟨rfl, rfl⟩ | ⟨rfl, rfl⟩ | ⟨rfl, rfl⟩ | ⟨rfl, rfl⟩ | ⟨rfl, rfl⟩ |
        ⟨rfl, rfl⟩
      · exact .direct (by decide)
      · exact .direct (by decide)
      · exact .inherited (by decide) hparent
      · exact .inherited (by decide) hparent
      · exact .session hname.symm
      · exact .grant hname.symm
      · exact .privileged hname.symm
    | assetGroup =>
      cases hrels
      simp only [List.mem_cons, List.not_mem_nil, or_false, Prod.mk.injEq] at hmem
      rcases hmem with ⟨rfl, rfl⟩ | ⟨rfl, rfl⟩ | ⟨rfl, rfl⟩
      · exact .direct (by decide)
      · exact .inherited (by decide) hparent
      · exact .inherited (by decide) hparent
    | group =>
      cases hrels
      simp only [List.mem_cons, List.not_mem_nil, or_false, Prod.mk.injEq] at hmem
      obtain ⟨rfl, rfl⟩ := hmem
      exact .direct (by decide)
    | organization => cases hrels
    | membership => cases hrels
    | accessPolicy => cases hrels

mutual

/-- The relations through which a relation is inherited. -/
def Rewrite.tuplesets : Rewrite → List String
  | .this _ => []
  | .computed _ => []
  | .ttu tupleset _ => [tupleset]
  | .union children => tuplesetsOf children
  | .intersection children => tuplesetsOf children

def tuplesetsOf : List Rewrite → List String
  | [] => []
  | child :: children => child.tuplesets ++ tuplesetsOf children

end

theorem rewriteOf_tupleset {tupleset : String} (h : rewriteOf object relation = some rw)
    (ht : tupleset ∈ rw.tuplesets) : rewriteOf object tupleset = some direct := by
  cases defined_of_rewriteOf h with
  | inherited _ hparent =>
    rw [List.mem_singleton.mp ht]
    exact hparent
  | direct _ => cases ht
  | session _ => cases ht
  | grant _ => cases ht
  | privileged _ => cases ht

end Model

/-- A list, and what is left of it without some that are gone. -/
inductive Thinned {α : Type} (gone : α → Prop) : List α → List α → Prop
  | nil : Thinned gone [] []
  | keep (a : α) {l l' : List α} : Thinned gone l l' → Thinned gone (a :: l) (a :: l')
  | drop {a : α} {l l' : List α} : gone a → Thinned gone l l' → Thinned gone (a :: l) l'

section Removal

variable {g g' : GraphReader} {ctx : CheckContext} {user object relation : String}
  {resolve resolve' : (object relation : String) → Answer} {gone : String → GraphSubject → Prop}
  {a : Bool × String}

/-- Whatever is answered is answered there as well. -/
def Refines (resolve resolve' : (object relation : String) → Answer) : Prop :=
  ∀ object relation a, resolve object relation = .ok a → resolve' object relation = .ok a

/-- A subject that contributes nothing under a condition: it is closed, or its userset has nobody. -/
def Inert (ctx : CheckContext) (resolve : (object relation : String) → Answer) (condition : String)
    (sub : GraphSubject) : Prop :=
  evalCondition condition sub.window ctx = false ∨
    ∃ goal, splitUserset sub.ref = some goal ∧ ∀ why, resolve goal.1 goal.2 ≠ .ok (true, why)

theorem directAnswer_thinned {condition : String} {subs subs' : List GraphSubject}
    (h : Thinned (gone relation) subs subs')
    (hgone : ∀ sub, gone relation sub → Inert ctx resolve condition sub)
    (hresolve : Refines resolve resolve')
    (ha : directAnswer ctx user resolve relation condition subs = .ok a) :
    directAnswer ctx user resolve' relation condition subs' = .ok a := by
  induction h with
  | nil => exact ha
  | @keep sub subs subs' _ ih =>
    rw [directAnswer] at ha ⊢
    by_cases hclosed : (!evalCondition condition sub.window ctx) = true
    · rw [if_pos hclosed] at ha ⊢
      exact ih ha
    · rw [if_neg hclosed] at ha ⊢
      cases hsplit : splitUserset sub.ref with
      | none =>
        rw [hsplit] at ha
        by_cases huser : sub.ref = user
        · simp only [if_pos huser] at ha ⊢
          exact ha
        · simp only [if_neg huser] at ha ⊢
          exact ih ha
      | some goal =>
        obtain ⟨obj, rel⟩ := goal
        rw [hsplit] at ha
        dsimp only at ha ⊢
        cases hgoal : resolve obj rel with
        | error e =>
          rw [hgoal] at ha
          cases ha
        | ok b =>
          rw [hgoal] at ha
          rw [hresolve obj rel b hgoal]
          obtain ⟨_ | _, why⟩ := b
          · exact ih ha
          · exact ha
  | @drop sub subs subs' hsub _ ih =>
    apply ih
    rw [directAnswer] at ha
    by_cases hclosed : (!evalCondition condition sub.window ctx) = true
    · rwa [if_pos hclosed] at ha
    · rw [if_neg hclosed] at ha
      rcases hgone sub hsub with hclosed' | ⟨⟨obj, rel⟩, hsplit, hnobody⟩
      · exact absurd (by rw [hclosed']; rfl) hclosed
      · rw [hsplit] at ha
        dsimp only at ha
        cases hgoal : resolve obj rel with
        | error e =>
          rw [hgoal] at ha
          cases ha
        | ok b =>
          rw [hgoal] at ha
          obtain ⟨_ | _, why⟩ := b
          · exact ha
          · exact absurd hgoal (hnobody why)

theorem ttuAnswer_thinned {tupleset rel : String} {subs subs' : List GraphSubject}
    (h : Thinned (gone tupleset) subs subs')
    (hgone : ∀ sub, gone tupleset sub → splitUserset sub.ref ≠ none)
    (hresolve : Refines resolve resolve') (ha : ttuAnswer resolve tupleset rel subs = .ok a) :
    ttuAnswer resolve' tupleset rel subs' = .ok a := by
  induction h with
  | nil => exact ha
  | @keep sub subs subs' _ ih =>
    rw [ttuAnswer] at ha ⊢
    cases hsplit : splitUserset sub.ref with
    | some goal =>
      rw [hsplit] at ha
      exact ih ha
    | none =>
      rw [hsplit] at ha
      dsimp only at ha ⊢
      cases hgoal : resolve sub.ref rel with
      | error e =>
        rw [hgoal] at ha
        cases ha
      | ok b =>
        rw [hgoal] at ha
        rw [hresolve sub.ref rel b hgoal]
        obtain ⟨_ | _, why⟩ := b
        · exact ih ha
        · exact ha
  | @drop sub subs subs' hsub _ ih =>
    apply ih
    rw [ttuAnswer] at ha
    cases hsplit : splitUserset sub.ref with
    | some goal => rwa [hsplit] at ha
    | none => exact absurd hsplit (hgone sub hsub)

mutual

theorem applyRewrite_thinned (hg : ∀ r, Thinned (gone r) (g object r) (g' object r))
    (hresolve : Refines resolve resolve') : ∀ (rw : Rewrite) (a : Bool × String),
    (∀ c ∈ rw.conditions, ∀ sub, gone relation sub → Inert ctx resolve c sub) →
    (∀ s ∈ rw.tuplesets, ∀ sub, gone s sub → splitUserset sub.ref ≠ none) →
    applyRewrite g ctx user resolve object relation rw = .ok a →
      applyRewrite g' ctx user resolve' object relation rw = .ok a
  | .this c, _, hthis, _, ha =>
    directAnswer_thinned (hg relation) (hthis c (List.mem_singleton_self c)) hresolve ha
  | .computed rel, a, _, _, ha => by
    rw [applyRewrite] at ha ⊢
    cases hgoal : resolve object rel with
    | error e =>
      rw [hgoal] at ha
      cases ha
    | ok b =>
      rw [hgoal] at ha
      rw [hresolve object rel b hgoal]
      exact ha
  | .ttu tupleset _, _, _, httu, ha =>
    ttuAnswer_thinned (hg tupleset) (httu tupleset (List.mem_singleton_self tupleset)) hresolve ha
  | .union rws, a, hthis, httu, ha => applyUnion_thinned hg hresolve rws a hthis httu ha
  | .intersection rws, a, hthis, httu, ha => applyIntersection_thinned hg hresolve rws [] a hthis httu ha

theorem applyUnion_thinned (hg : ∀ r, Thinned (gone r) (g object r) (g' object r))
    (hresolve : Refines resolve resolve') : ∀ (rws : List Rewrite) (a : Bool × String),
    (∀ c ∈ conditionsOf rws, ∀ sub, gone relation sub → Inert ctx resolve c sub) →
    (∀ s ∈ tuplesetsOf rws, ∀ sub, gone s sub → splitUserset sub.ref ≠ none) →
    applyUnion g ctx user resolve object relation rws = .ok a →
      applyUnion g' ctx user resolve' object relation rws = .ok a
  | [], _, _, _, ha => ha
  | rw :: rws, a, hthis, httu, ha => by
    have hhead := fun b => applyRewrite_thinned hg hresolve rw b
      (fun c hc => hthis c (List.mem_append_left _ hc))
      fun s hs => httu s (List.mem_append_left _ hs)
    have hrest := applyUnion_thinned hg hresolve rws a
      (fun c hc => hthis c (List.mem_append_right _ hc))
      fun s hs => httu s (List.mem_append_right _ hs)
    rw [applyUnion] at ha ⊢
    cases hchild : applyRewrite g ctx user resolve object relation rw with
    | error e =>
      rw [hchild] at ha
      cases ha
    | ok b =>
      rw [hchild] at ha
      rw [hhead b hchild]
      obtain ⟨_ | _, why⟩ := b
      · exact hrest ha
      · exact ha

theorem applyIntersection_thinned (hg : ∀ r, Thinned (gone r) (g object r) (g' object r))
    (hresolve : Refines resolve resolve') :
    ∀ (rws : List Rewrite) (reasons : List String) (a : Bool × String),
    (∀ c ∈ conditionsOf rws, ∀ sub, gone relation sub → Inert ctx resolve c sub) →
    (∀ s ∈ tuplesetsOf rws, ∀ sub, gone s sub → splitUserset sub.ref ≠ none) →
    applyIntersection g ctx user resolve object relation rws reasons = .ok a →
      applyIntersection g' ctx user resolve' object relation rws reasons = .ok a
  | [], _, _, _, _, ha => ha
  | rw :: rws, reasons, a, hthis, httu, ha => by
    have hhead := fun b => applyRewrite_thinned hg hresolve rw b
      (fun c hc => hthis c (List.mem_append_left _ hc))
      fun s hs => httu s (List.mem_append_left _ hs)
    have hrest := fun reasons' => applyIntersection_thinned hg hresolve rws reasons' a
      (fun c hc => hthis c (List.mem_append_right _ hc))
      fun s hs => httu s (List.mem_append_right _ hs)
    rw [applyIntersection] at ha ⊢
    cases hchild : applyRewrite g ctx user resolve object relation rw with
    | error e =>
      rw [hchild] at ha
      cases ha
    | ok b =>
      rw [hchild] at ha
      rw [hhead b hchild]
      obtain ⟨_ | _, why⟩ := b
      · exact ha
      · exact hrest _ ha

end

/-- Subjects that are gone contribute nothing wherever their relation is read. -/
structure Removable (ctx : CheckContext) (user : String) (g : GraphReader)
    (gone : (object relation : String) → GraphSubject → Prop) : Prop where
  inert : ∀ object relation rw, rewriteOf object relation = some rw → ∀ c ∈ rw.conditions,
    ∀ sub, gone object relation sub → ∀ fuel visiting,
      Inert ctx (Authz.resolve g ctx user fuel (visitKey object relation :: visiting)) c sub
  inherited : ∀ object relation, rewriteOf object relation = some direct →
    ∀ sub, gone object relation sub → splitUserset sub.ref ≠ none

theorem resolve_thinned {gone : (object relation : String) → GraphSubject → Prop}
    (hgone : Removable ctx user g gone)
    (hg : ∀ o r, Thinned (gone o r) (g o r) (g' o r)) (fuel : ℕ) (visiting : List String) :
    Refines (Authz.resolve g ctx user fuel visiting) (Authz.resolve g' ctx user fuel visiting) := by
  induction fuel generalizing visiting with
  | zero =>
    intro object relation a ha
    cases ha
  | succ fuel ih =>
    intro object relation a ha
    rw [Authz.resolve] at ha ⊢
    by_cases hvisited : visitKey object relation ∈ visiting
    · rw [if_pos hvisited] at ha ⊢
      exact ha
    · rw [if_neg hvisited] at ha ⊢
      cases hrw : rewriteOf object relation with
      | none =>
        rw [hrw] at ha
        exact ha
      | some rw =>
        rw [hrw] at ha
        refine applyRewrite_thinned (hg object) (ih _) rw a ?_ ?_ ha
        · exact fun c hc sub hsub => hgone.inert object relation rw hrw c hc sub hsub fuel visiting
        · exact fun s hs sub hsub => hgone.inherited object s (rewriteOf_tupleset hrw hs) sub hsub

theorem evaluate_thinned {gone : (object relation : String) → GraphSubject → Prop}
    (hgone : Removable ctx user g gone)
    (hg : ∀ o r, Thinned (gone o r) (g o r) (g' o r)) {d : Decision}
    (h : evaluate g object relation user ctx = .ok d) :
    evaluate g' object relation user ctx = .ok d := by
  rw [evaluate] at h ⊢
  cases ha : Authz.resolve g ctx user maxResolveDepth [] object relation with
  | error e =>
    rw [ha] at h
    cases h
  | ok a =>
    rw [ha] at h
    rw [resolve_thinned hgone hg maxResolveDepth [] object relation a ha]
    exact h

end Removal

section Sufficient

variable {t : RelationTuple} {w : ValidityWindow} {ctx : CheckContext} {user : String} {g : GraphReader}

/-- A window as the columns keep it. -/
def ValidityWindow.stored (w : ValidityWindow) : ValidityWindow :=
  ⟨w.notBefore.stored, w.expiresAt.stored⟩

/-- The tuple's own subject, under its object and relation. -/
def OfTuple (t : RelationTuple) (w : ValidityWindow) (object relation : String)
    (sub : GraphSubject) : Prop :=
  object = t.object ∧ relation = t.relation ∧ sub = ⟨t.user, some w.stored⟩

/-- The model looks at the window wherever it reads the tuple, and the columns do not open the
window before its beginning. -/
def Honoured (t : RelationTuple) (w : ValidityWindow) : Prop :=
  ∀ rw, rewriteOf t.object t.relation = some rw → ∀ c ∈ rw.conditions, c = conditionValidWindow ∧
    (w.notBefore.stored = w.notBefore ∨ w.expiresAt.stored ≤ w.notBefore.stored)

/-- The subject is a userset that has nobody, or nobody who does not have the relation without it. -/
def Idle (t : RelationTuple) : Prop :=
  ∃ object relation, splitUserset t.user = some (object, relation) ∧
    (rewriteOf object relation = none ∨ (object = t.object ∧ (relation = t.relation ∨
      (relation = relCanOpenPrivilegedSession ∧ t.relation = relHasActiveGrant))))

/-- Where the columns keep the beginning, or nothing of the window, they open it within it only. -/
theorem stored_closed {at' : Time} (hw : w.contains at' = false)
    (hkept : w.notBefore.stored = w.notBefore ∨ w.expiresAt.stored ≤ w.notBefore.stored) :
    w.stored.contains at' = false := by
  by_contra hopen
  obtain ⟨hbegun, hends⟩ := contains_iff.mp (Bool.eq_true_of_not_eq_false hopen)
  have hends : at' < w.expiresAt.stored := hends
  rcases hkept with hkept | hkept
  · have hwithin : w.contains at' = true :=
      contains_iff.mpr ⟨hkept ▸ hbegun, hends.trans_le w.expiresAt.stored_le⟩
    exact absurd (hw.symm.trans hwithin) (by decide)
  · exact absurd (hends.trans_le hkept) (not_lt.mpr hbegun)

theorem removable_of_honoured (h : Honoured t w) (hw : w.contains ctx.evaluatedAt = false) :
    Removable ctx user g (OfTuple t w) where
  inert := by
    rintro _ _ rw hrw c hc _ ⟨rfl, rfl, rfl⟩ fuel visiting
    obtain ⟨rfl, hkept⟩ := h rw hrw c hc
    exact Or.inl (stored_closed hw hkept)
  inherited := by
    rintro _ _ hrw _ ⟨rfl, rfl, rfl⟩
    have hwindow := (h direct hrw "" (List.mem_singleton_self "")).1
    exact absurd hwindow (by decide)

section Visited

variable {object relation : String} {visiting : List String}

theorem resolve_visited (hmem : visitKey object relation ∈ visiting) (fuel : ℕ) (why : String) :
    resolve g ctx user fuel visiting object relation ≠ .ok (true, why) := by
  intro h
  cases fuel with
  | zero => cases h
  | succ fuel =>
    rw [resolve, if_pos hmem] at h
    cases h

theorem resolve_undefined (hnone : rewriteOf object relation = none) (fuel : ℕ) (why : String) :
    resolve g ctx user fuel visiting object relation ≠ .ok (true, why) := by
  intro h
  cases fuel with
  | zero => cases h
  | succ fuel =>
    rw [resolve, hnone] at h
    split_ifs at h
    · cases h
    · cases h

theorem resolve_privileged (hasset : refType object = ObjectType.asset.text)
    (hmem : visitKey object relHasActiveGrant ∈ visiting) (fuel : ℕ) (why : String) :
    resolve g ctx user fuel visiting object relCanOpenPrivilegedSession ≠ .ok (true, why) := by
  intro h
  cases fuel with
  | zero => cases h
  | succ fuel =>
    rw [resolve, (rewriteOf_asset hasset).2.2.2.2] at h
    split_ifs at h
    · cases h
    · have hholds := applyRewrite_sound (P := fun goal => ∃ why, resolve g ctx user fuel
        (visitKey object relCanOpenPrivilegedSession :: visiting) goal.1 goal.2 = .ok (true, why))
        (fun obj rel why' hgoal => ⟨why', hgoal⟩) h
      obtain ⟨-, ⟨why', hgrant⟩, -⟩ := hholds
      exact resolve_visited (List.mem_cons_of_mem _ hmem) fuel why' hgrant

end Visited

theorem removable_of_idle (h : Idle t) : Removable ctx user g (OfTuple t w) where
  inert := by
    rintro _ _ rw hrw c hc _ ⟨rfl, rfl, rfl⟩ fuel visiting
    obtain ⟨object, relation, hsplit, hidle⟩ := h
    refine Or.inr ⟨(object, relation), hsplit, fun why => ?_⟩
    rcases hidle with hnone | ⟨rfl, rfl | ⟨rfl, hgrant⟩⟩
    · exact resolve_undefined hnone fuel why
    · exact resolve_visited List.mem_cons_self fuel why
    · rw [hgrant] at hrw ⊢
      have hasset : refType t.object = ObjectType.asset.text := by
        generalize hname : relHasActiveGrant = r at hrw
        cases defined_of_rewriteOf hrw with
        | direct hmem => exact absurd (hname ▸ hmem) (by decide)
        | inherited hmem _ => exact absurd (hname ▸ hmem) (by decide)
        | session hasset => exact hasset
        | grant hasset => exact hasset
        | privileged hasset => exact hasset
      exact resolve_privileged hasset List.mem_cons_self fuel why
  inherited := by
    rintro _ _ - _ ⟨rfl, rfl, rfl⟩ hnone
    obtain ⟨object, relation, hsplit, -⟩ := h
    rw [hnone] at hsplit
    cases hsplit

theorem thinned_graphOf (hnul : '\x00' ∉ t.object.toList ∧ '\x00' ∉ t.relation.toList)
    {rows : List StoredTuple} (hrows : ∀ x ∈ rows, x.tuple = t → x.window = some w.stored)
    (object relation : String) : Thinned (OfTuple t w object relation)
      (graphOf rows object relation) (graphOf (rows.filter fun x => x.tuple ≠ t) object relation) := by
  induction rows with
  | nil => exact .nil
  | cons x rows ih =>
    obtain ⟨hx, hrows⟩ := List.forall_mem_cons.mp hrows
    have hcons (rows : List StoredTuple) : graphOf (x :: rows) object relation =
        if memKey x.tuple.object x.tuple.relation = memKey object relation then
          ⟨x.tuple.user, x.window⟩ :: graphOf rows object relation else graphOf rows object relation := by
      simp only [graphOf, memoryGraph, List.map_cons, List.filter_cons, decide_eq_true_eq]
      split_ifs <;> rfl
    rw [hcons rows]
    by_cases ht : x.tuple = t
    · rw [List.filter_cons_of_neg (by simp [ht])]
      by_cases hkey : memKey x.tuple.object x.tuple.relation = memKey object relation
      · rw [if_pos hkey]
        obtain ⟨rfl, rfl⟩ := (memKey_eq_iff hnul.1 hnul.2).mp (ht ▸ hkey.symm)
        rw [hx ht, ht]
        exact .drop ⟨rfl, rfl, rfl⟩ (ih hrows)
      · rw [if_neg hkey]
        exact ih hrows
    · rw [List.filter_cons_of_pos (by simp [ht]), hcons]
      by_cases hkey : memKey x.tuple.object x.tuple.relation = memKey object relation
      · rw [if_pos hkey, if_pos hkey]
        exact .keep _ (ih hrows)
      · rw [if_neg hkey, if_neg hkey]
        exact ih hrows

section Writing

variable {column : String → Option Uuid} {store rows rows' : List StoredTuple}

theorem write_singleton {u : TupleUpdate} (hu : validateTuple u.tuple = .ok ()) :
    write column store [u] = .ok rows ↔ applyToStore column store u = some rows := by
  simp only [write, hu]
  cases applyToStore column store u with
  | none => simp
  | some store' => simp

theorem window_of_write (ht : validateTuple t = .ok ())
    (h : write column store [granting t w] = .ok rows) :
    ∀ x ∈ rows, x.tuple = t → x.window = some w.stored := by
  have happly := (write_singleton (u := granting t w) ht).mp h
  rw [applyToStore, publishUpdate, granting] at happly
  dsimp only at happly
  intro x hx hxt
  cases horg : (refOrg t.object).bind column with
  | none =>
    rw [horg] at happly
    cases happly
  | some org =>
    rw [horg] at happly
    dsimp only at happly
    by_cases hany : (store.any fun x => x.tuple = t) = true
    · rw [if_pos hany] at happly
      obtain rfl := Option.some.inj happly
      obtain ⟨y, -, rfl⟩ := List.mem_map.mp hx
      by_cases hy : y.tuple = t
      · rw [if_pos hy]
        rfl
      · rw [if_neg hy] at hxt
        exact absurd hxt hy
    · rw [if_neg hany] at happly
      obtain rfl := Option.some.inj happly
      rcases List.mem_append.mp hx with hx | hx
      · exact absurd (List.any_eq_true.mpr ⟨x, hx, decide_eq_true hxt⟩) hany
      · rw [List.mem_singleton.mp hx]
        rfl

theorem revoked_eq (ht : validateTuple t = .ok ()) (h : write column rows [revoking t] = .ok rows') :
    rows' = rows.filter fun x => x.tuple ≠ t :=
  (Option.some.inj ((write_singleton (u := revoking t) ht).mp h)).symm

end Writing

theorem confined_of_removable {column : String → Option Uuid} (ht : validateTuple t = .ok ())
    (hnul : t.NulFree) (hgone : ∀ ctx user g, w.contains ctx.evaluatedAt = false →
      Removable ctx user g (OfTuple t w)) : Confined column t w := by
  intro store rows rows' hwrite hrevoke req houtside d hd
  have hwindow := window_of_write ht hwrite
  obtain rfl := revoked_eq ht hrevoke
  unfold check at hd ⊢
  by_cases hvalid : (!req.tuple.valid) = true
  · rw [if_pos hvalid] at hd ⊢
    exact hd
  · rw [if_neg hvalid] at hd ⊢
    cases hguard : guardSameTenant req.tuple.user req.tuple.object with
    | error err =>
      rw [hguard] at hd
      exact hd
    | ok =>
      rw [hguard] at hd
      dsimp only at hd ⊢
      unfold tenantRows at hd ⊢
      cases hcolumn : column ((refOrg req.tuple.object).getD "") with
      | none =>
        rw [hcolumn] at hd
        cases hd
      | some id =>
        rw [hcolumn] at hd
        obtain ⟨kept, hkept, hd⟩ := bind_eq_ok.mp hd
        obtain rfl := Except.ok.inj hkept
        refine bind_eq_ok.mpr ⟨_, rfl, mapError_eq_ok.mpr ?_⟩
        rw [List.filter_comm]
        refine evaluate_thinned (hgone req.context _ _ houtside) ?_ (mapError_eq_ok.mp hd)
        exact thinned_graphOf ⟨hnul.2.2, hnul.2.1⟩ fun x hx => hwindow x (List.mem_of_mem_filter hx)

end Sufficient

section Necessary

variable {t : RelationTuple} {w : ValidityWindow} {g : GraphReader} {ctx : CheckContext}
  {user object relation condition : String} {rw : Rewrite} {at' : Time}

theorem direct_of_conditions (h : rewriteOf object relation = some rw) (hc : condition ∈ rw.conditions) :
    rw = .this condition ∨ rw = .union [.this condition, .ttu relParent relation] := by
  cases defined_of_rewriteOf h with
  | direct _ =>
    rw [List.mem_singleton.mp hc]
    exact Or.inl rfl
  | inherited _ _ =>
    rw [List.mem_singleton.mp hc]
    exact Or.inr rfl
  | grant _ =>
    rw [List.mem_singleton.mp hc]
    exact Or.inl rfl
  | session _ => cases hc
  | privileged _ => cases hc

theorem mem_storedRelations (h : rewriteOf object relation = some rw) (hc : condition ∈ rw.conditions) :
    relation ∈ storedRelations := by
  cases defined_of_rewriteOf h with
  | direct hmem => exact List.Subset.trans (by decide) (List.Subset.refl storedRelations) hmem
  | inherited hmem _ => exact List.Subset.trans (by decide) (List.Subset.refl storedRelations) hmem
  | grant _ => decide
  | session _ => cases hc
  | privileged _ => cases hc

theorem exists_open (h : ¬ Honoured t w) : ∃ rw c at', rewriteOf t.object t.relation = some rw ∧
    c ∈ rw.conditions ∧ w.contains at' = false ∧ evalCondition c (some w.stored) ⟨at'⟩ = true := by
  rw [Honoured] at h
  push Not at h
  obtain ⟨rw, hrw, c, hc, hopen⟩ := h
  have hends : w.contains w.expiresAt = false := by
    rw [← Bool.not_eq_true, contains_iff]
    exact fun hwithin => lt_irrefl _ hwithin.2
  rcases conditions_of_rewriteOf hrw hc with rfl | ⟨rfl, -, -⟩
  · exact ⟨rw, "", w.expiresAt, hrw, hc, hends, rfl⟩
  · obtain ⟨hbegins, hstored⟩ := hopen rfl
    refine ⟨rw, conditionValidWindow, w.notBefore.stored, hrw, hc, ?_, ?_⟩
    · rw [← Bool.not_eq_true, contains_iff]
      intro hwithin
      exact hbegins (le_antisymm w.notBefore.stored_le hwithin.1)
    · exact contains_iff.mpr ⟨le_rfl, hstored⟩

theorem resolve_direct {n : ℕ} {visiting : List String} {why : String}
    (hrw : rewriteOf object relation = some rw) (hc : condition ∈ rw.conditions)
    (hkey : visitKey object relation ∉ visiting)
    (h : directAnswer ctx user (resolve g ctx user n (visitKey object relation :: visiting)) relation
      condition (g object relation) = .ok (true, why)) :
    resolve g ctx user (n+1) visiting object relation = .ok (true, why) := by
  rw [resolve, if_neg hkey, hrw]
  rcases direct_of_conditions hrw hc with rfl | rfl
  · exact h
  · show applyUnion g ctx user _ object relation _ = _
    rw [applyUnion, applyRewrite, h]

/-- The row of the tuple, once it is written. -/
def grantedRow (t : RelationTuple) (w : ValidityWindow) (id : Uuid) : StoredTuple :=
  ⟨t, id, some ⟨conditionValidWindow, w.stored⟩⟩

theorem not_confined {column : String → Option Uuid} {store : TupleStore} {org : String} {id : Uuid}
    {why : String} (ht : validateTuple t = .ok ()) (horg : refOrg t.object = some org)
    (hcolumn : column org = some id) (hid : ∀ x ∈ store.rows, x.row.organizationId = id)
    (hnew : ∀ x ∈ store.rows, x.tuple ≠ t) (huser : refOrg user = some org)
    (houtside : w.contains at' = false)
    (hgranted : evaluate (graphOf (store.rows ++ [grantedRow t w id]))
      t.object t.relation user ⟨at'⟩ = .ok ⟨true, why⟩)
    (hnot : ¬ Related (graphOf store.rows) ⟨at'⟩ user t.object t.relation) : ¬ Confined column t w := by
  intro hconfined
  have hwritten : write column store.rows [granting t w] =
      .ok (store.rows ++ [grantedRow t w id]) := by
    apply (write_singleton (u := granting t w) ht).mpr
    have hany : ¬ (store.rows.any fun x => x.tuple = t) = true := by
      intro hany
      obtain ⟨x, hx, hxt⟩ := List.any_eq_true.mp hany
      exact hnew x hx (of_decide_eq_true hxt)
    rw [applyToStore, publishUpdate, granting]
    dsimp only
    rw [horg, Option.bind_some, hcolumn]
    exact if_neg hany
  have hrevoked : write column (store.rows ++ [grantedRow t w id])
      [revoking t] = .ok store.rows := by
    apply (write_singleton (u := revoking t) ht).mpr
    have hkept : store.rows.filter (fun x => x.tuple ≠ t) = store.rows :=
      List.filter_eq_self.mpr fun x hx => decide_eq_true (hnew x hx)
    have hgone : [grantedRow t w id].filter (fun x => x.tuple ≠ t) = [] := by simp [grantedRow]
    show some (List.filter (fun x => decide (x.tuple ≠ t)) _) = some store.rows
    rw [List.filter_append, hkept, hgone, List.append_nil]
  have hrelation : t.relation ≠ "" := by
    intro hempty
    rw [validateTuple, RelationTuple.valid, hempty] at ht
    simp at ht
  have hcheck (rows : List StoredTuple) (hrows : ∀ x ∈ rows, x.row.organizationId = id) :
      check column rows ⟨⟨user, t.relation, t.object⟩, ⟨at'⟩⟩ =
        (evaluate (graphOf rows) t.object t.relation user ⟨at'⟩).mapError .resolver := by
    have hall : rows.filter (fun x => x.row.organizationId = id) = rows :=
      List.filter_eq_self.mpr fun x hx => decide_eq_true (hrows x hx)
    rw [check_of_column (t := ⟨user, t.relation, t.object⟩) hrelation huser horg hcolumn, hall]
  have hids : ∀ x ∈ store.rows ++ [grantedRow t w id], x.row.organizationId = id := by
    intro x hx
    rcases List.mem_append.mp hx with hx | hx
    · exact hid x hx
    · rw [List.mem_singleton.mp hx]
      rfl
  have hdecided : check column (store.rows ++ [grantedRow t w id])
      ⟨⟨user, t.relation, t.object⟩, ⟨at'⟩⟩ = .ok ⟨true, why⟩ := by
    rw [hcheck _ hids, hgranted]
    rfl
  have hwithout := hconfined store _ _ hwritten hrevoked _ houtside _ hdecided
  rw [hcheck store.rows hid] at hwithout
  exact hnot ((evaluate_ok_iff (mapError_eq_ok.mp hwithout)).mp rfl)

theorem graphOf_tuple {rows : List StoredTuple} {id : Uuid}
    (hrows : ∀ sub, sub ∉ graphOf rows t.object t.relation) :
    graphOf (rows ++ [grantedRow t w id]) t.object t.relation = [⟨t.user, some w.stored⟩] := by
  have happend : graphOf (rows ++ [grantedRow t w id]) t.object t.relation =
      graphOf rows t.object t.relation ++ graphOf [grantedRow t w id] t.object t.relation := by
    simp only [graphOf, memoryGraph, List.map_append, List.filter_append]
  rw [happend, List.eq_nil_iff_forall_not_mem.mpr hrows, List.nil_append]
  simp [graphOf, memoryGraph, StoredTuple.window, grantedRow]

theorem not_confined_of_concrete {column : String → Option Uuid} {org : String} {id : Uuid}
    (ht : validateTuple t = .ok ()) (horg : refOrg t.object = some org) (huser : refOrg t.user = some org)
    (hcolumn : column org = some id) (hsplit : splitUserset t.user = none)
    (h : ¬ Honoured t w) : ¬ Confined column t w := by
  obtain ⟨rw, c, at', hrw, hc, houtside, hopen⟩ := exists_open h
  have hrows : ∀ sub, sub ∉ graphOf [] t.object t.relation := fun sub => List.not_mem_nil
  have hgranted : resolve (graphOf ([] ++ [grantedRow t w id])) ⟨at'⟩ t.user
      maxResolveDepth [] t.object t.relation = .ok (true, t.relation ++ " direto") := by
    apply resolve_direct hrw hc List.not_mem_nil
    rw [graphOf_tuple hrows, directAnswer]
    simp [hopen, hsplit]
  have hempty : ¬ Related (graphOf []) ⟨at'⟩ t.user t.object t.relation := by
    intro hrelated
    obtain ⟨r, sub, hsub⟩ := object_of_related hrelated
    exact absurd hsub List.not_mem_nil
  let store : TupleStore := ⟨[], List.forall_mem_nil _, List.forall_mem_nil _⟩
  have hid : ∀ x ∈ store.rows, x.row.organizationId = id := List.forall_mem_nil _
  have hnew : ∀ x ∈ store.rows, x.tuple ≠ t := List.forall_mem_nil _
  exact not_confined ht horg hcolumn hid hnew huser houtside (evaluate_of_resolve hgranted) hempty

section Supporters

/-- One user has every relation of direct tuples on the userset's object, but that of the tuple
itself; the windows are open at an instant. -/
def supporters (t : RelationTuple) (id : Uuid) (at' : Time) (user object : String) : List StoredTuple :=
  (storedRelations.filter fun r => (object, r) ≠ (t.object, t.relation)).map fun r =>
    ⟨⟨user, r, object⟩, id, some ⟨conditionValidWindow, ⟨at'.stored, at'.stored+1000⟩⟩⟩

/-- And the tuple with them. -/
def supported (t : RelationTuple) (w : ValidityWindow) (id : Uuid) (at' : Time)
    (user object : String) : List StoredTuple :=
  supporters t id at' user object ++ [grantedRow t w id]

variable {id : Uuid} {r : String} {sub : GraphSubject}

theorem mem_supporters {x : StoredTuple} (hx : x ∈ supporters t id at' user object) :
    ∃ r ∈ storedRelations, (object, r) ≠ (t.object, t.relation) ∧
      x = ⟨⟨user, r, object⟩, id, some ⟨conditionValidWindow, ⟨at'.stored, at'.stored+1000⟩⟩⟩ := by
  obtain ⟨r, hr, rfl⟩ := List.mem_map.mp hx
  obtain ⟨hr, hne⟩ := List.mem_filter.mp hr
  exact ⟨r, hr, of_decide_eq_true hne, rfl⟩

theorem mem_graphOf_supporters (hnul : '\x00' ∉ object.toList) {o : String}
    (hsub : sub ∈ graphOf (supporters t id at' user object) o r) :
    o = object ∧ (o, r) ≠ (t.object, t.relation) ∧ sub.ref = user := by
  obtain ⟨x, hx, hkey, rfl⟩ := mem_graphOf.mp hsub
  obtain ⟨r', hr', hne, rfl⟩ := mem_supporters hx
  obtain ⟨rfl, rfl⟩ := (memKey_eq_iff hnul (storedRelations_plain hr').1).mp hkey.symm
  exact ⟨rfl, hne, rfl⟩

theorem not_related_supporters {u : String} (hnul : '\x00' ∉ object.toList)
    (hrw : rewriteOf t.object t.relation = some rw) (hc : condition ∈ rw.conditions) :
    ¬ Related (graphOf (supporters t id at' user object)) ctx u t.object t.relation := by
  intro hrelated
  have hgoal := Related.induction
    (P := fun goal => goal.1 = object ∧ goal ≠ (t.object, t.relation)) ?_ hrelated
  · exact hgoal.2 rfl
  · intro o r rw' hrw' hholds
    have ho : o = object := by
      refine Holds.elim ⟨?_, ?_, ?_⟩ (rewriteOf_grounded hrw') hholds
      · exact fun _ sub hsub _ _ => (mem_graphOf_supporters hnul hsub).1
      · exact fun _ hP => hP.1
      · exact fun _ _ sub hsub _ _ => (mem_graphOf_supporters hnul hsub).1
    refine ⟨ho, fun hkey => ?_⟩
    obtain ⟨rfl, rfl⟩ := Prod.mk.inj hkey
    obtain rfl := Option.some.inj (hrw.symm.trans hrw')
    have hdirect : ¬ Holds (graphOf (supporters t id at' user object)) ctx u
        (fun goal => goal.1 = object ∧ goal ≠ (t.object, t.relation)) t.object t.relation
        (.this condition) := by
      rintro ⟨sub, hsub, -, -⟩
      exact (mem_graphOf_supporters hnul hsub).2.1 rfl
    rcases direct_of_conditions hrw hc with rfl | rfl
    · exact hdirect hholds
    · rcases hholds with hholds | ⟨sub, hsub, -, hP⟩ | hholds
      · exact hdirect hholds
      · -- the parent would be the object itself
        exact hP.2 (Prod.ext (hP.1.trans ho.symm) rfl)
      · exact hholds

section Granted

variable (hnul : t.NulFree) (hobject : '\x00' ∉ object.toList) (huser : splitUserset user = none)
include hnul hobject huser

theorem subjects_supported (hne : (object, r) ≠ (t.object, t.relation)) (hr : r ∈ storedRelations) :
    (∀ sub ∈ graphOf (supported t w id at' user object) object r, splitUserset sub.ref = none) ∧
      ⟨user, some ⟨at'.stored, at'.stored+1000⟩⟩ ∈ graphOf (supported t w id at' user object) object r := by
  constructor
  · intro sub hsub
    obtain ⟨x, hx, hkey, rfl⟩ := mem_graphOf.mp hsub
    rcases List.mem_append.mp hx with hx | hx
    · obtain ⟨-, -, hsub⟩ := mem_graphOf_supporters hobject (mem_graphOf.mpr ⟨x, hx, hkey, rfl⟩)
      rw [hsub]
      exact huser
    · rw [List.mem_singleton.mp hx] at hkey
      obtain ⟨ho, hr⟩ := (memKey_eq_iff hnul.2.2 hnul.2.1).mp hkey.symm
      exact absurd (Prod.ext ho hr) hne
  · have hrow : (⟨⟨user, r, object⟩, id,
        some ⟨conditionValidWindow, ⟨at'.stored, at'.stored+1000⟩⟩⟩ : StoredTuple) ∈
          supporters t id at' user object :=
      List.mem_map.mpr ⟨r, List.mem_filter.mpr ⟨hr, decide_eq_true hne⟩, rfl⟩
    exact mem_graphOf.mpr ⟨_, List.mem_append_left _ hrow, rfl, rfl⟩

theorem resolve_supported (hrw : rewriteOf object r = some rw) (hc : condition ∈ rw.conditions)
    (hne : (object, r) ≠ (t.object, t.relation)) (n : ℕ) {visiting : List String}
    (hkey : visitKey object r ∉ visiting) :
    ∃ why, resolve (graphOf (supported t w id at' user object)) ⟨at'⟩ user (n+1) visiting object r =
      .ok (true, why) := by
  have hr := mem_storedRelations hrw hc
  obtain ⟨hconcrete, hmem⟩ :
      (∀ sub ∈ graphOf (supported t w id at' user object) object r, splitUserset sub.ref = none) ∧
        ⟨user, some ⟨at'.stored, at'.stored+1000⟩⟩ ∈
          graphOf (supported t w id at' user object) object r :=
    subjects_supported hnul hobject huser hne hr
  obtain ⟨why, hanswer⟩ := directAnswer_members ⟨at'⟩ user r condition
    (resolve (graphOf (supported t w id at' user object)) ⟨at'⟩ user n
      (visitKey object r :: visiting)) hconcrete
  have hwindow : ValidityWindow.contains ⟨at'.stored, at'.stored+1000⟩ at' = true := by
    refine contains_iff.mpr ⟨at'.stored_le, ?_⟩
    show at' < at'/1000*1000 + 1000
    lia
  have hopen : evalCondition condition (some ⟨at'.stored, at'.stored+1000⟩) ⟨at'⟩ = true := by
    rcases conditions_of_rewriteOf hrw hc with rfl | ⟨rfl, -, -⟩
    · rfl
    · exact hwindow
  have hany : (graphOf (supported t w id at' user object) object r).any (fun sub =>
        evalCondition condition sub.window ⟨at'⟩ && decide (sub.ref = user)) = true :=
    List.any_eq_true.mpr ⟨_, hmem, by simp [hopen]⟩
  rw [hany] at hanswer
  exact ⟨why, resolve_direct hrw hc hkey hanswer⟩

theorem resolve_session (hasset : refType object = ObjectType.asset.text)
    (hne : (object, relCanOpenSession) ≠ (t.object, t.relation)) (n : ℕ) {visiting : List String}
    (htuple : visitKey t.object t.relation ∈ visiting)
    (hkeys : ∀ r rw, rewriteOf object r = some rw → r ≠ relCanOpenPrivilegedSession →
      (object, r) ≠ (t.object, t.relation) → visitKey object r ∉ visiting) :
    ∃ why, resolve (graphOf (supported t w id at' user object)) ⟨at'⟩ user (n+2) visiting object
      relCanOpenSession = .ok (true, why) := by
  obtain ⟨hoperator, howner, hsession, -, -⟩ := rewriteOf_asset hasset
  have hfresh : ∀ r rw, rewriteOf object r = some rw → r ≠ relCanOpenSession →
      r ≠ relCanOpenPrivilegedSession → (object, r) ≠ (t.object, t.relation) →
        visitKey object r ∉ visitKey object relCanOpenSession :: visiting := by
    intro r rw hrw hr hr' hne hmem
    rcases List.mem_cons.mp hmem with hkey | hmem
    · exact visitKey_ne hrw hsession (fun h => hr (Prod.mk.inj h).2) hkey
    · exact hkeys r rw hrw hr' hne hmem
  rw [resolve, if_neg (hkeys relCanOpenSession _ hsession (by decide) hne), hsession]
  show ∃ why, applyUnion _ _ _ _ object _ _ = _
  rw [applyUnion, applyRewrite]
  by_cases hkey : (object, relOperator) = (t.object, t.relation)
  · have hvisited : resolve (graphOf (supported t w id at' user object)) ⟨at'⟩ user (n+1)
        (visitKey object relCanOpenSession :: visiting) object relOperator = .ok (false, "") := by
      obtain ⟨ho, hr⟩ := Prod.mk.inj hkey
      rw [← ho, ← hr] at htuple
      rw [resolve, if_pos (List.mem_cons_of_mem _ htuple)]
    have hother : (object, relOwner) ≠ (t.object, t.relation) := by
      intro h
      exact absurd (Prod.mk.inj (hkey.trans h.symm)).2 (by decide)
    obtain ⟨why, hgranted⟩ := resolve_supported hnul hobject huser howner (List.mem_singleton_self "")
      hother n (hfresh relOwner _ howner (by decide) (by decide) hother)
    rw [hvisited, applyUnion, applyRewrite, hgranted]
    exact ⟨_, rfl⟩
  · obtain ⟨why, hgranted⟩ := resolve_supported hnul hobject huser hoperator
      (List.mem_singleton_self "") hkey n (hfresh relOperator _ hoperator (by decide) (by decide) hkey)
    rw [hgranted]
    exact ⟨_, rfl⟩

theorem resolve_userset {rw' : Rewrite} (ht : rewriteOf t.object t.relation = some rw')
    (hc : condition ∈ rw'.conditions) (hrw : rewriteOf object r = some rw)
    (hne : (object, r) ≠ (t.object, t.relation))
    (hgrant : ¬ (object = t.object ∧ r = relCanOpenPrivilegedSession ∧
      t.relation = relHasActiveGrant)) (n : ℕ) :
    ∃ why, resolve (graphOf (supported t w id at' user object)) ⟨at'⟩ user (n+3)
      [visitKey t.object t.relation] object r = .ok (true, why) := by
  have hfresh : ∀ r rw, rewriteOf object r = some rw → (object, r) ≠ (t.object, t.relation) →
      visitKey object r ∉ [visitKey t.object t.relation] :=
    fun r rw hrw hne hmem => visitKey_ne hrw ht hne (List.mem_singleton.mp hmem)
  have hdirect (c : String) (hc : c ∈ rw.conditions) :
      ∃ why, resolve (graphOf (supported t w id at' user object)) ⟨at'⟩ user (n+3)
        [visitKey t.object t.relation] object r = .ok (true, why) :=
    resolve_supported hnul hobject huser hrw hc hne (n+2) (hfresh r rw hrw hne)
  cases defined_of_rewriteOf hrw with
  | direct _ => exact hdirect "" (List.mem_singleton_self "")
  | inherited _ _ => exact hdirect "" (List.mem_singleton_self "")
  | grant _ => exact hdirect conditionValidWindow (List.mem_singleton_self conditionValidWindow)
  | session hasset =>
    exact resolve_session hnul hobject huser hasset hne (n+1) (List.mem_singleton_self _)
      fun r rw hrw _ hne => hfresh r rw hrw hne
  | privileged hasset =>
    have hkeys : ∀ r rw, rewriteOf object r = some rw → r ≠ relCanOpenPrivilegedSession →
        (object, r) ≠ (t.object, t.relation) → visitKey object r ∉
          [visitKey object relCanOpenPrivilegedSession, visitKey t.object t.relation] := by
      intro r rw' hrw' hr hne hmem
      rcases List.mem_cons.mp hmem with hkey | hmem
      · exact visitKey_ne hrw' hrw (fun h => hr (Prod.mk.inj h).2) hkey
      · exact hfresh r rw' hrw' hne hmem
    obtain ⟨-, -, hsession, hactive, -⟩ := rewriteOf_asset hasset
    rw [resolve, if_neg (hfresh _ _ hrw hne), hrw]
    show ∃ why, applyIntersection _ _ _ _ object _ _ [] = _
    have hsessionKey : (object, relCanOpenSession) ≠ (t.object, t.relation) := by
      intro hkey
      have hmem := mem_storedRelations ht hc
      rw [← (Prod.mk.inj hkey).2] at hmem
      exact absurd hmem (by decide)
    have hgrantKey : (object, relHasActiveGrant) ≠ (t.object, t.relation) := by
      intro hkey
      obtain ⟨ho, hr⟩ := Prod.mk.inj hkey
      exact hgrant ⟨ho, rfl, hr.symm⟩
    obtain ⟨why, hopened⟩ := resolve_session hnul hobject huser hasset hsessionKey n
      (List.mem_cons_of_mem _ (List.mem_singleton_self _)) hkeys
    obtain ⟨why', hgranted⟩ := resolve_supported hnul hobject huser hactive
      (List.mem_singleton_self _) hgrantKey (n+1) (hkeys _ _ hactive (by decide) hgrantKey)
    rw [applyIntersection, applyRewrite, hopened]
    dsimp only
    rw [applyIntersection, applyRewrite, hgranted]
    exact ⟨_, rfl⟩

end Granted

end Supporters

theorem not_confined_of_userset {column : String → Option Uuid} {org : String} {id : Uuid}
    {goal : String × String} (ht : validateTuple t = .ok ()) (hnul : t.NulFree)
    (horg : refOrg t.object = some org) (huser : refOrg t.user = some org)
    (hcolumn : column org = some id) (hsplit : splitUserset t.user = some goal)
    (hidle : ¬ Idle t) (h : ¬ Honoured t w) : ¬ Confined column t w := by
  obtain ⟨rw', c, at', hrw', hc, houtside, hopen⟩ := exists_open h
  obtain ⟨object, relation⟩ := goal
  obtain ⟨rw, hrw⟩ : ∃ rw, rewriteOf object relation = some rw := by
    by_contra hnone
    exact hidle ⟨object, relation, hsplit, Or.inl (Option.eq_none_iff_forall_not_mem.mpr
      fun rw hrw => hnone ⟨rw, hrw⟩)⟩
  have hne : (object, relation) ≠ (t.object, t.relation) := by
    intro hkey
    obtain ⟨ho, hr⟩ := Prod.mk.inj hkey
    exact hidle ⟨object, relation, hsplit, Or.inr ⟨ho, Or.inl hr⟩⟩
  have hgrant : ¬ (object = t.object ∧ relation = relCanOpenPrivilegedSession ∧
      t.relation = relHasActiveGrant) := by
    rintro ⟨ho, hr⟩
    exact hidle ⟨object, relation, hsplit, Or.inr ⟨ho, Or.inr hr⟩⟩
  -- the user is named after the tuple's object, in the same tenant
  let user := String.ofList (stripUserset t.object)
  have huserOrg : refOrg user = some org := (refOrg_stripUserset t.object).trans horg
  have huserSplit : splitUserset user = none := by
    refine if_neg fun hhash => ?_
    rw [String.toList_ofList] at hhash
    exact absurd (List.mem_takeWhile_imp hhash) (by decide)
  have hobjectOrg : refOrg object = some org := (refOrg_of_splitUserset hsplit).trans huser
  have hobjectNul : '\x00' ∉ object.toList := by
    rw [object_of_splitUserset hsplit, String.toList_ofList]
    exact fun hmem => hnul.1 ((List.takeWhile_prefix _).subset hmem)
  let store : TupleStore :=
    { rows := supporters t id at' user object
      valid := by
        intro x hx
        obtain ⟨r, hr, -, rfl⟩ := mem_supporters hx
        exact validateTuple_ok huserOrg hobjectOrg (storedRelations_plain hr).2
      text := by
        intro x hx
        obtain ⟨r, hr, -, rfl⟩ := mem_supporters hx
        exact ⟨hobjectNul, (storedRelations_plain hr).1⟩ }
  have hid : ∀ x ∈ store.rows, x.row.organizationId = id := by
    intro x hx
    obtain ⟨r, -, -, rfl⟩ := mem_supporters hx
    rfl
  have hnew : ∀ x ∈ store.rows, x.tuple ≠ t := by
    intro x hx hxt
    obtain ⟨r, -, -, rfl⟩ := mem_supporters hx
    rw [← hxt, huserSplit] at hsplit
    cases hsplit
  have hrows : ∀ sub, sub ∉ graphOf store.rows t.object t.relation := fun sub hsub =>
    (mem_graphOf_supporters hobjectNul hsub).2.1 rfl
  have hgranted : ∃ why, resolve (graphOf (store.rows ++ [grantedRow t w id])) ⟨at'⟩ user
      maxResolveDepth [] t.object t.relation = .ok (true, why) := by
    obtain ⟨why, hgoal⟩ : ∃ why, resolve (graphOf (store.rows ++ [grantedRow t w id])) ⟨at'⟩ user 127
        [visitKey t.object t.relation] object relation = .ok (true, why) :=
      resolve_userset hnul hobjectNul huserSplit hrw' hc hrw hne hgrant 124
    refine ⟨t.relation ++ " via " ++ t.user, resolve_direct hrw' hc List.not_mem_nil ?_⟩
    rw [graphOf_tuple hrows, directAnswer, hsplit]
    dsimp only
    rw [if_neg (by simp [hopen]), hgoal]
  obtain ⟨why, hgranted⟩ := hgranted
  exact not_confined ht horg hcolumn hid hnew huserOrg houtside (evaluate_of_resolve hgranted)
    (not_related_supporters hobjectNul hrw' hc)

end Necessary

section Main

variable {column : String → Option Uuid} {id : Uuid} {t : RelationTuple} {w : ValidityWindow}

/-- The window is kept exactly where the model and the columns honour it, or nobody comes through
the tuple. -/
theorem confined_iff (ht : validateTuple t = .ok ()) (hnul : t.NulFree)
    (hcolumn : (refOrg t.object).bind column = some id) :
    Confined column t w ↔ Honoured t w ∨ Idle t := by
  obtain ⟨org, horg, hcolumn⟩ := Option.bind_eq_some_iff.mp hcolumn
  have huser : refOrg t.user = some org := by
    obtain ⟨org', huser, hobject⟩ := sameTenant_iff.mp (sameTenant_of_validateTuple ht)
    rw [huser, ← hobject, horg]
  constructor
  · intro hconfined
    by_contra hneither
    obtain ⟨hhonoured, hidle⟩ := not_or.mp hneither
    cases hsplit : splitUserset t.user with
    | none => exact not_confined_of_concrete ht horg huser hcolumn hsplit hhonoured hconfined
    | some goal =>
      exact not_confined_of_userset ht hnul horg huser hcolumn hsplit hidle hhonoured hconfined
  · rintro (hhonoured | hidle)
    · exact confined_of_removable ht hnul fun ctx user g hoff => removable_of_honoured hhonoured hoff
    · exact confined_of_removable ht hnul fun ctx user g _ => removable_of_idle hidle

end Main

namespace Sample

/-- The member operates the asset, during the first second. -/
def operatorTuple : RelationTuple :=
  ⟨qualify 1 .membership (Uuid.text 3), relOperator, qualify 1 .asset (Uuid.text 7)⟩

def firstSecond : ValidityWindow := ⟨0, 1000000000⟩

def noTuples : TupleStore := ⟨[], List.forall_mem_nil _, List.forall_mem_nil _⟩

end Sample

theorem grant_confined : Confined Uuid.ofText (grantTuple 1 3 7) Sample.firstSecond := by
  have ht : validateTuple (grantTuple 1 3 7) = .ok () :=
    validateTuple_ok (refOrg_qualify _ _ _) (refOrg_qualify _ _ _) (by decide)
  have hnul : (grantTuple 1 3 7).NulFree :=
    ⟨qualify_no_nul _ _ _, by decide, qualify_no_nul _ _ _⟩
  have hcolumn : (refOrg (grantTuple 1 3 7).object).bind Uuid.ofText = some 1 := by
    rw [grantTuple, refOrg_qualify, Option.bind_some, Uuid.ofText_text]
  have hgrant : rewriteOf (grantTuple 1 3 7).object (grantTuple 1 3 7).relation =
      some (directCond conditionValidWindow) :=
    (rewriteOf_asset (refType_qualify _ _ _)).2.2.2.1
  refine (confined_iff ht hnul hcolumn).mpr (Or.inl ?_)
  intro rw hrw c hc
  obtain rfl := Option.some.inj (hgrant.symm.trans hrw)
  exact ⟨List.mem_singleton.mp hc, Or.inl (by decide)⟩

open Sample in
/-- The window of an operator is stored and not looked at. -/
theorem operator_not_confined : ¬∀ (column : String → Option Uuid) (t : RelationTuple)
    (w : ValidityWindow), validateTuple t = .ok () → t.NulFree →
      ((refOrg t.object).bind column).isSome → Confined column t w := by
  intro h
  have hwritten : write Uuid.ofText noTuples.rows [granting operatorTuple firstSecond] =
      .ok [grantedRow operatorTuple firstSecond 1] := by decide +kernel
  have hrevoked : write Uuid.ofText [grantedRow operatorTuple firstSecond 1]
      [revoking operatorTuple] = .ok [] := by decide +kernel
  -- one second after the end of the window
  have hallowed : check Uuid.ofText [grantedRow operatorTuple firstSecond 1]
      ⟨operatorTuple, ⟨2000000000⟩⟩ = .ok ⟨true, "operator direto"⟩ := by decide +kernel
  have hdenied : check Uuid.ofText [] ⟨operatorTuple, ⟨2000000000⟩⟩ =
      .ok ⟨false, "sem relação"⟩ := by decide +kernel
  have hsame := h Uuid.ofText operatorTuple firstSecond (by decide +kernel)
    ⟨qualify_no_nul _ _ _, by decide, qualify_no_nul _ _ _⟩ (by decide +kernel)
    noTuples _ _ hwritten hrevoked ⟨operatorTuple, ⟨2000000000⟩⟩ (by decide) _ hallowed
  rw [hdenied] at hsame
  exact absurd hsame (by decide)

end ArchGuard.Authz
