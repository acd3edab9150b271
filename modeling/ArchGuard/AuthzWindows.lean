import ArchGuard.AuthzCheck

/-! What the windows of the tuples are looked at for: two graphs with the same subjects, and the
same windows open where the model asks, give the same answers. -/
namespace ArchGuard.Authz

mutual

/-- The conditions that the direct subjects of a relation are under. -/
def Rewrite.conditions : Rewrite → List String
  | .this condition => [condition]
  | .computed _ => []
  | .ttu _ _ => []
  | .union children => conditionsOf children
  | .intersection children => conditionsOf children

def conditionsOf : List Rewrite → List String
  | [] => []
  | child :: children => child.conditions ++ conditionsOf children

def Rewrite.relations : Rewrite → List String
  | .this _ => []
  | .computed rel => [rel]
  | .ttu _ rel => [rel]
  | .union children => relationsOf children
  | .intersection children => relationsOf children

def relationsOf : List Rewrite → List String
  | [] => []
  | child :: children => child.relations ++ relationsOf children

end

/-- Only `has_active_grant` on an asset is under a condition. -/
theorem conditions_of_rewriteOf {object relation condition : String} {rw : Rewrite}
    (h : rewriteOf object relation = some rw) (hc : condition ∈ rw.conditions) :
    condition = "" ∨ (condition = conditionValidWindow ∧ relation = relHasActiveGrant ∧
      refType object = ObjectType.asset.text) := by
  have hmodel : ∀ t rels, archGuardModel t = some rels → ∀ p ∈ rels, ∀ c ∈ p.2.conditions,
      c = "" ∨ (c = conditionValidWindow ∧ p.1 = relHasActiveGrant ∧ t = .asset) := by
    intro t rels ht
    cases t <;> cases ht <;> decide
  unfold rewriteOf at h
  cases htype : (objectType (refType object)).bind archGuardModel with
  | none =>
    rw [htype] at h
    cases h
  | some rels =>
    rw [htype] at h
    obtain ⟨t, ht, hrels⟩ := Option.bind_eq_some_iff.mp htype
    obtain ⟨l₁, l₂, rfl, -⟩ := List.lookup_eq_some_iff.mp h
    have hmem : (relation, rw) ∈ l₁ ++ (relation, rw) :: l₂ :=
      List.mem_append_right l₁ List.mem_cons_self
    rcases hmodel t _ hrels _ hmem condition hc with hempty | ⟨hwindow, hgrant, rfl⟩
    · exact Or.inl hempty
    · have hname := List.find?_some ht
      exact Or.inr ⟨hwindow, hgrant, (of_decide_eq_true hname).symm⟩

/-- The same subject, of which the condition asks the same. -/
structure SameUnder (ctx ctx' : CheckContext) (condition : String) (a b : GraphSubject) : Prop where
  ref : a.ref = b.ref
  open_iff : evalCondition condition a.window ctx = evalCondition condition b.window ctx'

section Answers

variable {g g' : GraphReader} {ctx ctx' : CheckContext} {user object relation : String}
  {resolve resolve' : (object relation : String) → Answer}

/-- The two resolvers agree on the usersets among the subjects. -/
def AgreeOn (resolve resolve' : (object relation : String) → Answer) (subs : List GraphSubject) :
    Prop :=
  ∀ sub ∈ subs, ∀ goal, splitUserset sub.ref = some goal →
    resolve goal.1 goal.2 = resolve' goal.1 goal.2

theorem directAnswer_congr {condition : String} {subs subs' : List GraphSubject}
    (h : List.Forall₂ (SameUnder ctx ctx' condition) subs subs')
    (hresolve : AgreeOn resolve resolve' subs) :
    directAnswer ctx user resolve relation condition subs =
      directAnswer ctx' user resolve' relation condition subs' := by
  induction h with
  | nil => rfl
  | @cons sub sub' subs subs' hsub _ ih =>
    have hrest := ih fun x hx => hresolve x (List.mem_cons_of_mem sub hx)
    rw [directAnswer, directAnswer, hsub.open_iff, ← hsub.ref, hrest]
    cases hsplit : splitUserset sub.ref with
    | none => rfl
    | some goal =>
      have hgoal := hresolve sub List.mem_cons_self goal hsplit
      dsimp only
      rw [hgoal]

theorem ttuAnswer_congr {tupleset rel : String} {subs subs' : List GraphSubject}
    (h : List.Forall₂ (fun a b : GraphSubject => a.ref = b.ref) subs subs')
    (hresolve : ∀ o, resolve o rel = resolve' o rel) :
    ttuAnswer resolve tupleset rel subs = ttuAnswer resolve' tupleset rel subs' := by
  induction h with
  | nil => rfl
  | cons hsub _ ih => simp only [ttuAnswer, hsub, ih, hresolve]

mutual

theorem applyRewrite_congr (hrefs : ∀ r, List.Forall₂ (fun a b : GraphSubject => a.ref = b.ref)
    (g object r) (g' object r)) (husersets : AgreeOn resolve resolve' (g object relation)) :
    ∀ rw : Rewrite, (∀ rel ∈ rw.relations, ∀ o, resolve o rel = resolve' o rel) →
    (∀ c ∈ rw.conditions,
      List.Forall₂ (SameUnder ctx ctx' c) (g object relation) (g' object relation)) →
    applyRewrite g ctx user resolve object relation rw =
      applyRewrite g' ctx' user resolve' object relation rw
  | .this c, _, h => directAnswer_congr (h c (List.mem_singleton_self c)) husersets
  | .computed rel, hresolve, _ => by
    rw [applyRewrite, applyRewrite, hresolve rel (List.mem_singleton_self rel)]
  | .ttu tupleset rel, hresolve, _ =>
    ttuAnswer_congr (hrefs tupleset) (hresolve rel (List.mem_singleton_self rel))
  | .union rws, hresolve, h => applyUnion_congr hrefs husersets rws hresolve h
  | .intersection rws, hresolve, h => applyIntersection_congr hrefs husersets rws hresolve h []

theorem applyUnion_congr (hrefs : ∀ r, List.Forall₂ (fun a b : GraphSubject => a.ref = b.ref)
    (g object r) (g' object r)) (husersets : AgreeOn resolve resolve' (g object relation)) :
    ∀ rws : List Rewrite, (∀ rel ∈ relationsOf rws, ∀ o, resolve o rel = resolve' o rel) →
    (∀ c ∈ conditionsOf rws,
      List.Forall₂ (SameUnder ctx ctx' c) (g object relation) (g' object relation)) →
    applyUnion g ctx user resolve object relation rws =
      applyUnion g' ctx' user resolve' object relation rws
  | [], _, _ => rfl
  | rw :: rws, hresolve, h => by
    have hhead := applyRewrite_congr hrefs husersets rw
      (fun rel hrel => hresolve rel (List.mem_append_left _ hrel))
      fun c hc => h c (List.mem_append_left _ hc)
    have hrest := applyUnion_congr hrefs husersets rws
      (fun rel hrel => hresolve rel (List.mem_append_right _ hrel))
      fun c hc => h c (List.mem_append_right _ hc)
    rw [applyUnion, applyUnion, hhead, hrest]

theorem applyIntersection_congr (hrefs : ∀ r,
    List.Forall₂ (fun a b : GraphSubject => a.ref = b.ref) (g object r) (g' object r))
    (husersets : AgreeOn resolve resolve' (g object relation)) :
    ∀ rws : List Rewrite, (∀ rel ∈ relationsOf rws, ∀ o, resolve o rel = resolve' o rel) →
    (∀ c ∈ conditionsOf rws,
      List.Forall₂ (SameUnder ctx ctx' c) (g object relation) (g' object relation)) →
    ∀ reasons : List String, applyIntersection g ctx user resolve object relation rws reasons =
      applyIntersection g' ctx' user resolve' object relation rws reasons
  | [], _, _, _ => rfl
  | rw :: rws, hresolve, h, reasons => by
    have hhead := applyRewrite_congr hrefs husersets rw
      (fun rel hrel => hresolve rel (List.mem_append_left _ hrel))
      fun c hc => h c (List.mem_append_left _ hc)
    have hrest := fun reasons' => applyIntersection_congr hrefs husersets rws
      (fun rel hrel => hresolve rel (List.mem_append_right _ hrel))
      (fun c hc => h c (List.mem_append_right _ hc)) reasons'
    simp only [applyIntersection, hhead, hrest]

end

/-- The graphs agree on who is assigned, and on which grants are open. -/
structure SameOpen (ctx ctx' : CheckContext) (g g' : GraphReader) : Prop where
  refs : ∀ o r, List.Forall₂ (fun a b : GraphSubject => a.ref = b.ref) (g o r) (g' o r)
  grants : ∀ o, refType o = ObjectType.asset.text → List.Forall₂
    (SameUnder ctx ctx' conditionValidWindow) (g o relHasActiveGrant) (g' o relHasActiveGrant)

theorem resolve_congr (h : SameOpen ctx ctx' g g') (fuel : ℕ) (visiting : List String) :
    Authz.resolve g ctx user fuel visiting = Authz.resolve g' ctx' user fuel visiting := by
  induction fuel generalizing visiting with
  | zero => rfl
  | succ fuel ih =>
    funext object relation
    rw [Authz.resolve, Authz.resolve]
    cases hrw : rewriteOf object relation with
    | none => rfl
    | some rw =>
      have hconditions : ∀ c ∈ rw.conditions,
          List.Forall₂ (SameUnder ctx ctx' c) (g object relation) (g' object relation) := by
        intro c hc
        rcases conditions_of_rewriteOf hrw hc with rfl | ⟨rfl, rfl, hasset⟩
        · -- without a condition every window is ignored
          exact (h.refs object relation).imp fun a b hab => ⟨hab, rfl⟩
        · exact h.grants object hasset
      have hgoals (o r : String) := congrFun₂ (ih (visitKey object relation :: visiting)) o r
      dsimp only
      rw [applyRewrite_congr (h.refs object) (fun _ _ goal _ => hgoals goal.1 goal.2) rw
        (fun rel _ o => hgoals o rel) hconditions]

theorem evaluate_congr (h : SameOpen ctx ctx' g g') :
    evaluate g object relation user ctx = evaluate g' object relation user ctx' := by
  rw [evaluate, evaluate, resolve_congr h]

end Answers

/-- What no grant bears on. -/
def Lasting (relation : String) : Prop :=
  relation ≠ relHasActiveGrant ∧ relation ≠ relCanOpenPrivilegedSession

instance (relation : String) : Decidable (Lasting relation) := inferInstanceAs (Decidable (_ ∧ _))

theorem lasting_of_rewriteOf {object relation : String} {rw : Rewrite}
    (h : rewriteOf object relation = some rw) (hlasting : Lasting relation) :
    (∀ c ∈ rw.conditions, c = "") ∧ ∀ rel ∈ rw.relations, Lasting rel := by
  have hmodel : ∀ t rels, archGuardModel t = some rels → ∀ p ∈ rels, Lasting p.1 →
      (∀ c ∈ p.2.conditions, c = "") ∧ ∀ rel ∈ p.2.relations, Lasting rel := by
    intro t rels ht
    cases t <;> cases ht <;> decide
  obtain ⟨t, rels, ht, hmem⟩ := rewriteOf_mem h
  exact hmodel t rels ht _ hmem hlasting

/-- No userset of the graph stands for who holds a grant. -/
def HolderFree (g : GraphReader) : Prop :=
  ∀ o r, ∀ sub ∈ g o r, ∀ goal, splitUserset sub.ref = some goal → Lasting goal.2

section Instants

variable {g : GraphReader} {user object relation : String}

theorem resolve_lasting (hg : HolderFree g) (ctx ctx' : CheckContext) (fuel : ℕ)
    (visiting : List String) (hlasting : Lasting relation) :
    resolve g ctx user fuel visiting object relation =
      resolve g ctx' user fuel visiting object relation := by
  induction fuel generalizing visiting object relation with
  | zero => rfl
  | succ fuel ih =>
    rw [resolve, resolve]
    cases hrw : rewriteOf object relation with
    | none => rfl
    | some rw =>
      obtain ⟨hunconditional, hrelations⟩ := lasting_of_rewriteOf hrw hlasting
      have hgoals : AgreeOn (resolve g ctx user fuel (visitKey object relation :: visiting))
          (resolve g ctx' user fuel (visitKey object relation :: visiting)) (g object relation) :=
        fun sub hsub goal hsplit => ih _ (hg object relation sub hsub goal hsplit)
      have hsubs : ∀ c ∈ rw.conditions,
          List.Forall₂ (SameUnder ctx ctx' c) (g object relation) (g object relation) := by
        intro c hc
        rw [hunconditional c hc]
        exact List.forall₂_same.mpr fun _ _ => ⟨rfl, rfl⟩
      dsimp only
      rw [applyRewrite_congr (fun _ => List.forall₂_same.mpr fun _ _ => rfl) hgoals rw
        (fun rel hrel _ => ih _ (hrelations rel hrel)) hsubs]

/-- Where no grant bears on the relation, the instant does not matter. -/
theorem evaluate_lasting (hg : HolderFree g) (ctx ctx' : CheckContext) (hlasting : Lasting relation) :
    evaluate g object relation user ctx = evaluate g object relation user ctx' := by
  rw [evaluate, evaluate, resolve_lasting hg ctx ctx' maxResolveDepth [] hlasting]

end Instants

end ArchGuard.Authz
