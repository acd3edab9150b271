import ArchGuard.AuthzSemantics

/-! The resolver computes the relation of its graph, whenever it answers. -/
namespace ArchGuard.Authz
open PathSearch

section Resolver

variable {g : GraphReader} {ctx : CheckContext} {user : String}
  {resolve : (object relation : String) → Answer} {P : String × String → Prop}
  {object relation : String}

/-- Positive answers of the recursive calls are goals of `P`. -/
def SoundFor (resolve : (object relation : String) → Answer) (P : String × String → Prop) : Prop :=
  ∀ obj rel why, resolve obj rel = .ok (true, why) → P (obj, rel)

/-- Answers to the goals of `P` are positive. -/
def CompleteFor (resolve : (object relation : String) → Answer) (P : String × String → Prop) :
    Prop :=
  ∀ obj rel b why, P (obj, rel) → resolve obj rel = .ok (b, why) → b = true

theorem directAnswer_sound (hR : SoundFor resolve P) {condition why : String}
    {subs : List GraphSubject}
    (h : directAnswer ctx user resolve relation condition subs = .ok (true, why)) :
    ∃ sub ∈ subs, evalCondition condition sub.window ctx = true ∧
      ((∃ goal, splitUserset sub.ref = some goal ∧ P goal) ∨
        (splitUserset sub.ref = none ∧ sub.ref = user)) := by
  induction subs with
  | nil => cases h
  | cons sub subs ih =>
    unfold directAnswer at h
    split at h
    · exact List.exists_mem_cons_of_exists (ih h)
    rename_i hc
    have hcond : evalCondition condition sub.window ctx = true := by simpa using hc
    split at h
    · rename_i obj rel hu
      split at h
      · cases h
      · rename_i w hw
        exact ⟨sub, List.mem_cons_self, hcond, Or.inl ⟨_, hu, hR obj rel w hw⟩⟩
      · exact List.exists_mem_cons_of_exists (ih h)
    · rename_i hu
      split_ifs at h with huser
      · exact ⟨sub, List.mem_cons_self, hcond, Or.inr ⟨hu, huser⟩⟩
      · exact List.exists_mem_cons_of_exists (ih h)

theorem ttuAnswer_sound (hR : SoundFor resolve P) {tupleset rel why : String}
    {subs : List GraphSubject} (h : ttuAnswer resolve tupleset rel subs = .ok (true, why)) :
    ∃ sub ∈ subs, splitUserset sub.ref = none ∧ P (sub.ref, rel) := by
  induction subs with
  | nil => cases h
  | cons sub subs ih =>
    unfold ttuAnswer at h
    split at h
    · exact List.exists_mem_cons_of_exists (ih h)
    · rename_i hu
      split at h
      · cases h
      · rename_i w hw
        exact ⟨sub, List.mem_cons_self, hu, hR _ _ w hw⟩
      · exact List.exists_mem_cons_of_exists (ih h)

mutual

theorem applyRewrite_sound (hR : SoundFor resolve P) : ∀ {rw : Rewrite} {why : String},
    applyRewrite g ctx user resolve object relation rw = .ok (true, why) →
      Holds g ctx user P object relation rw
  | .this _, _, h => directAnswer_sound hR h
  | .computed rel, _, h => by
    simp only [applyRewrite] at h
    split at h <;> cases h
    rename_i w hw
    exact hR object rel w hw
  | .ttu _ _, _, h => ttuAnswer_sound hR h
  | .union _, _, h => applyUnion_sound hR h
  | .intersection _, _, h => applyIntersection_sound hR h

theorem applyUnion_sound (hR : SoundFor resolve P) : ∀ {rws : List Rewrite} {why : String},
    applyUnion g ctx user resolve object relation rws = .ok (true, why) →
      HoldsAny g ctx user P object relation rws
  | [], _, h => by cases h
  | _ :: _, _, h => by
    simp only [applyUnion] at h
    split at h
    · cases h
    · rename_i w hw
      exact Or.inl (applyRewrite_sound hR hw)
    · exact Or.inr (applyUnion_sound hR h)

theorem applyIntersection_sound (hR : SoundFor resolve P) :
    ∀ {rws : List Rewrite} {reasons : List String} {why : String},
    applyIntersection g ctx user resolve object relation rws reasons = .ok (true, why) →
      HoldsAll g ctx user P object relation rws
  | [], _, _, _ => trivial
  | _ :: _, _, _, h => by
    simp only [applyIntersection] at h
    split at h
    · cases h
    · cases h
    · rename_i w hw
      exact ⟨applyRewrite_sound hR hw, applyIntersection_sound hR h⟩

end

theorem directAnswer_complete (hR : CompleteFor resolve P) {condition why : String} {b : Bool}
    {subs : List GraphSubject}
    (h : directAnswer ctx user resolve relation condition subs = .ok (b, why))
    (hs : ∃ sub ∈ subs, evalCondition condition sub.window ctx = true ∧
      ((∃ goal, splitUserset sub.ref = some goal ∧ P goal) ∨
        (splitUserset sub.ref = none ∧ sub.ref = user))) : b = true := by
  induction subs with
  | nil =>
    obtain ⟨sub, hsub, -⟩ := hs
    cases hsub
  | cons sub subs ih =>
    unfold directAnswer at h
    obtain ⟨s, hmem, hcond, hsub⟩ := hs
    rcases List.mem_cons.mp hmem with rfl | hmem
    -- the subject that counts is the first of the list, or the loop goes on towards it
    · rw [hcond] at h
      rcases hsub with ⟨goal, hu, hP⟩ | ⟨hu, huser⟩
      · simp only [Bool.not_true, Bool.false_eq_true, ↓reduceIte, hu] at h
        split at h
        · cases h
        · cases h
          rfl
        · rename_i w hw
          exact absurd (hR _ _ _ w hP hw) Bool.false_ne_true
      · simp only [Bool.not_true, Bool.false_eq_true, ↓reduceIte, hu] at h
        rw [if_pos huser] at h
        cases h
        rfl
    · have hrest := fun h => ih h ⟨s, hmem, hcond, hsub⟩
      split at h
      · exact hrest h
      split at h
      · split at h
        · cases h
        · cases h
          rfl
        · exact hrest h
      · split at h
        · cases h
          rfl
        · exact hrest h

theorem ttuAnswer_complete (hR : CompleteFor resolve P) {tupleset rel why : String} {b : Bool}
    {subs : List GraphSubject} (h : ttuAnswer resolve tupleset rel subs = .ok (b, why))
    (hs : ∃ sub ∈ subs, splitUserset sub.ref = none ∧ P (sub.ref, rel)) : b = true := by
  induction subs with
  | nil =>
    obtain ⟨sub, hsub, -⟩ := hs
    cases hsub
  | cons sub subs ih =>
    unfold ttuAnswer at h
    obtain ⟨s, hmem, hu, hP⟩ := hs
    rcases List.mem_cons.mp hmem with rfl | hmem
    · rw [hu] at h
      dsimp only at h
      split at h
      · cases h
      · cases h
        rfl
      · rename_i w hw
        exact absurd (hR _ _ _ w hP hw) Bool.false_ne_true
    · have hrest := fun h => ih h ⟨s, hmem, hu, hP⟩
      split at h
      · exact hrest h
      · split at h
        · cases h
        · cases h
          rfl
        · exact hrest h

mutual

theorem applyRewrite_complete (hR : CompleteFor resolve P) :
    ∀ {rw : Rewrite} {b : Bool} {why : String},
    applyRewrite g ctx user resolve object relation rw = .ok (b, why) →
      Holds g ctx user P object relation rw → b = true
  | .this _, _, _, h, hs => directAnswer_complete hR h hs
  | .computed rel, _, _, h, hs => by
    simp only [applyRewrite] at h
    split at h <;> cases h
    · rename_i w hw
      exact hR object rel false w hs hw
    · rfl
  | .ttu _ _, _, _, h, hs => ttuAnswer_complete hR h hs
  | .union _, _, _, h, hs => applyUnion_complete hR h hs
  | .intersection _, _, _, h, hs => applyIntersection_complete hR h hs

theorem applyUnion_complete (hR : CompleteFor resolve P) :
    ∀ {rws : List Rewrite} {b : Bool} {why : String},
    applyUnion g ctx user resolve object relation rws = .ok (b, why) →
      HoldsAny g ctx user P object relation rws → b = true
  | _ :: _, _, _, h, hs => by
    simp only [applyUnion] at h
    split at h
    · cases h
    · cases h
      rfl
    · rename_i w hw
      rcases hs with hs | hs
      · exact absurd (applyRewrite_complete hR hw hs) Bool.false_ne_true
      · exact applyUnion_complete hR h hs

theorem applyIntersection_complete (hR : CompleteFor resolve P) :
    ∀ {rws : List Rewrite} {reasons : List String} {b : Bool} {why : String},
    applyIntersection g ctx user resolve object relation rws reasons = .ok (b, why) →
      HoldsAll g ctx user P object relation rws → b = true
  | [], _, _, _, h, _ => by
    cases h
    rfl
  | _ :: _, _, _, _, h, ⟨hs, hrest⟩ => by
    simp only [applyIntersection] at h
    split at h
    · cases h
    · rename_i w hw
      exact absurd (applyRewrite_complete hR hw hs) Bool.false_ne_true
    · exact applyIntersection_complete hR h hrest

end

end Resolver

theorem relation_of_rewriteOf {object relation : String} {rw : Rewrite}
    (h : rewriteOf object relation = some rw) : '#' ∉ relation.toList := by
  have hmodel : ∀ t rels, archGuardModel t = some rels → ∀ p ∈ rels, '#' ∉ p.1.toList := by
    intro t rels ht
    cases t <;> cases ht <;> decide
  obtain ⟨t, rels, ht, hmem⟩ := rewriteOf_mem h
  exact hmodel t rels ht _ hmem

theorem visitKey_inj {object relation object' relation' : String} (hr : '#' ∉ relation.toList)
    (hr' : '#' ∉ relation'.toList)
    (h : visitKey object relation = visitKey object' relation') :
    object = object' ∧ relation = relation' := by
  -- the last `#` of a key separates its parts, as the relation has none
  have hkeys : object.toList ++ '#' :: relation.toList =
      object'.toList ++ '#' :: relation'.toList := by
    simpa [visitKey] using congrArg String.toList h
  obtain ⟨hobject, hrelation⟩ := cut_last_inj hr hr' hkeys
  exact ⟨String.toList_inj.mp hobject, String.toList_inj.mp hrelation⟩

theorem visitKey_ne {object relation object' relation' : String} {rw rw' : Rewrite}
    (h : rewriteOf object relation = some rw) (h' : rewriteOf object' relation' = some rw')
    (hne : (object, relation) ≠ (object', relation')) :
    visitKey object relation ≠ visitKey object' relation' := by
  intro hkey
  obtain ⟨ho, hr⟩ := visitKey_inj (relation_of_rewriteOf h) (relation_of_rewriteOf h') hkey
  exact hne (Prod.ext ho hr)

theorem rewriteOf_asset {object : String} (h : refType object = ObjectType.asset.text) :
    rewriteOf object relOperator = some (.union [direct, .ttu relParent relOperator]) ∧
      rewriteOf object relOwner = some direct ∧
      rewriteOf object relCanOpenSession = some (.union [.computed relOperator, .computed relOwner]) ∧
      rewriteOf object relHasActiveGrant = some (directCond conditionValidWindow) ∧
      rewriteOf object relCanOpenPrivilegedSession =
        some (.intersection [.computed relCanOpenSession, .computed relHasActiveGrant]) := by
  unfold rewriteOf
  rw [h]
  exact ⟨rfl, rfl, rfl, rfl, rfl⟩

section Correct

variable (g : GraphReader) (ctx : CheckContext) (user : String)

def search (n : ℕ) (visiting : List String) (goal : String × String) : Option Bool :=
  (resolve g ctx user n visiting goal.1 goal.2).toOption.map Prod.fst

theorem search_eq_some {n : ℕ} {visiting : List String} {goal : String × String} {b : Bool} :
    search g ctx user n visiting goal = some b ↔
      ∃ why, resolve g ctx user n visiting goal.1 goal.2 = .ok (b, why) := by
  unfold search
  cases hr : resolve g ctx user n visiting goal.1 goal.2 with
  | error e => simp [Except.toOption]
  | ok a =>
    obtain ⟨b', why⟩ := a
    simp [Except.toOption]

theorem resolve_unfolds : Unfolds (rules g ctx user) (fun goal => visitKey goal.1 goal.2)
    (search g ctx user) where
  depth _ _ := rfl
  sound n p goal P h hrec := by
    obtain ⟨why, hr⟩ := (search_eq_some g ctx user).mp h
    unfold resolve at hr
    split at hr
    · cases hr
    split at hr
    · cases hr
    · rename_i rw hrw
      refine ⟨rw, hrw, applyRewrite_sound (fun obj rel w hw => ?_) hr⟩
      exact hrec (obj, rel) ((search_eq_some g ctx user).mpr ⟨w, hw⟩)
  complete n p goal b P hkey h hrec := by
    rintro ⟨rw, hrw, hs⟩
    obtain ⟨why, hr⟩ := (search_eq_some g ctx user).mp h
    unfold resolve at hr
    rw [if_neg hkey, hrw] at hr
    refine applyRewrite_complete (fun obj rel b w hP hw => ?_) hr hs
    exact hrec (obj, rel) b hP ((search_eq_some g ctx user).mpr ⟨w, hw⟩)
  inj := by
    rintro ⟨o, r⟩ ⟨o', r'⟩ P Q ⟨rw, hrw, -⟩ ⟨rw', hrw', -⟩ hkey
    obtain ⟨rfl, rfl⟩ := visitKey_inj (relation_of_rewriteOf hrw) (relation_of_rewriteOf hrw') hkey
    rfl

variable {g ctx user} {object relation : String} {d : Decision}

theorem evaluate_ok_iff (h : evaluate g object relation user ctx = .ok d) :
    d.allowed = true ↔ Related g ctx user object relation := by
  have hs : search g ctx user maxResolveDepth [] (object, relation) = some d.allowed := by
    apply (search_eq_some g ctx user).mpr
    unfold evaluate at h
    split at h <;> cases h
    · exact ⟨_, ‹_›⟩
    · exact ⟨_, ‹_›⟩
  exact (resolve_unfolds g ctx user).answer_iff (rules_finitary g ctx user) hs

/-- Whenever `Evaluate` answers, it answers the least relation closed under the rules of
the model; so the order of the tuples does not matter. -/
theorem evaluate_correct (h : evaluate g object relation user ctx = .ok d) :
    (d.allowed = true ↔ Related g ctx user object relation) ∧
      ∀ g' : GraphReader, (∀ o r, (g o r).Perm (g' o r)) → ∀ d',
        evaluate g' object relation user ctx = .ok d' → d'.allowed = d.allowed := by
  refine ⟨evaluate_ok_iff h, fun g' hperm d' h' => ?_⟩
  rw [Bool.eq_iff_iff, evaluate_ok_iff h, evaluate_ok_iff h', related_perm hperm]

end Correct

/-- The tuples of a graph that count under a reading of every window. -/
def liveTuples (g : GraphReader) (ctx : CheckContext) : GraphReader := fun object relation =>
  (g object relation).filter fun sub => sub.window.all fun w => w.contains ctx.evaluatedAt

namespace Sample

def member := "org:o1/membership:m1"
def asset := "org:o1/asset:a1"

/-- Two asset groups that are each other's parent; the member operates the second. -/
def cyclic : GraphReader := memoryGraph [
  ⟨⟨"org:o1/asset_group:g1", relParent, asset⟩, none⟩,
  ⟨⟨"org:o1/asset_group:g2", relParent, "org:o1/asset_group:g1"⟩, none⟩,
  ⟨⟨"org:o1/asset_group:g1", relParent, "org:o1/asset_group:g2"⟩, none⟩,
  ⟨⟨"org:o1/group:ops#member", relOperator, "org:o1/asset_group:g2"⟩, none⟩,
  ⟨⟨"org:o1/group:ops#member", relMember, "org:o1/group:ops"⟩, none⟩,
  ⟨⟨member, relMember, "org:o1/group:ops"⟩, none⟩]

def closed : GraphReader := memoryGraph [⟨⟨member, relOperator, asset⟩, some ⟨0, 10⟩⟩]

end Sample

theorem evaluate_correct_cyclic :
    Related Sample.cyclic ⟨0⟩ Sample.member Sample.asset relCanOpenSession ∧
      ∀ g' : GraphReader, (∀ o r, (Sample.cyclic o r).Perm (g' o r)) → ∀ d',
        evaluate g' Sample.asset relCanOpenSession Sample.member ⟨0⟩ = .ok d' →
          d'.allowed = true := by
  have h : evaluate Sample.cyclic Sample.asset relCanOpenSession Sample.member ⟨0⟩ =
      .ok ⟨true, "can_open_session via operator from parent org:o1/asset_group:g1"⟩ := by
    decide +kernel
  exact ⟨(evaluate_correct h).1.mp rfl, (evaluate_correct h).2⟩

/-- A window on a relation without a condition is not looked at: the closed operator
tuple still counts. -/
theorem window_of_unconditional_relation_ignored :
    evaluate Sample.closed Sample.asset relOperator Sample.member ⟨20⟩ =
        .ok ⟨true, "operator direto"⟩ ∧
      ¬Related (liveTuples Sample.closed ⟨20⟩) ⟨20⟩ Sample.member Sample.asset relOperator := by
  refine ⟨by decide +kernel, fun hr => ?_⟩
  have h : evaluate (liveTuples Sample.closed ⟨20⟩) Sample.asset relOperator Sample.member ⟨20⟩ =
      .ok ⟨false, "sem relação"⟩ := by
    decide +kernel
  exact Bool.false_ne_true ((evaluate_ok_iff h).mpr hr)

end ArchGuard.Authz
