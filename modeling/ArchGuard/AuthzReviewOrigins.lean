import ArchGuard.AuthzCheck
import ArchGuard.AuthzCorrect

/-! The origins that an access review names, against the derivations that there are. -/
namespace ArchGuard.Authz

section Meaning

variable (g : GraphReader) (ctx : CheckContext) (asset user : String)

/-- The user is a subject, or belongs to the userset that is one. -/
def ThroughSubject (sub : GraphSubject) : Prop :=
  (splitUserset sub.ref = none ∧ sub.ref = user) ∨
    ∃ goal, splitUserset sub.ref = some goal ∧ Related g ctx user goal.1 goal.2

/-- Access by a tuple on the asset itself, as its operator or owner. -/
def DirectAccess : Prop :=
  ∃ rel ∈ [relOperator, relOwner], ∃ sub ∈ g asset rel, ThroughSubject g ctx user sub

def InheritedAccess : Prop :=
  ∃ sub ∈ g asset relParent, splitUserset sub.ref = none ∧ Related g ctx user sub.ref relOperator

def HasGrant : Prop :=
  ∃ d, evaluate g asset relHasActiveGrant user ctx = .ok d ∧ d.allowed = true

/-- An entry names each origin exactly if access arises so. -/
structure Truthful (e : AccessReviewEntry) : Prop where
  direct : .direct ∈ e.origins ↔ DirectAccess g ctx asset e.subject
  inherited : .inherited ∈ e.origins ↔ InheritedAccess g ctx asset e.subject
  grant : .grant ∈ e.origins ↔ HasGrant g ctx asset e.subject

/-- The resolver, two goals deep, finds the user behind a subject of the asset. -/
def grantsUser (relation : String) (sub : GraphSubject) : Bool :=
  match splitUserset sub.ref with
  | some (obj, rel) =>
    match resolve g ctx user (maxResolveDepth-2)
        [visitKey asset relation, visitKey asset relCanOpenSession] obj rel with
    | .ok (true, _) => true
    | _ => false
  | none => sub.ref = user

/-- The first of the asset's operators, then of its owners, behind whom the user is found. -/
def grantingSubject : Option GraphSubject :=
  ((g asset relOperator).find? (grantsUser g ctx asset user relOperator)).or
    ((g asset relOwner).find? (grantsUser g ctx asset user relOwner))

/-- The text of the reference looks like a hop, after the blank that precedes it. -/
def LooksLikeHop (ref : String) : Prop := " from ".toList <:+: ' ' :: ref.toList

instance (ref : String) : Decidable (LooksLikeHop ref) := inferInstanceAs (Decidable (_ <:+: _))

/-- Access arises in one way only, and the reference of the group it comes through does not look
like a hop. -/
structure OneOrigin : Prop where
  single : ¬(DirectAccess g ctx asset user ∧ InheritedAccess g ctx asset user)
  named : ∀ sub ∈ grantingSubject g ctx asset user, (splitUserset sub.ref).isSome = true →
    ¬LooksLikeHop sub.ref

end Meaning

section Texts

theorem infix_append_iff {l s t : List Char}
    (h : ∀ u ∈ s.tails, u ≠ [] → ¬l <+: u ∧ ¬u <+: l) : l <:+: s ++ t ↔ l <:+: t := by
  induction s with
  | nil => rfl
  | cons c s ih =>
    have hhead : ¬l <+: (c :: s) ++ t := by
      intro hl
      obtain ⟨hnot, hnot'⟩ := h (c :: s) (by simp) (List.cons_ne_nil c s)
      rcases List.prefix_or_prefix_of_prefix hl (List.prefix_append (c :: s) t) with hl | hl
      · exact hnot hl
      · exact hnot' hl
    rw [List.cons_append, List.infix_cons_iff]
    rw [List.cons_append] at hhead
    have hrest := ih fun u hu => h u (by rw [List.tails]; exact List.mem_cons_of_mem _ hu)
    tauto

/-- What a loop over direct subjects says of the one it stops at. -/
def directWhy (relation : String) (sub : GraphSubject) : String :=
  match splitUserset sub.ref with
  | some _ => relation ++ " via " ++ sub.ref
  | none => relation ++ " direto"

theorem classify_directWhy {relation : String} (hrel : relation = relOperator ∨ relation = relOwner)
    (sub : GraphSubject) :
    classifyBaseOrigin (relCanOpenSession ++ " via " ++ directWhy relation sub) =
      if (splitUserset sub.ref).isSome = true ∧ LooksLikeHop sub.ref then .inherited else .direct := by
  unfold directWhy
  cases hsplit : splitUserset sub.ref with
  | none =>
    have hplain : classifyBaseOrigin (relCanOpenSession ++ " via " ++ (relation ++ " direto")) =
        .direct := by
      rcases hrel with rfl | rfl <;> decide
    rw [if_neg (by simp)]
    exact hplain
  | some goal =>
    have hlist : (relCanOpenSession ++ " via " ++ (relation ++ " via " ++ sub.ref)).toList =
        (relCanOpenSession ++ " via " ++ relation ++ " via").toList ++ ' ' :: sub.ref.toList := by
      simp only [String.toList_append, List.append_assoc]
      rfl
    have htails : ∀ u ∈ (relCanOpenSession ++ " via " ++ relation ++ " via").toList.tails, u ≠ [] →
        ¬" from ".toList <+: u ∧ ¬u <+: " from ".toList := by
      rcases hrel with rfl | rfl <;> decide
    show (if " from ".toList <:+: (relCanOpenSession ++ " via " ++
      (relation ++ " via " ++ sub.ref)).toList then AccessOrigin.inherited else .direct) = _
    simp only [hlist, infix_append_iff htails, Option.isSome_some, true_and]
    rfl

theorem classify_hop (ref : String) : classifyBaseOrigin (relCanOpenSession ++ " via " ++
    (relOperator ++ " from " ++ relParent ++ " " ++ ref)) = .inherited := by
  apply if_pos
  refine ⟨(relCanOpenSession ++ " via " ++ relOperator).toList, (relParent ++ " " ++ ref).toList, ?_⟩
  simp only [String.toList_append, List.append_assoc]

end Texts

section Resolver

variable {g : GraphReader} {ctx : CheckContext} {asset user : String}

theorem directAnswer_eq {relation why : String} {b : Bool} {subs : List GraphSubject}
    (h : directAnswer ctx user (resolve g ctx user (maxResolveDepth-2)
      [visitKey asset relation, visitKey asset relCanOpenSession]) relation "" subs = .ok (b, why)) :
    (b = false ∧ subs.find? (grantsUser g ctx asset user relation) = none) ∨
      ∃ sub, b = true ∧ subs.find? (grantsUser g ctx asset user relation) = some sub ∧
        why = directWhy relation sub := by
  induction subs with
  | nil =>
    cases h
    exact Or.inl ⟨rfl, rfl⟩
  | cons sub subs ih =>
    have hskip (hno : grantsUser g ctx asset user relation sub = false)
        (hrest : directAnswer ctx user (resolve g ctx user (maxResolveDepth-2)
          [visitKey asset relation, visitKey asset relCanOpenSession]) relation "" subs =
            .ok (b, why)) := by
      have hfind : (sub :: subs).find? (grantsUser g ctx asset user relation) =
          subs.find? (grantsUser g ctx asset user relation) := by
        rw [List.find?_cons, hno]
      exact hfind ▸ ih hrest
    have hstop (hyes : grantsUser g ctx asset user relation sub = true) :
        (sub :: subs).find? (grantsUser g ctx asset user relation) = some sub := by
      rw [List.find?_cons, hyes]
    rw [directAnswer, if_neg (by simp [evalCondition])] at h
    cases hsplit : splitUserset sub.ref with
    | none =>
      simp only [hsplit] at h
      by_cases huser : sub.ref = user
      · rw [if_pos huser] at h
        cases h
        refine Or.inr ⟨sub, rfl, hstop ?_, ?_⟩
        · simp only [grantsUser, hsplit]
          exact decide_eq_true huser
        · simp only [directWhy, hsplit]
      · rw [if_neg huser] at h
        apply hskip _ h
        simp only [grantsUser, hsplit, huser, decide_false]
    | some goal =>
      obtain ⟨obj, rel⟩ := goal
      simp only [hsplit] at h
      split at h
      · cases h
      · rename_i hres
        cases h
        refine Or.inr ⟨sub, rfl, hstop ?_, ?_⟩
        · simp only [grantsUser, hsplit, hres]
        · simp only [directWhy, hsplit]
      · rename_i hres
        apply hskip _ h
        simp only [grantsUser, hsplit, hres]

theorem ttuAnswer_why {resolve : (object relation : String) → Answer} {tupleset rel why : String}
    {subs : List GraphSubject} (h : ttuAnswer resolve tupleset rel subs = .ok (true, why)) :
    ∃ ref, why = rel ++ " from " ++ tupleset ++ " " ++ ref := by
  induction subs with
  | nil => cases h
  | cons sub subs ih =>
    unfold ttuAnswer at h
    split at h
    · exact ih h
    · split at h
      · cases h
      · cases h
        exact ⟨sub.ref, rfl⟩
      · exact ih h

theorem resolve_sound {n : ℕ} {visiting : List String} {object relation why : String}
    (h : resolve g ctx user n visiting object relation = .ok (true, why)) :
    Related g ctx user object relation :=
  (resolve_unfolds g ctx user).sound_lfp ((search_eq_some g ctx user).mpr ⟨why, h⟩)

theorem through_of_grantsUser {relation : String} {sub : GraphSubject}
    (h : grantsUser g ctx asset user relation sub = true) : ThroughSubject g ctx user sub := by
  unfold grantsUser at h
  split at h
  · rename_i obj rel hsplit
    split at h
    · rename_i hres
      exact Or.inr ⟨_, hsplit, resolve_sound hres⟩
    · cases h
  · rename_i hsplit
    exact Or.inl ⟨hsplit, of_decide_eq_true h⟩

theorem direct_of_grantingSubject {sub : GraphSubject}
    (h : grantingSubject g ctx asset user = some sub) : DirectAccess g ctx asset user := by
  rw [grantingSubject, Option.or_eq_some_iff] at h
  rcases h with h | ⟨-, h⟩
  · exact ⟨relOperator, by simp, sub, List.mem_of_find?_eq_some h,
      through_of_grantsUser (List.find?_some h)⟩
  · exact ⟨relOwner, by simp, sub, List.mem_of_find?_eq_some h,
      through_of_grantsUser (List.find?_some h)⟩

theorem not_visited {relation : String} (hrel : '#' ∉ relation.toList)
    (hne : relation ≠ relCanOpenSession) :
    visitKey asset relation ∉ [visitKey asset relCanOpenSession] := by
  intro h
  have hkey := List.mem_singleton.mp h
  exact hne (visitKey_inj hrel (by decide) hkey).2

theorem operator_eq {b : Bool} {why : String} (htype : refType asset = ObjectType.asset.text)
    (h : resolve g ctx user (maxResolveDepth-1) [visitKey asset relCanOpenSession] asset relOperator =
      .ok (b, why)) :
    (∃ sub, (g asset relOperator).find? (grantsUser g ctx asset user relOperator) = some sub ∧
        b = true ∧ why = directWhy relOperator sub) ∨
      ((g asset relOperator).find? (grantsUser g ctx asset user relOperator) = none ∧
        (b = true → InheritedAccess g ctx asset user ∧
          ∃ ref, why = relOperator ++ " from " ++ relParent ++ " " ++ ref)) := by
  have hfuel : maxResolveDepth-1 = maxResolveDepth-2+1 := rfl
  rw [hfuel, resolve, if_neg (not_visited (by decide) (by decide)), (rewriteOf_asset htype).1] at h
  simp only [applyRewrite, applyUnion, direct] at h
  split at h
  · cases h
  · rename_i hdirect
    cases h
    rcases directAnswer_eq hdirect with ⟨hb, -⟩ | ⟨sub, -, hfind, hwhy⟩
    · cases hb
    · exact Or.inl ⟨sub, hfind, rfl, hwhy⟩
  · rename_i hdirect
    have hnone : (g asset relOperator).find? (grantsUser g ctx asset user relOperator) = none := by
      rcases directAnswer_eq hdirect with ⟨-, hnone⟩ | ⟨_, hb, -⟩
      · exact hnone
      · cases hb
    refine Or.inr ⟨hnone, fun hb => ?_⟩
    subst hb
    split at h
    · cases h
    · rename_i hhop
      cases h
      obtain ⟨sub, hsub, hplain, hrelated⟩ := ttuAnswer_sound
        (P := fun goal => Related g ctx user goal.1 goal.2) (fun obj rel w => resolve_sound) hhop
      exact ⟨⟨sub, hsub, hplain, hrelated⟩, ttuAnswer_why hhop⟩
    · cases h

theorem owner_eq {b : Bool} {why : String} (htype : refType asset = ObjectType.asset.text)
    (h : resolve g ctx user (maxResolveDepth-1) [visitKey asset relCanOpenSession] asset relOwner =
      .ok (b, why)) :
    (b = false ∧ (g asset relOwner).find? (grantsUser g ctx asset user relOwner) = none) ∨
      ∃ sub, b = true ∧ (g asset relOwner).find? (grantsUser g ctx asset user relOwner) = some sub ∧
        why = directWhy relOwner sub := by
  have hfuel : maxResolveDepth-1 = maxResolveDepth-2+1 := rfl
  rw [hfuel, resolve, if_neg (not_visited (by decide) (by decide)), (rewriteOf_asset htype).2.1] at h
  exact directAnswer_eq h

theorem type_of_rewriteOf {rw : Rewrite} (h : rewriteOf asset relCanOpenSession = some rw) :
    refType asset = ObjectType.asset.text := by
  unfold rewriteOf at h
  cases htype : objectType (refType asset) with
  | none =>
    rw [htype] at h
    cases h
  | some t =>
    have htext : t.text = refType asset := by
      have hfind := htype
      unfold objectType at hfind
      simpa using List.find?_some hfind
    rw [htype] at h
    cases t with
    | asset => exact htext.symm
    | _ => cases h

theorem type_of_allowed {d : Decision} (h : evaluate g asset relCanOpenSession user ctx = .ok d)
    (hallowed : d.allowed = true) : refType asset = ObjectType.asset.text := by
  have hfuel : maxResolveDepth = maxResolveDepth-1+1 := rfl
  rw [evaluate, hfuel, resolve, if_neg List.not_mem_nil] at h
  cases hrewrite : rewriteOf asset relCanOpenSession with
  | none =>
    simp only [hrewrite] at h
    cases h
    cases hallowed
  | some rw => exact type_of_rewriteOf hrewrite

theorem justification_eq {d : Decision}
    (h : evaluate g asset relCanOpenSession user ctx = .ok d) (hallowed : d.allowed = true) :
    (∃ sub rel, (rel = relOperator ∨ rel = relOwner) ∧
        grantingSubject g ctx asset user = some sub ∧
        d.justification = relCanOpenSession ++ " via " ++ directWhy rel sub) ∨
      (InheritedAccess g ctx asset user ∧ ∃ ref, d.justification = relCanOpenSession ++ " via " ++
        (relOperator ++ " from " ++ relParent ++ " " ++ ref)) := by
  have htype : refType asset = ObjectType.asset.text := type_of_allowed h hallowed
  have hfuel : maxResolveDepth = maxResolveDepth-1+1 := rfl
  rw [evaluate, hfuel, resolve, if_neg List.not_mem_nil, (rewriteOf_asset htype).2.2.1] at h
  simp only [applyRewrite, applyUnion] at h
  -- the operators are asked first
  cases hoperator : resolve g ctx user (maxResolveDepth-1) [visitKey asset relCanOpenSession] asset
      relOperator with
  | error e =>
    simp only [hoperator] at h
    cases h
  | ok answer =>
    obtain ⟨b, why⟩ := answer
    cases b with
    | true =>
      simp only [hoperator] at h
      cases h
      rcases operator_eq htype hoperator with ⟨sub, hfind, -, hwhy⟩ | ⟨-, hinherited⟩
      · refine Or.inl ⟨sub, relOperator, Or.inl rfl, ?_, by rw [hwhy]⟩
        rw [grantingSubject, hfind, Option.some_or]
      · obtain ⟨haccess, ref, hwhy⟩ := hinherited rfl
        exact Or.inr ⟨haccess, ref, by rw [hwhy]⟩
    | false =>
      have hnone : (g asset relOperator).find? (grantsUser g ctx asset user relOperator) = none := by
        rcases operator_eq htype hoperator with ⟨_, -, hb, -⟩ | ⟨hnone, -⟩
        · cases hb
        · exact hnone
      simp only [hoperator] at h
      cases howner : resolve g ctx user (maxResolveDepth-1) [visitKey asset relCanOpenSession] asset
          relOwner with
      | error e =>
        simp only [howner] at h
        cases h
      | ok answer =>
        obtain ⟨b, why⟩ := answer
        simp only [howner] at h
        cases b with
        | true =>
          cases h
          rcases owner_eq htype howner with ⟨hb, -⟩ | ⟨sub, -, hfind, hwhy⟩
          · cases hb
          · refine Or.inl ⟨sub, relOwner, Or.inr rfl, ?_, by rw [hwhy]⟩
            rw [grantingSubject, hnone, Option.none_or, hfind]
        | false =>
          cases h
          cases hallowed

end Resolver

section Entries

variable {g : GraphReader} {ctx : CheckContext} {asset : String}

theorem entry_of_review {candidates : List String} {entries : List AccessReviewEntry}
    (h : reviewAssetAccess g asset ctx candidates = .ok entries) {e : AccessReviewEntry}
    (he : e ∈ entries) :
    e.subject ∈ candidates ∧ ∃ base grant,
      evaluate g asset relCanOpenSession e.subject ctx = .ok base ∧ base.allowed = true ∧
      evaluate g asset relHasActiveGrant e.subject ctx = .ok grant ∧
      e.origins = classifyBaseOrigin base.justification :: if grant.allowed then [.grant] else [] := by
  induction candidates generalizing entries with
  | nil =>
    obtain rfl := Except.ok.inj h
    cases he
  | cons subject subjects ih =>
    have hlater {rest : List AccessReviewEntry}
        (hrest : reviewAssetAccess g asset ctx subjects = .ok rest) (hmem : e ∈ rest) := ih hrest hmem
    rw [reviewAssetAccess] at h
    obtain ⟨base, hbase, h⟩ := bind_eq_ok.mp h
    cases hallowed : base.allowed with
    | false =>
      rw [hallowed] at h
      obtain ⟨hmem, hentry⟩ := hlater h he
      exact ⟨List.mem_cons_of_mem subject hmem, hentry⟩
    | true =>
      rw [hallowed] at h
      obtain ⟨grant, hgrant, h⟩ := bind_eq_ok.mp h
      obtain ⟨rest, hrest, h⟩ := bind_eq_ok.mp h
      obtain rfl := Except.ok.inj h
      rcases List.mem_cons.mp he with rfl | he
      · exact ⟨List.mem_cons_self, base, grant, hbase, hallowed, hgrant, rfl⟩
      · obtain ⟨hmem, hentry⟩ := hlater hrest he
        exact ⟨List.mem_cons_of_mem subject hmem, hentry⟩

theorem review_of_related {candidates : List String} {entries : List AccessReviewEntry}
    (h : reviewAssetAccess g asset ctx candidates = .ok entries) {m : String} (hm : m ∈ candidates)
    (hrelated : Related g ctx m asset relCanOpenSession) : ∃ e ∈ entries, e.subject = m := by
  induction candidates generalizing entries with
  | nil => cases hm
  | cons subject subjects ih =>
    rw [reviewAssetAccess] at h
    obtain ⟨base, hbase, h⟩ := bind_eq_ok.mp h
    cases hallowed : base.allowed with
    | false =>
      rw [hallowed] at h
      rcases List.mem_cons.mp hm with rfl | hm
      · rw [(evaluate_ok_iff hbase).mpr hrelated] at hallowed
        cases hallowed
      · exact ih h hm
    | true =>
      rw [hallowed] at h
      obtain ⟨grant, -, h⟩ := bind_eq_ok.mp h
      obtain ⟨rest, hrest, h⟩ := bind_eq_ok.mp h
      obtain rfl := Except.ok.inj h
      rcases List.mem_cons.mp hm with rfl | hm
      · exact ⟨_, List.mem_cons_self, rfl⟩
      · obtain ⟨e, he, hsubject⟩ := ih hrest hm
        exact ⟨e, List.mem_cons_of_mem _ he, hsubject⟩

theorem base_iff {user : String} {d : Decision}
    (h : evaluate g asset relCanOpenSession user ctx = .ok d) (hallowed : d.allowed = true) :
    ((classifyBaseOrigin d.justification = .direct ↔ DirectAccess g ctx asset user) ∧
      (classifyBaseOrigin d.justification = .inherited ↔ InheritedAccess g ctx asset user)) ↔
      OneOrigin g ctx asset user := by
  rcases justification_eq h hallowed with ⟨sub, rel, hrel, hsub, hwhy⟩ | ⟨hinherited, ref, hwhy⟩
  · have hdirect := direct_of_grantingSubject hsub
    rw [hwhy, classify_directWhy hrel]
    split_ifs with hhop
    -- a group's reference that looks like a hop hides that the access is direct
    · constructor
      · intro hbase
        cases hbase.1.mpr hdirect
      · intro hone
        exact absurd hhop.2 (hone.named sub hsub hhop.1)
    · constructor
      · intro hbase
        refine ⟨fun hboth => ?_, ?_⟩
        · cases hbase.2.mpr hboth.2
        · intro sub' hsub' hset
          rw [hsub] at hsub'
          obtain rfl := Option.some.inj hsub'
          exact fun hlooks => hhop ⟨hset, hlooks⟩
      · intro hone
        simp only [true_iff, false_iff]
        exact ⟨hdirect, fun hinherited => hone.single ⟨hdirect, hinherited⟩⟩
  · rw [hwhy, classify_hop]
    simp only [reduceCtorEq, false_iff, true_iff]
    constructor
    · rintro ⟨hdirect, -⟩
      exact ⟨fun hboth => hdirect hboth.1,
        fun sub hsub => absurd (direct_of_grantingSubject hsub) hdirect⟩
    · intro hone
      exact ⟨fun hdirect => hone.single ⟨hdirect, hinherited⟩, hinherited⟩

theorem truthful_iff {candidates : List String} {entries : List AccessReviewEntry}
    (h : reviewAssetAccess g asset ctx candidates = .ok entries) {e : AccessReviewEntry}
    (he : e ∈ entries) : Truthful g ctx asset e ↔ OneOrigin g ctx asset e.subject := by
  obtain ⟨-, base, grant, hbase, hallowed, hgrant, horigins⟩ := entry_of_review h he
  rw [← base_iff hbase hallowed]
  have hbaseOrigin : classifyBaseOrigin base.justification ≠ .grant := by
    unfold classifyBaseOrigin
    split_ifs <;> simp
  have hbaseMem (o : AccessOrigin) (ho : o ≠ .grant) :
      o ∈ e.origins ↔ classifyBaseOrigin base.justification = o := by
    rw [horigins]
    split_ifs <;> simp [ho, eq_comm]
  have hgrantMem : .grant ∈ e.origins ↔ HasGrant g ctx asset e.subject := by
    rw [horigins, HasGrant, hgrant]
    simp [hbaseOrigin.symm]
  constructor
  · rintro ⟨hdirect, hinherited, -⟩
    rw [← hdirect, ← hinherited, hbaseMem .direct (by decide), hbaseMem .inherited (by decide)]
    exact ⟨Iff.rfl, Iff.rfl⟩
  · rintro ⟨hdirect, hinherited⟩
    exact ⟨(hbaseMem .direct (by decide)).trans hdirect,
      (hbaseMem .inherited (by decide)).trans hinherited, hgrantMem⟩

/-- The entries of a review are truthful exactly if whoever has access has it from one origin, and no
group it comes through is named like a hop. -/
theorem origins_truthful_iff {candidates : List String} {entries : List AccessReviewEntry}
    (h : reviewAssetAccess g asset ctx candidates = .ok entries) :
    (∀ e ∈ entries, Truthful g ctx asset e) ↔
      ∀ m ∈ candidates, Related g ctx m asset relCanOpenSession → OneOrigin g ctx asset m := by
  constructor
  · intro hall m hm hrelated
    obtain ⟨e, he, rfl⟩ := review_of_related h hm hrelated
    exact (truthful_iff h he).mp (hall e he)
  · intro hall e he
    obtain ⟨hmem, base, grant, hbase, hallowed, -⟩ := entry_of_review h he
    exact (truthful_iff h he).mpr (hall e.subject hmem ((evaluate_ok_iff hbase).mp hallowed))

end Entries

section Meaning

variable {g : GraphReader} {ctx : CheckContext} {asset user object relation : String}

/-- The rules of the model, read in both directions. -/
theorem related_iff_holds : Related g ctx user object relation ↔
    ∃ rw, rewriteOf object relation = some rw ∧
      Holds g ctx user (fun goal => Related g ctx user goal.1 goal.2) object relation rw := by
  rw [Related, ← (rules g ctx user).map_lfp]
  rfl

theorem canOpenSession_iff (htype : refType asset = ObjectType.asset.text) :
    Related g ctx user asset relCanOpenSession ↔
      DirectAccess g ctx asset user ∨ InheritedAccess g ctx asset user := by
  obtain ⟨hoperator, howner, hopen, -⟩ := rewriteOf_asset htype
  have hsubject (rel : String) : (∃ sub ∈ g asset rel, ThroughSubject g ctx user sub) ↔
      Holds g ctx user (fun goal => Related g ctx user goal.1 goal.2) asset rel direct := by
    simp only [direct, Holds, evalCondition, ↓reduceIte, true_and, ThroughSubject]
    apply exists_congr
    intro sub
    rw [or_comm]
  have hoperators : Related g ctx user asset relOperator ↔
      (∃ sub ∈ g asset relOperator, ThroughSubject g ctx user sub) ∨
        InheritedAccess g ctx asset user := by
    rw [related_iff_holds, hoperator, hsubject]
    simp [Holds, HoldsAny, InheritedAccess]
  have howners : Related g ctx user asset relOwner ↔
      ∃ sub ∈ g asset relOwner, ThroughSubject g ctx user sub := by
    rw [related_iff_holds, howner, hsubject]
    simp
  calc Related g ctx user asset relCanOpenSession
      ↔ Related g ctx user asset relOperator ∨ Related g ctx user asset relOwner := by
        rw [related_iff_holds, hopen]
        simp [Holds, HoldsAny]
    _ ↔ DirectAccess g ctx asset user ∨ InheritedAccess g ctx asset user := by
        rw [hoperators, howners, DirectAccess]
        simp only [List.mem_cons, List.not_mem_nil, or_false, exists_eq_or_imp, exists_eq_left]
        exact or_right_comm

/-- A privileged session is open exactly to who may open a session, by a tuple on the asset or a
group above it, and holds a grant on the asset itself whose window is open. -/
theorem privileged_session_iff {d : Decision} (htype : refType asset = ObjectType.asset.text)
    (h : evaluate g asset relCanOpenPrivilegedSession user ctx = .ok d) :
    d.allowed = true ↔ (DirectAccess g ctx asset user ∨ InheritedAccess g ctx asset user) ∧
      ∃ sub ∈ g asset relHasActiveGrant, ThroughSubject g ctx user sub ∧
        ∃ w, sub.window = some w ∧ w.contains ctx.evaluatedAt = true := by
  obtain ⟨-, -, -, hgrant, hprivileged⟩ := rewriteOf_asset htype
  have hactive : Related g ctx user asset relHasActiveGrant ↔
      ∃ sub ∈ g asset relHasActiveGrant, ThroughSubject g ctx user sub ∧
        ∃ w, sub.window = some w ∧ w.contains ctx.evaluatedAt = true := by
    rw [related_iff_holds, hgrant]
    simp only [directCond, Option.some.injEq, exists_eq_left', Holds, ThroughSubject]
    refine exists_congr fun sub => and_congr_right fun _ => ?_
    rw [and_comm, or_comm, evalCondition_window]
  rw [evaluate_ok_iff h, related_iff_holds, hprivileged, ← canOpenSession_iff htype, ← hactive]
  simp only [Option.some.injEq, exists_eq_left', Holds, HoldsAll, and_true]

end Meaning

namespace Sample

/-- The member owns the asset and operates the group it belongs to. -/
def owned : GraphReader := memoryGraph [
  ⟨⟨member, relOwner, asset⟩, none⟩,
  ⟨⟨"org:o1/asset_group:g1", relParent, asset⟩, none⟩,
  ⟨⟨member, relOperator, "org:o1/asset_group:g1"⟩, none⟩]

/-- The owner of the asset holds a grant on it until 10. -/
def granted : GraphReader := memoryGraph [
  ⟨⟨member, relOwner, asset⟩, none⟩,
  ⟨⟨member, relHasActiveGrant, asset⟩, some ⟨0, 10⟩⟩]

def inheritedEntry : AccessReviewEntry :=
  ⟨member, [.inherited], "can_open_session via operator from parent org:o1/asset_group:g1"⟩

end Sample

theorem privileged_session_granted :
    (DirectAccess Sample.granted ⟨5⟩ Sample.asset Sample.member ∨
        InheritedAccess Sample.granted ⟨5⟩ Sample.asset Sample.member) ∧
      ∃ sub ∈ Sample.granted Sample.asset relHasActiveGrant,
        ThroughSubject Sample.granted ⟨5⟩ Sample.member sub ∧
          ∃ w, sub.window = some w ∧ w.contains (5 : Time) = true := by
  have h : evaluate Sample.granted Sample.asset relCanOpenPrivilegedSession Sample.member ⟨5⟩ =
      .ok ⟨true, "can_open_privileged_session = can_open_privileged_session via " ++
        "can_open_session via owner direto ∧ " ++
        "can_open_privileged_session via has_active_grant direto"⟩ := by
    decide +kernel
  exact (privileged_session_iff rfl h).mp rfl

theorem owned_review :
    reviewAssetAccess Sample.owned Sample.asset ⟨0⟩ [Sample.member] = .ok [Sample.inheritedEntry] := by
  decide

/-- The review does not say that the owner has direct access. -/
theorem owner_listed_as_inherited :
    reviewAssetAccess Sample.owned Sample.asset ⟨0⟩ [Sample.member] = .ok [Sample.inheritedEntry] ∧
      DirectAccess Sample.owned ⟨0⟩ Sample.asset Sample.member ∧
      ¬Truthful Sample.owned ⟨0⟩ Sample.asset Sample.inheritedEntry := by
  have howner : ⟨Sample.member, none⟩ ∈ Sample.owned Sample.asset relOwner := by decide +kernel
  have hplain : splitUserset Sample.member = none := by decide +kernel
  have hdirect : DirectAccess Sample.owned ⟨0⟩ Sample.asset Sample.member :=
    ⟨relOwner, List.mem_cons_of_mem _ List.mem_cons_self, _, howner, Or.inl ⟨hplain, rfl⟩⟩
  refine ⟨owned_review, hdirect, fun htruthful => ?_⟩
  have hmem := htruthful.direct.mpr hdirect
  exact absurd hmem (by decide)

theorem origins_truthful_iff_owned :
    (∀ e ∈ [Sample.inheritedEntry], Truthful Sample.owned ⟨0⟩ Sample.asset e) ↔
      ∀ m ∈ [Sample.member], Related Sample.owned ⟨0⟩ m Sample.asset relCanOpenSession →
        OneOrigin Sample.owned ⟨0⟩ Sample.asset m :=
  origins_truthful_iff owned_review

end ArchGuard.Authz
