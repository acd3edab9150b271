import ArchGuard.AuthzCorrect
import ArchGuard.AuthzRebuilt

/-! One pass of the reconciler over a tenant's tuples: what it removes, what it reports, and that it
gives no access that was not there. -/
namespace ArchGuard.Authz

structure ReconcileReport where
  removed : List RelationTuple
  missingAlerted : List RelationTuple
  deriving DecidableEq

def ReconcileReport.diverged (r : ReconcileReport) : Bool :=
  0 < r.removed.length || 0 < r.missingAlerted.length

/-- `DELETE FROM authz_tuple`, of one tuple of an organization. -/
def deleteTuple (org : Uuid) (store : List StoredTuple) (t : RelationTuple) : List StoredTuple :=
  store.filter fun x => !(x.row.organizationId = org && x.tuple = t)

/-- `Reconcile`: the extra tuples are deleted one after the other, in one transaction. -/
def reconcile (store : List StoredTuple) (org : Uuid) (expected : List RelationTuple) :
    List StoredTuple × ReconcileReport :=
  let diff := reconcileDiff expected (loadTenantTuples store org)
  (diff.1.foldl (deleteTuple org) store, ⟨diff.1, diff.2⟩)

/-- No field contains U+0000, which a text column has not. -/
def RelationTuple.NulFree (t : RelationTuple) : Prop :=
  '\x00' ∉ t.user.toList ∧ '\x00' ∉ t.relation.toList ∧ '\x00' ∉ t.object.toList

def LastOfKey (ts : List RelationTuple) (t : RelationTuple) : Prop :=
  ∃ before after, ts = before ++ t :: after ∧ ∀ u ∈ after, tupleKey u ≠ tupleKey t

section Keys

variable {ts expected actual : List RelationTuple} {t u : RelationTuple}

theorem toList_tupleKey (t : RelationTuple) : (tupleKey t).toList =
    t.user.toList ++ '\x00' :: (t.relation.toList ++ '\x00' :: t.object.toList) := by
  simp only [tupleKey, String.toList_append, List.append_assoc]
  rfl

theorem RelationTuple.NulFree.eq_of_key (ht : t.NulFree) (h : tupleKey u = tupleKey t) : u = t := by
  have hlist := congrArg String.toList h
  rw [toList_tupleKey, toList_tupleKey] at hlist
  obtain ⟨huser, hrelation, hobject⟩ := ht
  have hcount := congrArg (List.count '\x00') hlist
  simp only [List.count_append, List.count_cons_self, List.count_eq_zero_of_not_mem huser,
    List.count_eq_zero_of_not_mem hrelation, List.count_eq_zero_of_not_mem hobject] at hcount
  have huser' : '\x00' ∉ u.user.toList := by
    rw [← List.count_eq_zero]
    omega
  have hrelation' : '\x00' ∉ u.relation.toList := by
    rw [← List.count_eq_zero]
    omega
  obtain ⟨hu, hrest⟩ := cut_first_inj huser' huser hlist
  obtain ⟨hr, ho⟩ := cut_first_inj hrelation' hrelation hrest
  cases t
  cases u
  rw [RelationTuple.mk.injEq]
  exact ⟨String.toList_inj.mp hu, String.toList_inj.mp hr, String.toList_inj.mp ho⟩

theorem mem_byKey_iff_last : t ∈ byKey ts ↔ LastOfKey ts t := by
  induction ts using List.reverseRecOn with
  | nil =>
    constructor
    · intro h
      cases h
    · rintro ⟨before, after, h, -⟩
      simp at h
  | append_singleton ts x ih =>
    rw [byKey, List.foldl_append, ← byKey]
    simp only [List.foldl_cons, List.foldl_nil, List.mem_append, List.mem_filter, ih,
      decide_eq_true_eq, List.mem_singleton]
    constructor
    · rintro (⟨⟨before, after, rfl, hafter⟩, hne⟩ | rfl)
      · refine ⟨before, after ++ [x], by simp, ?_⟩
        intro u hu
        rcases List.mem_append.mp hu with hu | hu
        · exact hafter u hu
        · rw [List.mem_singleton.mp hu]
          exact hne.symm
      · exact ⟨ts, [], rfl, by simp⟩
    · rintro ⟨before, after, h, hafter⟩
      rcases List.eq_nil_or_concat after with rfl | ⟨after, y, rfl⟩
      · exact Or.inr (List.append_inj_right' h rfl |> List.cons.inj |>.1).symm
      · have hsplit : ts ++ [x] = (before ++ t :: after) ++ [y] := by simpa using h
        obtain ⟨hts, hx⟩ := List.append_inj' hsplit rfl
        obtain rfl := (List.cons.inj hx).1
        refine Or.inl ⟨⟨before, after, hts, fun u hu => hafter u (by simp [hu])⟩, ?_⟩
        exact (hafter x (by simp)).symm

theorem mem_extra : t ∈ (reconcileDiff expected actual).1 ↔
    LastOfKey actual t ∧ ∀ x ∈ expected, tupleKey x ≠ tupleKey t := by
  simp [reconcileDiff, sortTuples, mem_byKey_iff_last]

theorem mem_missing : t ∈ (reconcileDiff expected actual).2 ↔
    LastOfKey expected t ∧ ∀ x ∈ actual, tupleKey x ≠ tupleKey t := by
  simp [reconcileDiff, sortTuples, mem_byKey_iff_last]

theorem LastOfKey.mem (h : LastOfKey ts t) : t ∈ ts := mem_of_mem_byKey (mem_byKey_iff_last.mpr h)

theorem RelationTuple.NulFree.last_iff (ht : t.NulFree) : LastOfKey ts t ↔ t ∈ ts := by
  constructor
  · exact LastOfKey.mem
  · intro h
    obtain ⟨u, hu, hkey⟩ := exists_mem_byKey h
    rw [← ht.eq_of_key hkey]
    exact mem_byKey_iff_last.mp hu

theorem RelationTuple.NulFree.not_mem_iff (ht : t.NulFree) :
    (∀ x ∈ ts, tupleKey x ≠ tupleKey t) ↔ t ∉ ts := by
  constructor
  · intro h hmem
    exact h t hmem rfl
  · intro h x hx hkey
    exact h (ht.eq_of_key hkey ▸ hx)

end Keys

section Giving

variable {ctx : CheckContext} {user : String} {resolve : (object relation : String) → Answer}
  {object relation : String} {g : GraphReader}

/-- The recursive calls fail with nothing but the depth limit. -/
def DepthOnly (resolve : (object relation : String) → Answer) : Prop :=
  ∀ obj rel e, resolve obj rel = .error e → e = .resolveDepth

theorem directAnswer_error (hR : DepthOnly resolve) {condition : String} {e : AuthzError}
    {subs : List GraphSubject}
    (h : directAnswer ctx user resolve relation condition subs = .error e) : e = .resolveDepth := by
  induction subs with
  | nil => cases h
  | cons sub subs ih =>
    unfold directAnswer at h
    split at h
    · exact ih h
    split at h
    · split at h
      · rename_i hrec
        exact hR _ _ e (hrec.trans (congrArg Except.error (Except.error.inj h)))
      · cases h
      · exact ih h
    · split_ifs at h
      exact ih h

theorem ttuAnswer_error (hR : DepthOnly resolve) {tupleset rel : String} {e : AuthzError}
    {subs : List GraphSubject} (h : ttuAnswer resolve tupleset rel subs = .error e) :
    e = .resolveDepth := by
  induction subs with
  | nil => cases h
  | cons sub subs ih =>
    unfold ttuAnswer at h
    split at h
    · exact ih h
    · split at h
      · rename_i hrec
        exact hR _ _ e (hrec.trans (congrArg Except.error (Except.error.inj h)))
      · cases h
      · exact ih h

mutual

theorem applyRewrite_error (hR : DepthOnly resolve) : ∀ {rw : Rewrite} {e : AuthzError},
    applyRewrite g ctx user resolve object relation rw = .error e → e = .resolveDepth
  | .this _, _, h => directAnswer_error hR h
  | .computed rel, e, h => by
    simp only [applyRewrite] at h
    split at h <;> cases h
    rename_i hrec
    exact hR object rel e hrec
  | .ttu _ _, _, h => ttuAnswer_error hR h
  | .union _, _, h => applyUnion_error hR h
  | .intersection _, _, h => applyIntersection_error hR h

theorem applyUnion_error (hR : DepthOnly resolve) : ∀ {rws : List Rewrite} {e : AuthzError},
    applyUnion g ctx user resolve object relation rws = .error e → e = .resolveDepth
  | [], _, h => by cases h
  | _ :: _, _, h => by
    simp only [applyUnion] at h
    split at h
    · rename_i hchild
      cases h
      exact applyRewrite_error hR hchild
    · cases h
    · exact applyUnion_error hR h

theorem applyIntersection_error (hR : DepthOnly resolve) :
    ∀ {rws : List Rewrite} {reasons : List String} {e : AuthzError},
    applyIntersection g ctx user resolve object relation rws reasons = .error e → e = .resolveDepth
  | [], _, _, h => by cases h
  | _ :: _, _, _, h => by
    simp only [applyIntersection] at h
    split at h
    · rename_i hchild
      cases h
      exact applyRewrite_error hR hchild
    · cases h
    · exact applyIntersection_error hR h

end

theorem resolve_error (n : ℕ) (visiting : List String) :
    DepthOnly (Authz.resolve g ctx user n visiting) := by
  induction n generalizing visiting with
  | zero =>
    intro obj rel e h
    exact (Except.error.inj h).symm
  | succ n ih =>
    intro obj rel e h
    unfold Authz.resolve at h
    split at h
    · cases h
    split at h
    · cases h
    · exact applyRewrite_error (ih _) h

theorem evaluate_error {e : AuthzError} (h : evaluate g object relation user ctx = .error e) :
    e = .resolveDepth := by
  unfold evaluate at h
  split at h
  · rename_i hres
    cases h
    exact resolve_error _ _ object relation e hres
  · cases h
  · cases h

theorem allowed_of_fewer {g' : GraphReader} (hg : ∀ o r, g' o r ⊆ g o r) {d' : Decision}
    (h : evaluate g' object relation user ctx = .ok d') (hd : d'.allowed = true) :
    Related g ctx user object relation ∧
      ((∃ d, evaluate g object relation user ctx = .ok d ∧ d.allowed = true) ∨
        evaluate g object relation user ctx = .error .resolveDepth) := by
  have hrelated : Related g ctx user object relation := ((evaluate_ok_iff h).mp hd).mono hg
  refine ⟨hrelated, ?_⟩
  cases heval : evaluate g object relation user ctx with
  | ok d => exact Or.inl ⟨d, rfl, (evaluate_ok_iff heval).mpr hrelated⟩
  | error e => exact Or.inr (congrArg Except.error (evaluate_error heval))

end Giving

section Pass

variable {store : List StoredTuple} {org : Uuid} {expected : List RelationTuple}

theorem foldl_deleteTuple (extra : List RelationTuple) (store : List StoredTuple) :
    extra.foldl (deleteTuple org) store =
      store.filter fun x => !(x.row.organizationId = org && x.tuple ∈ extra) := by
  induction extra generalizing store with
  | nil => simp
  | cons t extra ih =>
    rw [List.foldl_cons, ih, deleteTuple, List.filter_filter]
    apply List.filter_congr
    intro x _
    by_cases horg : x.row.organizationId = org <;> by_cases ht : x.tuple = t <;> simp [horg, ht]

theorem mem_loadTenantTuples_iff {t : RelationTuple} : t ∈ loadTenantTuples store org ↔
    ∃ x ∈ store, x.row.organizationId = org ∧ x.tuple = t := by
  simp only [loadTenantTuples, List.mem_map, List.mem_filter, decide_eq_true_eq, and_assoc]

theorem mem_removed (hstore : ∀ x ∈ store, x.tuple.NulFree) {t : RelationTuple} :
    t ∈ (reconcile store org expected).2.removed ↔
      t ∈ loadTenantTuples store org ∧ t ∉ expected := by
  rw [reconcile, mem_extra]
  constructor
  · rintro ⟨hlast, hexp⟩
    exact ⟨hlast.mem, fun h => hexp t h rfl⟩
  · rintro ⟨hload, hexp⟩
    obtain ⟨x, hx, -, rfl⟩ := mem_loadTenantTuples_iff.mp hload
    exact ⟨(hstore x hx).last_iff.mpr hload, (hstore x hx).not_mem_iff.mpr hexp⟩

theorem reconcile_store (hstore : ∀ x ∈ store, x.tuple.NulFree) :
    (reconcile store org expected).1 =
      store.filter fun x => !(x.row.organizationId = org && x.tuple ∉ expected) := by
  rw [reconcile, foldl_deleteTuple]
  apply List.filter_congr
  intro x hx
  have hremoved : x.tuple ∈ (reconcile store org expected).2.removed ↔
      x.tuple ∈ loadTenantTuples store org ∧ x.tuple ∉ expected := mem_removed hstore
  by_cases horg : x.row.organizationId = org
  · have hload : x.tuple ∈ loadTenantTuples store org := mem_loadTenantTuples_iff.mpr ⟨x, hx, horg, rfl⟩
    rw [reconcile] at hremoved
    simp [horg, hremoved, hload]
  · simp [horg]

theorem loadTenantGraph_filter (keep : StoredTuple → Bool) (o : Uuid) (object relation : String) :
    loadTenantGraph (store.filter keep) o object relation ⊆ loadTenantGraph store o object relation := by
  intro sub hsub
  change sub ∈ graphOf _ object relation at hsub
  change sub ∈ graphOf _ object relation
  rw [mem_graphOf] at hsub ⊢
  obtain ⟨x, hx, hkey, hsub⟩ := hsub
  obtain ⟨hkept, horg⟩ := List.mem_filter.mp hx
  exact ⟨x, List.mem_filter.mpr ⟨List.mem_of_mem_filter hkept, horg⟩, hkey, hsub⟩

/-- A pass removes exactly what is not expected, reports exactly what is missing, and allows nothing
that the tuples before it did not give. -/
theorem reconcile_exact (hstore : ∀ x ∈ store, x.tuple.NulFree) :
    let pass := reconcile store org expected
    (∀ t, t ∈ pass.2.removed ↔ t ∈ loadTenantTuples store org ∧ t ∉ expected) ∧
    pass.1 = (store.filter fun x => !(x.row.organizationId = org && x.tuple ∉ expected)) ∧
    (∀ t, t ∈ pass.2.missingAlerted ↔
      LastOfKey expected t ∧ ∀ x ∈ loadTenantTuples store org, tupleKey x ≠ tupleKey t) ∧
    (∀ t : RelationTuple, t.NulFree → (t ∈ pass.2.missingAlerted ↔
      t ∈ expected ∧ t ∉ loadTenantTuples store org)) ∧
    ∀ o user relation object at' d', evaluate (loadTenantGraph pass.1 o) object relation user ⟨at'⟩ = .ok d' →
      d'.allowed = true → Related (loadTenantGraph store o) ⟨at'⟩ user object relation ∧
        ((∃ d, evaluate (loadTenantGraph store o) object relation user ⟨at'⟩ = .ok d ∧ d.allowed = true) ∨
          evaluate (loadTenantGraph store o) object relation user ⟨at'⟩ = .error .resolveDepth) := by
  refine ⟨fun t => mem_removed hstore, reconcile_store hstore, fun t => mem_missing, ?_, ?_⟩
  · intro t ht
    rw [reconcile, mem_missing, ht.last_iff, ht.not_mem_iff]
  · intro o user relation object at' d' heval hallowed
    rw [reconcile, foldl_deleteTuple] at heval
    exact allowed_of_fewer (loadTenantGraph_filter _ o) heval hallowed

end Pass

section Nesting

def nestedGroup (i : ℕ) : String := qualify 1 .group (Uuid.text (BitVec.ofNat 128 i))

def nesting (i : ℕ) : StoredTuple :=
  ⟨⟨qualifyUserset 1 .group (Uuid.text (BitVec.ofNat 128 (i+1))) relMember, relMember, nestedGroup i⟩,
    ⟨1, none⟩⟩

def nestedMember : StoredTuple :=
  ⟨⟨qualify 1 .membership (Uuid.text 5), relMember, nestedGroup 0⟩, ⟨1, none⟩⟩

/-- A member of the outermost of 129 nested groups. -/
def nestedStore : List StoredTuple := (List.range 128).map nesting ++ [nestedMember]

theorem nestedGroup_inj {i j : ℕ} (hi : i ≤ 128) (hj : j ≤ 128) (h : nestedGroup i = nestedGroup j) :
    i = j := by
  have huuid := Uuid.text_injective (qualify_inj h)
  have hnat := congrArg BitVec.toNat huuid
  rw [BitVec.toNat_ofNat, BitVec.toNat_ofNat, Nat.mod_eq_of_lt (by omega),
    Nat.mod_eq_of_lt (by omega)] at hnat
  exact hnat

theorem loadTenantGraph_eq (store : List StoredTuple) (org : Uuid) (object relation : String) :
    loadTenantGraph store org object relation =
      ((store.filter fun x => x.row.organizationId = org).filter fun x =>
        memKey x.tuple.object x.tuple.relation = memKey object relation).map
          fun x => ⟨x.tuple.user, x.window⟩ := by
  rw [loadTenantGraph, memoryGraph, List.filter_map, List.map_map]
  rfl

theorem nesting_key_iff {i j : ℕ} (hi : i < 128) (hj : j < 128) :
    memKey (nesting j).tuple.object (nesting j).tuple.relation = memKey (nestedGroup i) relMember ↔
      j = i := by
  constructor
  · intro h
    have hnul : '\x00' ∉ relMember.toList := by decide
    have hname : nestedGroup j = nestedGroup i := (memKey_inj hnul hnul h).1
    exact nestedGroup_inj (by omega) (by omega) hname
  · rintro rfl
    rfl

theorem nested_subjects {i : ℕ} (hi : i < 128) :
    ∃ rest, loadTenantGraph nestedStore 1 (nestedGroup i) relMember =
      ⟨(nesting i).tuple.user, none⟩ :: rest := by
  have horg : nestedStore.filter (fun x => x.row.organizationId = 1) = nestedStore := by
    apply List.filter_eq_self.mpr
    intro x hx
    rcases List.mem_append.mp hx with hx | hx
    · obtain ⟨j, -, rfl⟩ := List.mem_map.mp hx
      rfl
    · rw [List.mem_singleton.mp hx]
      rfl
  -- of the nestings, only the one of the group itself
  have hnesting : ((List.range 128).map nesting).filter (fun x =>
      memKey x.tuple.object x.tuple.relation = memKey (nestedGroup i) relMember) = [nesting i] := by
    have hkey : ∀ j ∈ List.range 128, ((fun x : StoredTuple =>
        decide (memKey x.tuple.object x.tuple.relation = memKey (nestedGroup i) relMember)) ∘
          nesting) j = (j == i) := by
      intro j hj
      rw [Function.comp_apply, Bool.eq_iff_iff, decide_eq_true_eq, beq_iff_eq]
      exact nesting_key_iff hi (List.mem_range.mp hj)
    have hcount : (List.range 128).count i = 1 :=
      List.count_eq_one_of_mem List.nodup_range (List.mem_range.mpr hi)
    rw [List.filter_map, List.filter_congr hkey, List.filter_beq, hcount, List.replicate_one,
      List.map_singleton]
  rw [loadTenantGraph_eq, horg, nestedStore, List.filter_append, hnesting, List.map_append]
  exact ⟨_, List.singleton_append⟩

theorem splitUserset_nesting (i : ℕ) :
    splitUserset (nesting i).tuple.user = some (nestedGroup (i+1), relMember) := by
  have hstrip : stripUserset (nesting i).tuple.user = (nestedGroup (i+1)).toList :=
    stripUserset_userset 1 .group _ relMember
  have hlist : (nesting i).tuple.user.toList =
      (nestedGroup (i+1)).toList ++ '#' :: relMember.toList := by
    simp only [nesting, nestedGroup, qualifyUserset, String.toList_append, List.append_assoc]
    rfl
  have hdrop : (nesting i).tuple.user.toList.dropWhile (· ≠ '#') = '#' :: relMember.toList := by
    rw [stripUserset] at hstrip
    have hwhole := List.takeWhile_append_dropWhile (p := (· ≠ '#'))
      (l := (nesting i).tuple.user.toList)
    rw [hstrip, hlist] at hwhole
    rw [hlist]
    exact List.append_cancel_left hwhole
  rw [splitUserset, if_pos (by rw [hlist]; simp), hstrip, hdrop, String.ofList_toList]
  rfl

theorem resolve_nested (ctx : CheckContext) (user : String) (fuel : ℕ) :
    ∀ i visiting, i + fuel = 128 → (∀ j, i ≤ j → j ≤ 128 → visitKey (nestedGroup j) relMember ∉ visiting) →
      resolve (loadTenantGraph nestedStore 1) ctx user fuel visiting (nestedGroup i) relMember =
        .error .resolveDepth := by
  induction fuel with
  | zero =>
    intro i visiting _ _
    rw [resolve]
  | succ fuel ih =>
    intro i visiting hi hvisiting
    have hi128 : i ≤ 128 := by omega
    have hrewrite : rewriteOf (nestedGroup i) relMember = some direct := by
      unfold rewriteOf
      rw [nestedGroup, refType_qualify]
      rfl
    obtain ⟨rest, hrest⟩ := nested_subjects (i := i) (by omega)
    have hrec := ih (i+1) (visitKey (nestedGroup i) relMember :: visiting) (by omega) (by
      intro j hj hj128 hmem
      rcases List.mem_cons.mp hmem with hkey | hmem
      · have hname := (visitKey_inj (by decide) (by decide) hkey).1
        have := nestedGroup_inj hj128 hi128 hname
        omega
      · exact hvisiting j (by omega) hj128 hmem)
    rw [resolve, if_neg (hvisiting i le_rfl (by omega)), hrewrite]
    simp only [direct, applyRewrite, hrest, directAnswer, evalCondition, splitUserset_nesting,
      hrec, ↓reduceIte,
      Bool.not_true, Bool.false_eq_true]

theorem nestedStore_nulFree : ∀ x ∈ nestedStore, x.tuple.NulFree := by
  have huserset (i : ℕ) : '\x00' ∉ (nesting i).tuple.user.toList := by
    simp only [nesting, qualifyUserset, String.toList_append, List.mem_append, not_or]
    exact ⟨⟨qualify_no_nul 1 .group _, by decide⟩, by decide⟩
  intro x hx
  rcases List.mem_append.mp hx with hx | hx
  · obtain ⟨i, -, rfl⟩ := List.mem_map.mp hx
    exact ⟨huserset i, (by decide : '\x00' ∉ relMember.toList), qualify_no_nul 1 .group _⟩
  · rw [List.mem_singleton.mp hx]
    exact ⟨qualify_no_nul 1 .membership _, (by decide : '\x00' ∉ relMember.toList),
      qualify_no_nul 1 .group _⟩

theorem nestedStore_reconciled :
    (reconcile nestedStore 1 [nestedMember.tuple]).1 = [nestedMember] := by
  have hextra (i : ℕ) : (nesting i).tuple ≠ nestedMember.tuple := by
    intro h
    have huser : splitUserset (nesting i).tuple.user = none := by
      rw [h]
      exact splitUserset_qualify 1 .membership 5
    rw [splitUserset_nesting] at huser
    cases huser
  rw [reconcile_store nestedStore_nulFree, nestedStore, List.filter_append, List.filter_map,
    List.filter_eq_nil_iff.mpr]
  · rfl
  · intro i _
    have horg : decide ((nesting i).row.organizationId = 1) = true := rfl
    have hmem : decide ((nesting i).tuple ∉ [nestedMember.tuple]) = true :=
      decide_eq_true fun h => hextra i (List.mem_singleton.mp h)
    rw [Function.comp_apply, horg, hmem]
    decide

/-- After the groups within are gone the search comes to an end, and of two expected tuples with one
key only the later is missed. -/
theorem reconcile_frees_search :
    let pass := reconcile nestedStore 1 [nestedMember.tuple]
    evaluate (loadTenantGraph nestedStore 1) (nestedGroup 0) relMember nestedMember.tuple.user ⟨0⟩ =
        .error .resolveDepth ∧
      evaluate (loadTenantGraph pass.1 1) (nestedGroup 0) relMember nestedMember.tuple.user ⟨0⟩ =
        .ok ⟨true, "member direto"⟩ ∧
      (reconcile [] 1 [⟨"a\x00b", "c", "d"⟩, ⟨"a", "b\x00c", "d"⟩]).2.missingAlerted =
        [⟨"a", "b\x00c", "d"⟩] := by
  refine ⟨?_, ?_, by decide +kernel⟩
  · have hdepth := resolve_nested ⟨0⟩ nestedMember.tuple.user 128 0 [] rfl
      fun _ _ _ => List.not_mem_nil
    rw [evaluate, maxResolveDepth, hdepth]
  · rw [nestedStore_reconciled]
    decide +kernel

theorem reconcile_exact_nested :
    (reconcile nestedStore 1 [nestedMember.tuple]).1 =
      nestedStore.filter fun x => !(x.row.organizationId = 1 && x.tuple ∉ [nestedMember.tuple]) :=
  (reconcile_exact nestedStore_nulFree).2.1

end Nesting

end ArchGuard.Authz
