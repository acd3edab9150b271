import ArchGuard.AuthzCorrect
import Mathlib.Data.List.TakeWhile

/-! Tenant isolation of the resolver: no derivation leaves the tenant of its tuples. -/
namespace ArchGuard.Authz

theorem sameTenant_iff {a b : String} :
    sameTenant a b = true ↔ ∃ org, refOrg a = some org ∧ refOrg b = some org := by
  unfold sameTenant
  split
  · rename_i oa ob ha hb
    simp only [decide_eq_true_eq, ha, hb, Option.some.injEq]
    exact ⟨fun h => ⟨ob, h, rfl⟩, fun ⟨org, h, h'⟩ => h.trans h'.symm⟩
  · rename_i hn
    simp only [Bool.false_eq_true, false_iff, not_exists, not_and]
    exact fun org ha hb => hn org org ha hb

theorem sameTenant_trans {a b c : String} (hab : sameTenant a b = true)
    (hbc : sameTenant b c = true) : sameTenant a c = true := by
  obtain ⟨o, ha, hb⟩ := sameTenant_iff.mp hab
  obtain ⟨o', hb', hc⟩ := sameTenant_iff.mp hbc
  rw [hb, Option.some.injEq] at hb'
  exact sameTenant_iff.mpr ⟨o, ha, hb' ▸ hc⟩

theorem sameTenant_of_validateTuple {t : RelationTuple} (h : validateTuple t = .ok ()) :
    sameTenant t.user t.object = true := by
  unfold validateTuple at h
  split_ifs at h with hv hq ht
  simpa using ht

theorem refOrg_stripUserset (ref : String) : refOrg (String.ofList (stripUserset ref)) = refOrg ref := by
  have hs : stripUserset (String.ofList (stripUserset ref)) = stripUserset ref := by
    rw [stripUserset, String.toList_ofList, stripUserset, List.takeWhile_idem]
  simp only [refOrg, hs]

theorem object_of_splitUserset {ref obj rel : String} (h : splitUserset ref = some (obj, rel)) :
    obj = String.ofList (stripUserset ref) := by
  unfold splitUserset at h
  split_ifs at h with hu
  exact (Prod.mk.inj (Option.some.inj h)).1.symm

theorem refOrg_of_splitUserset {ref obj rel : String} (h : splitUserset ref = some (obj, rel)) :
    refOrg obj = refOrg ref := by
  rw [object_of_splitUserset h]
  exact refOrg_stripUserset ref

mutual

/-- Every intersection has an operand, so that no rewrite holds without a tuple. -/
def Rewrite.grounded : Rewrite → Bool
  | .union children => groundedAll children
  | .intersection children => !children.isEmpty && groundedAll children
  | _ => true

def groundedAll : List Rewrite → Bool
  | [] => true
  | child :: children => child.grounded && groundedAll children

end

theorem rewriteOf_grounded {object relation : String} {rw : Rewrite}
    (h : rewriteOf object relation = some rw) : rw.grounded = true := by
  have hmodel : ∀ t rels, archGuardModel t = some rels → ∀ p ∈ rels, p.2.grounded = true := by
    intro t rels ht
    cases t <;> cases ht <;> decide
  obtain ⟨t, rels, ht, hmem⟩ := rewriteOf_mem h
  exact hmodel t rels ht _ hmem

section

variable {g : GraphReader} {ctx : CheckContext} {user object relation : String}

/-- Every tuple of the graph passes the check of a write. -/
def Validated (g : GraphReader) : Prop :=
  ∀ object relation, ∀ sub ∈ g object relation, validateTuple ⟨sub.ref, relation, object⟩ = .ok ()

def InTenant (user : String) (goal : String × String) : Prop := sameTenant user goal.1 = true

/-- Each way in which a single node of a rewrite can hold gives `C`. -/
structure NodesGive (g : GraphReader) (ctx : CheckContext) (user : String)
    (P : String × String → Prop) (object relation : String) (C : Prop) : Prop where
  this : ∀ condition, ∀ sub ∈ g object relation, evalCondition condition sub.window ctx = true →
    ((∃ goal, splitUserset sub.ref = some goal ∧ P goal) ∨
      (splitUserset sub.ref = none ∧ sub.ref = user)) → C
  computed : ∀ rel, P (object, rel) → C
  ttu : ∀ tupleset rel, ∀ sub ∈ g object tupleset, splitUserset sub.ref = none →
    P (sub.ref, rel) → C

section Elimination

variable {P : String × String → Prop} {C : Prop}

mutual

theorem Holds.elim (hC : NodesGive g ctx user P object relation C) : ∀ {rw : Rewrite},
    rw.grounded = true → Holds g ctx user P object relation rw → C
  | .this condition, _, ⟨sub, hsub, hc, h⟩ => hC.this condition sub hsub hc h
  | .computed rel, _, h => by
    simp only [Holds] at h
    exact hC.computed rel h
  | .ttu tupleset rel, _, ⟨sub, hsub, hn, hP⟩ => hC.ttu tupleset rel sub hsub hn hP
  | .union _, hr, h => HoldsAny.elim hC hr h
  | .intersection (_ :: _), hr, h => by
    simp only [Rewrite.grounded, groundedAll, Bool.and_eq_true] at hr
    exact Holds.elim hC hr.2.1 h.1

theorem HoldsAny.elim (hC : NodesGive g ctx user P object relation C) : ∀ {rws : List Rewrite},
    groundedAll rws = true → HoldsAny g ctx user P object relation rws → C
  | _ :: _, hr, h => by
    simp only [groundedAll, Bool.and_eq_true] at hr
    rcases h with h | h
    · exact Holds.elim hC hr.1 h
    · exact HoldsAny.elim hC hr.2 h

end

end Elimination

theorem nodesGive_inTenant (hg : Validated g) :
    NodesGive g ctx user (InTenant user) object relation (InTenant user (object, relation)) where
  this _ sub hsub _ hleaf := by
    have hs := sameTenant_of_validateTuple (hg _ _ sub hsub)
    rcases hleaf with ⟨⟨obj, rel⟩, hu, hP⟩ | ⟨-, rfl⟩
    -- through a userset: its object is in the user's tenant, and its tuple keeps to that tenant
    · refine sameTenant_trans hP (sameTenant_iff.mpr ?_)
      obtain ⟨org, href, hobj⟩ := sameTenant_iff.mp hs
      exact ⟨org, (refOrg_of_splitUserset hu).trans href, hobj⟩
    · exact hs
  computed _ hP := hP
  ttu _ _ sub hsub _ hP := sameTenant_trans hP (sameTenant_of_validateTuple (hg _ _ sub hsub))

theorem Related.node_induction {P : String × String → Prop}
    (hP : ∀ o r, NodesGive g ctx user P o r (P (o, r))) (h : Related g ctx user object relation) :
    P (object, relation) := by
  apply Related.induction ?_ h
  intro o r rw hrw hs
  exact Holds.elim (hP o r) (rewriteOf_grounded hrw) hs

/-- Over a graph of validated tuples, an allowed check stays within one tenant. -/
theorem evaluate_sameTenant {d : Decision} (hg : Validated g)
    (h : evaluate g object relation user ctx = .ok d) (ha : d.allowed = true) :
    sameTenant user object = true :=
  Related.node_induction (P := InTenant user) (fun _ _ => nodesGive_inTenant hg)
    ((evaluate_ok_iff h).mp ha)

end

namespace Sample

def inherited : GraphReader := fun object relation =>
  if object = asset ∧ relation = relParent then [⟨"org:o1/asset_group:g1", none⟩]
  else if object = "org:o1/asset_group:g1" ∧ relation = relOperator then [⟨member, none⟩]
  else []

theorem inherited_validated : Validated inherited := by
  intro object relation sub hsub
  unfold inherited at hsub
  split_ifs at hsub with h h'
  · obtain ⟨rfl, rfl⟩ := h
    obtain rfl := List.mem_singleton.mp hsub
    decide
  · obtain ⟨rfl, rfl⟩ := h'
    obtain rfl := List.mem_singleton.mp hsub
    decide
  · cases hsub

end Sample

theorem evaluate_sameTenant_inherited : sameTenant Sample.member Sample.asset = true := by
  have h : evaluate Sample.inherited Sample.asset relOperator Sample.member ⟨0⟩ =
      .ok ⟨true, "operator from parent org:o1/asset_group:g1"⟩ := by
    decide +kernel
  exact evaluate_sameTenant Sample.inherited_validated h rfl

end ArchGuard.Authz
