import ArchGuard.AuthzProjection
import ArchGuard.ParentChains

/-! The check of a hierarchy of asset groups: every chain of parents ends at a root of its tenant. -/
namespace ArchGuard.Authz
open ParentChains

inductive HierarchyError
  | selfParent
  | missingParent (parent : Uuid)
  | crossTenantRelation
  | cycle
  deriving DecidableEq, Repr

def HierarchyError.text : HierarchyError → String
  | .selfParent => "asset_group: grupo não pode ser pai de si mesmo"
  | .missingParent parent =>
    "asset_group: dados obrigatórios ausentes: parent inexistente " ++ parent.text
  | .crossTenantRelation => AuthzError.crossTenantRelation.text
  | .cycle => "asset_group: ciclo na hierarquia de grupos"

/-- The groups by id, in the order in which they are ranged over. -/
structure GroupMap where
  entries : List (Uuid × AssetGroup)
  nodup : (entries.map Prod.fst).Nodup

def GroupMap.get (groups : GroupMap) (id : Uuid) : Option AssetGroup := groups.entries.lookup id

section Walk

variable (groups : GroupMap) (org : Uuid)

/-- The loop up the chain; `steps` are those that the bound leaves. -/
def walkUp : (steps : ℕ) → (seen : List Uuid) → (cur : Uuid) → Except HierarchyError Unit
  -- past its bound the loop ends without an error
  | 0, _, _ => .ok ()
  | steps+1, seen, cur =>
    match groups.get cur with
    | none => .error (.missingParent cur)
    | some parent =>
      if parent.organizationId ≠ org then .error .crossTenantRelation
      else if cur ∈ seen then .error .cycle
      else match parent.parentGroupId with
        | none => .ok ()
        | some next => walkUp steps (cur :: seen) next

end Walk

def validateGroup (groups : GroupMap) (id : Uuid) (g : AssetGroup) : Except HierarchyError Unit :=
  match g.parentGroupId with
  | none => .ok ()
  | some parent =>
    if parent = id then .error .selfParent
    else walkUp groups g.organizationId (groups.entries.length+1) [id] parent

def validateAssetGroupHierarchy (groups : GroupMap) : Except HierarchyError Unit :=
  groups.entries.forM fun entry => validateGroup groups entry.1 entry.2

/-- The parent of a group, as a chain of parents follows it. -/
def GroupMap.parent (groups : GroupMap) (id : Uuid) : Option (Option Uuid) :=
  (groups.get id).map AssetGroup.parentGroupId

/-- A tree of groups: parents are groups of the same tenant, and a root is above every group. -/
structure ProperHierarchy (groups : GroupMap) : Prop where
  parents : ∀ id g, groups.get id = some g → ∀ p, g.parentGroupId = some p →
    ∃ q, groups.get p = some q ∧ q.organizationId = g.organizationId
  rooted : ∀ id g, groups.get id = some g → EndsAtRoot groups.parent id

section Proofs

variable {groups : GroupMap} {org id cur : Uuid} {g : AssetGroup} {seen : List Uuid} {steps : ℕ}

theorem GroupMap.mem_of_get (h : groups.get id = some g) : (id, g) ∈ groups.entries := by
  obtain ⟨l₁, l₂, heq, -⟩ := List.lookup_eq_some_iff.mp h
  rw [heq]
  exact List.mem_append_right l₁ List.mem_cons_self

theorem GroupMap.get_of_mem (h : (id, g) ∈ groups.entries) : groups.get id = some g := by
  cases hget : groups.get id with
  | none =>
    have hne := List.lookup_eq_none_iff.mp hget (id, g) h
    simp at hne
  | some g' =>
    have hpair := List.inj_on_of_nodup_map groups.nodup h (GroupMap.mem_of_get hget) rfl
    rw [(Prod.mk.inj hpair).2]

/-- What the loop has seen are groups, each once. -/
structure Seen (groups : GroupMap) (seen : List Uuid) : Prop where
  nodup : seen.Nodup
  groups : ∀ x ∈ seen, (groups.get x).isSome

theorem Seen.length_le (h : Seen groups seen) : seen.length ≤ groups.entries.length := by
  have hsubset : seen ⊆ groups.entries.map Prod.fst := by
    intro x hx
    obtain ⟨g, hg⟩ := Option.isSome_iff_exists.mp (h.groups x hx)
    exact List.mem_map.mpr ⟨(x, g), GroupMap.mem_of_get hg, rfl⟩
  have hlength := (List.subperm_of_subset h.nodup hsubset).length_le
  rwa [List.length_map] at hlength

theorem Seen.cons (h : Seen groups seen) (hget : groups.get cur = some g) (hnew : cur ∉ seen) :
    Seen groups (cur :: seen) := by
  refine ⟨List.nodup_cons.mpr ⟨hnew, h.nodup⟩, ?_⟩
  intro x hx
  rcases List.mem_cons.mp hx with rfl | hx
  · rw [hget]
    rfl
  · exact h.groups x hx

/-- With more steps than groups that are left to see, the loop ends at a root of the tenant. -/
theorem endsAtRoot_of_walkUp (hseen : Seen groups seen)
    (hsteps : groups.entries.length < seen.length + steps)
    (h : walkUp groups org steps seen cur = .ok ()) :
    EndsAtRoot groups.parent cur ∧ ∃ g, groups.get cur = some g ∧ g.organizationId = org := by
  -- one more group is seen in every step, and there are not so many
  induction steps generalizing seen cur with
  | zero =>
    have hle := hseen.length_le
    omega
  | succ steps ih =>
    rw [walkUp] at h
    cases hget : groups.get cur with
    | none =>
      rw [hget] at h
      cases h
    | some g =>
      simp only [hget] at h
      split_ifs at h with horg hcycle
      have hparent : groups.parent cur = some g.parentGroupId := by
        rw [GroupMap.parent, hget]
        rfl
      refine ⟨?_, g, rfl, not_not.mp horg⟩
      cases hp : g.parentGroupId with
      | none => exact ⟨0, hparent.trans (congrArg some hp)⟩
      | some next =>
        rw [hp] at h
        have hroot := (ih (hseen.cons hget hcycle) (by rw [List.length_cons]; omega) h).1
        exact EndsAtRoot.of_parent (hparent.trans (congrArg some hp)) hroot

theorem walkUp_of_rootAt (hproper : ProperHierarchy groups) {n : ℕ}
    (hroot : RootAt groups.parent n cur) (hget : groups.get cur = some g)
    (horg : g.organizationId = org)
    (hbelow : ∀ x ∈ seen, ∃ m, n < m ∧ RootAt groups.parent m x) :
    walkUp groups org steps seen cur = .ok () := by
  induction steps generalizing seen cur g n with
  | zero => rfl
  | succ steps ih =>
    have hnew : cur ∉ seen := by
      intro hmem
      obtain ⟨m, hlt, hm⟩ := hbelow cur hmem
      have hmn : m = n := rootAt_unique hm hroot
      omega
    rw [walkUp, hget]
    simp only [horg, ne_eq, not_true_eq_false, if_false, hnew]
    cases hp : g.parentGroupId with
    | none => rfl
    | some next =>
      obtain ⟨q, hq, hsame⟩ := hproper.parents cur g hget next hp
      have hparent : groups.parent cur = some (some next) := by
        rw [GroupMap.parent, hget]
        exact congrArg some hp
      cases n with
      | zero => cases hparent.symm.trans hroot
      | succ n =>
        obtain ⟨p, hp', hrest⟩ := hroot
        obtain rfl := Option.some.inj (Option.some.inj (hparent.symm.trans hp'))
        apply ih hrest hq (hsame.trans horg)
        intro x hx
        rcases List.mem_cons.mp hx with rfl | hx
        · exact ⟨n+1, by omega, next, hparent, hrest⟩
        · obtain ⟨m, hlt, hm⟩ := hbelow x hx
          exact ⟨m, by omega, hm⟩

theorem walkUp_bound (hseen : Seen groups seen)
    (hsteps : groups.entries.length < seen.length + steps) (more : ℕ) :
    walkUp groups org (steps+more) seen cur = walkUp groups org steps seen cur := by
  induction steps generalizing seen cur with
  | zero =>
    have hle := hseen.length_le
    omega
  | succ steps ih =>
    rw [show steps+1+more = (steps+more)+1 by omega, walkUp, walkUp]
    cases hget : groups.get cur with
    | none => rfl
    | some g =>
      dsimp only
      split_ifs with horg hcycle
      · rfl
      · rfl
      · cases g.parentGroupId with
        | none => rfl
        | some next => exact ih (hseen.cons hget hcycle) (by rw [List.length_cons]; omega)

theorem seen_singleton (hget : groups.get id = some g) : Seen groups [id] := by
  refine ⟨List.nodup_singleton id, ?_⟩
  intro x hx
  rw [List.mem_singleton.mp hx, hget]
  rfl

theorem validateGroup_of_proper (hproper : ProperHierarchy groups) (hget : groups.get id = some g) :
    validateGroup groups id g = .ok () := by
  rw [validateGroup]
  cases hp : g.parentGroupId with
  | none => rfl
  | some p =>
    obtain ⟨q, hq, hsame⟩ := hproper.parents id g hget p hp
    have hparent : groups.parent id = some (some p) := by
      rw [GroupMap.parent, hget]
      exact congrArg some hp
    obtain ⟨n, hn⟩ := hproper.rooted id g hget
    have hself : p ≠ id := by
      intro heq
      have hup : ancestor groups.parent 1 id = some id := by
        rw [ancestor, hparent, heq]
        rfl
      exact EndsAtRoot.ancestor_ne ⟨n, hn⟩ (by omega) hup
    simp only [if_neg hself]
    cases n with
    | zero => cases hparent.symm.trans hn
    | succ n =>
      obtain ⟨p', hp', hrest⟩ := hn
      obtain rfl := Option.some.inj (Option.some.inj (hparent.symm.trans hp'))
      apply walkUp_of_rootAt hproper hrest hq hsame
      intro x hx
      rw [List.mem_singleton.mp hx]
      exact ⟨n+1, by omega, p, hparent, hrest⟩

theorem proper_of_validateGroup
    (h : ∀ id g, groups.get id = some g → validateGroup groups id g = .ok ()) :
    ProperHierarchy groups := by
  have hup (id : Uuid) (g : AssetGroup) (hget : groups.get id = some g) (p : Uuid)
      (hp : g.parentGroupId = some p) : EndsAtRoot groups.parent p ∧
        ∃ q, groups.get p = some q ∧ q.organizationId = g.organizationId := by
    have hok := h id g hget
    simp only [validateGroup, hp] at hok
    split_ifs at hok
    apply endsAtRoot_of_walkUp (seen_singleton hget) _ hok
    rw [List.length_singleton]
    omega
  constructor
  · intro id g hget p hp
    exact (hup id g hget p hp).2
  · intro id g hget
    have hparent : groups.parent id = some g.parentGroupId := by
      rw [GroupMap.parent, hget]
      rfl
    cases hp : g.parentGroupId with
    | none => exact ⟨0, hparent.trans (congrArg some hp)⟩
    | some p => exact EndsAtRoot.of_parent (hparent.trans (congrArg some hp)) (hup id g hget p hp).1

theorem forM_eq_ok_iff {α ε : Type} {f : α → Except ε Unit} {xs : List α} :
    xs.forM f = .ok () ↔ ∀ x ∈ xs, f x = .ok () := by
  induction xs with
  | nil => exact iff_of_true rfl (by simp)
  | cons x xs ih =>
    rw [List.forall_mem_cons, ← ih]
    show Except.bind (f x) (fun _ => xs.forM f) = .ok () ↔ _
    cases hx : f x with
    | error err => simp [Except.bind]
    | ok u => simp [Except.bind]

end Proofs

/-- The check accepts exactly the trees of groups; then no group is its own ancestor, and the walk
from a group is never cut off by its bound. -/
theorem hierarchy_exact (groups : GroupMap) :
    (validateAssetGroupHierarchy groups = .ok () ↔ ProperHierarchy groups) ∧
      (validateAssetGroupHierarchy groups = .ok () → ∀ id g, groups.get id = some g →
        ∀ n, 0 < n → ancestor groups.parent n id ≠ some id) ∧
      ∀ id g, groups.get id = some g → ∀ org cur more,
        walkUp groups org (groups.entries.length+1+more) [id] cur =
          walkUp groups org (groups.entries.length+1) [id] cur := by
  have hexact : validateAssetGroupHierarchy groups = .ok () ↔ ProperHierarchy groups := by
    rw [validateAssetGroupHierarchy, forM_eq_ok_iff]
    constructor
    · intro h
      apply proper_of_validateGroup
      intro id g hget
      exact h (id, g) (GroupMap.mem_of_get hget)
    · intro hproper entry hmem
      exact validateGroup_of_proper hproper (GroupMap.get_of_mem hmem)
  refine ⟨hexact, ?_, ?_⟩
  · intro hok id g hget n hn
    exact ((hexact.mp hok).rooted id g hget).ancestor_ne hn
  · intro id g hget org cur more
    apply walkUp_bound (seen_singleton hget)
    rw [List.length_singleton]
    omega

end ArchGuard.Authz
