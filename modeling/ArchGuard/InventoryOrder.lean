import ArchGuard.IdentityDedup
import ArchGuard.KeyedSort

/-! Every account stands in the inventory once, and when the order of the base makes no difference. -/
namespace ArchGuard.Migration
open GoText KeyedSort

section Keys

/-- The bytes of a string as numbers, which `sort.Strings` compares as it does lists. -/
def byteKey (s : GoString) : List ℕ := s.map UInt8.toNat

theorem byteKey_injective : Function.Injective byteKey :=
  List.map_injective_iff.mpr fun _ _ h => UInt8.toNat_inj.mp h

theorem bytesLess_keyed : Keyed bytesLess byteKey := by
  intro a b
  induction a generalizing b with
  | nil =>
    cases b with
    | nil => simp [bytesLess, byteKey]
    | cons y ys => simp [bytesLess, byteKey]
  | cons x xs ih =>
    cases b with
    | nil => simp [bytesLess, byteKey]
    | cons y ys =>
      have hstep : byteKey (x :: xs) < byteKey (y :: ys) ↔
          x.toNat < y.toNat ∨ x.toNat = y.toNat ∧ byteKey xs < byteKey ys :=
        List.cons_lt_cons_iff
      rw [bytesLess, hstep, ← ih, Bool.or_eq_true, Bool.and_eq_true, decide_eq_true_eq,
        decide_eq_true_eq, UInt8.lt_iff_toNat_lt, UInt8.toNat_inj]

theorem lexLess_keyed {α : Type} (f g : α → GoString) :
    Keyed (fun a b => if f a ≠ f b then bytesLess (f a) (f b) else bytesLess (g a) (g b))
      fun a => toLex (byteKey (f a), byteKey (g a)) := by
  intro a b
  dsimp only
  rw [Prod.Lex.toLex_lt_toLex]
  by_cases hf : f a = f b
  · rw [if_neg (not_not.mpr hf), hf, bytesLess_keyed]
    simp
  · have hne : byteKey (f a) ≠ byteKey (f b) := fun h => hf (byteKey_injective h)
    rw [if_pos hf, bytesLess_keyed]
    simp [hne]

def AccountRef.sortKey (r : AccountRef) : Lex (List ℕ × List ℕ) := toLex (byteKey r.owner, byteKey r.name)

theorem refLess_keyed : Keyed refLess AccountRef.sortKey :=
  lexLess_keyed AccountRef.owner AccountRef.name

def Conflict.sortKey (c : Conflict) : Lex (List ℕ × List ℕ) :=
  toLex (byteKey c.emailHashHex, byteKey c.detail)

theorem conflictLess_keyed : Keyed conflictLess Conflict.sortKey :=
  lexLess_keyed Conflict.emailHashHex Conflict.detail

theorem lex_key_inj {a b c d : GoString} : toLex (byteKey a, byteKey b) = toLex (byteKey c, byteKey d) ↔
    a = c ∧ b = d := by
  rw [toLex_inj, Prod.mk.injEq, byteKey_injective.eq_iff, byteKey_injective.eq_iff]

end Keys

section Loops

variable {hashEmail : HashEmail} {accounts accounts' : List LegacyAccount}

def unhashableDetail (a : LegacyAccount) (err : GoString) : GoString :=
  utf8 "e-mail de " ++ a.owner ++ utf8 "/" ++ a.name ++ utf8 " não pôde ser hasheado: " ++ err

def unhashable (hashEmail : HashEmail) (a : LegacyAccount) : Option Conflict :=
  if a.email = [] then none
  else match hashEmail a.email with
    | .error err => some ⟨.unhashableEmail, [], [a.ref], unhashableDetail a err⟩
    | .ok _ => none

theorem hashAccount_eq (st : Inventory × List Group) (a : LegacyAccount) :
    hashAccount hashEmail st a =
      ({ st.1 with
          noEmail := st.1.noEmail ++ if a.email = [] then [a.ref] else []
          conflicts := st.1.conflicts ++ (unhashable hashEmail a).toList },
        match hashedRef hashEmail a with
        | some p => addToGroup p.1 p.2 st.2
        | none => st.2) := by
  rw [hashAccount, unhashable, hashedRef]
  by_cases he : a.email = []
  · simp [he]
  · rw [if_neg he, if_neg he, if_neg he, if_neg he]
    cases hashEmail a.email with
    | error err => simp [unhashableDetail]
    | ok hash => simp

theorem conflicts_hashed (hashEmail : HashEmail) (accounts : List LegacyAccount) :
    (accounts.foldl (hashAccount hashEmail) (⟨[], [], [], []⟩, [])).1.conflicts =
      accounts.filterMap (unhashable hashEmail) := by
  induction accounts using List.reverseRecOn with
  | nil => rfl
  | append_singleton accounts a ih =>
    rw [List.foldl_append, List.foldl_cons, List.foldl_nil, hashAccount_eq, List.filterMap_append,
      ← ih, List.filterMap_cons]
    cases unhashable hashEmail a <;> rfl

theorem flatMap_addToGroup (key : GoString) (ref : AccountRef) (groups : List Group) :
    ((addToGroup key ref groups).flatMap Group.accounts).Perm
      (groups.flatMap Group.accounts ++ [ref]) := by
  induction groups with
  | nil => exact List.Perm.refl _
  | cons g gs ih =>
    rw [addToGroup]
    split_ifs
    · rw [List.flatMap_cons, List.flatMap_cons, List.append_assoc, List.append_assoc]
      exact List.perm_append_comm.append_left g.accounts
    · rw [List.flatMap_cons, List.flatMap_cons, List.append_assoc]
      exact ih.append_left g.accounts

theorem hashed_perm (hashEmail : HashEmail) (accounts : List LegacyAccount) :
    let st := accounts.foldl (hashAccount hashEmail) (⟨[], [], [], []⟩, [])
    (st.1.noEmail ++ st.1.conflicts.flatMap Conflict.accounts ++
      st.2.flatMap Group.accounts).Perm (accounts.map LegacyAccount.ref) := by
  induction accounts using List.reverseRecOn with
  | nil => exact List.Perm.refl _
  | append_singleton accounts a ih =>
    dsimp only at ih ⊢
    rw [List.foldl_append, List.foldl_cons, List.foldl_nil, List.map_append]
    generalize accounts.foldl (hashAccount hashEmail) (⟨[], [], [], []⟩, []) = st at ih
    refine List.Perm.trans ?_ (ih.append_right [a.ref])
    rw [hashAccount]
    -- the new account comes last in one of the three lists
    split_ifs
    · simp only [List.append_assoc]
      apply List.Perm.append_left
      rw [← List.append_assoc _ _ [a.ref]]
      exact List.perm_append_comm
    · cases hashEmail a.email with
      | error err =>
        simp only [List.flatMap_append, List.append_assoc, List.flatMap_cons, List.flatMap_nil,
          List.append_nil]
        apply List.Perm.append_left
        apply List.Perm.append_left
        exact List.perm_append_comm
      | ok hash =>
        dsimp only
        rw [List.append_assoc _ _ [a.ref]]
        exact (flatMap_addToGroup _ _ _).append_left _

end Loops

section Lists

variable {hashEmail : HashEmail} {accounts accounts' : List LegacyAccount} {groups : List Group}

/-- Of a group that is sorted already: it alone, or the conflict it is in. -/
def Group.asSingle (s : Group) : Option Group :=
  if classifyConflict s.accounts = none ∧ s.accounts.length = 1 then some s else none

def Group.asCandidate (s : Group) : Option Group :=
  if classifyConflict s.accounts = none ∧ s.accounts.length ≠ 1 then some s else none

def Group.asConflict (s : Group) : Option Conflict :=
  (classifyConflict s.accounts).map fun kd => ⟨kd.1, s.emailHashHex, s.accounts, kd.2⟩

theorem single_sorted (g : Group) : g.single = g.sorted.asSingle := by
  rw [Group.single, Group.asSingle, show g.sorted.accounts = sortRefs g.accounts from rfl,
    (sortRefs_perm g.accounts).length_eq]

theorem candidate_sorted (g : Group) : g.candidate = g.sorted.asCandidate := by
  rw [Group.candidate, Group.asCandidate, show g.sorted.accounts = sortRefs g.accounts from rfl,
    (sortRefs_perm g.accounts).length_eq]

/-- The groups of the base as the second loop meets them. -/
def sortedGroups (hashEmail : HashEmail) (accounts : List LegacyAccount) : List Group :=
  (sortBy (fun g g' : Group => bytesLess g.emailHashHex g'.emailHashHex)
    (accounts.foldl (hashAccount hashEmail) (⟨[], [], [], []⟩, [])).2).map Group.sorted

theorem buildInventory_eq (hashEmail : HashEmail) (accounts : List LegacyAccount) :
    buildInventory hashEmail accounts =
      ⟨(sortedGroups hashEmail accounts).filterMap Group.asSingle,
        (sortedGroups hashEmail accounts).filterMap Group.asCandidate,
        sortRefs ((accounts.filter (·.email = [])).map (·.ref)),
        sortBy conflictLess (accounts.filterMap (unhashable hashEmail) ++
          (sortedGroups hashEmail accounts).filterMap Group.asConflict)⟩ := by
  have hst : Hashed hashEmail accounts _ := hashed_accounts accounts
  have hconflicts := conflicts_hashed hashEmail accounts
  have hsingle : Group.single = Group.asSingle ∘ Group.sorted := funext single_sorted
  have hcandidate : Group.candidate = Group.asCandidate ∘ Group.sorted := funext candidate_sorted
  have hconflict : Group.conflict = Group.asConflict ∘ Group.sorted := rfl
  rw [buildInventory]
  simp only [sortedGroups, foldl_classifyGroup, List.filterMap_map, ← hsingle, ← hcandidate,
    ← hconflict, hst.singles, hst.candidates, hst.noEmail, hconflicts, List.nil_append]

def Inventory.listed (inv : Inventory) : List AccountRef :=
  inv.singles.flatMap Group.accounts ++ inv.fusionCandidates.flatMap Group.accounts ++
    inv.noEmail ++ inv.conflicts.flatMap Conflict.accounts

theorem count_classified (r : AccountRef) (groups : List Group) :
    ((groups.filterMap Group.asSingle).flatMap Group.accounts).count r +
      ((groups.filterMap Group.asCandidate).flatMap Group.accounts).count r +
      ((groups.filterMap Group.asConflict).flatMap Conflict.accounts).count r =
        (groups.flatMap Group.accounts).count r := by
  induction groups with
  | nil => rfl
  | cons g groups ih =>
    rw [List.filterMap_cons, List.filterMap_cons, List.filterMap_cons, Group.asSingle,
      Group.asCandidate, Group.asConflict, List.flatMap_cons, List.count_append]
    cases classifyConflict g.accounts with
    | some kd =>
      simp only [reduceCtorEq, false_and, if_false, Option.map_some, List.flatMap_cons,
        List.count_append]
      omega
    | none =>
      by_cases hlen : g.accounts.length = 1
      · simp only [hlen, ne_eq, not_true_eq_false, and_false, and_self, if_true, if_false,
          Option.map_none, List.flatMap_cons, List.count_append]
        omega
      · simp only [hlen, ne_eq, not_false_eq_true, and_false, and_self, if_true, if_false,
          Option.map_none, List.flatMap_cons, List.count_append]
        omega

theorem sortedGroups_accounts (hashEmail : HashEmail) (accounts : List LegacyAccount) :
    ((sortedGroups hashEmail accounts).flatMap Group.accounts).Perm
      ((accounts.foldl (hashAccount hashEmail) (⟨[], [], [], []⟩, [])).2.flatMap Group.accounts) := by
  rw [sortedGroups, List.flatMap_map]
  refine ((List.perm_insertionSort _ _).flatMap_right _).trans ?_
  exact List.Perm.flatMap_left _ fun g _ => sortRefs_perm g.accounts

theorem listed_perm (hashEmail : HashEmail) (accounts : List LegacyAccount) :
    (buildInventory hashEmail accounts).listed.Perm (accounts.map LegacyAccount.ref) := by
  have hloop := hashed_perm hashEmail accounts
  dsimp only at hloop
  rw [(hashed_accounts accounts).noEmail, conflicts_hashed] at hloop
  refine List.Perm.trans ?_ hloop
  rw [buildInventory_eq, Inventory.listed]
  dsimp only
  refine List.perm_iff_count.mpr fun r => ?_
  have hnoEmail := (sortRefs_perm ((accounts.filter (·.email = [])).map (·.ref))).count_eq r
  have hconflicts := ((List.perm_insertionSort (fun c c' => (!conflictLess c' c) = true)
    (accounts.filterMap (unhashable hashEmail) ++
      (sortedGroups hashEmail accounts).filterMap Group.asConflict)).flatMap_right
        Conflict.accounts).count_eq r
  have hgroups := (sortedGroups_accounts hashEmail accounts).count_eq r
  have hclassified := count_classified r (sortedGroups hashEmail accounts)
  simp only [sortBy, List.count_append, List.flatMap_append] at *
  omega

end Lists

section Order

variable {hashEmail : HashEmail} {accounts accounts' : List LegacyAccount}

def Distinct (accounts : List LegacyAccount) : Prop :=
  (accounts.map fun a => (a.owner, a.name)).Nodup

theorem Distinct.eq {a b : LegacyAccount} (h : Distinct accounts) (ha : a ∈ accounts)
    (hb : b ∈ accounts) (howner : a.owner = b.owner) (hname : a.name = b.name) : a = b :=
  List.inj_on_of_nodup_map h ha hb (Prod.ext howner hname)

theorem Distinct.refs_nodup (h : Distinct accounts) : (accounts.map LegacyAccount.ref).Nodup := by
  have hmap : accounts.map (fun a => (a.owner, a.name)) =
      (accounts.map LegacyAccount.ref).map fun r => (r.owner, r.name) := by
    rw [List.map_map]
    rfl
  rw [Distinct, hmap] at h
  exact h.of_map _

theorem sortRefs_congr {refs refs' : List AccountRef} (h : Distinct accounts)
    (hrefs : ∀ r ∈ refs, r ∈ accounts.map LegacyAccount.ref) (hperm : refs.Perm refs') :
    sortRefs refs = sortRefs refs' := by
  apply sort_eq_of_perm refLess_keyed hperm
  intro r hr r' hr' hkey
  obtain ⟨howner, hname⟩ := lex_key_inj.mp hkey
  obtain ⟨a, ha, rfl⟩ := List.mem_map.mp (hrefs r hr)
  obtain ⟨b, hb, rfl⟩ := List.mem_map.mp (hrefs r' hr')
  rw [h.eq ha hb howner hname]

theorem mem_sharing {key : GoString} {r : AccountRef}
    (h : r ∈ sharing (accounts.filterMap (hashedRef hashEmail)) key) :
    r ∈ accounts.map LegacyAccount.ref := by
  obtain ⟨p, hp, rfl⟩ := List.mem_map.mp h
  obtain ⟨a, ha, hap⟩ := List.mem_filterMap.mp (List.mem_filter.mp hp).1
  refine List.mem_map.mpr ⟨a, ha, ?_⟩
  rw [hashedRef] at hap
  split_ifs at hap
  cases hh : hashEmail a.email with
  | error err =>
    rw [hh] at hap
    cases hap
  | ok hash =>
    rw [hh] at hap
    rw [← Option.some.inj hap]

theorem sharing_perm {hashed hashed' : List (GoString × AccountRef)} (h : hashed.Perm hashed')
    (key : GoString) : (sharing hashed key).Perm (sharing hashed' key) := (h.filter _).map _

theorem sorted_mem_of_perm {groups groups' : List Group} (hdistinct : Distinct accounts)
    (hperm : accounts.Perm accounts') (h : Grouped (accounts.filterMap (hashedRef hashEmail)) groups)
    (h' : Grouped (accounts'.filterMap (hashedRef hashEmail)) groups') {s : Group}
    (hs : s ∈ groups.map Group.sorted) : s ∈ groups'.map Group.sorted := by
  obtain ⟨g, hg, rfl⟩ := List.mem_map.mp hs
  have hhashed := hperm.filterMap (hashedRef hashEmail)
  have haccounts := h.accounts g hg
  obtain ⟨r, hr⟩ := List.exists_mem_of_ne_nil _ (h.nonempty g hg)
  rw [haccounts] at hr
  obtain ⟨p, hp, -⟩ := List.mem_map.mp hr
  obtain ⟨hp, hkey⟩ := List.mem_filter.mp hp
  obtain ⟨g', hg', hgk⟩ := h'.covers p (hhashed.mem_iff.mp hp)
  have hsame : g'.emailHashHex = g.emailHashHex := hgk.trans (of_decide_eq_true hkey)
  refine List.mem_map.mpr ⟨g', hg', ?_⟩
  have hsorted : sortRefs g.accounts = sortRefs g'.accounts := by
    rw [haccounts, h'.accounts g' hg', hsame]
    exact sortRefs_congr hdistinct (fun r hr => mem_sharing hr) (sharing_perm hhashed _)
  rw [Group.sorted, Group.sorted, hsame, hsorted]

def Group.sortKey (g : Group) : List ℕ := byteKey g.emailHashHex

theorem sortedGroups_keys (hashEmail : HashEmail) (accounts : List LegacyAccount) :
    ((sortedGroups hashEmail accounts).map (·.emailHashHex)).Nodup := by
  have hst : Hashed hashEmail accounts _ := hashed_accounts accounts
  have hkeys := (List.perm_insertionSort (fun g g' : Group => (!bytesLess g'.emailHashHex
    g.emailHashHex) = true) (accounts.foldl (hashAccount hashEmail) (⟨[], [], [], []⟩, [])).2).map
      (·.emailHashHex)
  rw [sortedGroups, List.map_map]
  exact hkeys.nodup_iff.mpr hst.groups.nodup

theorem sortedGroups_pairwise (hashEmail : HashEmail) (accounts : List LegacyAccount) :
    (sortedGroups hashEmail accounts).Pairwise fun g g' => g.sortKey ≤ g'.sortKey := by
  have hkeyed : Keyed (fun g g' : Group => bytesLess g.emailHashHex g'.emailHashHex)
      Group.sortKey := fun g g' => bytesLess_keyed _ _
  exact List.pairwise_map.mpr (pairwise_sort hkeyed _)

theorem sortedGroups_congr (hdistinct : Distinct accounts) (hperm : accounts.Perm accounts') :
    sortedGroups hashEmail accounts = sortedGroups hashEmail accounts' := by
  have hdistinct' : Distinct accounts' := (hperm.map _).nodup_iff.mp hdistinct
  have hst : Hashed hashEmail accounts _ := hashed_accounts accounts
  have hst' : Hashed hashEmail accounts' _ := hashed_accounts accounts'
  have hkeys := sortedGroups_keys hashEmail accounts
  have hkeys' := sortedGroups_keys hashEmail accounts'
  refine eq_of_pairwise (sortedGroups_pairwise hashEmail accounts)
    (sortedGroups_pairwise hashEmail accounts') ?_ fun g hg g' hg' he =>
      List.inj_on_of_nodup_map hkeys hg hg' (byteKey_injective he)
  rw [List.perm_ext_iff_of_nodup (hkeys.of_map _) (hkeys'.of_map _)]
  have hmem (accounts : List LegacyAccount) (s : Group) : s ∈ sortedGroups hashEmail accounts ↔
      s ∈ (accounts.foldl (hashAccount hashEmail) (⟨[], [], [], []⟩, [])).2.map Group.sorted := by
    simp only [sortedGroups, List.mem_map, mem_sortBy]
  intro s
  rw [hmem, hmem]
  exact ⟨sorted_mem_of_perm hdistinct hperm hst.groups hst'.groups,
    sorted_mem_of_perm hdistinct' hperm.symm hst'.groups hst.groups⟩

end Order

section Conflicts

variable {hashEmail : HashEmail} {accounts accounts' : List LegacyAccount}

/-- No two accounts whose e-mail has no hash are told of in the same words. -/
def ToldApart (hashEmail : HashEmail) (accounts : List LegacyAccount) : Prop :=
  ∀ a ∈ accounts, ∀ b ∈ accounts, a.email ≠ [] → b.email ≠ [] → ∀ err err',
    hashEmail a.email = .error err → hashEmail b.email = .error err' →
    unhashableDetail a err = unhashableDetail b err' → a = b

theorem unhashable_eq_some {a : LegacyAccount} {c : Conflict} (h : unhashable hashEmail a = some c) :
    ∃ err, a.email ≠ [] ∧ hashEmail a.email = .error err ∧
      c = ⟨.unhashableEmail, [], [a.ref], unhashableDetail a err⟩ := by
  rw [unhashable] at h
  split_ifs at h with he
  cases hh : hashEmail a.email with
  | ok hash =>
    rw [hh] at h
    cases h
  | error err =>
    rw [hh] at h
    exact ⟨err, he, rfl, (Option.some.inj h).symm⟩

theorem unhashableDetail_letter (a : LegacyAccount) (err : GoString) :
    (unhashableDetail a err)[7]? = some 100 := by
  rw [unhashableDetail, List.append_assoc, List.append_assoc, List.append_assoc, List.append_assoc,
    List.getElem?_append_left (by decide)]
  decide

theorem classifyFrom_some {seenOrg : List (GoString × GoString)} {humans services : ℕ}
    {refs : List AccountRef} {kd : ConflictKind × GoString}
    (h : classifyFrom seenOrg humans services refs = some kd) :
    kd.1 ≠ .unhashableEmail ∧ kd.2[7]? ≠ some 100 := by
  induction refs generalizing seenOrg humans services with
  | nil =>
    rw [classifyFrom] at h
    split_ifs at h
    rw [← Option.some.inj h]
    refine ⟨ConflictKind.noConfusion, ?_⟩
    dsimp only
    rw [String.append_assoc, String.append_assoc, String.append_assoc, ← utf8_append,
      List.getElem?_append_left (by decide)]
    decide
  | cons r refs ih =>
    rw [classifyFrom] at h
    cases hseen : seenOrg.lookup r.owner with
    | some prev =>
      rw [hseen] at h
      rw [← Option.some.inj h]
      refine ⟨ConflictKind.noConfusion, ?_⟩
      dsimp only
      simp only [List.append_assoc]
      rw [List.getElem?_append_left (by decide)]
      decide
    | none =>
      rw [hseen] at h
      dsimp only at h
      split_ifs at h
      · exact ih h
      · exact ih h

theorem asConflict_eq_some {s : Group} {c : Conflict} (h : s.asConflict = some c) :
    c.emailHashHex = s.emailHashHex ∧ c.accounts = s.accounts ∧
      c.kind ≠ .unhashableEmail ∧ c.detail[7]? ≠ some 100 := by
  rw [Group.asConflict, Option.map_eq_some_iff] at h
  obtain ⟨kd, hkd, rfl⟩ := h
  exact ⟨rfl, rfl, classifyFrom_some hkd⟩

/-- The conflicts of a base before they are sorted. -/
def conflictsOf (hashEmail : HashEmail) (accounts : List LegacyAccount) : List Conflict :=
  accounts.filterMap (unhashable hashEmail) ++
    (sortedGroups hashEmail accounts).filterMap Group.asConflict

theorem conflictsOf_keys (h : ToldApart hashEmail accounts) :
    ∀ c ∈ conflictsOf hashEmail accounts, ∀ c' ∈ conflictsOf hashEmail accounts,
      c.sortKey = c'.sortKey → c = c' := by
  intro c hc c' hc' hkey
  obtain ⟨hhex, hdetail⟩ := lex_key_inj.mp hkey
  rcases List.mem_append.mp hc with hc | hc <;> rcases List.mem_append.mp hc' with hc' | hc'
  · obtain ⟨a, ha, hac⟩ := List.mem_filterMap.mp hc
    obtain ⟨b, hb, hbc⟩ := List.mem_filterMap.mp hc'
    obtain ⟨err, hea, hha, rfl⟩ := unhashable_eq_some hac
    obtain ⟨err', heb, hhb, rfl⟩ := unhashable_eq_some hbc
    obtain rfl := h a ha b hb hea heb err err' hha hhb hdetail
    exact Option.some.inj (hac.symm.trans hbc)
  · obtain ⟨a, -, hac⟩ := List.mem_filterMap.mp hc
    obtain ⟨s, -, hsc⟩ := List.mem_filterMap.mp hc'
    obtain ⟨err, -, -, rfl⟩ := unhashable_eq_some hac
    exact absurd (hdetail ▸ unhashableDetail_letter a err) (asConflict_eq_some hsc).2.2.2
  · obtain ⟨a, -, hac⟩ := List.mem_filterMap.mp hc'
    obtain ⟨s, -, hsc⟩ := List.mem_filterMap.mp hc
    obtain ⟨err, -, -, rfl⟩ := unhashable_eq_some hac
    exact absurd (hdetail ▸ unhashableDetail_letter a err) (asConflict_eq_some hsc).2.2.2
  · obtain ⟨s, hs, hsc⟩ := List.mem_filterMap.mp hc
    obtain ⟨s', hs', hsc'⟩ := List.mem_filterMap.mp hc'
    have hsame : s.emailHashHex = s'.emailHashHex := by
      rw [← (asConflict_eq_some hsc).1, ← (asConflict_eq_some hsc').1, hhex]
    obtain rfl := List.inj_on_of_nodup_map (sortedGroups_keys hashEmail accounts) hs hs' hsame
    exact Option.some.inj (hsc.symm.trans hsc')

theorem buildInventory_congr (hdistinct : Distinct accounts) (h : ToldApart hashEmail accounts)
    (hperm : accounts.Perm accounts') :
    buildInventory hashEmail accounts = buildInventory hashEmail accounts' := by
  have hgroups : sortedGroups hashEmail accounts = sortedGroups hashEmail accounts' :=
    sortedGroups_congr hdistinct hperm
  have hconflicts : (conflictsOf hashEmail accounts).Perm (conflictsOf hashEmail accounts') := by
    rw [conflictsOf, conflictsOf, hgroups]
    exact (hperm.filterMap _).append_right _
  have hnoEmail : sortRefs ((accounts.filter (·.email = [])).map (·.ref)) =
      sortRefs ((accounts'.filter (·.email = [])).map (·.ref)) := by
    apply sortRefs_congr hdistinct _ ((hperm.filter _).map _)
    exact fun r hr => (List.filter_sublist.map _).subset hr
  have hsorted : sortBy conflictLess (conflictsOf hashEmail accounts) =
      sortBy conflictLess (conflictsOf hashEmail accounts') :=
    sort_eq_of_perm conflictLess_keyed hconflicts (conflictsOf_keys h)
  rw [buildInventory_eq, buildInventory_eq, ← hgroups, hnoEmail]
  rw [conflictsOf, conflictsOf, ← hgroups] at hsorted
  rw [hsorted]

theorem pair_listed {a b : LegacyAccount} {ca cb : Conflict} (ha : unhashable hashEmail a = some ca)
    (hb : unhashable hashEmail b = some cb) (hdetail : ca.detail = cb.detail)
    (hsub : [a, b].Sublist accounts) :
    [a.ref, b.ref].Sublist (buildInventory hashEmail accounts).listed := by
  obtain ⟨err, -, -, rfl⟩ := unhashable_eq_some ha
  obtain ⟨err', -, -, rfl⟩ := unhashable_eq_some hb
  have hpair := hsub.filterMap (unhashable hashEmail)
  rw [List.filterMap_cons_some ha, List.filterMap_cons_some hb, List.filterMap_nil] at hpair
  have hkey : Conflict.sortKey ⟨.unhashableEmail, [], [a.ref], unhashableDetail a err⟩ =
      Conflict.sortKey ⟨.unhashableEmail, [], [b.ref], unhashableDetail b err'⟩ :=
    lex_key_inj.mpr ⟨rfl, hdetail⟩
  have hsorted := sublist_sort conflictLess_keyed hkey (hpair.trans (List.sublist_append_left _
    ((sortedGroups hashEmail accounts).filterMap Group.asConflict)))
  rw [buildInventory_eq, Inventory.listed]
  exact (hsorted.flatMap Conflict.accounts).trans (List.sublist_append_right _ _)

end Conflicts

section Inventory

variable {hashEmail : HashEmail} {accounts : List LegacyAccount}

theorem sortedGroups_sharing {s : Group} (hs : s ∈ sortedGroups hashEmail accounts) :
    s.accounts.Perm (sharing (accounts.filterMap (hashedRef hashEmail)) s.emailHashHex) := by
  obtain ⟨g, hg, rfl⟩ := List.mem_map.mp hs
  rw [mem_sortBy] at hg
  have haccounts := (hashed_accounts accounts).groups.accounts g hg
  exact haccounts ▸ sortRefs_perm g.accounts

theorem exists_sortedGroup {key : GoString}
    (h : sharing (accounts.filterMap (hashedRef hashEmail)) key ≠ []) :
    ∃ s ∈ sortedGroups hashEmail accounts, s.emailHashHex = key := by
  obtain ⟨r, hr⟩ := List.exists_mem_of_ne_nil _ h
  obtain ⟨p, hp, -⟩ := List.mem_map.mp hr
  obtain ⟨hp, hkey⟩ := List.mem_filter.mp hp
  obtain ⟨g, hg, hgk⟩ := (hashed_accounts accounts).groups.covers p hp
  exact ⟨g.sorted, List.mem_map_of_mem (mem_sortBy.mpr hg), hgk.trans (of_decide_eq_true hkey)⟩

theorem conflict_iff (key : GoString)
    (hkey : sharing (accounts.filterMap (hashedRef hashEmail)) key ≠ []) :
    (∃ c ∈ (buildInventory hashEmail accounts).conflicts, c.emailHashHex = key ∧
      c.kind ≠ .unhashableEmail ∧
      c.accounts.Perm (sharing (accounts.filterMap (hashedRef hashEmail)) key)) ↔
    ¬((sharing (accounts.filterMap (hashedRef hashEmail)) key).map (·.owner)).Nodup ∨
      Mixed (sharing (accounts.filterMap (hashedRef hashEmail)) key) := by
  obtain ⟨s, hs, rfl⟩ := exists_sortedGroup hkey
  have hperm := sortedGroups_sharing hs
  have hnone : classifyConflict s.accounts ≠ none ↔
      ¬((sharing (accounts.filterMap (hashedRef hashEmail)) s.emailHashHex).map (·.owner)).Nodup ∨
        Mixed (sharing (accounts.filterMap (hashedRef hashEmail)) s.emailHashHex) := by
    rw [Ne, classifyConflict_eq_none, (hperm.map (·.owner)).nodup_iff, not_and_or, not_not]
    simp only [Mixed, hperm.mem_iff]
  have hmem (c : Conflict) : c ∈ (buildInventory hashEmail accounts).conflicts ↔
      c ∈ conflictsOf hashEmail accounts := by
    rw [buildInventory_eq, conflictsOf]
    exact mem_sortBy
  rw [← hnone]
  constructor
  · rintro ⟨c, hc, hhex, hkind, -⟩ hclear
    rw [hmem] at hc
    rcases List.mem_append.mp hc with hc | hc
    · obtain ⟨a, -, hac⟩ := List.mem_filterMap.mp hc
      obtain ⟨err, -, -, rfl⟩ := unhashable_eq_some hac
      exact hkind rfl
    · obtain ⟨s', hs', hsc⟩ := List.mem_filterMap.mp hc
      have hsame : s'.emailHashHex = s.emailHashHex := (asConflict_eq_some hsc).1.symm.trans hhex
      obtain rfl := List.inj_on_of_nodup_map (sortedGroups_keys hashEmail accounts) hs' hs hsame
      rw [Group.asConflict, hclear] at hsc
      cases hsc
  · intro hconflict
    obtain ⟨kd, hkd⟩ := Option.ne_none_iff_exists'.mp hconflict
    have hsc : s.asConflict = some ⟨kd.1, s.emailHashHex, s.accounts, kd.2⟩ := by
      rw [Group.asConflict, hkd]
      rfl
    refine ⟨_, (hmem _).mpr ?_, rfl, (asConflict_eq_some hsc).2.2.1, hperm⟩
    exact List.mem_append_right _ (List.mem_filterMap.mpr ⟨s, hs, hsc⟩)

/-- An inventory of distinct accounts lists each of them once, sees the conflicts of the groups,
and is that of every other order of the base exactly when the accounts whose e-mail has no hash are
told of in different words. -/
theorem buildInventory_exact_iff (hdistinct : Distinct accounts) :
    (((buildInventory hashEmail accounts).listed.Perm (accounts.map LegacyAccount.ref) ∧
        (buildInventory hashEmail accounts).listed.Nodup) ∧
      (∀ key, sharing (accounts.filterMap (hashedRef hashEmail)) key ≠ [] →
        ((∃ c ∈ (buildInventory hashEmail accounts).conflicts, c.emailHashHex = key ∧
          c.kind ≠ .unhashableEmail ∧
          c.accounts.Perm (sharing (accounts.filterMap (hashedRef hashEmail)) key)) ↔
        ¬((sharing (accounts.filterMap (hashedRef hashEmail)) key).map (·.owner)).Nodup ∨
          Mixed (sharing (accounts.filterMap (hashedRef hashEmail)) key))) ∧
      ∀ accounts', accounts.Perm accounts' →
        buildInventory hashEmail accounts = buildInventory hashEmail accounts') ↔
      ToldApart hashEmail accounts := by
  have hlisted := listed_perm hashEmail accounts
  have hnodup := hlisted.nodup_iff.mpr hdistinct.refs_nodup
  constructor
  · rintro ⟨-, -, hfree⟩ a ha b hb hea heb err err' hha hhb hdetail
    by_contra hne
    have hau : unhashable hashEmail a =
        some ⟨.unhashableEmail, [], [a.ref], unhashableDetail a err⟩ := by
      rw [unhashable, if_neg hea, hha]
    have hbu : unhashable hashEmail b =
        some ⟨.unhashableEmail, [], [b.ref], unhashableDetail b err'⟩ := by
      rw [unhashable, if_neg heb, hhb]
    -- the base the other way round lists the two the other way round
    have hreverse := hfree accounts.reverse (List.reverse_perm accounts).symm
    rcases pair_or_pair ha hb hne with hsub | hsub
    · have hpair := pair_listed hau hbu hdetail hsub
      have hpair' := pair_listed hbu hau hdetail.symm (List.reverse_sublist.mpr hsub)
      rw [← hreverse] at hpair'
      exact not_pair_and_pair hnodup hpair hpair'
    · have hpair := pair_listed hbu hau hdetail.symm hsub
      have hpair' := pair_listed hau hbu hdetail (List.reverse_sublist.mpr hsub)
      rw [← hreverse] at hpair'
      exact not_pair_and_pair hnodup hpair hpair'
  · intro h
    exact ⟨⟨hlisted, hnodup⟩, conflict_iff, fun accounts' hperm =>
      buildInventory_congr hdistinct h hperm⟩

end Inventory

namespace Sample

def refuseBlank : HashEmail := fun email =>
  if email.all (· = 32) then .error (utf8 "keycustodian: e-mail vazio após normalização")
  else .ok email

theorem refuseBlank_error {email err : GoString} (h : refuseBlank email = .error err) :
    err = utf8 "keycustodian: e-mail vazio após normalização" := by
  rw [refuseBlank] at h
  split_ifs at h
  exact (Except.error.inj h).symm

def blank (owner name : String) : LegacyAccount :=
  ⟨utf8 owner, utf8 name, utf8 " ", false, true, false, false⟩

/-- Two accounts with a blank for an e-mail, and one with an e-mail. -/
def base : List LegacyAccount := [blank "acme" "bia", blank "acme" "ana",
  ⟨utf8 "acme", utf8 "rui", utf8 "rui@acme", false, true, true, false⟩]

end Sample

theorem blanks_reversed : buildInventory Sample.refuseBlank Sample.base =
    buildInventory Sample.refuseBlank Sample.base.reverse := by
  have htold : ToldApart Sample.refuseBlank Sample.base := by
    have hwords : ∀ a ∈ Sample.base, ∀ b ∈ Sample.base,
        unhashableDetail a (utf8 "keycustodian: e-mail vazio após normalização") =
          unhashableDetail b (utf8 "keycustodian: e-mail vazio após normalização") → a = b := by
      decide +kernel
    intro a ha b hb _ _ err err' hha hhb hdetail
    rw [Sample.refuseBlank_error hha, Sample.refuseBlank_error hhb] at hdetail
    exact hwords a ha b hb hdetail
  have hdistinct : Distinct Sample.base := by
    unfold Distinct
    decide +kernel
  exact ((buildInventory_exact_iff hdistinct).mpr htold).2.2 _ (List.reverse_perm _).symm

/-- Two accounts whose owner and name make one text with the slash between them. -/
theorem order_shows :
    Distinct [Sample.blank "a/b" "c", Sample.blank "a" "b/c"] ∧
      [Sample.blank "a/b" "c", Sample.blank "a" "b/c"].Perm
        [Sample.blank "a" "b/c", Sample.blank "a/b" "c"] ∧
      buildInventory Sample.refuseBlank [Sample.blank "a/b" "c", Sample.blank "a" "b/c"] ≠
        buildInventory Sample.refuseBlank [Sample.blank "a" "b/c", Sample.blank "a/b" "c"] :=
  ⟨by unfold Distinct; decide +kernel, List.Perm.swap _ _ _, by decide +kernel⟩

end ArchGuard.Migration
