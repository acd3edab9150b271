import ArchGuard.Primitives
import Mathlib.Data.List.Sort

/-! The inventory of the legacy accounts: groups that share an e-mail, and what has to be
decided by hand. -/
namespace ArchGuard.Migration
open GoText

structure LegacyAccount where
  owner : GoString
  name : GoString
  email : GoString
  isServiceAccount : Bool
  hasPassword : Bool
  hasTotp : Bool
  hasWebAuthn : Bool
  deriving DecidableEq, Repr

/-- An account in the inventory, without its e-mail. -/
structure AccountRef where
  owner : GoString
  name : GoString
  isServiceAccount : Bool
  hasPassword : Bool
  hasTotp : Bool
  hasWebAuthn : Bool
  deriving DecidableEq, Repr

def LegacyAccount.ref (a : LegacyAccount) : AccountRef :=
  ⟨a.owner, a.name, a.isServiceAccount, a.hasPassword, a.hasTotp, a.hasWebAuthn⟩

/-- Accounts that share one e-mail hash. -/
structure Group where
  emailHashHex : GoString
  accounts : List AccountRef
  deriving DecidableEq, Repr

inductive ConflictKind
  | sameOrgDuplicate | mixedTypes | unhashableEmail
  deriving DecidableEq, Repr

structure Conflict where
  kind : ConflictKind
  emailHashHex : GoString
  accounts : List AccountRef
  detail : GoString
  deriving DecidableEq, Repr

structure Inventory where
  singles : List Group
  fusionCandidates : List Group
  noEmail : List AccountRef
  conflicts : List Conflict
  deriving DecidableEq, Repr

/-- `HashEmail` of the key custodian: the hash, or the text of its error. -/
abbrev HashEmail := GoString → Except GoString Bytes

def hexByte (n : ℕ) : UInt8 := UInt8.ofNat (hexDigit n).toNat

/-- `hex.EncodeToString`. -/
def hexEncode (b : Bytes) : GoString := b.flatMap fun x => [hexByte (x.toNat/16), hexByte (x.toNat%16)]

/-- `sort.Strings` compares the bytes. -/
def bytesLess : GoString → GoString → Bool
  | _, [] => false
  | [], _ :: _ => true
  | a :: as, b :: bs => a < b || (a = b && bytesLess as bs)

def refLess (a b : AccountRef) : Bool :=
  if a.owner ≠ b.owner then bytesLess a.owner b.owner else bytesLess a.name b.name

/-- A stable sort, by the order that `less` is the strict part of. -/
def sortBy {α : Type} (less : α → α → Bool) (l : List α) : List α :=
  l.insertionSort fun a b => !less b a

def sortRefs (refs : List AccountRef) : List AccountRef := sortBy refLess refs

/-- The loop of `classifyConflict`; `seenOrg` are the accounts met so far, by organization. -/
def classifyFrom (seenOrg : List (GoString × GoString)) (humans services : ℕ) :
    List AccountRef → Option (ConflictKind × GoString)
  | [] =>
    if 0 < humans ∧ 0 < services then
      some (.mixedTypes, utf8 ("e-mail compartilhado por " ++ toString humans ++
        " conta(s) humana(s) e " ++ toString services ++
        " de serviço — natureza da identidade exige decisão humana"))
    else none
  | r :: rs =>
    match seenOrg.lookup r.owner with
    | some prev =>
      some (.sameOrgDuplicate, utf8 "organização " ++ quoteBytes r.owner ++
        utf8 " tem mais de uma conta com o mesmo e-mail (" ++ prev ++ utf8 " e " ++ r.name ++
        utf8 ") — fusão violaria a R3")
    | none =>
      if r.isServiceAccount then classifyFrom ((r.owner, r.name) :: seenOrg) humans (services+1) rs
      else classifyFrom ((r.owner, r.name) :: seenOrg) (humans+1) services rs

def classifyConflict (refs : List AccountRef) : Option (ConflictKind × GoString) :=
  classifyFrom [] 0 0 refs

/-- A reference is appended to the group of its hash. -/
def addToGroup (key : GoString) (ref : AccountRef) : List Group → List Group
  | [] => [⟨key, [ref]⟩]
  | g :: gs =>
    if g.emailHashHex = key then ⟨key, g.accounts ++ [ref]⟩ :: gs
    else g :: addToGroup key ref gs

section Inventory

variable (hashEmail : HashEmail)

/-- One account of the first loop: without e-mail, without a hash, or in a group. -/
def hashAccount (st : Inventory × List Group) (a : LegacyAccount) : Inventory × List Group :=
  if a.email = [] then ({ st.1 with noEmail := st.1.noEmail ++ [a.ref] }, st.2)
  else match hashEmail a.email with
    | .error err =>
      ({ st.1 with conflicts := st.1.conflicts ++ [⟨.unhashableEmail, [], [a.ref],
        utf8 "e-mail de " ++ a.owner ++ utf8 "/" ++ a.name ++
          utf8 " não pôde ser hasheado: " ++ err⟩] }, st.2)
    | .ok hash => (st.1, addToGroup (hexEncode hash) a.ref st.2)

def classifyGroup (inv : Inventory) (g : Group) : Inventory :=
  let refs := sortRefs g.accounts
  match classifyConflict refs with
  | some (kind, detail) =>
    { inv with conflicts := inv.conflicts ++ [⟨kind, g.emailHashHex, refs, detail⟩] }
  | none =>
    if refs.length = 1 then { inv with singles := inv.singles ++ [⟨g.emailHashHex, refs⟩] }
    else { inv with fusionCandidates := inv.fusionCandidates ++ [⟨g.emailHashHex, refs⟩] }

def conflictLess (a b : Conflict) : Bool :=
  if a.emailHashHex ≠ b.emailHashHex then bytesLess a.emailHashHex b.emailHashHex
  else bytesLess a.detail b.detail

def buildInventory (accounts : List LegacyAccount) : Inventory :=
  let (inv, groups) := accounts.foldl (hashAccount hashEmail) (⟨[], [], [], []⟩, [])
  let sorted := sortBy (fun g g' : Group => bytesLess g.emailHashHex g'.emailHashHex) groups
  let inv := sorted.foldl classifyGroup inv
  { inv with noEmail := sortRefs inv.noEmail, conflicts := sortBy conflictLess inv.conflicts }

end Inventory

theorem mem_sortBy {α : Type} {less : α → α → Bool} {l : List α} {a : α} :
    a ∈ sortBy less l ↔ a ∈ l := (List.perm_insertionSort _ l).mem_iff

theorem sortRefs_perm (refs : List AccountRef) : (sortRefs refs).Perm refs :=
  List.perm_insertionSort _ refs

def Mixed (refs : List AccountRef) : Prop :=
  (∃ r ∈ refs, r.isServiceAccount = false) ∧ ∃ r ∈ refs, r.isServiceAccount = true

theorem classifyFrom_eq_none {seenOrg : List (GoString × GoString)} {humans services : ℕ}
    {refs : List AccountRef} : classifyFrom seenOrg humans services refs = none ↔
      (refs.map (·.owner)).Nodup ∧ (∀ r ∈ refs, seenOrg.lookup r.owner = none) ∧
        ¬(0 < humans+refs.countP (!·.isServiceAccount) ∧
          0 < services+refs.countP (·.isServiceAccount)) := by
  induction refs generalizing seenOrg humans services with
  | nil =>
    simp only [classifyFrom, List.map_nil, List.nodup_nil, List.not_mem_nil, false_implies,
      implies_true, List.countP_nil, Nat.add_zero, true_and]
    split_ifs with h
    · simp [h]
    · simp [h]
  | cons r rs ih =>
    rw [classifyFrom, List.map_cons, List.nodup_cons, List.forall_mem_cons]
    cases hseen : seenOrg.lookup r.owner with
    | some prev => simp
    | none =>
      -- the rest is met with one more organization seen
      have hlookup (r' : AccountRef) : List.lookup r'.owner ((r.owner, r.name) :: seenOrg) = none ↔
          r'.owner ≠ r.owner ∧ seenOrg.lookup r'.owner = none := by
        rw [List.lookup_cons]
        by_cases he : r'.owner = r.owner
        · simp [he]
        · simp [he, beq_eq_false_iff_ne.mpr he]
      have hall : (∀ r' ∈ rs, List.lookup r'.owner ((r.owner, r.name) :: seenOrg) = none) ↔
          r.owner ∉ rs.map (·.owner) ∧ ∀ r' ∈ rs, seenOrg.lookup r'.owner = none := by
        simp only [hlookup, List.mem_map, not_exists, not_and]
        constructor
        · exact fun h => ⟨fun r' hr' he => (h r' hr').1 he, fun r' hr' => (h r' hr').2⟩
        · exact fun h r' hr' => ⟨h.1 r' hr', h.2 r' hr'⟩
      cases hs : r.isServiceAccount with
      | true =>
        simp only [↓reduceIte, ih, hall, List.countP_cons, hs, Bool.not_true, Bool.false_eq_true,
          Nat.add_zero, true_and]
        rw [show services+1+rs.countP (·.isServiceAccount) =
          services+(rs.countP (·.isServiceAccount)+1) by omega]
        tauto
      | false =>
        simp only [Bool.false_eq_true, ↓reduceIte, ih, hall, List.countP_cons, hs, Bool.not_false,
          Nat.add_zero, true_and]
        rw [show humans+1+rs.countP (!·.isServiceAccount) =
          humans+(rs.countP (!·.isServiceAccount)+1) by omega]
        tauto

theorem classifyConflict_eq_none {refs : List AccountRef} : classifyConflict refs = none ↔
    (refs.map (·.owner)).Nodup ∧ ¬Mixed refs := by
  rw [classifyConflict, classifyFrom_eq_none]
  simp only [List.lookup_nil, implies_true, true_and, Nat.zero_add, List.countP_pos_iff, Mixed,
    Bool.not_eq_eq_eq_not, Bool.not_true]

def hashedRef (hashEmail : HashEmail) (a : LegacyAccount) : Option (GoString × AccountRef) :=
  if a.email = [] then none
  else match hashEmail a.email with
    | .error _ => none
    | .ok hash => some (hexEncode hash, a.ref)

/-- The accounts that share a hash, in the order of the base. -/
def sharing (hashed : List (GoString × AccountRef)) (key : GoString) : List AccountRef :=
  (hashed.filter (·.1 = key)).map (·.2)

/-- The groups of a list of hashed accounts. -/
structure Grouped (hashed : List (GoString × AccountRef)) (groups : List Group) : Prop where
  nodup : (groups.map (·.emailHashHex)).Nodup
  accounts : ∀ g ∈ groups, g.accounts = sharing hashed g.emailHashHex
  covers : ∀ p ∈ hashed, ∃ g ∈ groups, g.emailHashHex = p.1
  nonempty : ∀ g ∈ groups, g.accounts ≠ []

theorem sharing_append (hashed : List (GoString × AccountRef)) (key : GoString) (ref : AccountRef)
    (k : GoString) : sharing (hashed ++ [(key, ref)]) k =
      if key = k then sharing hashed k ++ [ref] else sharing hashed k := by
  rw [sharing, List.filter_append, List.map_append]
  split_ifs with h
  · rw [List.filter_cons_of_pos (by simpa using h)]
    rfl
  · rw [List.filter_cons_of_neg (by simpa using h)]
    exact List.append_nil _

theorem addToGroup_keys (key : GoString) (ref : AccountRef) (groups : List Group) :
    (addToGroup key ref groups).map (·.emailHashHex) =
      if key ∈ groups.map (·.emailHashHex) then groups.map (·.emailHashHex)
      else groups.map (·.emailHashHex) ++ [key] := by
  induction groups with
  | nil => rfl
  | cons g gs ih =>
    rw [addToGroup]
    by_cases hk : g.emailHashHex = key
    · rw [if_pos hk, if_pos (by simp [hk])]
      simp [hk]
    · have hmem : key ∈ (g :: gs).map (·.emailHashHex) ↔ key ∈ gs.map (·.emailHashHex) := by
        rw [List.map_cons, List.mem_cons]
        exact ⟨fun h => h.resolve_left (Ne.symm hk), Or.inr⟩
      rw [if_neg hk, List.map_cons, ih]
      by_cases hm : key ∈ gs.map (·.emailHashHex)
      · rw [if_pos hm, if_pos (hmem.mpr hm), List.map_cons]
      · rw [if_neg hm, if_neg (fun h => hm (hmem.mp h)), List.map_cons, List.cons_append]

theorem mem_addToGroup {key : GoString} {ref : AccountRef} {groups : List Group} {g : Group}
    (hnodup : (groups.map (·.emailHashHex)).Nodup) (h : g ∈ addToGroup key ref groups) :
    (g ∈ groups ∧ g.emailHashHex ≠ key) ∨
      (∃ g' ∈ groups, g'.emailHashHex = key ∧ g = ⟨key, g'.accounts ++ [ref]⟩) ∨
      (g = ⟨key, [ref]⟩ ∧ key ∉ groups.map (·.emailHashHex)) := by
  induction groups with
  | nil => exact Or.inr (Or.inr ⟨List.mem_singleton.mp h, List.not_mem_nil⟩)
  | cons g' gs ih =>
    obtain ⟨hg', hgs⟩ := List.nodup_cons.mp hnodup
    rw [addToGroup] at h
    by_cases hk : g'.emailHashHex = key
    · rw [if_pos hk] at h
      rcases List.mem_cons.mp h with rfl | hm
      · exact Or.inr (Or.inl ⟨g', List.mem_cons_self, hk, rfl⟩)
      · refine Or.inl ⟨List.mem_cons_of_mem g' hm, fun he => hg' ?_⟩
        exact List.mem_map.mpr ⟨g, hm, he.trans hk.symm⟩
    · rw [if_neg hk] at h
      rcases List.mem_cons.mp h with rfl | hm
      · exact Or.inl ⟨List.mem_cons_self, hk⟩
      · rcases ih hgs hm with ⟨hold, hne⟩ | ⟨g'', hg'', hrest⟩ | ⟨he, hnew⟩
        · exact Or.inl ⟨List.mem_cons_of_mem g' hold, hne⟩
        · exact Or.inr (Or.inl ⟨g'', List.mem_cons_of_mem g' hg'', hrest⟩)
        · refine Or.inr (Or.inr ⟨he, fun hin => ?_⟩)
          rcases List.mem_cons.mp hin with hin | hin
          · exact hk hin.symm
          · exact hnew hin

theorem Grouped.add {hashed : List (GoString × AccountRef)} {groups : List Group}
    (h : Grouped hashed groups) (key : GoString) (ref : AccountRef) :
    Grouped (hashed ++ [(key, ref)]) (addToGroup key ref groups) := by
  have hkeys := addToGroup_keys key ref groups
  have hempty (hnew : key ∉ groups.map (·.emailHashHex)) : sharing hashed key = [] := by
    rw [sharing, List.map_eq_nil_iff, List.filter_eq_nil_iff]
    intro p hp he
    obtain ⟨g, hg, hgk⟩ := h.covers p hp
    exact hnew (List.mem_map.mpr ⟨g, hg, hgk.trans (of_decide_eq_true he)⟩)
  refine ⟨?_, fun g hg => ?_, fun p hp => ?_, fun g hg => ?_⟩
  -- a key is only added where no group has it
  · rw [hkeys]
    split_ifs with hm
    · exact h.nodup
    · exact List.nodup_append.mpr ⟨h.nodup, List.nodup_singleton key, fun k hk k' hk' he =>
        hm (List.mem_singleton.mp hk' ▸ he ▸ hk)⟩
  · rw [sharing_append]
    rcases mem_addToGroup h.nodup hg with ⟨hold, hne⟩ | ⟨g', hg', hk, rfl⟩ | ⟨rfl, hnew⟩
    · rw [if_neg (Ne.symm hne)]
      exact h.accounts g hold
    · rw [if_pos rfl, h.accounts g' hg', hk]
    · rw [if_pos rfl, hempty hnew]
      rfl
  · have hmem : p.1 ∈ (addToGroup key ref groups).map (·.emailHashHex) := by
      rw [hkeys]
      rcases List.mem_append.mp hp with hp | hp
      · obtain ⟨g, hg, hk⟩ := h.covers p hp
        have hin := List.mem_map.mpr ⟨g, hg, hk⟩
        split_ifs
        · exact hin
        · exact List.mem_append_left _ hin
      · obtain rfl := List.mem_singleton.mp hp
        split_ifs with hin
        · exact hin
        · exact List.mem_append_right _ List.mem_cons_self
    exact List.mem_map.mp hmem
  · rcases mem_addToGroup h.nodup hg with ⟨hold, -⟩ | ⟨g', hg', -, rfl⟩ | ⟨rfl, -⟩
    · exact h.nonempty g hold
    · exact List.append_ne_nil_of_right_ne_nil _ (List.cons_ne_nil _ _)
    · exact List.cons_ne_nil _ _

section Loops

variable {hashEmail : HashEmail}

/-- What the first loop leaves: the accounts without e-mail, one conflict for each account whose
e-mail has no hash, and the groups. -/
structure Hashed (hashEmail : HashEmail) (accounts : List LegacyAccount)
    (st : Inventory × List Group) : Prop where
  noEmail : st.1.noEmail = (accounts.filter (·.email = [])).map (·.ref)
  unhashable : ∀ c ∈ st.1.conflicts, c.accounts.length = 1
  singles : st.1.singles = []
  candidates : st.1.fusionCandidates = []
  groups : Grouped (accounts.filterMap (hashedRef hashEmail)) st.2

theorem Hashed.step {accounts : List LegacyAccount} {st : Inventory × List Group}
    (h : Hashed hashEmail accounts st) (a : LegacyAccount) :
    Hashed hashEmail (accounts ++ [a]) (hashAccount hashEmail st a) := by
  rw [hashAccount]
  -- an account without e-mail is listed apart, and one whose e-mail has no hash is a conflict
  by_cases he : a.email = []
  · have hnone : hashedRef hashEmail a = none := by
      rw [hashedRef, if_pos he]
    rw [if_pos he]
    refine ⟨?_, h.unhashable, h.singles, h.candidates, ?_⟩
    · rw [List.filter_append, List.map_append, ← h.noEmail,
        List.filter_cons_of_pos (by simpa using he)]
      rfl
    · rw [List.filterMap_append, List.filterMap_cons, hnone, List.filterMap_nil, List.append_nil]
      exact h.groups
  · have hsame : (accounts ++ [a]).filter (·.email = []) = accounts.filter (·.email = []) := by
      rw [List.filter_append, List.filter_cons_of_neg (by simpa using he), List.filter_nil,
        List.append_nil]
    rw [if_neg he]
    cases hh : hashEmail a.email with
    | error err =>
      have hnone : hashedRef hashEmail a = none := by
        rw [hashedRef, if_neg he, hh]
      refine ⟨by rw [hsame]; exact h.noEmail, fun c hc => ?_, h.singles, h.candidates, ?_⟩
      · rcases List.mem_append.mp hc with hc | hc
        · exact h.unhashable c hc
        · rw [List.mem_singleton.mp hc]
          rfl
      · rw [List.filterMap_append, List.filterMap_cons, hnone, List.filterMap_nil, List.append_nil]
        exact h.groups
    | ok hash =>
      have hsome : hashedRef hashEmail a = some (hexEncode hash, a.ref) := by
        rw [hashedRef, if_neg he, hh]
      refine ⟨by rw [hsame]; exact h.noEmail, h.unhashable, h.singles, h.candidates, ?_⟩
      rw [List.filterMap_append, List.filterMap_cons, hsome]
      exact h.groups.add _ _

theorem hashed_accounts (accounts : List LegacyAccount) : Hashed hashEmail accounts
    (accounts.foldl (hashAccount hashEmail) (⟨[], [], [], []⟩, [])) := by
  induction accounts using List.reverseRecOn with
  | nil =>
    refine ⟨rfl, fun c hc => absurd hc List.not_mem_nil, rfl, rfl, ?_⟩
    refine ⟨List.nodup_nil, ?_, ?_, ?_⟩ <;> exact fun x hx => absurd hx List.not_mem_nil
  | append_singleton accounts a ih =>
    rw [List.foldl_append]
    exact ih.step a

def Group.sorted (g : Group) : Group := ⟨g.emailHashHex, sortRefs g.accounts⟩

def Group.conflict (g : Group) : Option Conflict :=
  (classifyConflict g.sorted.accounts).map fun kd =>
    ⟨kd.1, g.emailHashHex, g.sorted.accounts, kd.2⟩

def Group.single (g : Group) : Option Group :=
  if classifyConflict g.sorted.accounts = none ∧ g.accounts.length = 1 then some g.sorted else none

def Group.candidate (g : Group) : Option Group :=
  if classifyConflict g.sorted.accounts = none ∧ g.accounts.length ≠ 1 then some g.sorted else none

theorem classifyGroup_eq (inv : Inventory) (g : Group) : classifyGroup inv g =
    ⟨inv.singles ++ g.single.toList, inv.fusionCandidates ++ g.candidate.toList, inv.noEmail,
      inv.conflicts ++ g.conflict.toList⟩ := by
  have hlen : (sortRefs g.accounts).length = g.accounts.length := (sortRefs_perm _).length_eq
  rw [classifyGroup, Group.single, Group.candidate, Group.conflict, Group.sorted]
  cases hc : classifyConflict (sortRefs g.accounts) with
  | some kd => simp
  | none =>
    dsimp only
    by_cases hl : g.accounts.length = 1
    · rw [if_pos (hlen.trans hl)]
      simp [hl]
    · rw [if_neg (hlen ▸ hl)]
      simp [hl]

theorem foldl_classifyGroup (inv : Inventory) (groups : List Group) :
    groups.foldl classifyGroup inv =
      ⟨inv.singles ++ groups.filterMap Group.single,
        inv.fusionCandidates ++ groups.filterMap Group.candidate, inv.noEmail,
        inv.conflicts ++ groups.filterMap Group.conflict⟩ := by
  have hcons {α : Type} (f : Group → Option α) (g : Group) (gs : List Group) :
      (g :: gs).filterMap f = (f g).toList ++ gs.filterMap f := by
    rw [List.filterMap_cons]
    cases f g <;> rfl
  induction groups generalizing inv with
  | nil => simp
  | cons g gs ih =>
    rw [List.foldl_cons, ih, classifyGroup_eq]
    simp only [hcons, List.append_assoc]

/-- What an inventory lists, by the accounts that share a hash. -/
structure Inventoried (hashEmail : HashEmail) (accounts : List LegacyAccount) (inv : Inventory)
    (groups : List Group) : Prop where
  grouped : Grouped (accounts.filterMap (hashedRef hashEmail)) groups
  singles : ∀ s, s ∈ inv.singles ↔ ∃ g ∈ groups, g.single = some s
  candidates : ∀ s, s ∈ inv.fusionCandidates ↔ ∃ g ∈ groups, g.candidate = some s
  noEmail : inv.noEmail.Perm ((accounts.filter (·.email = [])).map (·.ref))
  conflicts : ∀ c ∈ inv.conflicts, c.accounts.length = 1 ∨ ∃ g ∈ groups, g.conflict = some c

theorem buildInventory_spec (hashEmail : HashEmail) (accounts : List LegacyAccount) :
    ∃ groups, Inventoried hashEmail accounts (buildInventory hashEmail accounts) groups := by
  have hst : Hashed hashEmail accounts _ := hashed_accounts accounts
  generalize hst' : accounts.foldl (hashAccount hashEmail) (⟨[], [], [], []⟩, []) = st at hst
  refine ⟨st.2, hst.groups, fun s => ?_, fun s => ?_, ?_, fun c hc => ?_⟩
  · simp only [buildInventory, hst', foldl_classifyGroup, hst.singles, List.nil_append,
      List.mem_filterMap, mem_sortBy]
  · simp only [buildInventory, hst', foldl_classifyGroup, hst.candidates, List.nil_append,
      List.mem_filterMap, mem_sortBy]
  · simp only [buildInventory, hst', foldl_classifyGroup, hst.noEmail]
    exact sortRefs_perm _
  · simp only [buildInventory, hst', foldl_classifyGroup, mem_sortBy, List.mem_append,
      List.mem_filterMap] at hc
    rcases hc with hc | hc
    · exact Or.inl (hst.unhashable c hc)
    · exact Or.inr hc

end Loops

end ArchGuard.Migration
