import ArchGuard.ApiFilter
import ArchGuard.IdentityImport
import Mathlib.Data.List.AList

/-! The license gate: which components of a build it holds against the license matrix, and how its
verdict depends on the order in which it meets the rows of its maps. -/
namespace ArchGuard.LicenseGate
open GoText Migration IdentityImport LegacyApi

/-- A map from texts, its rows in the order in which a loop meets them. -/
abbrev Rows (β : Type) := AList fun _ : GoString => β

abbrev Table := Rows GoString

/-- The same map, met in another order. -/
def Reorders {β : Type} (t t' : Rows β) : Prop := t'.entries.Perm t.entries

theorem Reorders.refl {β : Type} (t : Rows β) : Reorders t t := List.Perm.refl _

section Search

/-- The text under a key, or else the first that is met under one that is near. -/
def search (near : GoString → Bool) (key : GoString) (t : Table) : Option GoString :=
  (t.lookup key).or ((t.entries.find? fun row => near row.1).map fun row => row.2)

/-- What the search can come to, over all orders. -/
def results (near : GoString → Bool) (key : GoString) (t : Table) : List (Option GoString) :=
  match t.lookup key with
  | some v => [some v]
  | none =>
    match t.entries.filter fun row => near row.1 with
    | [] => [none]
    | row :: rows => (row :: rows).map fun row => some row.2

variable {near : GoString → Bool} {key : GoString} {t : Table}

theorem exists_met_first {row : Sigma fun _ : GoString => GoString} (hrow : row ∈ t.entries) :
    ∃ t' : Table, Reorders t t' ∧ t'.entries.head? = some row := by
  have hperm : (row :: t.entries.erase row).Perm t.entries := (List.perm_cons_erase hrow).symm
  have hkeys : (row :: t.entries.erase row).NodupKeys := (List.perm_nodupKeys hperm).2 t.nodupKeys
  exact ⟨⟨row :: t.entries.erase row, hkeys⟩, hperm, rfl⟩

theorem mem_results_iff {r : Option GoString} :
    r ∈ results near key t ↔ ∃ t', Reorders t t' ∧ search near key t' = r := by
  have hlookup (t' : Table) (ht : Reorders t t') : t'.lookup key = t.lookup key := AList.perm_lookup ht
  unfold results search
  cases hkey : t.lookup key with
  | some v =>
    constructor
    · intro hr
      refine ⟨t, Reorders.refl t, ?_⟩
      rw [hkey, List.mem_singleton.1 hr]
      rfl
    · intro ⟨t', ht, hr⟩
      rw [hlookup t' ht, hkey] at hr
      exact List.mem_singleton.2 hr.symm
  | none =>
    have hnear (t' : Table) (ht : Reorders t t') (row : Sigma fun _ : GoString => GoString)
        (hrow : t'.entries.find? (fun row => near row.1) = some row) :
        row ∈ t.entries.filter fun row => near row.1 := by
      have hmet := List.find?_some hrow
      exact List.mem_filter.2 ⟨ht.subset (List.mem_of_find?_eq_some hrow), hmet⟩
    cases hrows : t.entries.filter fun row => near row.1 with
    | nil =>
      have hfind (t' : Table) (ht : Reorders t t') : t'.entries.find? (fun row => near row.1) = none := by
        apply Option.eq_none_iff_forall_ne_some.2
        intro row hrow
        have hmem := hnear t' ht row hrow
        rw [hrows] at hmem
        exact List.not_mem_nil hmem
      constructor
      · intro hr
        refine ⟨t, Reorders.refl t, ?_⟩
        rw [hkey, hfind t (Reorders.refl t), List.mem_singleton.1 hr]
        rfl
      · intro ⟨t', ht, hr⟩
        rw [hlookup t' ht, hkey, hfind t' ht] at hr
        exact List.mem_singleton.2 hr.symm
    | cons row rows =>
      change r ∈ (row :: rows).map (fun row => some row.2) ↔ _
      rw [← hrows]
      constructor
      · intro hr
        obtain ⟨met, hmet, hr⟩ := List.mem_map.1 hr
        obtain ⟨hmem, hmet⟩ := List.mem_filter.1 hmet
        obtain ⟨t', ht, hhead⟩ := exists_met_first hmem
        refine ⟨t', ht, ?_⟩
        have hfind : t'.entries.find? (fun row => near row.1) = some met := by
          cases hentries : t'.entries with
          | nil => rw [hentries] at hhead; cases hhead
          | cons first rest =>
            rw [hentries] at hhead
            cases hhead
            exact List.find?_cons_of_pos hmet
        rw [hlookup t' ht, hkey, hfind]
        exact hr
      · intro ⟨t', ht, hr⟩
        rw [hlookup t' ht, hkey, Option.none_or] at hr
        cases hfind : t'.entries.find? fun row => near row.1 with
        | some met =>
          rw [hfind] at hr
          exact List.mem_map.2 ⟨met, hnear t' ht met hfind, hr⟩
        | none =>
          have hmem : row ∈ t.entries.filter fun row => near row.1 := by
            rw [hrows]
            exact List.mem_cons_self
          obtain ⟨hmem, hmet⟩ := List.mem_filter.1 hmem
          exact absurd hmet (List.find?_eq_none.1 hfind row (ht.symm.subset hmem))

end Search

section Matrix

structure Component where
  ref : GoString
  license : GoString
  deriving DecidableEq, Repr

def allowedLicenses : List GoString :=
  [utf8 "Apache-2.0", utf8 "MIT", utf8 "BSD-2-Clause", utf8 "BSD-3-Clause", utf8 "ISC", utf8 "Unlicense",
    utf8 "Zlib", utf8 "FTL"]

def forbiddenPrefixes : List GoString :=
  [utf8 "AGPL", utf8 "GPL", utf8 "LGPL", utf8 "SSPL", utf8 "BUSL", utf8 "Elastic"]

def conditionedPrefixes : List GoString := [utf8 "MPL", utf8 "EPL", utf8 "CDDL"]

def mplLinkedAllowed : Bool := true

/-- Simple folding towards the letters of ASCII. -/
def foldRune (c : Char) : Char :=
  if c = '\u212a' then 'k' else if c = '\u017f' then 's' else c.toLower

/-- `strings.EqualFold`, with a text of ASCII. -/
def equalFold (s : GoString) (ascii : String) : Bool :=
  (runes s).map (fun r => foldRune r.replaced) = ascii.toList.map foldRune

def undeterminable (license : GoString) : Bool :=
  license = [] || equalFold license "Unknown" || equalFold license "NOASSERTION"

def normalizeLicense (license : GoString) : GoString :=
  let license := trimRight (trimLeftFrom 0 license)
  if license = [] ∨ equalFold license "NOASSERTION" then utf8 "Unknown" else license

def electionNear (pkg mod : GoString) : Bool := hasPrefix pkg (mod ++ utf8 "/")

def electionFor (pkg : GoString) (elections : Table) : Option GoString :=
  search (electionNear pkg) pkg elections

def moduleNear (findingPath pkg : GoString) : Bool :=
  pkg = findingPath || hasPrefix pkg (findingPath ++ utf8 "/")

def resolveModule (findingPath : GoString) (pkgMod : Table) : GoString :=
  (search (moduleNear findingPath) findingPath pkgMod).getD (findingPath ++ utf8 "@?")

def message (parts : List GoString) : GoString := utf8 "license-gate: " ++ parts.flatten

theorem message_ne_nil (parts : List GoString) : message parts ≠ [] :=
  List.append_ne_nil_of_left_ne_nil (by decide) _

/-- `classify`, once the license to judge is known. -/
def judge (module license : GoString) : GoString × Bool :=
  if license ∈ allowedLicenses then ([], false)
  else if forbiddenPrefixes.any (hasPrefix license) then
    (message [module, utf8 " sob licença PROIBIDA ", license, utf8 " (ADR-0002 §3)"], false)
  else if conditionedPrefixes.any (hasPrefix license) then
    if mplLinkedAllowed then ([], true)
    else
      (message [module, utf8 " sob ", license,
        utf8 " LINKADA — proibida no regime vigente (I-2.2; permitida só após ADR-0019)"], true)
  else if undeterminable license then
    (message [utf8 "licença de ", module,
      utf8 " não determinável — fail-closed (ADR-0002 §3a; eleição possível em LICENSE_ELECTIONS.md)"], false)
  else
    (message [module, utf8 " sob licença ", license,
      utf8 " fora da matriz — revisão obrigatória (ADR-0002 §3)"], false)

/-- An unknown license is what was elected for the module, if anything was. -/
def resolveUnknown (module license : GoString) (elections : Table) : GoString :=
  if undeterminable license then (electionFor module elections).getD license else license

/-- The two searches for an election meet the map in orders of their own. -/
def classify (module license : GoString) (first second : Table) : GoString × Bool :=
  if contains license (utf8 " OR ") then
    match electionFor module first with
    | none =>
      (message [module, utf8 " é dual (", license,
        utf8 ") sem eleição registrada — desconhecida, fail-closed (ADR-0002 §3a; ver LICENSE_ELECTIONS.md)"], false)
    | some elected =>
      if contains license elected then judge module (resolveUnknown module elected second)
      else
        (message [module, utf8 ": licença eleita ", quoteBytes elected,
          utf8 " não consta das opções ofertadas (", license, utf8 ")"], false)
  else judge module (resolveUnknown module license second)

/-- Linked under a weak copyleft, which the regime permits. -/
def weakCopyleft (license : GoString) : Bool := conditionedPrefixes.any (hasPrefix license)

def permitted (license : GoString) : Bool := license ∈ allowedLicenses || weakCopyleft license

/-- The license that the elections leave a module with; none where a choice is not made. -/
def usedUnder (module license : GoString) (first second : Table) : Option GoString :=
  if contains license (utf8 " OR ") then
    ((electionFor module first).filter (contains license)).map fun elected =>
      resolveUnknown module elected second
  else some (resolveUnknown module license second)

theorem weakCopyleft_apart {license : GoString} (h : weakCopyleft license = true) :
    license ∉ allowedLicenses ∧ forbiddenPrefixes.any (hasPrefix license) = false := by
  obtain ⟨p, hp, hpre⟩ := List.any_eq_true.1 h
  have hpre : p <+: license := List.isPrefixOf_iff_prefix.1 hpre
  have hallowed : ∀ q ∈ allowedLicenses, p.isPrefixOf q = false := by
    have hall : ∀ p ∈ conditionedPrefixes, ∀ q ∈ allowedLicenses, p.isPrefixOf q = false := by
      decide
    exact hall p hp
  have hforbidden : ∀ q ∈ forbiddenPrefixes, p.isPrefixOf q = false ∧ q.isPrefixOf p = false := by
    have hall : ∀ p ∈ conditionedPrefixes, ∀ q ∈ forbiddenPrefixes,
        p.isPrefixOf q = false ∧ q.isPrefixOf p = false := by decide
    exact hall p hp
  constructor
  · intro hmem
    have hnot := hallowed license hmem
    rw [List.isPrefixOf_iff_prefix.2 hpre] at hnot
    cases hnot
  · apply List.any_eq_false.2
    intro q hq hqpre
    -- Of two prefixes of one text, one is a prefix of the other.
    obtain ⟨hpq, hqp⟩ := hforbidden q hq
    have hqpre : q <+: license := List.isPrefixOf_iff_prefix.1 hqpre
    rcases List.prefix_or_prefix_of_prefix hpre hqpre with h | h
    · rw [List.isPrefixOf_iff_prefix.2 h] at hpq
      cases hpq
    · rw [List.isPrefixOf_iff_prefix.2 h] at hqp
      cases hqp

theorem judge_snd (module license : GoString) : (judge module license).2 = weakCopyleft license := by
  by_cases hweak : weakCopyleft license = true
  · obtain ⟨hallowed, hforbidden⟩ := weakCopyleft_apart hweak
    have hany : conditionedPrefixes.any (hasPrefix license) = true := hweak
    simp [judge, hallowed, hforbidden, hany, mplLinkedAllowed, hweak]
  · have hany : conditionedPrefixes.any (hasPrefix license) = false := Bool.eq_false_iff.2 hweak
    rw [Bool.eq_false_iff.2 hweak]
    unfold judge
    rw [hany]
    split_ifs <;> first | rfl | contradiction

theorem judge_fst_eq_nil_iff (module license : GoString) :
    (judge module license).1 = [] ↔ permitted license = true := by
  by_cases hweak : weakCopyleft license = true
  · obtain ⟨hallowed, hforbidden⟩ := weakCopyleft_apart hweak
    have hany : conditionedPrefixes.any (hasPrefix license) = true := hweak
    simp [judge, permitted, hallowed, hforbidden, hany, mplLinkedAllowed, hweak]
  · have hany : conditionedPrefixes.any (hasPrefix license) = false := Bool.eq_false_iff.2 hweak
    by_cases hallowed : license ∈ allowedLicenses
    · simp [judge, permitted, hallowed]
    · have hpermitted : permitted license = false := by simp [permitted, hallowed, Bool.eq_false_iff.2 hweak]
      rw [hpermitted]
      unfold judge
      rw [if_neg hallowed, hany]
      simp only [Bool.false_eq_true, if_false, iff_false]
      split_ifs <;> exact message_ne_nil _

theorem classify_eq_judge {module license lic : GoString} {first second : Table}
    (h : usedUnder module license first second = some lic) :
    classify module license first second = judge module lic := by
  unfold usedUnder at h
  unfold classify
  split_ifs at h ⊢ with hdual
  · cases helected : electionFor module first with
    | none => rw [helected] at h; cases h
    | some elected =>
      rw [helected] at h
      by_cases hoffered : contains license elected = true
      · rw [Option.filter_some_pos hoffered] at h
        simp only [hoffered, if_true]
        rw [← Option.some.inj h]
      · rw [Option.filter_some_neg (Bool.eq_false_iff.2 hoffered)] at h
        cases h
  · rw [← Option.some.inj h]

theorem classify_of_usedUnder_none {module license : GoString} {first second : Table}
    (h : usedUnder module license first second = none) :
    (classify module license first second).1 ≠ [] ∧ (classify module license first second).2 = false := by
  unfold usedUnder at h
  unfold classify
  split_ifs at h ⊢ with hdual
  cases helected : electionFor module first with
  | none => exact ⟨message_ne_nil _, rfl⟩
  | some elected =>
    rw [helected] at h
    have hoffered : ¬contains license elected = true := by
      intro hoffered
      rw [Option.filter_some_pos hoffered] at h
      cases h
    simp only [hoffered]
    exact ⟨message_ne_nil _, rfl⟩

end Matrix

section Collect

/-- The orders in which the maps are met for one component. -/
structure Iteration where
  first : Table
  second : Table
  modules : Table

/-- A component, with the orders that its searches have met. -/
abbrev Scanned := Component × Iteration

def Scanned.usedUnder (c : Scanned) : Option GoString :=
  LicenseGate.usedUnder c.1.ref c.1.license c.2.first c.2.second

def Scanned.modver (c : Scanned) : GoString := resolveModule c.1.ref c.2.modules

def collectStep (acc : Table × List GoString) (c : Scanned) : Table × List GoString :=
  let v := classify c.1.ref c.1.license c.2.first c.2.second
  let mplModules := if v.2 then acc.2 ++ [c.1.ref] else acc.2
  if v.1 = [] then (acc.1, mplModules)
  else (acc.1.insert c.modver (normalizeLicense c.1.license), mplModules)

/-- The findings by module and version, and the modules under a weak copyleft. -/
def collectFindings (scan : List Scanned) : Table × List GoString := scan.foldl collectStep (∅, [])

def Scanned.cleared (c : Scanned) : Bool := c.usedUnder.any permitted

def Scanned.weak (c : Scanned) : Bool := c.usedUnder.any weakCopyleft

/-- What a component adds to the findings. -/
def Scanned.finding (c : Scanned) : Option (GoString × GoString) :=
  if c.cleared then none else some (c.modver, normalizeLicense c.1.license)

theorem classify_scanned (c : Scanned) :
    ((classify c.1.ref c.1.license c.2.first c.2.second).1 = [] ↔ c.cleared = true) ∧
    (classify c.1.ref c.1.license c.2.first c.2.second).2 = c.weak := by
  cases hused : c.usedUnder with
  | none =>
    obtain ⟨htext, hweak⟩ := classify_of_usedUnder_none hused
    simp [Scanned.cleared, Scanned.weak, hused, htext, hweak]
  | some lic =>
    rw [classify_eq_judge hused, judge_fst_eq_nil_iff, judge_snd]
    simp [Scanned.cleared, Scanned.weak, hused]

theorem collectStep_eq (acc : Table × List GoString) (c : Scanned) :
    collectStep acc c =
      ((match c.finding with | none => acc.1 | some (modver, lic) => acc.1.insert modver lic),
        if c.weak then acc.2 ++ [c.1.ref] else acc.2) := by
  obtain ⟨htext, hweak⟩ := classify_scanned c
  simp only [collectStep, Scanned.finding, hweak, htext]
  by_cases hcleared : c.cleared = true
  · simp only [if_pos hcleared]
  · simp only [if_neg hcleared]

theorem collectFindings_concat (scan : List Scanned) (c : Scanned) :
    collectFindings (scan ++ [c]) = collectStep (collectFindings scan) c :=
  List.foldl_concat ..

theorem mem_mplModules_iff {scan : List Scanned} {m : GoString} :
    m ∈ (collectFindings scan).2 ↔ ∃ c ∈ scan, c.weak = true ∧ c.1.ref = m := by
  induction scan using List.reverseRecOn with
  | nil => simp [collectFindings]
  | append_singleton scan c ih =>
    rw [collectFindings_concat, collectStep_eq]
    simp only [List.mem_append, List.mem_singleton, or_and_right, exists_or, exists_eq_left, ← ih]
    by_cases hweak : c.weak = true
    · simp only [hweak, if_true, true_and, List.mem_append, List.mem_singleton, eq_comm]
    · simp only [Bool.eq_false_iff.2 hweak, Bool.false_eq_true, if_false, false_and, or_false]

theorem exists_finding_of_lookup {scan : List Scanned} {k l : GoString}
    (h : (collectFindings scan).1.lookup k = some l) : ∃ c ∈ scan, c.finding = some (k, l) := by
  induction scan using List.reverseRecOn with
  | nil => cases h
  | append_singleton scan c ih =>
    rw [collectFindings_concat, collectStep_eq] at h
    cases hfinding : c.finding with
    | none =>
      rw [hfinding] at h
      obtain ⟨d, hd, hfound⟩ := ih h
      exact ⟨d, List.mem_append_left _ hd, hfound⟩
    | some found =>
      rw [hfinding] at h
      by_cases hk : k = found.1
      · rw [hk, AList.lookup_insert] at h
        refine ⟨c, List.mem_append_right _ List.mem_cons_self, ?_⟩
        rw [hfinding, hk, ← Option.some.inj h]
      · rw [AList.lookup_insert_ne hk] at h
        obtain ⟨d, hd, hfound⟩ := ih h
        exact ⟨d, List.mem_append_left _ hd, hfound⟩

/-- Nothing else was found for the module and version. -/
def Undisputed (scan : List Scanned) (k l : GoString) : Prop :=
  ∀ c ∈ scan, ∀ l', c.finding = some (k, l') → l' = l

theorem lookup_findings {scan : List Scanned} {k l : GoString} {c : Scanned} (hc : c ∈ scan)
    (hfound : c.finding = some (k, l)) (hall : Undisputed scan k l) :
    (collectFindings scan).1.lookup k = some l := by
  induction scan using List.reverseRecOn with
  | nil => cases hc
  | append_singleton scan d ih =>
    have hrest : Undisputed scan k l := fun e he => hall e (List.mem_append_left _ he)
    rw [collectFindings_concat, collectStep_eq]
    cases hfinding : d.finding with
    | none =>
      rcases List.mem_append.1 hc with hc | hc
      · exact ih hc hrest
      · rw [List.mem_singleton.1 hc, hfinding] at hfound
        cases hfound
    | some found =>
      by_cases hk : k = found.1
      · have hl : found.2 = l := by
          apply hall d (List.mem_append_right _ List.mem_cons_self)
          rw [hfinding, hk]
        simp only [hl, ← hk]
        exact AList.lookup_insert _
      · rw [AList.lookup_insert_ne hk]
        rcases List.mem_append.1 hc with hc | hc
        · exact ih hc hrest
        · rw [List.mem_singleton.1 hc, hfinding] at hfound
          exact absurd (congrArg Prod.fst (Option.some.inj hfound)).symm hk

end Collect

section Gate

structure BaselineEntry where
  license : GoString
  resolution : GoString
  deriving DecidableEq, Repr

abbrev Baseline := Rows BaselineEntry

def newFinding (modver lic : GoString) : GoString :=
  utf8 "license-gate: achado NOVO fora do baseline: " ++ modver ++ utf8 " [" ++ lic ++
    utf8 "] — resolva a licença ou remova o módulo (trava c)"

def otherLicense (modver want lic : GoString) : GoString :=
  utf8 "license-gate: " ++ modver ++ utf8 " está no baseline como " ++ want ++
    utf8 " mas foi detectado como " ++ lic ++ utf8 " — atualize a entrada"

def obsoleteEntry (modver : GoString) : GoString :=
  utf8 "license-gate: entrada OBSOLETA no baseline: " ++ modver ++
    utf8 " — não corresponde a achado real; remova-a neste commit (trava b)"

def reconcile (findings : Table) (baseline : Baseline) : List GoString :=
  findings.entries.filterMap (fun row =>
    match baseline.lookup row.1 with
    | none => some (newFinding row.1 row.2)
    | some want => if want.license ≠ row.2 then some (otherLicense row.1 want.license row.2) else none) ++
  baseline.entries.filterMap fun row =>
    if findings.lookup row.1 = none then some (obsoleteEntry row.1) else none

theorem reconcile_eq_nil_iff {findings : Table} {baseline : Baseline} :
    reconcile findings baseline = [] ↔
      ∀ k, findings.lookup k = (baseline.lookup k).map BaselineEntry.license := by
  unfold reconcile
  rw [List.append_eq_nil_iff, List.filterMap_eq_nil_iff, List.filterMap_eq_nil_iff]
  constructor
  · intro ⟨hnew, hold⟩ k
    cases hfound : findings.lookup k with
    | some l =>
      have hrow := hnew ⟨k, l⟩ (AList.mem_lookup_iff.1 hfound)
      cases hwant : baseline.lookup k with
      | none => simp [hwant] at hrow
      | some want =>
        simp only [hwant] at hrow
        by_cases hl : want.license = l
        · rw [Option.map_some, hl]
        · rw [if_pos hl] at hrow
          cases hrow
    | none =>
      cases hwant : baseline.lookup k with
      | none => rfl
      | some want =>
        have hrow := hold ⟨k, want⟩ (AList.mem_lookup_iff.1 hwant)
        simp [hfound] at hrow
  · intro hall
    constructor
    · intro row hrow
      have hfound : findings.lookup row.1 = some row.2 := AList.mem_lookup_iff.2 hrow
      rw [hall] at hfound
      cases hwant : baseline.lookup row.1 with
      | none => rw [hwant] at hfound; cases hfound
      | some want =>
        rw [hwant] at hfound
        simp [Option.some.inj hfound]
    · intro row hrow
      have hwant : baseline.lookup row.1 = some row.2 := AList.mem_lookup_iff.2 hrow
      simp [hall, hwant]

/-- What the detectors of a transition read under the root of the repository. -/
structure Root where
  /-- The replacements of `go.mod`. -/
  replaces : Except GoString Table
  vendored : GoString → Bool
  /-- `go mod verify`, with what it prints where it fails. -/
  verify : Except GoString Unit

def isLocalPath (target : GoString) : Bool :=
  hasPrefix target (utf8 "./") || hasPrefix target (utf8 "../") || hasPrefix target (utf8 "/") ||
    hasPrefix target (utf8 ".\\")

def replaced (m : GoString) (row : Sigma fun _ : GoString => GoString) : Bool :=
  (m = row.1 || hasPrefix m (row.1 ++ utf8 "/")) && isLocalPath row.2

def checkVendorAltered (root : Root) (mplModules : List GoString) : List GoString :=
  mplModules.filterMap fun m =>
    if root.vendored m then
      some (utf8 "license-gate/transição: módulo MPL " ++ m ++
        utf8 " está vendorizado em vendor/ — árvore pode divergir do proxy sem detecção; " ++
        utf8 "revisão manual exigida (ADR-0019 §II.3c)")
    else none

def localReplace (old target : GoString) : GoString :=
  utf8 "license-gate/transição: módulo MPL " ++ old ++ utf8 " tem \x60replace\x60 para caminho local " ++
    quoteBytes target ++ utf8 " — transição para MODIFICADO (ADR-0019 §II.3b)"

/-- Every module meets the replacements in an order of its own. -/
def checkMPLTransition (root : Root) (orders : ℕ → Table) (mplModules : List GoString) : List GoString :=
  match root.replaces with
  | .error err => [utf8 "license-gate: go.mod ilegível (fail-closed): " ++ err]
  | .ok _ =>
    (mplModules.zipIdx.flatMap fun (m, i) => (orders i).entries.filterMap fun row =>
      if replaced m row then some (localReplace row.1 row.2) else none) ++
    checkVendorAltered root mplModules ++
    match root.verify with
    | .ok _ => []
    | .error out =>
      [utf8 "license-gate/transição: \x60go mod verify\x60 falhou — integridade de módulo não confirmada " ++
        utf8 "vs proxy (ADR-0019 §II.3a): " ++ trimRight (trimLeftFrom 0 out)]

/-- `go.mod` can be read, and the cache is what the proxy has verified. -/
def Root.intact (root : Root) : Bool := root.replaces.isOk && root.verify.isOk

/-- A module that the detectors do not let pass as unmodified. -/
def Root.suspect (root : Root) (m : GoString) : Bool :=
  root.vendored m || match root.replaces with
    | .error _ => false
    | .ok t => t.entries.any (replaced m)

theorem checkMPLTransition_eq_nil_iff {root : Root} {orders : ℕ → Table} {mplModules : List GoString}
    (horders : ∀ t, root.replaces = .ok t → ∀ i, Reorders t (orders i)) :
    checkMPLTransition root orders mplModules = [] ↔
      root.intact = true ∧ ∀ m ∈ mplModules, root.suspect m = false := by
  cases hread : root.replaces with
  | error err => simp [checkMPLTransition, Root.intact, hread, Except.isOk, Except.toBool]
  | ok t =>
    have hrows (m : GoString) (i : ℕ) :
        (∀ row ∈ (orders i).entries, replaced m row = false) ↔
          ∀ row ∈ t.entries, replaced m row = false :=
      ⟨fun h row hrow => h row ((horders t hread i).symm.subset hrow),
        fun h row hrow => h row ((horders t hread i).subset hrow)⟩
    have hvendor : checkVendorAltered root mplModules = [] ↔
        ∀ m ∈ mplModules, root.vendored m = false := by
      simp [checkVendorAltered, List.filterMap_eq_nil_iff]
    have hreplace : (mplModules.zipIdx.flatMap fun (m, i) => (orders i).entries.filterMap fun row =>
        if replaced m row then some (localReplace row.1 row.2) else none) = [] ↔
        ∀ m ∈ mplModules, ∀ row ∈ t.entries, replaced m row = false := by
      rw [List.flatMap_eq_nil_iff]
      constructor
      · intro h m hm
        obtain ⟨i, hi, hmi⟩ := List.getElem_of_mem hm
        have hnone := h (m, i) (List.mem_zipIdx_iff_getElem?.2 (by rw [List.getElem?_eq_getElem hi, hmi]))
        apply (hrows m i).1
        intro row hrow
        have hrow := List.filterMap_eq_nil_iff.1 hnone row hrow
        by_contra hne
        rw [if_pos (Bool.eq_true_of_not_eq_false hne)] at hrow
        cases hrow
      · intro h p hp
        have hm : p.1 ∈ mplModules := List.mem_of_getElem? (List.mem_zipIdx_iff_getElem?.1 hp)
        apply List.filterMap_eq_nil_iff.2
        intro row hrow
        rw [if_neg (Bool.eq_false_iff.1 ((hrows p.1 p.2).2 (h p.1 hm) row hrow))]
    unfold checkMPLTransition
    rw [hread]
    simp only [List.append_eq_nil_iff, hreplace, hvendor]
    cases hverify : root.verify with
    | error out => simp [Root.intact, hread, hverify, Except.isOk, Except.toBool]
    | ok u =>
      simp [Root.intact, Root.suspect, hread, hverify, Except.isOk, Except.toBool, and_comm, forall_and]

/-- What one run of the gate is given, its baseline apart. -/
structure Inputs where
  comps : List Component
  pkgMod : Table
  elections : Table
  root : Root

/-- The orders in which one run meets the rows of its maps. -/
structure Orders where
  scan : List Scanned
  findings : Table
  baseline : Baseline
  replaces : ℕ → Table

structure Iteration.Of (it : Iteration) (inp : Inputs) : Prop where
  first : Reorders inp.elections it.first
  second : Reorders inp.elections it.second
  modules : Reorders inp.pkgMod it.modules

/-- The orders are of the maps that the run is about. -/
structure Orders.Of (o : Orders) (inp : Inputs) (baseline : Baseline) : Prop where
  comps : o.scan.map Prod.fst = inp.comps
  scan : ∀ c ∈ o.scan, c.2.Of inp
  findings : Reorders (collectFindings o.scan).1 o.findings
  baseline : Reorders baseline o.baseline
  replaces : ∀ t, inp.root.replaces = .ok t → ∀ i, Reorders t (o.replaces i)

/-- The violations that `main` reports, in one order. -/
def gate (inp : Inputs) (baseErrs : List GoString) (o : Orders) : List GoString :=
  baseErrs ++ reconcile o.findings o.baseline ++
    checkMPLTransition inp.root o.replaces (collectFindings o.scan).2

theorem gate_eq_nil_iff {inp : Inputs} {baseline : Baseline} {baseErrs : List GoString} {o : Orders}
    (ho : o.Of inp baseline) :
    gate inp baseErrs o = [] ↔ baseErrs = [] ∧
      (∀ k, (collectFindings o.scan).1.lookup k = (baseline.lookup k).map BaselineEntry.license) ∧
      inp.root.intact = true ∧ ∀ c ∈ o.scan, c.weak = true → inp.root.suspect c.1.ref = false := by
  have hlookups (k : GoString) : o.findings.lookup k = (collectFindings o.scan).1.lookup k ∧
      o.baseline.lookup k = baseline.lookup k :=
    ⟨AList.perm_lookup ho.findings, AList.perm_lookup ho.baseline⟩
  unfold gate
  rw [List.append_eq_nil_iff, List.append_eq_nil_iff, reconcile_eq_nil_iff,
    checkMPLTransition_eq_nil_iff ho.replaces, and_assoc]
  simp only [hlookups, mem_mplModules_iff, forall_exists_index, and_imp]
  constructor
  · intro ⟨herrs, hsame, hintact, hsuspect⟩
    exact ⟨herrs, hsame, hintact, fun c hc hweak => hsuspect _ c hc hweak rfl⟩
  · intro ⟨herrs, hsame, hintact, hsuspect⟩
    refine ⟨herrs, hsame, hintact, ?_⟩
    intro m c hc hweak hm
    rw [← hm]
    exact hsuspect c hc hweak

/-- The license is permitted, or the component is an entry of the baseline. -/
def Scanned.Accounted (baseline : Baseline) (c : Scanned) : Prop :=
  c.cleared = true ∨
    ∃ entry, baseline.lookup c.modver = some entry ∧ entry.license = normalizeLicense c.1.license

def Sound (inp : Inputs) (baseline : Baseline) (baseErrs : List GoString) : Prop :=
  ∀ o : Orders, o.Of inp baseline → gate inp baseErrs o = [] → ∀ c ∈ o.scan, c.Accounted baseline

def OrderFree (inp : Inputs) (baseline : Baseline) (baseErrs : List GoString) : Prop :=
  ∀ o o' : Orders, o.Of inp baseline → o'.Of inp baseline →
    (gate inp baseErrs o = [] ↔ gate inp baseErrs o' = [])

end Gate

section Ambiguity

/-- What an unknown license can come to. -/
def Inputs.resolved (inp : Inputs) (module license : GoString) : List GoString :=
  if undeterminable license then
    (results (electionNear module) module inp.elections).map (·.getD license)
  else [license]

def Inputs.uses (inp : Inputs) (c : Component) : List (Option GoString) :=
  if contains c.license (utf8 " OR ") then
    (results (electionNear c.ref) c.ref inp.elections).flatMap fun elected =>
      match elected.filter (contains c.license) with
      | none => [none]
      | some elected => (inp.resolved c.ref elected).map some
  else (inp.resolved c.ref c.license).map some

/-- The modules and versions that a component can be taken to be of. -/
def Inputs.modvers (inp : Inputs) (c : Component) : List GoString :=
  (results (moduleNear c.ref) c.ref inp.pkgMod).map (·.getD (c.ref ++ utf8 "@?"))

def Inputs.findings (inp : Inputs) (c : Component) : List (Option (GoString × GoString)) :=
  (inp.uses c).flatMap fun used =>
    if used.any permitted then [none]
    else (inp.modvers c).map fun modver => some (modver, normalizeLicense c.license)

/-- The detectors refuse the build in every order. -/
def Inputs.Refused (inp : Inputs) : Prop :=
  inp.root.intact = false ∨
    ∃ c ∈ inp.comps, inp.root.suspect c.ref = true ∧ ∀ used ∈ inp.uses c, used.any weakCopyleft = true

/-- No overlap leaves anything open: no suspect module is under a weak copyleft by one election only,
what a component can add to the findings some component always adds, and all that can be found for one
module and version is one license. -/
structure Inputs.Unambiguous (inp : Inputs) : Prop where
  unmodified : ∀ c ∈ inp.comps, inp.root.suspect c.ref = true →
    ∀ used ∈ inp.uses c, used.any weakCopyleft = false
  settled : ∀ c ∈ inp.comps, ∀ e, some e ∈ inp.findings c →
    ∃ d ∈ inp.comps, ∀ f ∈ inp.findings d, f = some e
  undisputed : ∀ c ∈ inp.comps, ∀ d ∈ inp.comps, ∀ k l l',
    some (k, l) ∈ inp.findings c → some (k, l') ∈ inp.findings d → l = l'

variable {inp : Inputs}

theorem mem_resolved_iff {module license lic : GoString} :
    lic ∈ inp.resolved module license ↔
      ∃ t, Reorders inp.elections t ∧ resolveUnknown module license t = lic := by
  unfold Inputs.resolved resolveUnknown
  split_ifs with hunknown
  · simp only [List.mem_map, mem_results_iff]
    constructor
    · intro ⟨r, ⟨t, ht, hr⟩, hlic⟩
      refine ⟨t, ht, ?_⟩
      rw [← hlic, ← hr]
      rfl
    · intro ⟨t, ht, hlic⟩
      exact ⟨_, ⟨t, ht, rfl⟩, hlic⟩
  · rw [List.mem_singleton]
    exact ⟨fun h => ⟨inp.elections, Reorders.refl _, h.symm⟩, fun ⟨_, _, h⟩ => h.symm⟩

theorem mem_uses_iff {c : Component} {used : Option GoString} :
    used ∈ inp.uses c ↔ ∃ first second, Reorders inp.elections first ∧ Reorders inp.elections second ∧
      usedUnder c.ref c.license first second = used := by
  unfold Inputs.uses usedUnder
  split_ifs with hdual
  · simp only [List.mem_flatMap, mem_results_iff]
    constructor
    · intro ⟨elected, ⟨first, hfirst, helected⟩, hused⟩
      have helected : electionFor c.ref first = elected := helected
      cases hoffered : elected.filter (contains c.license) with
      | none =>
        rw [hoffered] at hused
        refine ⟨first, inp.elections, hfirst, Reorders.refl _, ?_⟩
        rw [helected, hoffered, List.mem_singleton.1 hused]
        rfl
      | some lic =>
        rw [hoffered] at hused
        obtain ⟨resolved, hresolved, hused⟩ := List.mem_map.1 hused
        obtain ⟨second, hsecond, hresolved⟩ := mem_resolved_iff.1 hresolved
        refine ⟨first, second, hfirst, hsecond, ?_⟩
        rw [helected, hoffered, Option.map_some, hresolved, hused]
    · intro ⟨first, second, hfirst, hsecond, hused⟩
      refine ⟨electionFor c.ref first, ⟨first, hfirst, rfl⟩, ?_⟩
      rw [← hused]
      cases (electionFor c.ref first).filter (contains c.license) with
      | none => exact List.mem_singleton.2 rfl
      | some lic => exact List.mem_map.2 ⟨_, mem_resolved_iff.2 ⟨second, hsecond, rfl⟩, rfl⟩
  · simp only [List.mem_map, mem_resolved_iff]
    constructor
    · intro ⟨lic, ⟨second, hsecond, hlic⟩, hused⟩
      exact ⟨inp.elections, second, Reorders.refl _, hsecond, by rw [hlic, hused]⟩
    · intro ⟨first, second, hfirst, hsecond, hused⟩
      exact ⟨_, ⟨second, hsecond, rfl⟩, hused⟩

theorem mem_modvers_iff {c : Component} {modver : GoString} :
    modver ∈ inp.modvers c ↔ ∃ t, Reorders inp.pkgMod t ∧ resolveModule c.ref t = modver := by
  simp only [Inputs.modvers, List.mem_map, mem_results_iff]
  constructor
  · intro ⟨r, ⟨t, ht, hr⟩, hmodver⟩
    refine ⟨t, ht, ?_⟩
    rw [← hmodver, ← hr]
    rfl
  · intro ⟨t, ht, hmodver⟩
    exact ⟨_, ⟨t, ht, rfl⟩, hmodver⟩

theorem exists_iteration {c : Component} {used : Option GoString} {modver : GoString}
    (hused : used ∈ inp.uses c) (hmodver : modver ∈ inp.modvers c) :
    ∃ it : Iteration, it.Of inp ∧ Scanned.usedUnder (c, it) = used ∧ Scanned.modver (c, it) = modver := by
  obtain ⟨first, second, hfirst, hsecond, hused⟩ := mem_uses_iff.1 hused
  obtain ⟨modules, hmodules, hmodver⟩ := mem_modvers_iff.1 hmodver
  exact ⟨⟨first, second, modules⟩, ⟨hfirst, hsecond, hmodules⟩, hused, hmodver⟩

theorem exists_modver (inp : Inputs) (c : Component) : ∃ modver, modver ∈ inp.modvers c :=
  ⟨_, mem_modvers_iff.2 ⟨inp.pkgMod, Reorders.refl _, rfl⟩⟩

theorem usedUnder_mem {c : Scanned} (hc : c.2.Of inp) : c.usedUnder ∈ inp.uses c.1 :=
  mem_uses_iff.2 ⟨_, _, hc.first, hc.second, rfl⟩

theorem modver_mem {c : Scanned} (hc : c.2.Of inp) : c.modver ∈ inp.modvers c.1 :=
  mem_modvers_iff.2 ⟨_, hc.modules, rfl⟩

theorem finding_mem {c : Scanned} (hc : c.2.Of inp) : c.finding ∈ inp.findings c.1 := by
  apply List.mem_flatMap.2
  refine ⟨c.usedUnder, usedUnder_mem hc, ?_⟩
  unfold Scanned.finding Scanned.cleared
  split_ifs
  · exact List.mem_singleton.2 rfl
  · exact List.mem_map.2 ⟨c.modver, modver_mem hc, rfl⟩

theorem exists_iteration_of_finding {c : Component} {f : Option (GoString × GoString)}
    (h : f ∈ inp.findings c) : ∃ it : Iteration, it.Of inp ∧ Scanned.finding (c, it) = f := by
  obtain ⟨used, hused, hf⟩ := List.mem_flatMap.1 h
  split_ifs at hf with hpermitted
  · obtain ⟨modver, hmodver⟩ := exists_modver inp c
    obtain ⟨it, hit, hu, -⟩ := exists_iteration hused hmodver
    refine ⟨it, hit, ?_⟩
    rw [Scanned.finding, Scanned.cleared, hu, if_pos hpermitted, List.mem_singleton.1 hf]
  · obtain ⟨modver, hmodver, hf⟩ := List.mem_map.1 hf
    obtain ⟨it, hit, hu, hm⟩ := exists_iteration hused hmodver
    refine ⟨it, hit, ?_⟩
    rw [Scanned.finding, Scanned.cleared, hu, if_neg hpermitted, hm, ← hf]

theorem finding_license {c : Component} {k l : GoString} (h : some (k, l) ∈ inp.findings c) :
    l = normalizeLicense c.license := by
  obtain ⟨it, hit, hfinding⟩ := exists_iteration_of_finding h
  unfold Scanned.finding at hfinding
  split_ifs at hfinding
  exact (congrArg Prod.snd (Option.some.inj hfinding)).symm

end Ambiguity

section Verdict

instance : Inhabited Iteration := ⟨⟨∅, ∅, ∅⟩⟩

/-- The scan in which every component meets the orders chosen for it. -/
def Inputs.scan (inp : Inputs) (choice : Component → Iteration) : List Scanned :=
  inp.comps.map fun c => (c, choice c)

def quarantined (license : GoString) : BaselineEntry := ⟨license, utf8 "regime:ADR-0019"⟩

/-- A baseline of all that was found. -/
def quarantine (findings : Table) : Baseline :=
  ⟨findings.entries.map (Sigma.map id fun _ => quarantined), by
    have hkeys : (findings.entries.map Sigma.fst).Nodup := findings.nodupKeys
    unfold List.NodupKeys List.keys
    rw [List.map_map]
    exact hkeys⟩

theorem lookup_quarantine (findings : Table) (k : GoString) :
    ((quarantine findings).lookup k).map BaselineEntry.license = findings.lookup k := by
  have hmap : (quarantine findings).lookup k = (findings.lookup k).map quarantined :=
    List.dlookup_map₂ k
  rw [hmap, Option.map_map]
  exact congrFun Option.map_id _

/-- The run in which the other loops meet the rows as they stand. -/
def Inputs.orders (inp : Inputs) (choice : Component → Iteration) (baseline : Baseline) : Orders where
  scan := inp.scan choice
  findings := (collectFindings (inp.scan choice)).1
  baseline := baseline
  replaces := fun _ => match inp.root.replaces with
    | .ok t => t
    | .error _ => ∅

variable {inp : Inputs} {choice : Component → Iteration}

theorem orders_of (hchoice : ∀ c ∈ inp.comps, (choice c).Of inp) (baseline : Baseline) :
    (inp.orders choice baseline).Of inp baseline where
  comps := by simp [Inputs.orders, Inputs.scan, Function.comp_def]
  scan := by
    intro c hc
    obtain ⟨d, hd, rfl⟩ := List.mem_map.1 hc
    exact hchoice d hd
  findings := Reorders.refl _
  baseline := Reorders.refl _
  replaces := by
    intro t ht i
    simp only [Inputs.orders, ht]
    exact Reorders.refl _

/-- A run with nothing for the detectors accepts the baseline of its own findings. -/
theorem gate_quarantine (hchoice : ∀ c ∈ inp.comps, (choice c).Of inp) (hintact : inp.root.intact = true)
    (hcalm : ∀ c ∈ inp.comps, Scanned.weak (c, choice c) = true → inp.root.suspect c.ref = false) :
    gate inp [] (inp.orders choice (quarantine (collectFindings (inp.scan choice)).1)) = [] := by
  apply (gate_eq_nil_iff (orders_of hchoice _)).2
  refine ⟨rfl, fun k => (lookup_quarantine _ k).symm, hintact, ?_⟩
  intro c hc hweak
  obtain ⟨d, hd, rfl⟩ := List.mem_map.1 hc
  exact hcalm d hd hweak

theorem mem_comps_of_scan {o : Orders} {baseline : Baseline} (ho : o.Of inp baseline) {c : Scanned}
    (hc : c ∈ o.scan) : c.1 ∈ inp.comps := by
  rw [← ho.comps]
  exact List.mem_map_of_mem hc

theorem exists_scanned {o : Orders} {baseline : Baseline} (ho : o.Of inp baseline) {c : Component}
    (hc : c ∈ inp.comps) : ∃ it, (c, it) ∈ o.scan := by
  rw [← ho.comps] at hc
  obtain ⟨d, hd, rfl⟩ := List.mem_map.1 hc
  exact ⟨d.2, hd⟩

theorem gate_ne_nil_of_refused (hrefused : inp.Refused) {o : Orders} {baseline : Baseline}
    (ho : o.Of inp baseline) (baseErrs : List GoString) : gate inp baseErrs o ≠ [] := by
  intro hgate
  obtain ⟨-, -, hintact, hcalm⟩ := (gate_eq_nil_iff ho).1 hgate
  rcases hrefused with hbroken | ⟨c, hc, hsuspect, hweak⟩
  · rw [hbroken] at hintact
    cases hintact
  · obtain ⟨it, hscan⟩ := exists_scanned ho hc
    have hused := hweak _ (usedUnder_mem (ho.scan _ hscan))
    rw [hcalm _ hscan hused] at hsuspect
    cases hsuspect

theorem lookup_findings_iff (hinp : inp.Unambiguous) {o : Orders} {baseline : Baseline}
    (ho : o.Of inp baseline) {k l : GoString} :
    (collectFindings o.scan).1.lookup k = some l ↔ ∃ c ∈ inp.comps, some (k, l) ∈ inp.findings c := by
  constructor
  · intro h
    obtain ⟨c, hc, hfound⟩ := exists_finding_of_lookup h
    refine ⟨c.1, mem_comps_of_scan ho hc, ?_⟩
    rw [← hfound]
    exact finding_mem (ho.scan c hc)
  · intro ⟨c, hc, hfound⟩
    obtain ⟨d, hd, hall⟩ := hinp.settled c hc _ hfound
    obtain ⟨it, hscan⟩ := exists_scanned ho hd
    apply lookup_findings hscan (hall _ (finding_mem (ho.scan _ hscan)))
    intro e he l' hl'
    have hmem := finding_mem (ho.scan e he)
    rw [hl'] at hmem
    exact hinp.undisputed _ (mem_comps_of_scan ho he) _ hc k l' l hmem hfound

theorem accounted_of_unambiguous (hinp : inp.Unambiguous) (baseline : Baseline) (baseErrs : List GoString) :
    Sound inp baseline baseErrs := by
  intro o ho hgate c hc
  obtain ⟨-, hsame, -⟩ := (gate_eq_nil_iff ho).1 hgate
  by_cases hcleared : c.cleared = true
  · exact Or.inl hcleared
  · right
    have hfound : c.finding = some (c.modver, normalizeLicense c.1.license) := if_neg hcleared
    have hmem := finding_mem (ho.scan c hc)
    rw [hfound] at hmem
    have hlookup := (lookup_findings_iff hinp ho).2 ⟨c.1, mem_comps_of_scan ho hc, hmem⟩
    rw [hsame] at hlookup
    obtain ⟨entry, hentry, hlicense⟩ := Option.map_eq_some_iff.1 hlookup
    exact ⟨entry, hentry, hlicense⟩

theorem orderFree_of_unambiguous (hinp : inp.Unambiguous) (baseline : Baseline) (baseErrs : List GoString) :
    OrderFree inp baseline baseErrs := by
  have haccepts (o o' : Orders) (ho : o.Of inp baseline) (ho' : o'.Of inp baseline)
      (hgate : gate inp baseErrs o = []) : gate inp baseErrs o' = [] := by
    obtain ⟨herrs, hsame, hintact, -⟩ := (gate_eq_nil_iff ho).1 hgate
    apply (gate_eq_nil_iff ho').2
    refine ⟨herrs, ?_, hintact, ?_⟩
    · intro k
      rw [← hsame k]
      apply Option.ext
      intro l
      rw [lookup_findings_iff hinp ho', lookup_findings_iff hinp ho]
    · intro c hc hweak
      by_contra hsuspect
      have hfalse := hinp.unmodified _ (mem_comps_of_scan ho' hc) (Bool.eq_true_of_not_eq_false hsuspect) _
        (usedUnder_mem (ho'.scan c hc))
      have hweak : c.usedUnder.any weakCopyleft = true := hweak
      rw [hfalse] at hweak
      cases hweak
  intro o o' ho ho'
  exact ⟨haccepts o o' ho ho', haccepts o' o ho' ho⟩

theorem choice_update {c : Component} {it : Iteration} (hchoice : ∀ d ∈ inp.comps, (choice d).Of inp)
    (hit : it.Of inp) : ∀ d ∈ inp.comps, (Function.update choice c it d).Of inp := by
  intro d hd
  by_cases hdc : d = c
  · rw [hdc, Function.update_self]
    exact hit
  · rw [Function.update_of_ne hdc]
    exact hchoice d hd

theorem mem_scan_update {c : Component} {it : Iteration} (hc : c ∈ inp.comps) :
    (c, it) ∈ inp.scan (Function.update choice c it) := by
  refine List.mem_map.2 ⟨c, hc, ?_⟩
  rw [Function.update_self]

theorem intact_of_not_refused (hrefused : ¬inp.Refused) : inp.root.intact = true :=
  Bool.eq_true_of_not_eq_false fun h => hrefused (Or.inl h)

theorem unmodified_of_orderFree (hfree : ∀ baseline, OrderFree inp baseline []) (hrefused : ¬inp.Refused) :
    ∀ c ∈ inp.comps, inp.root.suspect c.ref = true →
      ∀ used ∈ inp.uses c, used.any weakCopyleft = false := by
  have hcalm : ∀ c ∈ inp.comps, ∃ it : Iteration, it.Of inp ∧
      (Scanned.weak (c, it) = true → inp.root.suspect c.ref = false) := by
    intro c hc
    obtain ⟨modver, hmodver⟩ := exists_modver inp c
    by_cases hsuspect : inp.root.suspect c.ref = true
    · have hother : ∃ used ∈ inp.uses c, used.any weakCopyleft ≠ true := by
        by_contra hall
        apply hrefused
        right
        refine ⟨c, hc, hsuspect, ?_⟩
        intro used hused
        by_contra hweak
        exact hall ⟨used, hused, hweak⟩
      obtain ⟨used, hused, hweak⟩ := hother
      obtain ⟨it, hit, hu, -⟩ := exists_iteration hused hmodver
      refine ⟨it, hit, ?_⟩
      intro h
      rw [Scanned.weak, hu] at h
      exact absurd h hweak
    · obtain ⟨it, hit, -⟩ := exists_iteration (@usedUnder_mem _ (c, ⟨inp.elections, inp.elections, inp.pkgMod⟩)
        ⟨Reorders.refl _, Reorders.refl _, Reorders.refl _⟩) hmodver
      exact ⟨it, hit, fun _ => Bool.eq_false_iff.2 hsuspect⟩
  choose! choice hchoice hcalm using hcalm
  intro c hc hsuspect used hused
  apply Bool.eq_false_iff.2
  intro hweak
  obtain ⟨modver, hmodver⟩ := exists_modver inp c
  obtain ⟨it, hit, hu, -⟩ := exists_iteration hused hmodver
  have hother := orders_of (choice_update (c := c) hchoice hit) (quarantine (collectFindings (inp.scan choice)).1)
  have hgate := (hfree _ _ _ (orders_of hchoice _) hother).1
    (gate_quarantine hchoice (intact_of_not_refused hrefused) hcalm)
  obtain ⟨-, -, -, hclean⟩ := (gate_eq_nil_iff hother).1 hgate
  have hscanned : Scanned.weak (c, it) = true := by
    rw [Scanned.weak, hu]
    exact hweak
  rw [hclean _ (mem_scan_update hc) hscanned] at hsuspect
  cases hsuspect

section Necessary

variable (hintact : inp.root.intact = true)
  (hunmodified : ∀ c ∈ inp.comps, inp.root.suspect c.ref = true →
    ∀ used ∈ inp.uses c, used.any weakCopyleft = false)

include hintact hunmodified

theorem gate_quarantine_of_unmodified (hchoice : ∀ c ∈ inp.comps, (choice c).Of inp) :
    gate inp [] (inp.orders choice (quarantine (collectFindings (inp.scan choice)).1)) = [] := by
  apply gate_quarantine hchoice hintact
  intro c hc hweak
  by_contra hsuspect
  have hused := hunmodified c hc (Bool.eq_true_of_not_eq_false hsuspect) _
    (@usedUnder_mem inp (c, choice c) (hchoice c hc))
  have hweak : (Scanned.usedUnder (c, choice c)).any weakCopyleft = true := hweak
  rw [hused] at hweak
  cases hweak

/-- With two licenses found for one module and version, the baseline of one hides the other. -/
theorem undisputed_of_sound (hsound : ∀ baseline, Sound inp baseline []) :
    ∀ c ∈ inp.comps, ∀ d ∈ inp.comps, ∀ k l l',
      some (k, l) ∈ inp.findings c → some (k, l') ∈ inp.findings d → l = l' := by
  intro c hc d hd k l l' hl hl'
  by_cases hcd : c = d
  · rw [finding_license hl, finding_license hl', hcd]
  · obtain ⟨it, hit, hfinding⟩ := exists_iteration_of_finding hl
    obtain ⟨it', hit', hfinding'⟩ := exists_iteration_of_finding hl'
    have hplain : ∀ e ∈ inp.comps,
        (⟨inp.elections, inp.elections, inp.pkgMod⟩ : Iteration).Of inp :=
      fun _ _ => ⟨Reorders.refl _, Reorders.refl _, Reorders.refl _⟩
    let choice : Component → Iteration :=
      Function.update (Function.update (fun _ => ⟨inp.elections, inp.elections, inp.pkgMod⟩) d it') c it
    have hchoice : ∀ e ∈ inp.comps, (choice e).Of inp := choice_update (choice_update hplain hit') hit
    have hscan : (c, it) ∈ inp.scan choice := mem_scan_update hc
    have hscan' : (d, it') ∈ inp.scan choice := by
      refine List.mem_map.2 ⟨d, hd, ?_⟩
      simp only [choice, Function.update_of_ne (Ne.symm hcd), Function.update_self]
    have hgate := gate_quarantine_of_unmodified hintact hunmodified hchoice
    have haccounted := hsound _ _ (orders_of hchoice _) hgate
    have hlookup (e : Scanned) (he : e ∈ inp.scan choice) (lic : GoString) (hfound : e.finding = some (k, lic)) :
        ((quarantine (collectFindings (inp.scan choice)).1).lookup k).map BaselineEntry.license = some lic := by
      unfold Scanned.finding at hfound
      split_ifs at hfound with hcleared
      obtain ⟨hk, hlic⟩ := Prod.mk.inj (Option.some.inj hfound)
      rcases haccounted e he with h | ⟨entry, hentry, hlicense⟩
      · exact absurd h hcleared
      · rw [← hk, hentry, ← hlic, ← hlicense]
        rfl
    have hsame := (hlookup _ hscan l hfinding).symm.trans (hlookup _ hscan' l' hfinding')
    exact Option.some.inj hsame

theorem settled_of_orderFree (hfree : ∀ baseline, OrderFree inp baseline [])
    (hundisputed : ∀ c ∈ inp.comps, ∀ d ∈ inp.comps, ∀ k l l',
      some (k, l) ∈ inp.findings c → some (k, l') ∈ inp.findings d → l = l') :
    ∀ c ∈ inp.comps, ∀ e, some e ∈ inp.findings c → ∃ d ∈ inp.comps, ∀ f ∈ inp.findings d, f = some e := by
  intro c hc e he
  by_contra hnone
  have hwithout : ∀ d ∈ inp.comps, ∃ it : Iteration, it.Of inp ∧ Scanned.finding (d, it) ≠ some e := by
    intro d hd
    by_contra hall
    apply hnone
    refine ⟨d, hd, ?_⟩
    intro f hf
    obtain ⟨it, hit, hfinding⟩ := exists_iteration_of_finding hf
    by_contra hne
    exact hall ⟨it, hit, by rw [hfinding]; exact hne⟩
  choose! choice hchoice hwithout using hwithout
  obtain ⟨it, hit, hfinding⟩ := exists_iteration_of_finding he
  have hother := orders_of (choice_update (c := c) hchoice hit) (quarantine (collectFindings (inp.scan choice)).1)
  have hgate := (hfree _ _ _ (orders_of hchoice _) hother).1
    (gate_quarantine_of_unmodified hintact hunmodified hchoice)
  obtain ⟨-, hsame, -⟩ := (gate_eq_nil_iff hother).1 hgate
  have hlookup : (collectFindings (inp.scan (Function.update choice c it))).1.lookup e.1 = some e.2 := by
    apply lookup_findings (mem_scan_update hc) hfinding
    intro d hd l hl
    have hmem := finding_mem (hother.scan d hd)
    rw [hl] at hmem
    exact hundisputed _ (mem_comps_of_scan hother hd) c hc e.1 l e.2 hmem he
  have hheld : (collectFindings (inp.scan choice)).1.lookup e.1 = some e.2 := by
    rw [← lookup_quarantine, ← hsame]
    exact hlookup
  obtain ⟨d, hd, hfound⟩ := exists_finding_of_lookup hheld
  obtain ⟨m, hm, rfl⟩ := List.mem_map.1 hd
  exact hwithout m hm hfound

end Necessary

/-- Whatever the baseline, the gate is sound and its verdict free of the order, exactly where its
detectors refuse the build anyway or no overlap leaves anything open. -/
theorem sound_orderFree_iff (inp : Inputs) :
    (∀ baseline baseErrs, Sound inp baseline baseErrs ∧ OrderFree inp baseline baseErrs) ↔
      inp.Refused ∨ inp.Unambiguous := by
  constructor
  · intro h
    by_cases hrefused : inp.Refused
    · exact Or.inl hrefused
    · right
      have hintact := intact_of_not_refused hrefused
      have hunmodified := unmodified_of_orderFree (fun baseline => (h baseline []).2) hrefused
      have hundisputed := undisputed_of_sound hintact hunmodified fun baseline => (h baseline []).1
      exact ⟨hunmodified, settled_of_orderFree hintact hunmodified (fun baseline => (h baseline []).2) hundisputed,
        hundisputed⟩
  · intro h baseline baseErrs
    rcases h with hrefused | hinp
    · constructor
      · intro o ho hgate
        exact absurd hgate (gate_ne_nil_of_refused hrefused ho baseErrs)
      · intro o o' ho ho'
        exact iff_of_false (gate_ne_nil_of_refused hrefused ho baseErrs)
          (gate_ne_nil_of_refused hrefused ho' baseErrs)
    · exact ⟨accounted_of_unambiguous hinp baseline baseErrs, orderFree_of_unambiguous hinp baseline baseErrs⟩

/-- Two packages of one module, one under a license that the other's finding overwrites. -/
def overwritten : Inputs where
  comps := [⟨utf8 "m/a", utf8 "GPL"⟩, ⟨utf8 "m/b", utf8 "AGPL"⟩]
  pkgMod := (AList.singleton (utf8 "m/b") (utf8 "m@1")).insert (utf8 "m/a") (utf8 "m@1")
  elections := ∅
  root := ⟨.ok ∅, fun _ => false, .ok ()⟩

theorem overwritten_hidden : ¬∀ (inp : Inputs) (baseline : Baseline) (baseErrs : List GoString),
    Sound inp baseline baseErrs ∧ OrderFree inp baseline baseErrs := by
  intro h
  let choice : Component → Iteration := fun _ => ⟨∅, ∅, overwritten.pkgMod⟩
  let baseline : Baseline := AList.singleton (utf8 "m@1") (quarantined (utf8 "AGPL"))
  have hchoice : ∀ c ∈ overwritten.comps, (choice c).Of overwritten :=
    fun _ _ => ⟨Reorders.refl _, Reorders.refl _, Reorders.refl _⟩
  have hgate : gate overwritten [] (overwritten.orders choice baseline) = [] := by decide +kernel
  have haccounted := (h overwritten baseline []).1 _ (orders_of hchoice baseline) hgate
    (⟨utf8 "m/a", utf8 "GPL"⟩, ⟨∅, ∅, overwritten.pkgMod⟩) List.mem_cons_self
  rcases haccounted with hcleared | ⟨entry, hentry, hlicense⟩
  · have hnot : Scanned.cleared (⟨utf8 "m/a", utf8 "GPL"⟩, ⟨∅, ∅, overwritten.pkgMod⟩) = false := by decide +kernel
    rw [hnot] at hcleared
    cases hcleared
  · have heq : (baseline.lookup (Scanned.modver (⟨utf8 "m/a", utf8 "GPL"⟩, ⟨∅, ∅, overwritten.pkgMod⟩))).map
        BaselineEntry.license ≠ some (normalizeLicense (utf8 "GPL")) := by decide +kernel
    rw [hentry] at heq
    exact heq (congrArg some hlicense)

end Verdict

end ArchGuard.LicenseGate
