import ArchGuard.Credential
import ArchGuard.DirectoryDeactivation

/-! The import of a batch of identities: which records are held back as conflicts, and what the
report says of each. -/
namespace ArchGuard.IdentityImport
open DirectorySync GoText Ldap Tenancy

/-- White space at the front, after the bytes that remain of the code point read last. -/
def trimLeftFrom : (skip : ℕ) → GoString → GoString
  | _, [] => []
  | skip+1, _ :: s => trimLeftFrom skip s
  | 0, b :: s =>
    match decodeRune (b :: s) with
    | some c => if isSpace c then trimLeftFrom (c.utf8Size-1) s else b :: s
    | none => b :: s

def trimRight : GoString → GoString
  | [] => []
  | b :: s => if trimLeftFrom 0 (b :: s) = [] then [] else b :: trimRight s

/-- `NormalizeEmail`: `strings.TrimSpace`, then `strings.ToLower`. -/
def normalizeEmail (lower : Char → Char) (email : GoString) : GoString :=
  toLower lower (trimRight (trimLeftFrom 0 email))

example : normalizeEmail Char.toLower (utf8 " Ana@X.com \t") = utf8 "ana@x.com" := by decide +kernel

structure ImportRecord where
  email : GoString
  displayName : GoString
  externalID : GoString
  deriving DecidableEq, Repr

inductive ImportOutcome
  | created | reused | failed | conflicted
  deriving DecidableEq, Repr

inductive ImportConflictKind
  | intraBatchDuplicate
  deriving DecidableEq, Repr

structure ImportConflict where
  kind : ImportConflictKind
  email : GoString
  detail : String
  deriving DecidableEq, Repr

/-- What became of one record; the id is empty where none was imported. -/
structure ImportEntry where
  email : GoString
  identityID : String
  outcome : ImportOutcome
  error : String
  deriving DecidableEq, Repr

structure ImportReport where
  batchID : String
  entries : List ImportEntry
  conflicts : List ImportConflict
  deriving DecidableEq, Repr

def ImportRecord.validate (r : ImportRecord) : Except String Unit :=
  if r.email = [] then .error "import: e-mail obrigatório" else .ok ()

def ImportRecord.toSyncRecord (r : ImportRecord) : DirectorySyncRecord where
  externalID := if r.externalID = [] then r.email else r.externalID
  email := r.email
  attributes := [("email", r.email), ("name", r.displayName)]
  groups := []
  active := true

section Import

variable (lower : Char → Char)

/-- How often an e-mail stands in the batch; records without one are passed over. -/
def counts (records : List ImportRecord) (norm : GoString) : ℕ :=
  records.countP fun r => r.email ≠ [] && normalizeEmail lower r.email = norm

/-- The second loop, with the e-mails that it has reported. -/
def conflictsFrom (batch : List ImportRecord) : (seen : List GoString) → List ImportRecord →
    List ImportConflict
  | _, [] => []
  | seen, r :: rest =>
    let norm := normalizeEmail lower r.email
    if r.email = [] ∨ counts lower batch norm < 2 ∨ norm ∈ seen then conflictsFrom batch seen rest
    else ⟨.intraBatchDuplicate, r.email, "e-mail aparece " ++ toString (counts lower batch norm) ++
      " vezes no lote — revisão humana antes de importar"⟩ :: conflictsFrom batch (norm :: seen) rest

def detectImportConflicts (records : List ImportRecord) : List ImportConflict :=
  conflictsFrom lower records [] records

def conflictedEmails (conflicts : List ImportConflict) : List GoString :=
  conflicts.map fun c => normalizeEmail lower c.email

/-- What goes on around one record: what other sessions commit before it is looked up, between
that and its provisioning, and during it; and the random draws. -/
structure Turn where
  before : Db → Db
  classified : Db → Db
  meanwhile : Meanwhile
  draw : ProvisionDraw

variable (hashEmail : GoString → Except String Bytes) (org : Uuid)

/-- A record that is valid and in no conflict. -/
def provisionRecord (db : Db) (turn : Turn) (r : ImportRecord) : ImportEntry × Db :=
  match findByEmail hashEmail (turn.before db) r.email with
  | .error err => (⟨r.email, "", .failed, err⟩, turn.before db)
  | .ok found =>
    let outcome : ImportOutcome := if found.isSome then .reused else .created
    match provisionUser hashEmail turn.meanwhile (turn.classified (turn.before db)) org
        r.toSyncRecord turn.draw with
    | (.error err, db') => (⟨r.email, "", .failed, err.text⟩, db')
    | (.ok id, db') => (⟨r.email, id.text, outcome, ""⟩, db')

def importRecord (conflicted : List GoString) (db : Db) (turn : Turn) (r : ImportRecord) :
    ImportEntry × Db :=
  match r.validate with
  | .error err => (⟨r.email, "", .failed, err⟩, db)
  | .ok () =>
    if normalizeEmail lower r.email ∈ conflicted then
      (⟨r.email, "", .conflicted,
        "conflito de deduplicação — aguardando revisão humana (sem fusão automática)"⟩, db)
    else provisionRecord hashEmail org db turn r

/-- The loop over the records, each in its turn. -/
def importEach (conflicted : List GoString) : (turns : ℕ → Turn) → Db → List ImportRecord →
    List ImportEntry × Db
  | _, db, [] => ([], db)
  | turns, db, r :: rest =>
    let (entry, db') := importRecord lower hashEmail org conflicted db (turns 0) r
    let (entries, db'') := importEach conflicted (fun n => turns (n+1)) db' rest
    (entry :: entries, db'')

/-- `Import`, which never fails as a whole. -/
def importRecords (turns : ℕ → Turn) (db : Db) (batchID : String) (records : List ImportRecord) :
    ImportReport × Db :=
  let conflicts := detectImportConflicts lower records
  let (entries, db') :=
    importEach lower hashEmail org (conflictedEmails lower conflicts) turns db records
  (⟨batchID, entries, conflicts⟩, db')

end Import

section Conflicts

variable {lower : Char → Char} {batch : List ImportRecord}

/-- An e-mail is reported once, at its first record that is not among those seen, where the batch
has it twice. -/
theorem countP_conflictsFrom (seen : List GoString) (records : List ImportRecord)
    (norm : GoString) :
    (conflictsFrom lower batch seen records).countP (fun c => normalizeEmail lower c.email = norm) =
      if norm ∉ seen ∧ 2 ≤ counts lower batch norm ∧ 0 < counts lower records norm then 1 else 0 := by
  induction records generalizing seen with
  | nil => simp [conflictsFrom, counts]
  | cons r rest ih =>
    rw [conflictsFrom]
    have hcount : counts lower (r :: rest) norm = counts lower rest norm +
        if r.email ≠ [] ∧ normalizeEmail lower r.email = norm then 1 else 0 := by
      rw [counts, counts, List.countP_cons]
      simp only [Bool.and_eq_true, decide_eq_true_eq]
    by_cases hskip : r.email = [] ∨ counts lower batch (normalizeEmail lower r.email) < 2 ∨
        normalizeEmail lower r.email ∈ seen
    · rw [if_pos hskip, ih]
      -- the record that is passed over is not the one that would be reported
      refine if_congr (and_congr_right fun hseen => and_congr_right fun htwice => ?_) rfl rfl
      have hno : ¬(r.email ≠ [] ∧ normalizeEmail lower r.email = norm) := by
        rintro ⟨hne, rfl⟩
        rcases hskip with he | hlt | hmem
        · exact hne he
        · omega
        · exact hseen hmem
      rw [hcount, if_neg hno, Nat.add_zero]
    · rw [if_neg hskip, List.countP_cons, ih, hcount]
      simp only [not_or, not_lt] at hskip
      obtain ⟨hne, htwice, hseen⟩ := hskip
      dsimp only
      by_cases hnorm : normalizeEmail lower r.email = norm
      · subst hnorm
        rw [if_neg fun h => h.1 List.mem_cons_self, if_pos (by simp)]
        rw [if_pos ⟨hseen, htwice, by rw [if_pos ⟨hne, rfl⟩]; omega⟩]
      · have hmem : norm ∉ normalizeEmail lower r.email :: seen ↔ norm ∉ seen := by
          rw [List.mem_cons, not_or]
          exact and_iff_right fun h => hnorm h.symm
        have hhere : ¬decide (normalizeEmail lower r.email = norm) = true := by
          rwa [decide_eq_true_eq]
        have hcounted : ¬(r.email ≠ [] ∧ normalizeEmail lower r.email = norm) := fun h => hnorm h.2
        simp only [hmem, if_neg hhere, if_neg hcounted, Nat.add_zero]

theorem counts_pos {records : List ImportRecord} {norm : GoString}
    (h : 2 ≤ counts lower records norm) : 0 < counts lower records norm := by omega

theorem countP_conflicts (records : List ImportRecord) (norm : GoString) :
    (detectImportConflicts lower records).countP (fun c => normalizeEmail lower c.email = norm) =
      if 2 ≤ counts lower records norm then 1 else 0 := by
  rw [detectImportConflicts, countP_conflictsFrom]
  refine if_congr ⟨fun h => h.2.1, fun h => ⟨List.not_mem_nil, h, counts_pos h⟩⟩ rfl rfl

theorem mem_conflictedEmails {records : List ImportRecord} {norm : GoString} :
    norm ∈ conflictedEmails lower (detectImportConflicts lower records) ↔
      2 ≤ counts lower records norm := by
  have hpos : norm ∈ conflictedEmails lower (detectImportConflicts lower records) ↔
      0 < (detectImportConflicts lower records).countP
        (fun c => normalizeEmail lower c.email = norm) := by
    rw [List.countP_pos_iff, conflictedEmails, List.mem_map]
    simp only [decide_eq_true_eq]
  rw [hpos, countP_conflicts]
  split_ifs with h <;> simp [h]

end Conflicts

section Entries

variable {lower : Char → Char} {hashEmail : GoString → Except String Bytes} {org : Uuid}
  {conflicted : List GoString}

/-- What is said of a record: its own e-mail, and `conflicted` where it is valid and held back. -/
structure Reported (lower : Char → Char) (conflicted : List GoString) (r : ImportRecord)
    (e : ImportEntry) : Prop where
  email : e.email = r.email
  conflict : e.outcome = .conflicted ↔ r.email ≠ [] ∧ normalizeEmail lower r.email ∈ conflicted
  valid : e.outcome ≠ .failed → r.email ≠ []

theorem provisionRecord_outcome (db : Db) (turn : Turn) (r : ImportRecord) :
    (provisionRecord hashEmail org db turn r).1.email = r.email ∧
      (provisionRecord hashEmail org db turn r).1.outcome ≠ .conflicted := by
  unfold provisionRecord
  split
  · exact ⟨rfl, ImportOutcome.noConfusion⟩
  · rename_i found _
    dsimp only
    split
    · exact ⟨rfl, ImportOutcome.noConfusion⟩
    · refine ⟨rfl, ?_⟩
      dsimp only
      split_ifs
      · exact ImportOutcome.noConfusion
      · exact ImportOutcome.noConfusion

theorem importRecord_reported (db : Db) (turn : Turn) (r : ImportRecord) :
    Reported lower conflicted r (importRecord lower hashEmail org conflicted db turn r).1 := by
  unfold importRecord ImportRecord.validate
  by_cases he : r.email = []
  · rw [if_pos he]
    exact ⟨rfl, iff_of_false ImportOutcome.noConfusion fun h => h.1 he, fun h => absurd rfl h⟩
  · rw [if_neg he]
    dsimp only
    split_ifs with hmem
    · exact ⟨rfl, iff_of_true rfl ⟨he, hmem⟩, fun _ => he⟩
    · obtain ⟨hemail, hne⟩ := provisionRecord_outcome db turn r
      exact ⟨hemail, iff_of_false hne fun h => hmem h.2, fun _ => he⟩

theorem importEach_reported (turns : ℕ → Turn) (db : Db) (records : List ImportRecord) :
    List.Forall₂ (Reported lower conflicted) records
      (importEach lower hashEmail org conflicted turns db records).1 := by
  induction records generalizing turns db with
  | nil => exact .nil
  | cons r rest ih =>
    rw [importEach]
    exact .cons (importRecord_reported db (turns 0) r) (ih _ _)

/-- Reported as imported, under an old identity or a new one. -/
def ImportEntry.imported (e : ImportEntry) : Prop := e.outcome = .created ∨ e.outcome = .reused

theorem Reported.notMem {r : ImportRecord} {e : ImportEntry} (h : Reported lower conflicted r e)
    (himported : e.imported) : r.email ≠ [] ∧ normalizeEmail lower r.email ∉ conflicted := by
  have hne : r.email ≠ [] := by
    apply h.valid
    rcases himported with ho | ho
    · rw [ho]
      exact ImportOutcome.noConfusion
    · rw [ho]
      exact ImportOutcome.noConfusion
  refine ⟨hne, fun hmem => ?_⟩
  have hconflict := h.conflict.mpr ⟨hne, hmem⟩
  rcases himported with ho | ho
  · exact ImportOutcome.noConfusion (ho.symm.trans hconflict)
  · exact ImportOutcome.noConfusion (ho.symm.trans hconflict)

theorem two_le_counts {r r' : ImportRecord} {rest : List ImportRecord} (hmem : r' ∈ rest)
    (hr : r.email ≠ []) (hr' : r'.email ≠ [])
    (hnorm : normalizeEmail lower r.email = normalizeEmail lower r'.email) :
    2 ≤ counts lower (r :: rest) (normalizeEmail lower r.email) := by
  have hrest : 0 < counts lower rest (normalizeEmail lower r.email) := by
    apply List.countP_pos_iff.mpr
    refine ⟨r', hmem, ?_⟩
    rw [Bool.and_eq_true, decide_eq_true_eq, decide_eq_true_eq]
    exact ⟨hr', hnorm.symm⟩
  rw [counts, List.countP_cons, if_pos (by simp [hr])]
  exact Nat.succ_le_succ hrest

theorem counts_le_of_suffix {records rest : List ImportRecord} (h : rest <:+ records)
    (norm : GoString) : counts lower rest norm ≤ counts lower records norm :=
  h.sublist.countP_le

theorem imported_apart {batch records : List ImportRecord} {entries : List ImportEntry}
    (hsuffix : records <:+ batch)
    (h : List.Forall₂ (Reported lower (conflictedEmails lower (detectImportConflicts lower batch)))
      records entries) :
    (records.zip entries).Pairwise fun p p' => p.2.imported → p'.2.imported →
      normalizeEmail lower p.1.email ≠ normalizeEmail lower p'.1.email := by
  induction h with
  | nil => exact .nil
  | @cons r e rest entries hre hrest ih =>
    rw [List.zip_cons_cons]
    refine .cons ?_ (ih ((List.suffix_cons r rest).trans hsuffix))
    rintro ⟨r', e'⟩ hmem himported himported' hnorm
    obtain ⟨hne, hnotMem⟩ := hre.notMem himported
    obtain ⟨hne', -⟩ := (List.forall₂_zip hrest hmem).notMem himported'
    have htwice := two_le_counts (List.of_mem_zip hmem).1 hne hne' hnorm
    exact hnotMem (mem_conflictedEmails.mpr (htwice.trans (counts_le_of_suffix hsuffix _)))

/-- A report has one entry for each record, in order; a record is held back where it is valid and
shares its e-mail with another valid one; each such e-mail has one conflict; and no two records that
were imported share theirs. -/
theorem importRecords_report (lower : Char → Char) (hashEmail : GoString → Except String Bytes)
    (org : Uuid) (turns : ℕ → Turn) (db : Db) (batchID : String) (records : List ImportRecord) :
    let report := (importRecords lower hashEmail org turns db batchID records).1
    List.Forall₂ (fun r e => e.email = r.email ∧ (e.outcome = .conflicted ↔
      r.email ≠ [] ∧ 2 ≤ counts lower records (normalizeEmail lower r.email))) records
        report.entries ∧
    (∀ norm, report.conflicts.countP (fun c => normalizeEmail lower c.email = norm) =
      if 2 ≤ counts lower records norm then 1 else 0) ∧
    (records.zip report.entries).Pairwise fun p p' => p.2.imported → p'.2.imported →
      normalizeEmail lower p.1.email ≠ normalizeEmail lower p'.1.email := by
  have hreported : List.Forall₂ (Reported lower
      (conflictedEmails lower (detectImportConflicts lower records))) records
        (importRecords lower hashEmail org turns db batchID records).1.entries :=
    importEach_reported turns db records
  refine ⟨hreported.imp fun r e h => ⟨h.email, ?_⟩, countP_conflicts records,
    imported_apart List.suffix_rfl hreported⟩
  rw [h.conflict, mem_conflictedEmails]

end Entries

namespace Sample

def quiet : Turn := ⟨id, id, .alone, ⟨2, "s2", 3⟩⟩

/-- One record whose e-mail is a blank, and one without e-mail. -/
def blanks : List ImportRecord := [⟨utf8 " ", [], []⟩, ⟨[], [], []⟩]

end Sample

/-- Both e-mails are empty once they are normalized, and still the first record is in no conflict. -/
theorem blank_not_conflicted : ∃ r ∈ Sample.blanks, r.validate = .ok () ∧
    2 ≤ Sample.blanks.countP (fun r' =>
      normalizeEmail Char.toLower r'.email = normalizeEmail Char.toLower r.email) ∧
    ∃ e ∈ (importRecords Char.toLower DirectorySync.Sample.hashEmail 1 (fun _ => Sample.quiet)
      ReadCommitted.Store.empty "b1" Sample.blanks).1.entries,
      e.email = r.email ∧ e.outcome ≠ .conflicted := by
  refine ⟨⟨utf8 " ", [], []⟩, List.mem_cons_self, rfl, by decide +kernel, ?_⟩
  decide +kernel

end ArchGuard.IdentityImport
