import ArchGuard.GoText
import Mathlib.Data.List.Infix
import Mathlib.Data.List.Sort
import Mathlib.Order.MinMax

/-! The migrations of the database: what a run applies, and what is recorded over many runs. -/
namespace ArchGuard.Migrate
open GoText

structure Migration where
  version : ℕ
  name : String
  sql : GoString
  deriving DecidableEq, Repr

/-- An embedded file: its body, or why it cannot be read. -/
structure DirEntry where
  name : String
  isDir : Bool
  body : Except String GoString

/-- `%04d`. -/
def padded (version : ℕ) : String :=
  String.ofList ((Nat.toDigits 10 version).leftpad 4 '0')

inductive RunError
  | unreadable (detail : String)
  | invalidName (file : String)
  | duplicate (version : ℕ) (previous file : String)
  | connect (detail : String)
  | lock (detail : String)
  | createTable (detail : String)
  | readVersion (detail : String)
  | begin (m : Migration) (detail : String)
  | apply (m : Migration) (detail : String)
  | register (m : Migration) (detail : String)
  | commit (m : Migration) (detail : String)
  deriving DecidableEq, Repr

def RunError.text : RunError → String
  | .unreadable detail => detail
  | .invalidName file =>
    "migrate: nome de migration inválido \"" ++ file ++ "\" — use NNNN_nome.sql"
  | .duplicate version previous file => "migrate: versão " ++ padded version ++ " duplicada (" ++
      previous ++ " e " ++ file ++ ")"
  | .connect detail => "migrate: conexão falhou: " ++ detail
  | .lock detail => "migrate: advisory lock falhou: " ++ detail
  | .createTable detail => "migrate: criação de schema_migrations falhou: " ++ detail
  | .readVersion detail => "migrate: leitura de versão falhou: " ++ detail
  | .begin m detail => "migrate: begin " ++ padded m.version ++ " falhou: " ++ detail
  | .apply m detail => "migrate: aplicação de " ++ padded m.version ++ "_" ++ m.name ++
      " falhou: " ++ detail
  | .register m detail => "migrate: registro de " ++ padded m.version ++ " falhou: " ++ detail
  | .commit m detail => "migrate: commit de " ++ padded m.version ++ " falhou: " ++ detail

/-- The groups of `^(\d{4})_([a-z0-9_]+)\.sql$` in a file's name. -/
def fileName (name : String) : Option (ℕ × String) :=
  let digits := name.toList.take 4
  let rest := name.toList.drop 4
  let body := (rest.drop 1).take (rest.length-5)
  if digits.length = 4 ∧ digits.all Char.isDigit ∧ rest.head? = some '_' ∧ body ≠ [] ∧
      (body.all fun c => c.isLower || c.isDigit || c = '_') ∧
      rest.drop (rest.length-4) = ".sql".toList then
    some (digits.foldl (fun n c => 10*n+(c.toNat-48)) 0, String.ofList body)
  else none

/-- The loop over the directory, with the versions that it has met and their files. -/
def readEntries : (seen : List (ℕ × String)) → List DirEntry → Except RunError (List Migration)
  | _, [] => .ok []
  | seen, e :: rest =>
    if e.isDir then readEntries seen rest
    else match fileName e.name with
      | none => .error (.invalidName e.name)
      | some (version, name) =>
        match seen.lookup version with
        | some prev => .error (.duplicate version prev e.name)
        | none =>
          match e.body with
          | .error detail => .error (.unreadable detail)
          | .ok sql =>
            (readEntries ((version, e.name) :: seen) rest).map fun out => ⟨version, name, sql⟩ :: out

def parseMigrations (dir : Except String (List DirEntry)) : Except RunError (List Migration) :=
  match dir with
  | .error detail => .error (.unreadable detail)
  | .ok entries =>
    (readEntries [] entries).map fun out => out.insertionSort fun m m' => m.version ≤ m'.version

/-- The table of what has been applied, whose key is the version. -/
structure SchemaMigrations where
  rows : List (ℕ × String)
  primaryKey : (rows.map Prod.fst).Nodup

namespace SchemaMigrations

def empty : SchemaMigrations := ⟨[], List.nodup_nil⟩

def versions (t : SchemaMigrations) : List ℕ := t.rows.map Prod.fst

/-- `SELECT COALESCE(MAX(version), 0)`. -/
def applied (t : SchemaMigrations) : ℕ := t.versions.foldr max 0

/-- An INSERT, which the key refuses when the version is there. -/
def insert (t : SchemaMigrations) (m : Migration) : Option SchemaMigrations :=
  if h : m.version ∈ t.versions then none
  else some ⟨t.rows ++ [(m.version, m.name)], by
    rw [List.map_append, List.nodup_append]
    refine ⟨t.primaryKey, List.nodup_singleton _, fun v hv v' hv' he => h ?_⟩
    rw [he, List.mem_singleton.mp hv'] at hv
    exact hv⟩

end SchemaMigrations

def pending (all : List Migration) (applied : ℕ) : List Migration :=
  all.filter fun m => applied < m.version

/-- Where a migration can fail. A commit whose answer is lost may have gone through. -/
inductive Fault
  | begin (detail : String)
  | sql (detail : String)
  | register (detail : String)
  | commit (detail : String) (landed : Bool)
  deriving DecidableEq, Repr

/-- One call of `Run`: the files that are embedded, and what goes wrong. -/
structure Deployment where
  dir : Except String (List DirEntry)
  setup : Option RunError
  faults : Migration → Option Fault

/-- What a run leaves: the table, the migrations whose transactions took effect, the error. -/
structure Outcome where
  table : SchemaMigrations
  executed : List Migration
  error : Option RunError

def applyOne (fault : Option Fault) (t : SchemaMigrations) (m : Migration) : Outcome :=
  match fault with
  | some (.begin detail) => ⟨t, [], some (.begin m detail)⟩
  | some (.sql detail) => ⟨t, [], some (.apply m detail)⟩
  | some (.register detail) => ⟨t, [], some (.register m detail)⟩
  | some (.commit detail landed) =>
    match t.insert m with
    | none => ⟨t, [], some (.register m "duplicate key")⟩
    | some t' => if landed then ⟨t', [m], some (.commit m detail)⟩
      else ⟨t, [], some (.commit m detail)⟩
  | none =>
    match t.insert m with
    | none => ⟨t, [], some (.register m "duplicate key")⟩
    | some t' => ⟨t', [m], none⟩

/-- The loop stops at the first error. -/
def applyEach (faults : Migration → Option Fault) : SchemaMigrations → List Migration → Outcome
  | t, [] => ⟨t, [], none⟩
  | t, m :: rest =>
    let o := applyOne (faults m) t m
    if o.error.isSome then o
    else
      let o' := applyEach faults o.table rest
      ⟨o'.table, o.executed ++ o'.executed, o'.error⟩

/-- `Run`. The advisory lock keeps runs apart, so each finds the table as the last one left it. -/
def run (d : Deployment) (t : SchemaMigrations) : Outcome :=
  match parseMigrations d.dir with
  | .error err => ⟨t, [], some err⟩
  | .ok migrations =>
    match d.setup with
    | some err => ⟨t, [], some err⟩
    | none => applyEach d.faults t (pending migrations t.applied)

def after (t : SchemaMigrations) (ds : List Deployment) : SchemaMigrations :=
  ds.foldl (fun t d => (run d t).table) t

def executedBy (t : SchemaMigrations) : List Deployment → List Migration
  | [] => []
  | d :: ds => (run d t).executed ++ executedBy (run d t).table ds

namespace SchemaMigrations

variable {t t' : SchemaMigrations} {m : Migration} {v : ℕ}

theorem applied_lt_iff : t.applied < v ↔ 0 < v ∧ ∀ w ∈ t.versions, w < v := by
  rw [applied]
  induction t.versions with
  | nil => simp
  | cons w versions ih =>
    rw [List.foldr_cons, max_lt_iff, ih, List.forall_mem_cons]
    tauto

theorem insert_eq_some (h : t.insert m = some t') : t'.versions = t.versions ++ [m.version] := by
  unfold insert at h
  split_ifs at h
  rw [← Option.some.inj h, versions, List.map_append]
  rfl

end SchemaMigrations

section Apply

variable {faults : Migration → Option Fault} {fault : Option Fault} {t : SchemaMigrations}
  {m : Migration} {ms : List Migration}

theorem applyOne_versions :
    (applyOne fault t m).table.versions =
      t.versions ++ (applyOne fault t m).executed.map Migration.version := by
  unfold applyOne
  split
  · exact (List.append_nil _).symm
  · exact (List.append_nil _).symm
  · exact (List.append_nil _).symm
  · split
    · exact (List.append_nil _).symm
    · rename_i t' hinsert
      split_ifs
      · exact SchemaMigrations.insert_eq_some hinsert
      · exact (List.append_nil _).symm
  · split
    · exact (List.append_nil _).symm
    · rename_i t' hinsert
      exact SchemaMigrations.insert_eq_some hinsert

theorem applyOne_executed : (applyOne fault t m).executed = [m] ∨
    (applyOne fault t m).executed = [] ∧ (applyOne fault t m).error ≠ none := by
  unfold applyOne
  split
  · exact Or.inr ⟨rfl, Option.some_ne_none _⟩
  · exact Or.inr ⟨rfl, Option.some_ne_none _⟩
  · exact Or.inr ⟨rfl, Option.some_ne_none _⟩
  · split
    · exact Or.inr ⟨rfl, Option.some_ne_none _⟩
    · split_ifs
      · exact Or.inl rfl
      · exact Or.inr ⟨rfl, Option.some_ne_none _⟩
  · split
    · exact Or.inr ⟨rfl, Option.some_ne_none _⟩
    · exact Or.inl rfl

theorem applyEach_cons : applyEach faults t (m :: ms) =
    if (applyOne (faults m) t m).error.isSome then applyOne (faults m) t m
    else
      ⟨(applyEach faults (applyOne (faults m) t m).table ms).table,
        (applyOne (faults m) t m).executed ++
          (applyEach faults (applyOne (faults m) t m).table ms).executed,
        (applyEach faults (applyOne (faults m) t m).table ms).error⟩ := rfl

theorem applyEach_versions : (applyEach faults t ms).table.versions =
    t.versions ++ (applyEach faults t ms).executed.map Migration.version := by
  induction ms generalizing t with
  | nil => exact (List.append_nil _).symm
  | cons m ms ih =>
    rw [applyEach_cons]
    split_ifs
    · exact applyOne_versions
    · dsimp only
      rw [ih, applyOne_versions, List.map_append, List.append_assoc]

theorem applyEach_executed : (applyEach faults t ms).executed <+: ms ∧
    ((applyEach faults t ms).error = none → (applyEach faults t ms).executed = ms) := by
  induction ms generalizing t with
  | nil => exact ⟨List.prefix_refl _, fun _ => rfl⟩
  | cons m ms ih =>
    rw [applyEach_cons]
    split_ifs with herror
    · refine ⟨?_, fun h => absurd h (Option.isSome_iff_ne_none.mp herror)⟩
      have hone : (applyOne (faults m) t m).executed = [m] ∨
          (applyOne (faults m) t m).executed = [] ∧ (applyOne (faults m) t m).error ≠ none :=
        applyOne_executed
      rcases hone with he | ⟨he, -⟩
      · rw [he]
        exact List.prefix_append [m] ms
      · rw [he]
        exact List.nil_prefix
    · have hnone : (applyOne (faults m) t m).error = none := by simpa using herror
      have hone : (applyOne (faults m) t m).executed = [m] :=
        applyOne_executed.resolve_right fun h => h.2 hnone
      obtain ⟨hinit, hall⟩ := ih (t := (applyOne (faults m) t m).table)
      dsimp only
      rw [hone]
      exact ⟨(List.prefix_cons_inj m).mpr hinit, fun h => congrArg (m :: ·) (hall h)⟩

end Apply

section Parse

variable {entries : List DirEntry} {seen : List (ℕ × String)} {ms : List Migration}

theorem map_eq_ok {ε α β : Type} {x : Except ε α} {f : α → β} {b : β} :
    x.map f = .ok b ↔ ∃ a, x = .ok a ∧ f a = b := by
  cases x <;> simp [Except.map]

theorem readEntries_versions (h : readEntries seen entries = .ok ms) :
    (∀ m ∈ ms, m.version ∉ seen.map Prod.fst) ∧ (ms.map Migration.version).Nodup := by
  induction entries generalizing seen ms with
  | nil =>
    obtain rfl := Except.ok.inj h
    exact ⟨fun m hm => absurd hm List.not_mem_nil, List.nodup_nil⟩
  | cons e rest ih =>
    unfold readEntries at h
    split at h
    · exact ih h
    split at h
    · cases h
    rename_i version name _
    split at h
    · cases h
    rename_i hnew
    split at h
    · cases h
    rename_i sql _
    obtain ⟨out, hout, rfl⟩ := map_eq_ok.mp h
    obtain ⟨hfresh, hnodup⟩ := ih hout
    have hversion : version ∉ seen.map Prod.fst := by
      intro hmem
      obtain ⟨p, hp, hpv⟩ := List.mem_map.mp hmem
      exact absurd hpv.symm (bne_iff_ne.mp (List.lookup_eq_none_iff.mp hnew p hp))
    refine ⟨fun m hm => ?_, ?_⟩
    · rcases List.mem_cons.mp hm with rfl | hm
      · exact hversion
      · exact fun hmem => hfresh m hm (List.mem_cons_of_mem _ hmem)
    · rw [List.map_cons, List.nodup_cons]
      refine ⟨fun hmem => ?_, hnodup⟩
      obtain ⟨m, hm, hmv⟩ := List.mem_map.mp hmem
      exact hfresh m hm (hmv ▸ List.mem_cons_self)

theorem pairwise_insertionSort_version (out : List Migration) :
    (out.insertionSort fun m m' => m.version ≤ m'.version).Pairwise
      fun m m' => m.version ≤ m'.version := by
  have htotal : Std.Total fun m m' : Migration => m.version ≤ m'.version :=
    ⟨fun m m' => Nat.le_total m.version m'.version⟩
  have htrans : IsTrans Migration fun m m' => m.version ≤ m'.version :=
    ⟨fun _ _ _ hle hle' => Nat.le_trans hle hle'⟩
  exact List.pairwise_insertionSort _ out

theorem parseMigrations_increasing {dir : Except String (List DirEntry)}
    (h : parseMigrations dir = .ok ms) : ms.Pairwise fun m m' => m.version < m'.version := by
  unfold parseMigrations at h
  split at h
  · cases h
  obtain ⟨out, hout, rfl⟩ := map_eq_ok.mp h
  have hperm := List.perm_insertionSort (fun m m' : Migration => m.version ≤ m'.version) out
  have hnodup := (hperm.map Migration.version).nodup_iff.mpr (readEntries_versions hout).2
  have hsorted := pairwise_insertionSort_version out
  exact hsorted.imp₂ (fun m m' hle hne => lt_of_le_of_ne hle hne) (List.pairwise_map.mp hnodup)

end Parse

section Runs

variable {t : SchemaMigrations} {d : Deployment}

theorem run_of_ok (h : (run d t).error = none) : ∃ ms, parseMigrations d.dir = .ok ms ∧
    (run d t).executed = pending ms t.applied := by
  unfold run at h ⊢
  split at h
  · cases h
  rename_i ms hms
  split at h
  · cases h
  exact ⟨ms, hms, applyEach_executed.2 h⟩

theorem run_versions :
    (run d t).table.versions = t.versions ++ (run d t).executed.map Migration.version := by
  unfold run
  split
  · exact (List.append_nil _).symm
  split
  · exact (List.append_nil _).symm
  · exact applyEach_versions

theorem run_increasing : (run d t).executed.Pairwise fun m m' => m.version < m'.version := by
  unfold run
  split
  · exact List.Pairwise.nil
  rename_i ms hms
  split
  · exact List.Pairwise.nil
  · have hpending : (pending ms t.applied).Pairwise fun m m' => m.version < m'.version :=
      (parseMigrations_increasing hms).filter _
    exact hpending.sublist applyEach_executed.1.sublist

theorem after_versions (t : SchemaMigrations) (ds : List Deployment) :
    (after t ds).versions = t.versions ++ (executedBy t ds).map Migration.version := by
  induction ds generalizing t with
  | nil => exact (List.append_nil _).symm
  | cons d ds ih =>
    calc (after (run d t).table ds).versions
        = (run d t).table.versions ++ (executedBy (run d t).table ds).map Migration.version := ih _
      _ = (t.versions ++ (run d t).executed.map Migration.version) ++
            (executedBy (run d t).table ds).map Migration.version := by rw [run_versions]
      _ = t.versions ++ (executedBy t (d :: ds)).map Migration.version := by
        rw [executedBy, List.map_append, List.append_assoc]

theorem executedBy_once (t : SchemaMigrations) (ds : List Deployment) :
    (t.versions ++ (executedBy t ds).map Migration.version).Nodup :=
  after_versions t ds ▸ (after t ds).primaryKey

/-- After a run that succeeds: every embedded migration is recorded, none has been executed twice
over all runs, and this one went in increasing order, exactly when each that was missing lies above
zero and above every version that was recorded. -/
theorem run_complete_iff {t₀ : SchemaMigrations} {earlier : List Deployment} {ms : List Migration}
    (hms : parseMigrations d.dir = .ok ms) (h : (run d (after t₀ earlier)).error = none) :
    ((∀ m ∈ ms, m.version ∈ (run d (after t₀ earlier)).table.versions) ∧
        (t₀.versions ++ (executedBy t₀ (earlier ++ [d])).map Migration.version).Nodup ∧
        (run d (after t₀ earlier)).executed.Pairwise fun m m' => m.version < m'.version) ↔
      ∀ m ∈ ms, m.version ∉ (after t₀ earlier).versions →
        0 < m.version ∧ ∀ v ∈ (after t₀ earlier).versions, v < m.version := by
  obtain ⟨ms', hms', hexecuted⟩ := run_of_ok h
  obtain rfl := Except.ok.inj (hms.symm.trans hms')
  have hversions := run_versions (d := d) (t := after t₀ earlier)
  rw [hexecuted] at hversions
  constructor
  · rintro ⟨hall, -⟩ m hm hnew
    have hrecorded := hall m hm
    rw [hversions, List.mem_append] at hrecorded
    obtain ⟨m', hm', heq⟩ := List.mem_map.mp (hrecorded.resolve_left hnew)
    have hlt := of_decide_eq_true (List.mem_filter.mp hm').2
    rw [heq] at hlt
    exact SchemaMigrations.applied_lt_iff.mp hlt
  · intro habove
    refine ⟨fun m hm => ?_, executedBy_once t₀ _, run_increasing⟩
    rw [hversions, List.mem_append]
    by_cases hrecorded : m.version ∈ (after t₀ earlier).versions
    · exact Or.inl hrecorded
    · refine Or.inr (List.mem_map_of_mem (List.mem_filter.mpr ⟨hm, ?_⟩))
      exact decide_eq_true (SchemaMigrations.applied_lt_iff.mpr (habove m hm hrecorded))

end Runs

namespace Sample

def file (name sql : String) : DirEntry := ⟨name, false, .ok (utf8 sql)⟩

def deployment (files : List DirEntry) : Deployment := ⟨.ok files, none, fun _ => none⟩

def first : Migration := ⟨1, "create_identity", utf8 "CREATE TABLE identity ()"⟩
def second : Migration := ⟨2, "create_asset", utf8 "CREATE TABLE asset ()"⟩
def third : Migration := ⟨3, "create_group", utf8 "CREATE TABLE access_group ()"⟩

def trunk : Deployment := deployment
  [file "0001_create_identity.sql" "CREATE TABLE identity ()",
    file "0003_create_group.sql" "CREATE TABLE access_group ()"]

/-- The second migration comes from a branch that is merged after the third was deployed. -/
def merged : Deployment := deployment
  [file "0001_create_identity.sql" "CREATE TABLE identity ()",
    file "0002_create_asset.sql" "CREATE TABLE asset ()",
    file "0003_create_group.sql" "CREATE TABLE access_group ()"]

theorem merged_parsed : parseMigrations merged.dir = .ok [first, second, third] := by
  decide

end Sample

/-- A database that starts with the whole set. -/
theorem merged_from_scratch : Sample.first.version ∈ (run Sample.merged .empty).table.versions ∧
    Sample.second.version ∈ (run Sample.merged .empty).table.versions ∧
    Sample.third.version ∈ (run Sample.merged .empty).table.versions := by
  have habove : ∀ m ∈ [Sample.first, Sample.second, Sample.third],
      m.version ∉ (after .empty []).versions →
        0 < m.version ∧ ∀ v ∈ (after .empty []).versions, v < m.version := by
    decide
  have hrun : (run Sample.merged (after .empty [])).error = none := by decide +kernel
  have hall := ((run_complete_iff Sample.merged_parsed hrun).mpr habove).1
  exact ⟨hall Sample.first (by simp), hall Sample.second (by simp), hall Sample.third (by simp)⟩

/-- The run over the merged files succeeds, and the second migration is not recorded. -/
theorem merged_late_is_skipped :
    parseMigrations Sample.merged.dir = .ok [Sample.first, Sample.second, Sample.third] ∧
      (run Sample.merged (after .empty [Sample.trunk])).error = none ∧
      Sample.second.version ∉ (run Sample.merged (after .empty [Sample.trunk])).table.versions :=
  ⟨Sample.merged_parsed, by decide +kernel, by decide +kernel⟩

end ArchGuard.Migrate
