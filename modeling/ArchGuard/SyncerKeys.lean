import ArchGuard.IdentityDedup
import ArchGuard.SyncerRoundTrip

/-! The hash of a user's columns, by which a syncer tells what has changed. -/
namespace ArchGuard.Object
open GoJson GoStrconv GoText

def getMd5Hash (text : GoString) : GoString := Migration.hexEncode (Md5.md5 text)

section Changes

variable (s : Syncer) {lib : Credentials}

def calculateHash (user : User lib) : GoString :=
  getMd5Hash (join bar ((s.tableColumns.filter (·.isHashed)).map fun column =>
    getMapFromOriginalUser s user column.name))

def hashedValues (user : User lib) : List GoString :=
  (s.tableColumns.filter (·.isHashed)).map fun column => getMapFromOriginalUser s user column.name

/-- The values of the hashed columns, each cut wherever it contains the separator. -/
def hashedPieces (user : User lib) : List GoString := (hashedValues s user).flatMap (·.splitOn bar)

/-- What `syncUsers` does about a user that both tables have. -/
inductive SyncStep
  /-- The row of the other table is written to the user, with its hash. -/
  | updateUser (hash : GoString)
  | updateOriginalUser
  | setPreHash (hash : GoString)
  deriving DecidableEq, Repr

/-- The comparison of `syncUsers`: the hashes of the user, and that of the other table's row. -/
def syncUser (hash preHash oHash : GoString) : List SyncStep :=
  if hash = preHash then
    if hash ≠ oHash then [.updateUser oHash] else []
  else if preHash = oHash then
    (if s.isReadOnly then [] else [.updateOriginalUser]) ++ [.setPreHash hash]
  else if hash = oHash then [.setPreHash hash]
  else [.updateUser oHash]

/-- MD5 does not collide on what is hashed of the two users. -/
def Md5Distinguishes (user oUser : User lib) : Prop :=
  getMd5Hash (join bar (hashedValues s user)) = getMd5Hash (join bar (hashedValues s oUser)) →
    join bar (hashedValues s user) = join bar (hashedValues s oUser)

/-- A row that differs from the user in a hashed column has another hash, and is written to the user
that was in step with the other table. -/
def ChangeDetected (user oUser : User lib) : Prop :=
  (∃ column ∈ s.tableColumns, column.isHashed = true ∧
    getMapFromOriginalUser s user column.name ≠ getMapFromOriginalUser s oUser column.name) →
  calculateHash s user ≠ calculateHash s oUser ∧
    syncUser s (calculateHash s user) (calculateHash s user) (calculateHash s oUser) =
      [.updateUser (calculateHash s oUser)]

variable {s} {user oUser : User lib}

theorem hashedValues_ne_iff : hashedValues s user ≠ hashedValues s oUser ↔
    ∃ column ∈ s.tableColumns, column.isHashed = true ∧
      getMapFromOriginalUser s user column.name ≠ getMapFromOriginalUser s oUser column.name := by
  rw [ne_eq, hashedValues, hashedValues, List.map_inj_left]
  push Not
  simp only [List.mem_filter, and_assoc]

theorem hashedPieces_eq_iff :
    hashedPieces s user = hashedPieces s oUser ↔
      join bar (hashedValues s user) = join bar (hashedValues s oUser) := by
  by_cases hne : s.tableColumns.filter (·.isHashed) = []
  · simp [hashedPieces, hashedValues, hne]
  · have hvalues (u : User lib) : hashedValues s u ≠ [] := by
      rw [hashedValues, ne_eq, List.map_eq_nil_iff]
      exact hne
    exact (join_eq_join_iff (hvalues user) (hvalues oUser)).symm

theorem calculateHash_eq_iff (hmd5 : Md5Distinguishes s user oUser) :
    calculateHash s user = calculateHash s oUser ↔ hashedPieces s user = hashedPieces s oUser := by
  rw [hashedPieces_eq_iff]
  exact ⟨hmd5, fun h => congrArg getMd5Hash h⟩

/-- A change is missed exactly where the columns differ and their pieces, one after another, do not. -/
theorem changeDetected_iff (s : Syncer) (user oUser : User lib) (hmd5 : Md5Distinguishes s user oUser) :
    ChangeDetected s user oUser ↔
      hashedValues s user = hashedValues s oUser ∨ hashedPieces s user ≠ hashedPieces s oUser := by
  unfold ChangeDetected
  rw [← hashedValues_ne_iff, ne_eq (calculateHash s user), calculateHash_eq_iff hmd5]
  constructor
  · intro h
    by_cases hvalues : hashedValues s user = hashedValues s oUser
    · exact Or.inl hvalues
    · exact Or.inr (h hvalues).1
  · intro h hvalues
    have hpieces := h.resolve_left hvalues
    have hhash : calculateHash s user ≠ calculateHash s oUser := by
      rw [ne_eq, calculateHash_eq_iff hmd5]
      exact hpieces
    refine ⟨hpieces, ?_⟩
    rw [syncUser, if_pos rfl, if_pos hhash]

/-- Two text columns of another system, both hashed. -/
def contacts : Syncer where
  organization := utf8 "acme"
  name := utf8 "contacts"
  type := utf8 "Database"
  databaseType := utf8 "mysql"
  tableColumns :=
    [⟨utf8 "title", utf8 "Title", false, true⟩, ⟨utf8 "bio", utf8 "Bio", false, true⟩]
  avatarBaseUrl := []
  isReadOnly := false

def contact (title bio : GoString) : User noCredentials :=
  { User.fresh with
    text := Function.update (Function.update (fun _ => []) .title title) .bio bio }

theorem title_change_detected :
    ChangeDetected contacts (contact (utf8 "a") (utf8 "b")) (contact (utf8 "c") (utf8 "b")) := by
  have hpieces : hashedPieces contacts (contact (utf8 "a") (utf8 "b")) ≠
      hashedPieces contacts (contact (utf8 "c") (utf8 "b")) := by decide +kernel
  have hmd5 : Md5Distinguishes contacts (contact (utf8 "a") (utf8 "b")) (contact (utf8 "c") (utf8 "b")) := by
    intro h
    exact absurd h (by decide +kernel)
  exact (changeDetected_iff contacts _ _ hmd5).2 (Or.inr hpieces)

/-- A separator that moves from one column to the next goes unnoticed. -/
theorem moved_separator_missed : ¬∀ user oUser : User noCredentials,
    Md5Distinguishes contacts user oUser → ChangeDetected contacts user oUser := by
  intro h
  have hjoin : join bar (hashedValues contacts (contact (utf8 "a|b") (utf8 "c"))) =
      join bar (hashedValues contacts (contact (utf8 "a") (utf8 "b|c"))) := by decide +kernel
  have hdiffers : hashedValues contacts (contact (utf8 "a|b") (utf8 "c")) ≠
      hashedValues contacts (contact (utf8 "a") (utf8 "b|c")) := by decide +kernel
  exact (h _ _ (fun _ => hjoin) (hashedValues_ne_iff.1 hdiffers)).1 (congrArg getMd5Hash hjoin)

end Changes

end ArchGuard.Object
