import ArchGuard.Primitives
import ArchGuard.TransitionRun

/-! The windows in which the keys of the seals were in force, and their rotation. -/
namespace ArchGuard.Audit
open GoText TransitionRun

/-- The window of a key; `notAfter` is the zero instant while the key is current. -/
structure SealKeyValidity where
  keyId : GoString
  notBefore : Time
  notAfter : Time
  deriving DecidableEq, Repr

def SealKeyValidity.validAt (v : SealKeyValidity) (t : Time) : Bool :=
  if t < v.notBefore then false
  else if v.notAfter ≠ Time.zero ∧ ¬t < v.notAfter then false
  else true

structure SealKeyRegistry where
  validities : GoString → Option SealKeyValidity

def SealKeyRegistry.new : SealKeyRegistry := ⟨fun _ => none⟩

namespace SealKeyRegistry

def register (r : SealKeyRegistry) (v : SealKeyValidity) : SealKeyRegistry :=
  ⟨Function.update r.validities v.keyId (some v)⟩

def validForSeal (r : SealKeyRegistry) (keyId : GoString) (sealTime : Time) : Bool :=
  match r.validities keyId with
  | none => false
  | some v => v.validAt sealTime

def rotate (r : SealKeyRegistry) (previousKeyId newKeyId : GoString) (at' : Time) :
    SealKeyRegistry :=
  let closed := match r.validities previousKeyId with
    | some prev => Function.update r.validities previousKeyId (some { prev with notAfter := at' })
    | none => r.validities
  ⟨Function.update closed newKeyId (some ⟨newKeyId, at', Time.zero⟩)⟩

end SealKeyRegistry

/-- A call of `Rotate`. -/
structure Rotation where
  previousKeyId : GoString
  newKeyId : GoString
  at' : Time
  deriving DecidableEq, Repr

def rotating (r : SealKeyRegistry) (c : Rotation) : Option SealKeyRegistry :=
  some (r.rotate c.previousKeyId c.newKeyId c.at')

/-- The call changes no verdict on a seal from before it. -/
def LeavesPast (r : SealKeyRegistry) (c : Rotation) : Prop :=
  ∀ keyId t, t < c.at' → (r.rotate c.previousKeyId c.newKeyId c.at').validForSeal keyId t =
    r.validForSeal keyId t

/-- The window of the previous key was not closed before the call, unless it had not opened. -/
def ClosesOpenWindow (r : SealKeyRegistry) (c : Rotation) : Prop :=
  ∀ v, r.validities c.previousKeyId = some v → c.previousKeyId ≠ c.newKeyId →
    v.notAfter = Time.zero ∨ c.at' ≤ v.notAfter ∨ c.at' ≤ v.notBefore

/-- The new key had no window before the call, or an empty one. -/
def OpensNewWindow (r : SealKeyRegistry) (c : Rotation) : Prop :=
  ∀ v, r.validities c.newKeyId = some v →
    c.at' ≤ v.notBefore ∨ (v.notAfter ≠ Time.zero ∧ v.notAfter ≤ v.notBefore)

section Windows

variable {r : SealKeyRegistry} {c : Rotation} {v : SealKeyValidity} {t : Time}

theorem SealKeyValidity.validAt_iff :
    v.validAt t = true ↔ v.notBefore ≤ t ∧ (v.notAfter = Time.zero ∨ t < v.notAfter) := by
  rw [validAt]
  split_ifs with hbefore hafter
  · simp only [false_iff]
    lia
  · simp only [false_iff]
    tauto
  · simp only [true_iff]
    constructor
    · lia
    · tauto

/-- The new key was never in force before its window opens. -/
theorem validForSeal_rotate_new (ht : t < c.at') :
    (r.rotate c.previousKeyId c.newKeyId c.at').validForSeal c.newKeyId t = false := by
  simp only [SealKeyRegistry.rotate, SealKeyRegistry.validForSeal, Function.update_self]
  rw [SealKeyValidity.validAt, if_pos ht]

theorem validForSeal_rotate_previous (hv : r.validities c.previousKeyId = some v)
    (hne : c.previousKeyId ≠ c.newKeyId) (ht : t < c.at') :
    (r.rotate c.previousKeyId c.newKeyId c.at').validForSeal c.previousKeyId t = true ↔
      v.notBefore ≤ t := by
  simp only [SealKeyRegistry.rotate, SealKeyRegistry.validForSeal, hv,
    Function.update_of_ne hne, Function.update_self, SealKeyValidity.validAt_iff]
  tauto

theorem validForSeal_rotate_other {keyId : GoString} (hnew : keyId ≠ c.newKeyId)
    (hprevious : keyId = c.previousKeyId → r.validities keyId = none) :
    (r.rotate c.previousKeyId c.newKeyId c.at').validForSeal keyId t = r.validForSeal keyId t := by
  have hsame : (r.rotate c.previousKeyId c.newKeyId c.at').validities keyId =
      r.validities keyId := by
    simp only [SealKeyRegistry.rotate, Function.update_of_ne hnew]
    cases hv : r.validities c.previousKeyId with
    | none => rfl
    | some v =>
      apply Function.update_of_ne
      intro he
      rw [← he, hprevious he] at hv
      cases hv
  rw [SealKeyRegistry.validForSeal, hsame]
  rfl

theorem opensNewWindow_iff : OpensNewWindow r c ↔
    ∀ t, t < c.at' → r.validForSeal c.newKeyId t = false := by
  rw [OpensNewWindow]
  cases hv : r.validities c.newKeyId with
  | none => simp [SealKeyRegistry.validForSeal, hv]
  | some v =>
    simp only [Option.some.injEq, forall_eq', SealKeyRegistry.validForSeal, hv,
      ← Bool.not_eq_true, SealKeyValidity.validAt_iff]
    constructor
    · intro h t ht
      lia
    · intro h
      have hopen := h v.notBefore
      by_contra hneg
      apply hopen
      · lia
      · constructor
        · lia
        · by_contra hafter
          lia

theorem closesOpenWindow_iff (hv : r.validities c.previousKeyId = some v)
    (hne : c.previousKeyId ≠ c.newKeyId) : ClosesOpenWindow r c ↔
      ∀ t, t < c.at' → (v.validAt t = true ↔ v.notBefore ≤ t) := by
  simp only [ClosesOpenWindow, hv, Option.some.injEq, forall_eq', SealKeyValidity.validAt_iff]
  constructor
  · intro h t ht
    have hwindow := h hne
    lia
  · intro h _
    -- the last instant before the call
    have hlast := h (c.at'-1)
    by_contra hneg
    have hin := hlast (by lia)
    lia

theorem leavesPast_iff : LeavesPast r c ↔ ClosesOpenWindow r c ∧ OpensNewWindow r c := by
  rw [opensNewWindow_iff]
  constructor
  · intro h
    refine ⟨?_, fun t ht => ?_⟩
    · intro v hv hne
      apply (closesOpenWindow_iff hv hne).mpr ?_ v hv hne
      intro t ht
      rw [← validForSeal_rotate_previous hv hne ht, h _ t ht, SealKeyRegistry.validForSeal, hv]
    · rw [← h c.newKeyId t ht]
      exact validForSeal_rotate_new ht
  · rintro ⟨hclose, hopen⟩ keyId t ht
    by_cases hnew : keyId = c.newKeyId
    · rw [hnew, validForSeal_rotate_new ht, hopen t ht]
    · cases hv : r.validities keyId with
      | none => exact validForSeal_rotate_other hnew fun _ => hv
      | some v =>
        by_cases hprevious : keyId = c.previousKeyId
        · subst hprevious
          rw [Bool.eq_iff_iff, validForSeal_rotate_previous hv hnew ht,
            SealKeyRegistry.validForSeal, hv]
          exact ((closesOpenWindow_iff hv hnew).mp hclose t ht).symm
        · exact validForSeal_rotate_other hnew fun he => absurd he hprevious

/-- Over a history of rotations, every call leaves the past alone exactly if each closes a window
that was open and opens one that was not there. -/
theorem rotations_leave_past_iff (r : SealKeyRegistry) (calls : List Rotation) :
    Along rotating LeavesPast r calls ↔
      Along rotating (fun r c => ClosesOpenWindow r c ∧ OpensNewWindow r c) r calls := by
  induction calls generalizing r with
  | nil => rfl
  | cons c calls ih =>
    simp only [Along, leavesPast_iff]
    apply and_congr_right
    intro _
    exact forall₂_congr fun r' _ => ih r'

end Windows

/-- The second key replaces the first, and then a third replaces the first once more. -/
def rotatedTwice : List Rotation :=
  [⟨utf8 "", utf8 "seal:v1", 10⟩, ⟨utf8 "seal:v1", utf8 "seal:v2", 20⟩,
    ⟨utf8 "seal:v1", utf8 "seal:v3", 30⟩]

/-- The first key, closed at 20, is in force again at 25. -/
theorem rotation_reopens_window :
    rotatedTwice.Pairwise (fun c d => c.at' ≤ d.at') ∧
      ¬Along rotating LeavesPast SealKeyRegistry.new rotatedTwice := by
  refine ⟨by decide, fun h => ?_⟩
  have hthird := (((h.2 _ rfl).2 _ rfl).2 _ rfl)
  have hlast := ((h.2 _ rfl).2 _ rfl).1 (utf8 "seal:v1") 25 (by decide)
  revert hlast
  decide +kernel

end ArchGuard.Audit
