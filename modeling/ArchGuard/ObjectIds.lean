import ArchGuard.Digests
import ArchGuard.GoStrconv
import ArchGuard.IdentityDedup

/-! The texts of the object package: identifiers of the form "owner/name", client ids and scopes. -/
namespace ArchGuard.Object
open GoStrconv GoText

def slash : UInt8 := 47

def getId (owner name : GoString) : GoString := owner ++ slash :: name

/-- `GetOwnerAndNameFromIdWithError`: an identifier has one slash. -/
def getOwnerAndNameFromIdWithError (id : GoString) : Option (GoString × GoString) :=
  match id.splitOn slash with
  | [owner, name] => some (owner, name)
  | _ => none

/-- `GetOwnerAndNameFromIdNoCheck`: cut at the first slash; without one the index panics. -/
def getOwnerAndNameFromIdNoCheck (id : GoString) : Option (GoString × GoString) :=
  match id.splitOn slash with
  | owner :: name :: rest => some (owner, [slash].intercalate (name :: rest))
  | _ => none

theorem getOwnerAndNameFromId_eq_some {id owner name : GoString} :
    getOwnerAndNameFromIdWithError id = some (owner, name) ↔
      id = getId owner name ∧ slash ∉ owner ∧ slash ∉ name := by
  constructor
  · intro h
    rw [getOwnerAndNameFromIdWithError] at h
    split at h
    · rename_i o n hsplit
      obtain ⟨rfl, rfl⟩ := Prod.mk.inj (Option.some.inj h)
      have hid : id = getId o n := by
        have hjoin : [slash].intercalate (id.splitOn slash) = id := List.intercalate_splitOn slash
        rw [← hjoin, hsplit, getId]
        simp [List.intercalate]
      have hparts := not_mem_of_mem_splitOn (a := slash) (l := id)
      rw [hsplit] at hparts
      exact ⟨hid, hparts o (by simp), hparts n (by simp)⟩
    · cases h
  · rintro ⟨rfl, howner, hname⟩
    rw [getOwnerAndNameFromIdWithError, getId, List.splitOn_append_cons_self_of_not_mem howner,
      List.splitOn_eq_singleton hname]

theorem getId_inj {owner owner' name name' : GoString} (ho : slash ∉ owner) (ho' : slash ∉ owner')
    (h : getId owner name = getId owner' name') : owner = owner' ∧ name = name' :=
  cut_first_inj ho ho' h

theorem parts_of_getId {owner owner' name name' : GoString} (ho : slash ∉ owner) (hn : slash ∉ name)
    (h : getId owner' name' = getId owner name) : owner' = owner ∧ name' = name := by
  have hcount := congrArg (List.count slash) h
  simp only [getId, List.count_append, List.count_cons_self, List.count_eq_zero.mpr ho,
    List.count_eq_zero.mpr hn] at hcount
  have ho' : slash ∉ owner' := by
    rw [← List.count_eq_zero]
    omega
  exact getId_inj ho' ho h

theorem getOwnerAndNameFromIdNoCheck_ok {id owner name : GoString}
    (h : getOwnerAndNameFromIdNoCheck id = some (owner, name)) : id = getId owner name := by
  rw [getOwnerAndNameFromIdNoCheck] at h
  split at h
  · rename_i part part' rest hsplit
    obtain ⟨rfl, rfl⟩ := Prod.mk.inj (Option.some.inj h)
    have hjoin : [slash].intercalate (id.splitOn slash) = id := List.intercalate_splitOn slash
    rw [← hjoin, hsplit, getId]
    simp [List.intercalate]
  · cases h

theorem getOwnerAndNameFromIdNoCheck_getId (owner name : GoString) :
    (getOwnerAndNameFromIdNoCheck (getId owner name)).isSome = true := by
  rw [getOwnerAndNameFromIdNoCheck]
  split
  · rfl
  · rename_i hparts
    exfalso
    have hjoin : [slash].intercalate ((getId owner name).splitOn slash) = getId owner name :=
      List.intercalate_splitOn slash
    have hmem := not_mem_of_mem_splitOn (a := slash) (l := getId owner name)
    -- one part would contain the slash
    cases hsplit : (getId owner name).splitOn slash with
    | nil => exact List.splitOn_ne_nil slash _ hsplit
    | cons part rest =>
      cases rest with
      | cons part' rest => exact hparts part part' rest hsplit
      | nil =>
        rw [hsplit, List.intercalate_singleton] at hjoin
        apply hmem part (by rw [hsplit]; exact List.mem_cons_self)
        rw [hjoin, getId]
        exact List.mem_append_right owner List.mem_cons_self

/-- `strings.Split` at a text that is not empty; `part` is read so far, and `skip` bytes of a
separator are still to be passed over. -/
def splitTextFrom (sep part : GoString) : (skip : ℕ) → GoString → List GoString
  | _, [] => [part]
  | skip+1, _ :: s => splitTextFrom sep part skip s
  | 0, b :: s =>
    if sep.isPrefixOf (b :: s) then part :: splitTextFrom sep [] (sep.length-1) s
    else splitTextFrom sep (part ++ [b]) 0 s

def splitText (sep s : GoString) : List GoString := splitTextFrom sep [] 0 s

/-- `GetSharedOrgFromApp`: the name, and the organization that follows "-org-". -/
def getSharedOrgFromApp (rawName : GoString) : GoString × GoString :=
  match splitText (utf8 "-org-") rawName with
  | name :: org :: rest => (name, (org :: rest).getLast?.getD [])
  | _ => (rawName, [])

example : getSharedOrgFromApp (utf8 "app-org-acme") = (utf8 "app", utf8 "acme") := by
  decide +kernel

/-- `getTokenHash`; the text of a digest has 64 characters, so nothing is cut off. -/
def getTokenHash (input : GoString) : GoString := Migration.hexEncode (Sha256.sha256 input)

def space : UInt8 := 32

/-- The scopes that a space-separated text names. -/
def scopeWords (scope : GoString) : List GoString := (scope.splitOn space).filter (· ≠ [])

/-- Every scope of the first text is one of the second. -/
def ScopeWithin (scope within : GoString) : Prop := ∀ s ∈ scopeWords scope, s ∈ scopeWords within

theorem scopeWithin_refl (scope : GoString) : ScopeWithin scope scope := fun _ h => h

theorem mem_scopeWords {s scope : GoString} :
    s ∈ scopeWords scope ↔ s ∈ scope.splitOn space ∧ s ≠ [] := by
  rw [scopeWords, List.mem_filter, decide_eq_true_eq]

theorem scopeWords_nil : scopeWords [] = [] := rfl

end ArchGuard.Object
