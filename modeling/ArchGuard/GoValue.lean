import ArchGuard.GoJson
import Mathlib.Tactic

/-! What a JSON text denotes: the values that a jsonb column keeps and that Go's decoder reads
into the fields of a struct. -/
namespace GoJson
open GoText

inductive Value
  | null
  | num (n : ℤ)
  | str (s : String)
  | arr (items : List Value)
  | obj (fields : List (String × Value))

mutual

/-- How deep arrays and objects nest. -/
def Value.depth : Value → ℕ
  | .arr items => depthItems items + 1
  | .obj fields => depthFields fields + 1
  | .null => 0
  | .num _ => 0
  | .str _ => 0

def depthItems : List Value → ℕ
  | [] => 0
  | item :: items => max item.depth (depthItems items)

def depthFields : List (String × Value) → ℕ
  | [] => 0
  | (_, value) :: fields => max value.depth (depthFields fields)

end

mutual

def Value.hasNul : Value → Bool
  | .str s => s.toList.contains '\x00'
  | .arr items => hasNulItems items
  | .obj fields => hasNulFields fields
  | .null => false
  | .num _ => false

def hasNulItems : List Value → Bool
  | [] => false
  | item :: items => item.hasNul || hasNulItems items

def hasNulFields : List (String × Value) → Bool
  | [] => false
  | (_, value) :: fields => value.hasNul || hasNulFields fields

end

/-- Writing a value into a jsonb column, which has no U+0000. -/
def jsonb (v : Value) : Option Value := if v.hasNul then none else some v

/-- `maxNestingDepth` of the decoder's scanner. -/
def maxNestingDepth := 10000

/-- The scan of a text before it is decoded. -/
def checkValid (v : Value) : Bool := v.depth ≤ maxNestingDepth

-- What the decoder puts into a field: null, like a missing key, leaves the zero value.

def Value.field (v : Value) (key : String) : Value :=
  match v with
  | .obj fields => (fields.lookup key).getD .null
  | _ => .null

def readString : Value → Option GoString
  | .null => some []
  | .str s => some (utf8 s)
  | _ => none

def readInt : Value → Option ℤ
  | .null => some 0
  | .num n => some n
  | _ => none

def readItems : List Value → Option (List GoString)
  | [] => some []
  | item :: items => do
    let s ← readString item
    let rest ← readItems items
    some (s :: rest)

/-- A slice of strings: null leaves the nil slice. -/
def readStrings : Value → Option (Option (List GoString))
  | .null => some none
  | .arr items => (readItems items).map some
  | _ => none

def marshalString (s : GoString) : Value := .str (toValid s)

def marshalStrings : Option (List GoString) → Value
  | none => .null
  | some ss => .arr (ss.map marshalString)

/-- A string after it travelled through a JSON text. -/
def coerced (s : GoString) : GoString := utf8 (toValid s)

theorem coerced_of_valid {s : GoString} (h : malformed s = 0) : coerced s = s := utf8_toValid h

theorem malformed_coerced (s : GoString) : malformed (coerced s) = 0 := malformed_utf8 _

@[simp] theorem readString_marshalString (s : GoString) :
    readString (marshalString s) = some (coerced s) := rfl

@[simp] theorem readStrings_marshalStrings (ss : Option (List GoString)) :
    readStrings (marshalStrings ss) = some (ss.map (List.map coerced)) := by
  cases ss with
  | none => rfl
  | some ss =>
    have h : readItems (ss.map marshalString) = some (ss.map coerced) := by
      induction ss with
      | nil => rfl
      | cons s ss ih => simp only [List.map_cons, readItems, readString_marshalString, ih]; rfl
    rw [marshalStrings, readStrings, h]
    rfl

theorem depth_marshalString (s : GoString) : (marshalString s).depth = 0 := by
  rw [marshalString, Value.depth]

section Replacements

/-- How often U+FFFD occurs in a text. -/
def replacements (s : String) : ℕ := s.toList.count replacement

theorem replacements_append (s t : String) :
    replacements (s ++ t) = replacements s + replacements t := by
  rw [replacements, String.toList_append, List.count_append]
  rfl

theorem replacements_intercalate (l : List String) :
    replacements (",".intercalate l) = (l.map replacements).sum := by
  have hcomma : replacements "," = 0 := by decide
  induction l with
  | nil => rfl
  | cons s l ih =>
    cases l with
    | nil => rw [String.intercalate_singleton, List.map_singleton, List.sum_singleton]
    | cons t l =>
      rw [String.intercalate_cons_cons, replacements_append, replacements_append, ih, hcomma,
        add_zero]
      rfl

theorem hex4_ne_replacement (n : ℕ) : replacement ∉ hex4 n := by
  have hall : "0123456789abcdef".toList.all (· ≠ replacement) = true := by decide
  intro h
  obtain ⟨d, -, hd⟩ := List.mem_map.mp h
  rw [List.getD_eq_getElem?_getD] at hd
  cases hget : "0123456789abcdef".toList[d]? with
  | none =>
    rw [hget, Option.getD_none] at hd
    exact absurd hd (by decide)
  | some c =>
    rw [hget, Option.getD_some] at hd
    exact of_decide_eq_true (List.all_eq_true.mp hall c (List.mem_of_getElem? hget)) hd

theorem count_escape (c : Char) :
    (escape c).count replacement = if c = replacement then 1 else 0 := by
  by_cases hc : c = replacement
  · rw [if_pos hc, hc]
    decide
  · rw [if_neg hc, List.count_eq_zero]
    unfold escape
    split_ifs
    -- the escapes are of ASCII characters
    all_goals first
      | decide
      | exact fun h => hc (List.mem_singleton.mp h).symm
      | skip
    intro h
    rw [List.mem_cons, List.mem_cons] at h
    rcases h with h | h | h
    · exact absurd h (by decide)
    · exact absurd h (by decide)
    · exact hex4_ne_replacement _ h

theorem replacements_quoteString (s : GoString) :
    replacements (quoteString s) = (runes s).count (.char replacement) := by
  have hquote : replacements "\"" = 0 := by decide
  rw [quoteString, replacements_append, replacements_append, hquote, replacements,
    String.toList_ofList, zero_add, add_zero]
  induction runes s with
  | nil => rfl
  | cons r rs ih =>
    rw [List.flatMap_cons, List.count_append, ih, List.count_cons]
    cases r with
    | malformed =>
      have hescape : (escapeRune .malformed).count replacement = 0 := by decide
      rw [hescape, if_neg (by decide), zero_add, add_zero]
    | char c =>
      rw [escapeRune, count_escape, add_comm]
      by_cases hc : c = replacement
      · simp [hc]
      · simp [hc]

theorem renderFields_eq_map (fields : List (String × Json)) :
    renderFields fields = fields.map fun f => (f.1, f.2.render) := by
  induction fields with
  | nil => rfl
  | cons f fields ih => rw [renderFields, ih, List.map_cons]

theorem sum_map_insertionSort {α : Type} (r : α → α → Prop) [DecidableRel r] (l : List α)
    (f : α → ℕ) : ((l.insertionSort r).map f).sum = (l.map f).sum :=
  ((List.perm_insertionSort r l).map f).sum_eq

theorem replacements_obj (fields : List (String × Json)) :
    replacements (Json.obj fields).render =
      (fields.map fun f => replacements (quote f.1) + replacements f.2.render).sum := by
  have hopen : replacements "\x7b" = 0 := by decide
  have hclose : replacements "\x7d" = 0 := by decide
  have hcolon : replacements ":" = 0 := by decide
  rw [Json.render, replacements_append, replacements_append, hopen, hclose,
    replacements_intercalate, zero_add, add_zero, List.map_map, sum_map_insertionSort,
    renderFields_eq_map, List.map_map]
  apply congrArg List.sum
  apply List.map_congr_left
  intro f _
  simp only [Function.comp_apply, replacements_append, hcolon, add_zero]

end Replacements

end GoJson
