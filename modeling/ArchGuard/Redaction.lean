import ArchGuard.GoText
import ArchGuard.RegexReplace

/-! Telemetry carries no credential and no e-mail address: what is taken out of a free text. -/
namespace ArchGuard.Redaction
open GoText RegexReplace RegexReplace.Regex

-- The patterns are read over code points and the model is over bytes. An ASCII byte is a code point
-- wherever it stands, and so are the bytes of a letter beyond ASCII, whose first byte is inside no
-- other code point: no class has anything else, so a match begins and ends where code points do.

def between (lo hi : Char) (b : UInt8) : Bool := lo.toUInt8 ≤ b && b ≤ hi.toUInt8

def letter (b : UInt8) : Bool := between 'A' 'Z' b || between 'a' 'z' b

def alnum (b : UInt8) : Bool := letter b || between '0' '9' b

def among (chars : String) (b : UInt8) : Bool := (utf8 chars).contains b

def literal (c : Char) : Regex UInt8 := symbol (· == c.toUInt8)

/-- U+017F and U+212A: they fold to `s` and to `k`. -/
def longS : Regex UInt8 := word 0xC5 [0xBF]
def kelvin : Regex UInt8 := word 0xE2 [0x84, 0xAA]

/-- A small letter under `(?i)`. -/
def folded (c : Char) : Regex UInt8 :=
  let ascii := symbol fun b => b == c.toUInt8 || b == c.toUpper.toUInt8
  if c = 's' then alt ascii longS
  else if c = 'k' then alt ascii kelvin
  else ascii

/-- `[A-Za-z0-9_-]+` -/
def segment : Regex UInt8 := plus (symbol fun b => alnum b || among "_-" b)

/-- `eyJ[A-Za-z0-9_-]+\.[A-Za-z0-9_-]+\.[A-Za-z0-9_-]+` -/
def jwtPattern : Regex UInt8 :=
  seq (literal 'e') (seq (literal 'y') (seq (literal 'J')
    (seq segment (seq (literal '.') (seq segment (seq (literal '.') segment))))))

def bearer : Regex UInt8 :=
  seq (folded 'b') (seq (folded 'e') (seq (folded 'a') (seq (folded 'r') (seq (folded 'e') (folded 'r')))))

def basic : Regex UInt8 :=
  seq (folded 'b') (seq (folded 'a') (seq (folded 's') (seq (folded 'i') (folded 'c'))))

/-- `\s` -/
def space : Regex UInt8 := symbol (among "\t\n\x0c\r ")

/-- `[A-Za-z0-9._~+/=-]` under `(?i)`, where the letters take those that fold to them along. -/
def credential : Regex UInt8 :=
  alt (symbol fun b => alnum b || among "._~+/=-" b) (alt longS kelvin)

/-- `(?i)(bearer|basic)\s+[A-Za-z0-9._~+/=-]+` -/
def bearerPattern : Regex UInt8 := seq (alt bearer basic) (seq (plus space) (plus credential))

/-- `[A-Za-z0-9._%+\-]+@[A-Za-z0-9.\-]+\.[A-Za-z]{2,}` -/
def emailPattern : Regex UInt8 :=
  seq (plus (symbol fun b => alnum b || among "._%+-" b)) (seq (literal '@')
    (seq (plus (symbol fun b => alnum b || among ".-" b)) (seq (literal '.')
      (seq (symbol letter) (plus (symbol letter))))))

-- `ReplaceAllString` expands `$` in what it puts in; the three texts have none.
def redactValue (s : GoString) : GoString :=
  let s := bearerPattern.replaceAll (utf8 "[REDACTED-AUTH]") s
  let s := jwtPattern.replaceAll (utf8 "[REDACTED-JWT]") s
  emailPattern.replaceAll (utf8 "[REDACTED-EMAIL]") s

def containsSensitive (s : GoString) : Bool :=
  jwtPattern.matchString s || bearerPattern.matchString s || emailPattern.matchString s

/-- What is put in, as a label between brackets. -/
def bracketed (label : String) : Tag UInt8 := ⟨'['.toUInt8, utf8 label, ']'.toUInt8⟩

def rules : List (Regex UInt8 × Tag UInt8) :=
  [(bearerPattern, bracketed "REDACTED-AUTH"), (jwtPattern, bracketed "REDACTED-JWT"),
    (emailPattern, bracketed "REDACTED-EMAIL")]

theorem redactValue_eq (s : GoString) : redactValue s = replaceEach rules s := by
  have hauth : utf8 "[REDACTED-AUTH]" = (bracketed "REDACTED-AUTH").text := by decide
  have hjwt : utf8 "[REDACTED-JWT]" = (bracketed "REDACTED-JWT").text := by decide
  have hemail : utf8 "[REDACTED-EMAIL]" = (bracketed "REDACTED-EMAIL").text := by decide
  rw [redactValue, hauth, hjwt, hemail]
  rfl

/-- A bracket is in no class of the patterns, and none of them is found in a label. -/
theorem rules_apart : Apart rules := by
  unfold Apart
  decide

theorem containsSensitive_eq_false {s : GoString} :
    containsSensitive s = false ↔ ∀ rule ∈ rules, ¬rule.1.Found s := by
  simp only [containsSensitive, Bool.or_eq_false_iff, matchString_eq_false, rules,
    List.forall_mem_cons, List.not_mem_nil, IsEmpty.forall_iff, implies_true, and_true]
  rw [and_left_comm, and_assoc]

/-- Redaction leaves nothing that it would take out, and changes nothing a second time. -/
theorem redactValue_complete_stable (s : GoString) :
    containsSensitive (redactValue s) = false ∧ redactValue (redactValue s) = redactValue s := by
  rw [redactValue_eq s]
  constructor
  · apply containsSensitive_eq_false.mpr
    intro rule hrule
    exact rules_apart.not_found hrule s
  · rw [redactValue_eq]
    exact rules_apart.replaceEach_replaceEach s

-- A token goes before the address whose domain it is, and then the rest of the address is none.
example : redactValue (utf8 "Basic a=eyJa.b.c,me@eyJh.eyJz.abc") =
    utf8 "[REDACTED-AUTH],me@[REDACTED-JWT]" := by
  decide +kernel

end ArchGuard.Redaction
