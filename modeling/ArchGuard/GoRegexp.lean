import ArchGuard.GoText
import Mathlib.Data.List.Dedup
import Mathlib.Data.List.Infix
import Mathlib.Data.List.TakeWhile

/-! Go's regular expressions: what `regexp.Compile` reads in a pattern, where a match may end,
and what becomes of a pattern once a caret is written before it and a dollar sign after it. -/
namespace Regexp

open GoText

structure Flags where
  fold : Bool := false
  multiline : Bool := false
  dotNL : Bool := false
  deriving DecidableEq

inductive Regex
  | empty
  | char (admits : ℕ → Bool)
  | beginText
  | endText
  | beginLine
  | endLine
  | wordBoundary (boundary : Bool)
  | cat (r t : Regex)
  | alt (r t : Regex)
  | rep (r : Regex) (min : ℕ) (max : Option ℕ)

-- Where a match may end, in a text of code points.

def between (lo hi : ℕ) : ℕ → Bool := fun c => lo ≤ c && c ≤ hi

def digit : ℕ → Bool := between 48 57

def word : ℕ → Bool := fun c => digit c || between 65 90 c || between 97 122 c || c = 95

def wordAt (text : List ℕ) (i : ℕ) : Bool := text[i]?.any word

def atWordBoundary (text : List ℕ) (i : ℕ) : Bool := (0 < i && wordAt text (i-1)) != wordAt text i

/-- Where `n` matches in a row may end. -/
def reached (next : ℕ → List ℕ) : (n : ℕ) → List ℕ → List ℕ
  | 0, is => is
  | n+1, is => reached next n (is.flatMap next).dedup

/-- Where at most `n` matches in a row may end. -/
def reachedWithin (next : ℕ → List ℕ) : (n : ℕ) → List ℕ → List ℕ
  | 0, is => is
  | n+1, is => reachedWithin next n (is ++ is.flatMap next).dedup

/-- The places where a match that starts at a place may end. Without a maximum, more matches than
the text has characters reach no further place. -/
def ends (text : List ℕ) : Regex → ℕ → List ℕ
  | .empty, i => [i]
  | .char p, i => if text[i]?.any p then [i+1] else []
  | .beginText, i => if i = 0 then [i] else []
  | .endText, i => if i = text.length then [i] else []
  | .beginLine, i => if i = 0 ∨ text[i-1]? = some 10 then [i] else []
  | .endLine, i => if i = text.length ∨ text[i]? = some 10 then [i] else []
  | .wordBoundary b, i => if atWordBoundary text i = b then [i] else []
  | .cat r t, i => (ends text r i).flatMap (ends text t)
  | .alt r t, i => ends text r i ++ ends text t i
  | .rep r min max, i =>
    reachedWithin (ends text r) (max.elim text.length (· - min)) (reached (ends text r) min [i])

/-- A match from the front of the text, or from any place of it. -/
def searchFrom (front : Bool) (r : Regex) (text : List ℕ) : Bool :=
  (if front then [0] else List.range (text.length+1)).any fun i => !(ends text r i).isEmpty

def search (r : Regex) (text : List ℕ) : Bool := searchFrom false r text

def whole (r : Regex) (text : List ℕ) : Bool := text.length ∈ ends text r 0

/-- `repeatIsValid`: the repetitions within each other come to at most `n`. -/
def repeatIsValid : (n : ℕ) → Regex → Bool
  | n, .rep r min max =>
    max = some 0 || (max.getD min ≤ n && repeatIsValid (n / Nat.max 1 (max.getD min)) r)
  | n, .cat r t | n, .alt r t => repeatIsValid n r && repeatIsValid n t
  | _, _ => true

/-- The Unicode tables, and the limits on the height and the size of an expression. -/
structure Tables where
  /-- The other code points that one folds to. -/
  orbit : ℕ → List ℕ
  /-- A group by its name, without and with the code points that fold into it. -/
  group : List Char → Option (Bool → ℕ → Bool)
  fits : List Char → Bool

variable (tb : Tables)

/-- A set of code points, under the flags of its place. -/
abbrev Members := Flags → ℕ → Bool

def Tables.admits (p : ℕ → Bool) : Members := fun fl c => p c || (fl.fold && (tb.orbit c).any p)

def Tables.literal (c : ℕ) : Members := tb.admits (· = c)

inductive Token
  | piece (r : Flags → Regex)
  | quoted (cs : List Char)
  | openQuote (cs : List Char)
  | quantifier (min : ℕ) (max : Option ℕ)
  | group (set : Flags → Flags)
  | flags (set : Flags → Flags)
  | close
  | bar

def caret : Flags → Regex := fun fl => if fl.multiline then .beginLine else .beginText

def dollar : Flags → Regex := fun fl => if fl.multiline then .endLine else .endText

def dot : Flags → Regex := fun fl => .char fun c => fl.dotNL || c != 10

def Tables.charPiece (c : ℕ) : Token := .piece fun fl => .char (tb.literal c fl)

def setPiece (p : Members) : Token := .piece fun fl => .char (p fl)

-- The escapes of single characters.

def unhex (c : Char) : Option ℕ :=
  if c.isDigit then some (c.toNat-48)
  else if 'a' ≤ c ∧ c ≤ 'f' then some (c.toNat-87)
  else if 'A' ≤ c ∧ c ≤ 'F' then some (c.toNat-55)
  else none

def isOctal (c : Char) : Bool := '0' ≤ c ∧ c ≤ '7'

def readOctal (r : ℕ) : (most : ℕ) → List Char → ℕ × List Char
  | 0, t => (r, t)
  | _, [] => (r, [])
  | n+1, c :: t => if isOctal c then readOctal (r*8+(c.toNat-48)) n t else (r, c :: t)

/-- The hexadecimal digits up to a closing brace. -/
def readBraced (r : ℕ) (seen : Bool) : List Char → Option (ℕ × List Char)
  | [] => none
  | c :: t =>
    if c = '\x7d' then if seen then some (r, t) else none
    else
      match unhex c with
      | some v => if r*16+v ≤ 0x10FFFF then readBraced (r*16+v) true t else none
      | none => none

def readHex : List Char → Option (ℕ × List Char)
  | [] => none
  | c :: t =>
    if c = '\x7b' then readBraced 0 false t
    else
      match t with
      | [] => none
      | d :: t =>
        match unhex c, unhex d with
        | some x, some y => some (x*16+y, t)
        | _, _ => none

def controlEscape (c : Char) : Option ℕ :=
  [('a', 7), ('f', 12), ('n', 10), ('r', 13), ('t', 9), ('v', 11)].lookup c

/-- `parseEscape`, after the backslash. -/
def parseEscape : List Char → Option (ℕ × List Char)
  | [] => none
  | c :: t =>
    -- A single digit but 0 would refer back to a group.
    if c = '0' ∨ isOctal c ∧ t.head?.any isOctal then some (readOctal (c.toNat-48) 2 t)
    else if c = 'x' then readHex t
    else
      match controlEscape c with
      | some r => some (r, t)
      | none => if c.toNat < 128 ∧ !c.isAlphanum then some (c.toNat, t) else none

-- The sets of characters.

/-- The text before a separator, and the text after it. -/
def cut (sep : List Char) : List Char → Option (List Char × List Char)
  | [] => none
  | c :: t =>
    if sep.isPrefixOf (c :: t) then some ([], (c :: t).drop sep.length)
    else (cut sep t).map fun p => (c :: p.1, p.2)

/-- `perlGroup`: the letter's set, and whether it is left out. -/
def perlGroup (c : Char) : Option ((ℕ → Bool) × Bool) :=
  let space : ℕ → Bool := fun c => c ∈ [9, 10, 12, 13, 32]
  [('d', digit, false), ('D', digit, true), ('s', space, false), ('S', space, true),
    ('w', word, false), ('W', word, true)].lookup c

def posixGroup (name : List Char) : Option (ℕ → Bool) :=
  let upper := between 65 90
  let lower := between 97 122
  let alpha : ℕ → Bool := fun c => upper c || lower c
  [("alnum", fun c => digit c || alpha c), ("alpha", alpha), ("ascii", between 0 127),
    ("blank", fun c => c = 9 || c = 32), ("cntrl", fun c => c ≤ 31 || c = 127),
    ("digit", digit), ("graph", between 33 126), ("lower", lower), ("print", between 32 126),
    ("punct", fun c => between 33 126 c && !(digit c || alpha c)),
    ("space", fun c => between 9 13 c || c = 32), ("upper", upper), ("word", word),
    ("xdigit", fun c => digit c || between 65 70 c || between 97 102 c)].lookup (String.ofList name)

def Tables.appendGroup (p : ℕ → Bool) (negated : Bool) : Members :=
  fun fl c => tb.admits p fl c != negated

/-- A name, with a caret before it where the group is left out. -/
def splitCaret (negated : Bool) : List Char → List Char × Bool
  | [] => ([], negated)
  | c :: name => if c = '^' then (name, !negated) else (c :: name, negated)

def Tables.unicodeTable (negated : Bool) (name : List Char) : Option Members :=
  let (name, negated) := splitCaret negated name
  (tb.group name).map fun p fl c => p fl.fold c != negated

/-- `parseUnicodeClass`, after the letter. -/
def Tables.parseUnicodeClass (negated : Bool) : List Char → Option (Members × List Char)
  | [] => none
  | c :: t =>
    if c = '\x7b' then
      (cut ['\x7d'] t).bind fun p => (tb.unicodeTable negated p.1).map (·, p.2)
    else (tb.unicodeTable negated [c]).map (·, t)

/-- A group of characters after a backslash, if one stands there. -/
def Tables.parseGroupEscape (t : List Char) : Option (Option (Members × List Char)) :=
  match t with
  | [] => none
  | c :: t =>
    if c = 'p' ∨ c = 'P' then some (tb.parseUnicodeClass (c = 'P') t)
    else (perlGroup c).map fun g => some (tb.appendGroup g.1 g.2, t)

def parseClassChar : List Char → Option (ℕ × List Char)
  | [] => none
  | c :: t => if c = '\\' then parseEscape t else some (c.toNat, t)

/-- A character, or a range where a dash follows it. -/
def Tables.parseClassRange (lo : ℕ) : List Char → Option (Members × List Char)
  | d :: e :: t =>
    if d = '-' ∧ e ≠ ']' then
      (parseClassChar (e :: t)).bind fun p =>
        if lo ≤ p.1 then some (tb.admits (between lo p.1), p.2) else none
    else some (tb.literal lo, d :: e :: t)
  | t => some (tb.literal lo, t)

/-- `parseNamedClass`, after the colon. -/
def Tables.parseNamedClass (name : List Char) : Option Members :=
  let (name, negated) := splitCaret false name
  (posixGroup name).map fun p => tb.appendGroup p negated

/-- What comes after an opening bracket within a class. Without a `:]` anywhere after it, the
bracket stands for itself. -/
def Tables.parseClassBracket (t : List Char) : Option (Members × List Char) :=
  match t with
  | [] => tb.parseClassRange '['.toNat []
  | c :: u =>
    if c = ':' then
      match cut [':', ']'] u with
      | some p => (tb.parseNamedClass p.1).map (·, p.2)
      | none => tb.parseClassRange '['.toNat (c :: u)
    else tb.parseClassRange '['.toNat (c :: u)

def Tables.parseClassEscape (t : List Char) : Option (Members × List Char) :=
  match tb.parseGroupEscape t with
  | some group => group
  | none => (parseEscape t).bind fun p => tb.parseClassRange p.1 p.2

def Tables.parseClassItem (c : Char) (t : List Char) : Option (Members × List Char) :=
  if c = '[' then tb.parseClassBracket t
  else if c = '\\' then tb.parseClassEscape t
  else tb.parseClassRange c.toNat t

/-- The items up to the closing bracket, which may stand first for itself. An item takes a
character at least. -/
def Tables.parseClassItems : (fuel : ℕ) → (first : Bool) → List Char → Option (Members × List Char)
  | n+1, first, c :: t =>
    if c = ']' ∧ !first then some (fun _ _ => false, t)
    else
      (tb.parseClassItem c t).bind fun p =>
        (Tables.parseClassItems n false p.2).map fun q => (fun fl x => p.1 fl x || q.1 fl x, q.2)
  | _, _, _ => none

/-- `parseClass`, after the opening bracket. -/
def Tables.parseClass : List Char → Option (Members × List Char)
  | [] => none
  | c :: t =>
    if c = '^' then
      (tb.parseClassItems t.length true t).map fun p => (fun fl x => !p.1 fl x, p.2)
    else tb.parseClassItems (t.length+1) true (c :: t)

-- The tokens of a pattern.

/-- `parseInt`: no leading zeros. -/
def parseInt (t : List Char) : Option (ℕ × List Char) :=
  let ds := t.takeWhile Char.isDigit
  if ds = [] ∨ ds.head? = some '0' ∧ 1 < ds.length then none
  else some (ds.foldl (fun n d => n*10+(d.toNat-48)) 0, t.dropWhile Char.isDigit)

def expect (c : Char) : List Char → Option (List Char)
  | [] => none
  | d :: t => if d = c then some t else none

/-- `parseRepeat`, after the opening brace. -/
def parseRepeat (t : List Char) : Option ((ℕ × Option ℕ) × List Char) :=
  (parseInt t).bind fun p =>
    match expect ',' p.2 with
    | none => (expect '\x7d' p.2).map fun rest => ((p.1, some p.1), rest)
    | some u =>
      match expect '\x7d' u with
      | some rest => some ((p.1, none), rest)
      | none => (parseInt u).bind fun q =>
          (expect '\x7d' q.2).map fun rest => ((p.1, some q.1), rest)

/-- Which of its matches a repetition prefers does not matter here. -/
def skipLazy (t : List Char) : List Char := (expect '?' t).getD t

def readQuantifier (min : ℕ) (max : Option ℕ) (t : List Char) : Token × List Char :=
  (.quantifier min max, skipLazy t)

/-- A brace that opens no repetition stands for itself. -/
def Tables.readBrace (t : List Char) : Option (Token × List Char) :=
  match parseRepeat t with
  | none => some (tb.charPiece '\x7b'.toNat, t)
  | some p =>
    if p.1.1 ≤ 1000 ∧ p.1.2.all (fun max => max ≤ 1000 && p.1.1 ≤ max) then
      some (readQuantifier p.1.1 p.1.2 p.2)
    else none

/-- The flags after `(?`, up to the colon of a group or the closing parenthesis. -/
def readFlags (negated seen : Bool) (set : Flags → Flags) : List Char → Option (Token × List Char)
  | [] => none
  | c :: t =>
    if c = 'i' then readFlags negated true (fun fl => { set fl with fold := !negated }) t
    else if c = 'm' then readFlags negated true (fun fl => { set fl with multiline := !negated }) t
    else if c = 's' then readFlags negated true (fun fl => { set fl with dotNL := !negated }) t
    else if c = 'U' then readFlags negated true set t
    else if c = '-' then if negated then none else readFlags true false set t
    else if c = ':' then if negated ∧ !seen then none else some (.group set, t)
    else if c = ')' then if negated ∧ !seen then none else some (.flags set, t)
    else none

def isValidCaptureName (name : List Char) : Bool :=
  !name.isEmpty && name.all fun c => c = '_' || c.isAlphanum

def readName (t : List Char) : Option (Token × List Char) :=
  (cut ['>'] t).bind fun p => if isValidCaptureName p.1 then some (.group id, p.2) else none

/-- `parsePerlFlags`, after `(?`. -/
def parsePerlFlags (t : List Char) : Option (Token × List Char) :=
  match expect '<' t, (expect 'P' t).bind (expect '<') with
  | some u, _ | none, some u => readName u
  | none, none => readFlags false false id t

def readParen (t : List Char) : Option (Token × List Char) :=
  match expect '?' t with
  | some u => parsePerlFlags u
  | none => some (.group id, t)

def readQuote (t : List Char) : Token × List Char :=
  match cut ['\\', 'E'] t with
  | some p => (.quoted p.1, p.2)
  | none => (.openQuote t, [])

/-- The assertions that a backslash and a letter stand for. -/
def assertion (c : Char) : Option Regex :=
  [('A', .beginText), ('b', .wordBoundary true), ('B', .wordBoundary false), ('z', .endText)].lookup c

def Tables.readBackslash (t : List Char) : Option (Token × List Char) :=
  match t with
  | [] => none
  | c :: u =>
    if c = 'Q' then some (readQuote u)
    else
      match assertion c with
      | some r => some (.piece fun _ => r, u)
      | none =>
        match tb.parseGroupEscape (c :: u) with
        | some group => group.map fun p => (setPiece p.1, p.2)
        | none => (parseEscape (c :: u)).map fun p => (tb.charPiece p.1, p.2)

def Tables.readToken (c : Char) (t : List Char) : Option (Token × List Char) :=
  if c = '(' then readParen t
  else if c = '|' then some (.bar, t)
  else if c = ')' then some (.close, t)
  else if c = '^' then some (.piece caret, t)
  else if c = '$' then some (.piece dollar, t)
  else if c = '.' then some (.piece dot, t)
  else if c = '[' then (tb.parseClass t).map fun p => (setPiece p.1, p.2)
  else if c = '*' then some (readQuantifier 0 none t)
  else if c = '+' then some (readQuantifier 1 none t)
  else if c = '?' then some (readQuantifier 0 (some 1) t)
  else if c = '\x7b' then tb.readBrace t
  else if c = '\\' then tb.readBackslash t
  else some (tb.charPiece c.toNat, t)

/-- A token takes a character at least. -/
def Tables.lexFrom : (fuel : ℕ) → List Char → Option (List Token)
  | _, [] => some []
  | 0, _ :: _ => none
  | n+1, c :: t =>
    (tb.readToken c t).bind fun p => (Tables.lexFrom n p.2).map fun ts => p.1 :: ts

def Tables.lex (s : List Char) : Option (List Token) := tb.lexFrom s.length s

-- The expression that a list of tokens stands for.

inductive Item
  | regex (r : Regex)
  | bar
  /-- An open group, with the flags to go back to where it closes. -/
  | paren (flags : Flags)

structure State where
  flags : Flags
  /-- What is read, the latest first. -/
  stack : List Item
  /-- The token before was a quantifier. -/
  repeated : Bool

/-- The alternatives above the innermost open group, and what lies below it. -/
def unwind (r : Regex) (later : List Regex) : List Item → List Regex × Option (Flags × List Item)
  | [] => (r :: later, none)
  | .regex p :: st => unwind (.cat p r) later st
  | .bar :: st => unwind .empty (r :: later) st
  | .paren fl :: st => (r :: later, some (fl, st))

def alternation : List Regex → Regex
  | [] => .empty
  | [r] => r
  | r :: t :: rs => .alt r (alternation (t :: rs))

def Tables.pushChars (σ : State) (cs : List Char) : State :=
  { σ with
    stack := (cs.map fun c => Item.regex (.char (tb.literal c.toNat σ.flags))).reverse ++ σ.stack
    repeated := false }

/-- The item on top matched so many times. -/
def State.repeat (σ : State) (min : ℕ) (max : Option ℕ) : Option State :=
  if σ.repeated then none
  else
    match σ.stack with
    | .regex r :: st =>
      let rep := Regex.rep r min max
      if (2 ≤ min || max.any (2 ≤ ·)) && !repeatIsValid 1000 rep then none
      else some { σ with stack := .regex rep :: st, repeated := true }
    | _ => none

def Tables.step (σ : State) : Token → Option State
  | .piece r => some { σ with stack := .regex (r σ.flags) :: σ.stack, repeated := false }
  | .quoted cs | .openQuote cs => some (tb.pushChars σ cs)
  | .quantifier min max => σ.repeat min max
  | .group set => some ⟨set σ.flags, .paren σ.flags :: σ.stack, false⟩
  | .flags set => some { σ with flags := set σ.flags, repeated := false }
  | .bar => some { σ with stack := .bar :: σ.stack, repeated := false }
  | .close =>
    match unwind .empty [] σ.stack with
    | (rs, some (fl, st)) => some ⟨fl, .regex (alternation rs) :: st, false⟩
    | (_, none) => none

def Tables.run (σ : State) : List Token → Option State
  | [] => some σ
  | t :: ts => (tb.step σ t).bind fun τ => Tables.run τ ts

structure Pattern where
  /-- The alternatives at the top level, none without a bar. -/
  alternatives : List Regex
  /-- A `\Q` has no `\E` after it. -/
  openQuote : Bool
  /-- The flags at the end. -/
  flags : Flags

/-- What a dollar sign after the pattern stands for. -/
def Tables.dollarPiece (openQuote : Bool) : Flags → Regex :=
  if openQuote then fun fl => .char (tb.literal '$'.toNat fl) else dollar

def Pattern.regex (p : Pattern) : Regex := alternation p.alternatives

def leavesOpen (ts : List Token) : Bool :=
  match ts.getLast? with
  | some (.openQuote _) => true
  | _ => false

/-- `syntax.Parse` with the flags of Perl. -/
def Tables.parse (s : List Char) : Option Pattern := do
  guard (tb.fits s)
  let ts ← tb.lex s
  let σ ← tb.run ⟨{}, [], false⟩ ts
  match unwind .empty [] σ.stack with
  | (rs, none) => some ⟨rs, leavesOpen ts, σ.flags⟩
  | (_, some _) => none

def Tables.compile (s : GoString) : Option Pattern :=
  if malformed s = 0 then tb.parse (toValid s).toList else none

/-- The code points of a text, the replacement character for a byte that starts none. -/
def codePoints (s : GoString) : List ℕ := (toValid s).toList.map Char.toNat

def matchString (p : Pattern) (s : GoString) : Bool := search p.regex (codePoints s)

/-- Where `^` goes with the first alternative only and `$` with the last one only: the first starts
at the front, the last goes on to what the dollar sign stands for, the others match anywhere. -/
def reaches (text : List ℕ) (end' : Regex) : (front : Bool) → List Regex → Bool
  | _, [] => false
  | front, [r] => searchFrom front (.cat r end') text
  | front, r :: t :: rs => searchFrom front r text || reaches text end' false (t :: rs)

/-- What the pattern matches between a caret and a dollar sign. -/
def Tables.reaches (p : Pattern) (text : List ℕ) : Bool :=
  Regexp.reaches text (tb.dollarPiece p.openQuote p.flags) true p.alternatives

-- What a dollar sign after the pattern changes for each reader.

/-- A dollar sign more is left to read. -/
def grown {α : Type} (p : α × List Char) : α × List Char := (p.1, p.2 ++ ['$'])

theorem readOctal_dollar (r most : ℕ) (t : List Char) :
    readOctal r most (t ++ ['$']) = grown (readOctal r most t) := by
  induction most generalizing r t with
  | zero => rfl
  | succ n ih =>
    cases t with
    | nil => rfl
    | cons c t =>
      simp only [List.cons_append, readOctal]
      split
      · exact ih _ t
      · rfl

theorem readBraced_dollar (r : ℕ) (seen : Bool) (t : List Char) :
    readBraced r seen (t ++ ['$']) = (readBraced r seen t).map grown := by
  induction t generalizing r seen with
  | nil => rfl
  | cons c t ih =>
    simp only [List.cons_append, readBraced]
    split
    · split <;> rfl
    · split
      · split
        · exact ih _ _
        · rfl
      · rfl

theorem readHex_dollar (t : List Char) : readHex (t ++ ['$']) = (readHex t).map grown := by
  cases t with
  | nil => rfl
  | cons c t =>
    simp only [List.cons_append, readHex]
    split
    · exact readBraced_dollar 0 false t
    · cases t with
      | nil =>
        have hdollar : unhex '$' = none := by decide
        simp [hdollar]
      | cons d t =>
        simp only [List.cons_append]
        split <;> rfl

theorem parseEscape_dollar (c : Char) (t : List Char) :
    parseEscape (c :: t ++ ['$']) = (parseEscape (c :: t)).map grown := by
  have hhead : (t ++ ['$']).head?.any isOctal = t.head?.any isOctal := by
    cases t with
    | nil => decide
    | cons d t => rfl
  simp only [List.cons_append, parseEscape, hhead]
  split
  · rw [readOctal_dollar]
    rfl
  · split
    · exact readHex_dollar t
    · split
      · rfl
      · split <;> rfl

theorem isPrefixOf_dollar {sep : List Char} (hsep : '$' ∉ sep) (t : List Char) :
    sep.isPrefixOf (t ++ ['$']) = sep.isPrefixOf t := by
  rw [Bool.eq_iff_iff, List.isPrefixOf_iff_prefix, List.isPrefixOf_iff_prefix]
  constructor
  · intro h
    refine (List.prefix_concat_iff.mp h).resolve_left ?_
    intro he
    apply hsep
    rw [he]
    exact List.mem_append_right t (List.mem_singleton_self '$')
  · exact fun h => h.trans (List.prefix_append t ['$'])

theorem cut_dollar {sep : List Char} (hne : sep ≠ []) (hsep : '$' ∉ sep) (t : List Char) :
    cut sep (t ++ ['$']) = (cut sep t).map grown := by
  induction t with
  | nil =>
    have h : sep.isPrefixOf ['$'] = false := by
      rw [← List.nil_append ['$'], isPrefixOf_dollar hsep]
      exact Bool.eq_false_iff.mpr fun h => hne (List.prefix_nil.mp (List.isPrefixOf_iff_prefix.mp h))
    simp [cut, h]
  | cons c t ih =>
    rw [List.cons_append, cut, ← List.cons_append, isPrefixOf_dollar hsep, ih, cut]
    split
    · next h =>
      have hlen : sep.length ≤ (c :: t).length := (List.isPrefixOf_iff_prefix.mp h).length_le
      rw [List.drop_append_of_le_length hlen]
      rfl
    · cases cut sep t with
      | none => rfl
      | some p => rfl

theorem expect_dollar {c : Char} (hc : c ≠ '$') (t : List Char) :
    expect c (t ++ ['$']) = (expect c t).map (· ++ ['$']) := by
  cases t with
  | nil => exact if_neg hc.symm
  | cons d t =>
    simp only [List.cons_append, expect]
    split <;> rfl

theorem unicodeTable_dollar (negated : Bool) (name t : List Char) :
    (tb.unicodeTable negated name).map (·, t ++ ['$']) =
      ((tb.unicodeTable negated name).map (·, t)).map grown := by
  cases tb.unicodeTable negated name <;> rfl

theorem parseUnicodeClass_dollar {negated : Bool} {t : List Char} {p : Members × List Char}
    (h : tb.parseUnicodeClass negated t = some p) :
    tb.parseUnicodeClass negated (t ++ ['$']) = some (grown p) := by
  cases t with
  | nil => cases h
  | cons c t =>
    simp only [List.cons_append, Tables.parseUnicodeClass] at h ⊢
    split at h
    · obtain ⟨q, hq, hp⟩ := Option.bind_eq_some_iff.mp h
      rw [if_pos ‹_›, cut_dollar (by decide) (by decide), hq, Option.map_some, Option.bind_some]
      exact (unicodeTable_dollar tb negated q.1 q.2).trans (congrArg (Option.map grown) hp)
    · rw [if_neg ‹_›]
      exact (unicodeTable_dollar tb negated [c] t).trans (congrArg (Option.map grown) h)

theorem parseGroupEscape_dollar {t : List Char} {p : Members × List Char}
    (h : tb.parseGroupEscape t = some (some p)) :
    tb.parseGroupEscape (t ++ ['$']) = some (some (grown p)) := by
  cases t with
  | nil => cases h
  | cons c t =>
    simp only [List.cons_append, Tables.parseGroupEscape] at h ⊢
    split at h
    · rw [if_pos ‹_›, parseUnicodeClass_dollar tb (Option.some.inj h)]
    · rw [if_neg ‹_›]
      obtain ⟨g, hg, hp⟩ := Option.map_eq_some_iff.mp h
      rw [hg, ← Option.some.inj hp]
      rfl

theorem parseGroupEscape_dollar_none {c : Char} {t : List Char}
    (h : tb.parseGroupEscape (c :: t) = none) : tb.parseGroupEscape (c :: t ++ ['$']) = none := by
  simp only [List.cons_append, Tables.parseGroupEscape] at h ⊢
  split at h
  · cases h
  · rw [if_neg ‹_›]
    rw [Option.map_eq_none_iff] at h ⊢
    exact h

theorem parseClassChar_dollar {t : List Char} {p : ℕ × List Char} (h : parseClassChar t = some p) :
    parseClassChar (t ++ ['$']) = some (grown p) := by
  cases t with
  | nil => cases h
  | cons c t =>
    simp only [List.cons_append, parseClassChar] at h ⊢
    split at h
    · rw [if_pos ‹_›]
      cases t with
      | nil => cases h
      | cons d t => rw [parseEscape_dollar, h, Option.map_some]
    · rw [if_neg ‹_›, ← Option.some.inj h]
      rfl

/-- A dash that ends the pattern would start a range with the dollar sign. -/
theorem parseClassRange_dollar {lo : ℕ} {t : List Char} {p : Members × List Char}
    (h : tb.parseClassRange lo t = some p) (hp : p.2 ≠ ['-']) :
    tb.parseClassRange lo (t ++ ['$']) = some (grown p) := by
  match t with
  | [] =>
    cases h
    rfl
  | [d] =>
    cases h
    have hd : ¬(d = '-' ∧ '$' ≠ ']') := fun hd => hp (congrArg (fun c => [c]) hd.1)
    exact if_neg hd
  | d :: e :: t =>
    simp only [List.cons_append, Tables.parseClassRange] at h ⊢
    split at h
    · rw [if_pos ‹_›]
      obtain ⟨q, hq, hr⟩ := Option.bind_eq_some_iff.mp h
      rw [← List.cons_append, parseClassChar_dollar hq, Option.bind_some]
      split at hr
      · rw [grown, if_pos ‹_›, ← Option.some.inj hr]
        rfl
      · cases hr
    · rw [if_neg ‹_›, ← Option.some.inj h]
      rfl

theorem parseClassBracket_dollar {t : List Char} {p : Members × List Char}
    (h : tb.parseClassBracket t = some p) (hp : p.2 ≠ ['-']) :
    tb.parseClassBracket (t ++ ['$']) = some (grown p) := by
  cases t with
  | nil =>
    have hr : tb.parseClassRange '['.toNat [] = some p := h
    calc
      tb.parseClassBracket ['$'] = tb.parseClassRange '['.toNat ['$'] := rfl
      _ = some (grown p) := parseClassRange_dollar tb hr hp
  | cons c t =>
    simp only [List.cons_append, Tables.parseClassBracket] at h ⊢
    split at h
    · rw [if_pos ‹_›, cut_dollar (by decide) (by decide)]
      split at h
      · next q hq =>
        rw [hq]
        obtain ⟨m, hm, he⟩ := Option.map_eq_some_iff.mp h
        simp only [Option.map_some, grown, hm]
        rw [← he]
      · next hq =>
        rw [hq]
        exact parseClassRange_dollar tb h hp
    · rw [if_neg ‹_›]
      exact parseClassRange_dollar tb h hp

theorem parseClassEscape_dollar {t : List Char} {p : Members × List Char}
    (h : tb.parseClassEscape t = some p) (hp : p.2 ≠ ['-']) :
    tb.parseClassEscape (t ++ ['$']) = some (grown p) := by
  cases t with
  | nil => cases h
  | cons c t =>
    rw [Tables.parseClassEscape] at h ⊢
    split at h
    · next group hg =>
      subst h
      rw [parseGroupEscape_dollar tb hg]
    · next hg =>
      rw [parseGroupEscape_dollar_none tb hg]
      obtain ⟨q, hq, hr⟩ := Option.bind_eq_some_iff.mp h
      rw [parseEscape_dollar, hq, Option.map_some, Option.bind_some]
      exact parseClassRange_dollar tb hr hp

theorem parseClassItem_dollar {c : Char} {t : List Char} {p : Members × List Char}
    (h : tb.parseClassItem c t = some p) (hp : p.2 ≠ ['-']) :
    tb.parseClassItem c (t ++ ['$']) = some (grown p) := by
  rw [Tables.parseClassItem] at h ⊢
  split at h
  · rw [if_pos ‹_›]
    exact parseClassBracket_dollar tb h hp
  · rw [if_neg ‹_›]
    split at h
    · rw [if_pos ‹_›]
      exact parseClassEscape_dollar tb h hp
    · rw [if_neg ‹_›]
      exact parseClassRange_dollar tb h hp

theorem parseClassItems_dash (fuel : ℕ) : tb.parseClassItems fuel false ['-'] = none := by
  match fuel with
  | 0 => rfl
  | 1 => rfl
  | n+2 => rfl

theorem parseClassItems_dollar {fuel : ℕ} {first : Bool} {t : List Char} {p : Members × List Char}
    (h : tb.parseClassItems fuel first t = some p) :
    tb.parseClassItems (fuel+1) first (t ++ ['$']) = some (grown p) := by
  induction fuel generalizing first t p with
  | zero => cases t <;> cases h
  | succ n ih =>
    cases t with
    | nil => cases h
    | cons c t =>
      rw [List.cons_append, Tables.parseClassItems]
      rw [Tables.parseClassItems] at h
      split at h
      · rw [if_pos ‹_›, ← Option.some.inj h]
        rfl
      · rw [if_neg ‹_›]
        obtain ⟨q, hq, hr⟩ := Option.bind_eq_some_iff.mp h
        obtain ⟨r, hr, he⟩ := Option.map_eq_some_iff.mp hr
        have hdash : q.2 ≠ ['-'] := by
          intro hdash
          rw [hdash, parseClassItems_dash] at hr
          cases hr
        rw [parseClassItem_dollar tb hq hdash, Option.bind_some, grown, ih hr, Option.map_some, ← he]
        rfl

theorem parseClass_dollar {t : List Char} {p : Members × List Char} (h : tb.parseClass t = some p) :
    tb.parseClass (t ++ ['$']) = some (grown p) := by
  cases t with
  | nil => cases h
  | cons c t =>
    simp only [List.cons_append, Tables.parseClass, List.length_append, List.length_singleton] at h ⊢
    split at h
    · rw [if_pos ‹_›]
      obtain ⟨q, hq, he⟩ := Option.map_eq_some_iff.mp h
      rw [parseClassItems_dollar tb hq, Option.map_some, ← he]
      rfl
    · rw [if_neg ‹_›]
      exact parseClassItems_dollar tb h

theorem takeWhile_digits_dollar (t : List Char) :
    (t ++ ['$']).takeWhile Char.isDigit = t.takeWhile Char.isDigit := by
  induction t with
  | nil => rfl
  | cons c t ih => rw [List.cons_append, List.takeWhile_cons, List.takeWhile_cons, ih]

theorem dropWhile_digits_dollar (t : List Char) :
    (t ++ ['$']).dropWhile Char.isDigit = t.dropWhile Char.isDigit ++ ['$'] := by
  induction t with
  | nil => rfl
  | cons c t ih =>
    rw [List.cons_append, List.dropWhile_cons, List.dropWhile_cons]
    split
    · exact ih
    · rfl

theorem parseInt_dollar (t : List Char) : parseInt (t ++ ['$']) = (parseInt t).map grown := by
  simp only [parseInt, takeWhile_digits_dollar, dropWhile_digits_dollar]
  split <;> rfl

theorem parseRepeat_dollar (t : List Char) :
    parseRepeat (t ++ ['$']) = (parseRepeat t).map grown := by
  rw [parseRepeat, parseRepeat, parseInt_dollar]
  cases parseInt t with
  | none => rfl
  | some p =>
    simp only [Option.map_some, Option.bind_some, grown]
    rw [expect_dollar (by decide), expect_dollar (by decide)]
    cases expect ',' p.2 with
    | none => cases expect '\x7d' p.2 <;> rfl
    | some u =>
      simp only [Option.map_some]
      rw [expect_dollar (by decide), parseInt_dollar]
      cases expect '\x7d' u with
      | some rest => rfl
      | none =>
        cases parseInt u with
        | none => rfl
        | some q =>
          simp only [Option.map_some, Option.map_none, Option.bind_some, grown]
          rw [expect_dollar (by decide)]
          cases expect '\x7d' q.2 <;> rfl

theorem skipLazy_dollar (t : List Char) : skipLazy (t ++ ['$']) = skipLazy t ++ ['$'] := by
  rw [skipLazy, skipLazy, expect_dollar (by decide)]
  cases expect '?' t <;> rfl

/-- A dollar sign more is left to read, or is quoted with the rest. -/
def grownToken : Token × List Char → Token × List Char
  | (.openQuote cs, []) => (.openQuote (cs ++ ['$']), [])
  | (t, rest) => (t, rest ++ ['$'])

theorem readQuantifier_dollar (min : ℕ) (max : Option ℕ) (t : List Char) :
    readQuantifier min max (t ++ ['$']) = grownToken (readQuantifier min max t) := by
  rw [readQuantifier, skipLazy_dollar]
  rfl

theorem readBrace_dollar (t : List Char) :
    tb.readBrace (t ++ ['$']) = (tb.readBrace t).map grownToken := by
  rw [Tables.readBrace, Tables.readBrace, parseRepeat_dollar]
  cases parseRepeat t with
  | none => rfl
  | some p =>
    simp only [Option.map_some, grown]
    split
    · rw [readQuantifier_dollar]
      rfl
    · rfl

theorem readFlags_dollar (negated seen : Bool) (set : Flags → Flags) (t : List Char) :
    readFlags negated seen set (t ++ ['$']) = (readFlags negated seen set t).map grownToken := by
  induction t generalizing negated seen set with
  | nil => rfl
  | cons c t ih =>
    simp only [List.cons_append, readFlags, ih]
    split_ifs <;> rfl

theorem readName_dollar (t : List Char) : readName (t ++ ['$']) = (readName t).map grownToken := by
  rw [readName, readName, cut_dollar (by decide) (by decide)]
  cases cut ['>'] t with
  | none => rfl
  | some p =>
    simp only [Option.map_some, Option.bind_some, grown]
    split <;> rfl

theorem parsePerlFlags_dollar (t : List Char) :
    parsePerlFlags (t ++ ['$']) = (parsePerlFlags t).map grownToken := by
  have hbind : (expect 'P' (t ++ ['$'])).bind (expect '<') =
      ((expect 'P' t).bind (expect '<')).map (· ++ ['$']) := by
    rw [expect_dollar (by decide)]
    cases expect 'P' t with
    | none => rfl
    | some u => exact expect_dollar (by decide) u
  rw [parsePerlFlags, parsePerlFlags, hbind, expect_dollar (by decide)]
  cases expect '<' t with
  | some u => exact readName_dollar u
  | none =>
    cases (expect 'P' t).bind (expect '<') with
    | some u => exact readName_dollar u
    | none => exact readFlags_dollar false false id t

theorem readParen_dollar (t : List Char) : readParen (t ++ ['$']) = (readParen t).map grownToken := by
  rw [readParen, readParen, expect_dollar (by decide)]
  cases expect '?' t with
  | none => rfl
  | some u => exact parsePerlFlags_dollar u

theorem readQuote_dollar (t : List Char) : readQuote (t ++ ['$']) = grownToken (readQuote t) := by
  rw [readQuote, readQuote, cut_dollar (by decide) (by decide)]
  cases cut ['\\', 'E'] t <;> rfl

theorem readBackslash_dollar {t : List Char} {p : Token × List Char}
    (h : tb.readBackslash t = some p) : tb.readBackslash (t ++ ['$']) = some (grownToken p) := by
  cases t with
  | nil => cases h
  | cons c t =>
    simp only [List.cons_append, Tables.readBackslash] at h ⊢
    split at h
    · rw [if_pos ‹_›, readQuote_dollar, Option.some.inj h]
    · rw [if_neg ‹_›]
      cases ha : assertion c with
      | some r =>
        rw [ha] at h
        cases h
        rfl
      | none =>
        rw [ha] at h
        cases hg : tb.parseGroupEscape (c :: t) with
        | some group =>
          simp only [hg] at h
          obtain ⟨q, rfl, hp⟩ := Option.map_eq_some_iff.mp h
          rw [← List.cons_append, parseGroupEscape_dollar tb hg, ← hp]
          rfl
        | none =>
          simp only [hg] at h
          obtain ⟨q, hq, hp⟩ := Option.map_eq_some_iff.mp h
          rw [← List.cons_append, parseGroupEscape_dollar_none tb hg, parseEscape_dollar, hq, ← hp]
          rfl

/-- Two tests of the same guard give corresponding answers where their branches do. -/
theorem guarded {α : Type} {c : Prop} [Decidable c] {a b a' b' : Option α} {x y : α}
    (ha : a = some x → a' = some y) (hb : b = some x → b' = some y)
    (h : (if c then a else b) = some x) : (if c then a' else b') = some y := by
  split at h
  · rw [if_pos ‹c›, ha h]
  · rw [if_neg ‹¬c›, hb h]

theorem readToken_dollar {c : Char} {t : List Char} {p : Token × List Char}
    (h : tb.readToken c t = some p) : tb.readToken c (t ++ ['$']) = some (grownToken p) := by
  have quantified (min : ℕ) (max : Option ℕ) (h : some (readQuantifier min max t) = some p) :
      some (readQuantifier min max (t ++ ['$'])) = some (grownToken p) := by
    rw [readQuantifier_dollar, Option.some.inj h]
  have single (tok : Token) (htok : grownToken (tok, t) = (tok, t ++ ['$'])) (h : some (tok, t) = some p) :
      some (tok, t ++ ['$']) = some (grownToken p) := by
    rw [← Option.some.inj h, htok]
  refine guarded ?_ (guarded (single _ rfl) (guarded (single _ rfl) (guarded (single _ rfl)
    (guarded (single _ rfl) (guarded (single _ rfl) (guarded ?_ (guarded (quantified _ _)
    (guarded (quantified _ _) (guarded (quantified _ _) (guarded ?_ (guarded
    (readBackslash_dollar tb) (single _ rfl)))))))))))) h
  · intro h
    rw [readParen_dollar, h, Option.map_some]
  · intro h
    obtain ⟨q, hq, hp⟩ := Option.map_eq_some_iff.mp h
    rw [parseClass_dollar tb hq, ← hp]
    rfl
  · intro h
    rw [readBrace_dollar, h, Option.map_some]

/-- The last token with a dollar sign after it, which an open quotation takes in. -/
def Token.beforeDollar : Token → List Token
  | .openQuote cs => [.openQuote (cs ++ ['$'])]
  | t => [t, .piece dollar]

def withDollar : List Token → List Token
  | [] => [.piece dollar]
  | [t] => t.beforeDollar
  | t :: u :: ts => t :: withDollar (u :: ts)

theorem readToken_dollar_sign (t : List Char) : tb.readToken '$' t = some (.piece dollar, t) := rfl

theorem readToken_caret (t : List Char) : tb.readToken '^' t = some (.piece caret, t) := rfl

theorem lexFrom_nil (fuel : ℕ) : tb.lexFrom fuel [] = some [] := by
  cases fuel <;> rfl

theorem lexFrom_cons (fuel : ℕ) (c : Char) (t : List Char) :
    tb.lexFrom (fuel+1) (c :: t) =
      (tb.readToken c t).bind fun p => (tb.lexFrom fuel p.2).map fun ts => p.1 :: ts := rfl

theorem lexFrom_dollar {fuel : ℕ} {s : List Char} {ts : List Token} (h : tb.lexFrom fuel s = some ts) :
    tb.lexFrom (fuel+1) (s ++ ['$']) = some (withDollar ts) := by
  induction fuel generalizing s ts with
  | zero =>
    cases s with
    | nil =>
      cases h
      rfl
    | cons c t => cases h
  | succ n ih =>
    cases s with
    | nil =>
      rw [lexFrom_nil] at h
      rw [← Option.some.inj h, List.nil_append, lexFrom_cons, readToken_dollar_sign, Option.bind_some,
        lexFrom_nil]
      rfl
    | cons c t =>
      rw [lexFrom_cons] at h
      obtain ⟨⟨tok, rest⟩, hp, hr⟩ := Option.bind_eq_some_iff.mp h
      obtain ⟨us, hus, he⟩ := Option.map_eq_some_iff.mp hr
      rw [List.cons_append, lexFrom_cons, readToken_dollar tb hp, Option.bind_some]
      subst he
      cases rest with
      | nil =>
        rw [lexFrom_nil] at hus
        have hdollar : tb.lexFrom (n+1) ['$'] = some [.piece dollar] := by
          rw [lexFrom_cons, readToken_dollar_sign, Option.bind_some, lexFrom_nil]
          rfl
        rw [← Option.some.inj hus]
        cases tok with
        | openQuote cs => rw [grownToken, lexFrom_nil]; rfl
        | _ =>
          simp only [grownToken, List.nil_append, hdollar]
          rfl
      | cons d rest =>
        have hgrown : grownToken (tok, d :: rest) = (tok, d :: rest ++ ['$']) := by
          cases tok <;> rfl
        rw [hgrown, ih hus, Option.map_some]
        cases us with
        | nil =>
          cases n with
          | zero => cases hus
          | succ m =>
            obtain ⟨_, -, hm⟩ := Option.bind_eq_some_iff.mp hus
            obtain ⟨_, -, hnil⟩ := Option.map_eq_some_iff.mp hm
            cases hnil
        | cons u us => rfl

/-- The tokens of a pattern between a caret and a dollar sign. -/
theorem lex_anchored {s : List Char} {ts : List Token} (h : tb.lex s = some ts) :
    tb.lex ('^' :: (s ++ ['$'])) = some (.piece caret :: withDollar ts) := by
  rw [Tables.lex, List.length_cons, List.length_append, List.length_singleton, lexFrom_cons,
    readToken_caret, Option.bind_some, lexFrom_dollar tb h, Option.map_some]

-- What the caret and the dollar sign change for the expression.

/-- The same state over one item more, at the bottom. -/
def State.over (σ : State) (b : Item) : State := { σ with stack := σ.stack ++ [b] }

theorem unwind_over {r : Regex} {later rs : List Regex} {st st' : List Item} {fl : Flags} (b : Item)
    (h : unwind r later st = (rs, some (fl, st'))) :
    unwind r later (st ++ [b]) = (rs, some (fl, st' ++ [b])) := by
  induction st generalizing r later with
  | nil => cases h
  | cons i st ih =>
    cases i with
    | regex p => exact ih h
    | bar => exact ih h
    | paren fl' =>
      cases h
      rfl

theorem repeat_over {σ τ : State} {min : ℕ} {max : Option ℕ} (b : Item)
    (h : σ.repeat min max = some τ) : (σ.over b).repeat min max = some (τ.over b) := by
  obtain ⟨flags, stack, repeated⟩ := σ
  cases stack with
  | nil => cases repeated <;> cases h
  | cons i st =>
    cases i with
    | regex r =>
      refine guarded (fun h => ?_) (guarded (fun h => ?_) fun h => ?_) h
      · cases h
      · cases h
      · cases h
        rfl
    | bar => cases repeated <;> cases h
    | paren fl => cases repeated <;> cases h

theorem pushChars_over (σ : State) (b : Item) (cs : List Char) :
    tb.pushChars (σ.over b) cs = (tb.pushChars σ cs).over b := by
  simp only [Tables.pushChars, State.over, List.append_assoc]

theorem step_over {σ τ : State} {t : Token} (b : Item) (h : tb.step σ t = some τ) :
    tb.step (σ.over b) t = some (τ.over b) := by
  cases t with
  | piece r =>
    cases h
    rfl
  | quoted cs =>
    cases h
    exact congrArg some (pushChars_over tb σ b cs)
  | openQuote cs =>
    cases h
    exact congrArg some (pushChars_over tb σ b cs)
  | quantifier min max => exact repeat_over b h
  | group set =>
    cases h
    rfl
  | flags set =>
    cases h
    rfl
  | bar =>
    cases h
    rfl
  | close =>
    simp only [Tables.step] at h
    split at h
    · next rs fl st hu =>
      cases h
      simp only [Tables.step, State.over, unwind_over b hu]
      rfl
    · cases h

theorem run_over {σ τ : State} {ts : List Token} (b : Item) (h : tb.run σ ts = some τ) :
    tb.run (σ.over b) ts = some (τ.over b) := by
  induction ts generalizing σ with
  | nil => exact congrArg some (congrArg (·.over b) (Option.some.inj h))
  | cons t ts ih =>
    obtain ⟨ρ, hρ, hr⟩ := Option.bind_eq_some_iff.mp h
    rw [Tables.run, step_over tb b hρ, Option.bind_some]
    exact ih hr

def State.push (σ : State) (r : Regex) : State :=
  { σ with stack := .regex r :: σ.stack, repeated := false }

theorem step_beforeDollar {σ τ : State} {t : Token} (h : tb.step σ t = some τ) :
    tb.run σ t.beforeDollar = some (τ.push (tb.dollarPiece (leavesOpen [t]) τ.flags)) := by
  cases t with
  | openQuote cs =>
    cases h
    have hchars : tb.pushChars σ (cs ++ ['$']) =
        (tb.pushChars σ cs).push (.char (tb.literal '$'.toNat σ.flags)) := by
      simp only [Tables.pushChars, State.push, List.map_append, List.reverse_append]
      rfl
    exact congrArg some hchars
  | _ =>
    simp only [Token.beforeDollar, Tables.run, h, Option.bind_some]
    rfl

theorem run_withDollar {σ τ : State} {ts : List Token} (h : tb.run σ ts = some τ) :
    tb.run σ (withDollar ts) = some (τ.push (tb.dollarPiece (leavesOpen ts) τ.flags)) := by
  induction ts generalizing σ with
  | nil =>
    cases h
    rfl
  | cons t ts ih =>
    obtain ⟨ρ, hρ, hr⟩ := Option.bind_eq_some_iff.mp h
    cases ts with
    | nil =>
      cases hr
      exact step_beforeDollar tb hρ
    | cons u us =>
      rw [withDollar, Tables.run, hρ, Option.bind_some, ih hr]
      simp only [leavesOpen, List.getLast?_cons_cons]

theorem fits_of_parse {s : List Char} {p : Pattern} (h : tb.parse s = some p) : tb.fits s := by
  rw [Tables.parse] at h
  obtain ⟨_, hguard, -⟩ := Option.bind_eq_some_iff.mp h
  rw [guard] at hguard
  split at hguard
  · next hfits => exact hfits
  · cases hguard

theorem parse_eq_some {s : List Char} {p : Pattern} (h : tb.parse s = some p) :
    ∃ ts σ, tb.lex s = some ts ∧ tb.run ⟨{}, [], false⟩ ts = some σ ∧
      unwind .empty [] σ.stack = (p.alternatives, none) ∧
      p.openQuote = leavesOpen ts ∧ p.flags = σ.flags := by
  obtain ⟨-, -, h⟩ := Option.bind_eq_some_iff.mp h
  obtain ⟨ts, hts, h⟩ := Option.bind_eq_some_iff.mp h
  obtain ⟨σ, hσ, h⟩ := Option.bind_eq_some_iff.mp h
  split at h
  · next hu =>
    cases h
    exact ⟨ts, σ, hts, hσ, hu, rfl, rfl⟩
  · cases h

-- What the alternatives match.

theorem searchFrom_iff {front : Bool} {r : Regex} {text : List ℕ} :
    searchFrom front r text ↔
      ∃ i ≤ text.length, (front → i = 0) ∧ ∃ j, j ∈ ends text r i := by
  have hne (i : ℕ) : (!(ends text r i).isEmpty) = true ↔ ∃ j, j ∈ ends text r i := by
    rw [Bool.not_eq_true', List.isEmpty_eq_false_iff_exists_mem]
  simp only [searchFrom, List.any_eq_true, hne]
  cases front with
  | true =>
    constructor
    · intro ⟨i, hi, hj⟩
      have hi : i = 0 := List.mem_singleton.mp hi
      exact ⟨i, hi ▸ Nat.zero_le _, fun _ => hi, hj⟩
    · intro ⟨i, _, hi, hj⟩
      exact ⟨i, List.mem_singleton.mpr (hi rfl), hj⟩
  | false =>
    constructor
    · intro ⟨i, hi, hj⟩
      exact ⟨i, Nat.lt_succ_iff.mp (List.mem_range.mp hi), (nomatch ·), hj⟩
    · intro ⟨i, hi, _, hj⟩
      exact ⟨i, List.mem_range.mpr (Nat.lt_succ_of_le hi), hj⟩

theorem searchFrom_congr {front : Bool} {r t : Regex} {text : List ℕ}
    (h : ∀ i j, j ∈ ends text r i ↔ j ∈ ends text t i) :
    searchFrom front r text = searchFrom front t text := by
  rw [Bool.eq_iff_iff, searchFrom_iff, searchFrom_iff]
  simp only [h]

theorem searchFrom_alt (front : Bool) (r t : Regex) (text : List ℕ) :
    searchFrom front (.alt r t) text = (searchFrom front r text || searchFrom front t text) := by
  rw [Bool.eq_iff_iff, Bool.or_eq_true, searchFrom_iff, searchFrom_iff, searchFrom_iff]
  simp only [ends, List.mem_append]
  constructor
  · rintro ⟨i, hi, h0, j, hj | hj⟩
    · exact .inl ⟨i, hi, h0, j, hj⟩
    · exact .inr ⟨i, hi, h0, j, hj⟩
  · rintro (⟨i, hi, h0, j, hj⟩ | ⟨i, hi, h0, j, hj⟩)
    · exact ⟨i, hi, h0, j, .inl hj⟩
    · exact ⟨i, hi, h0, j, .inr hj⟩

attribute [local simp] ends

theorem mem_ends_cat {text : List ℕ} {r t : Regex} {i j : ℕ} :
    j ∈ ends text (.cat r t) i ↔ ∃ k ∈ ends text r i, j ∈ ends text t k := List.mem_flatMap

theorem search_beginText (r : Regex) (text : List ℕ) :
    search (.cat .beginText r) text = searchFrom true r text := by
  rw [Bool.eq_iff_iff, search, searchFrom_iff, searchFrom_iff]
  simp only [mem_ends_cat]
  constructor
  · intro ⟨i, hi, _, j, k, hk, hj⟩
    rw [ends] at hk
    split at hk
    · rw [List.mem_singleton] at hk
      exact ⟨i, hi, fun _ => ‹i = 0›, j, hk ▸ hj⟩
    · cases hk
  · intro ⟨i, hi, h0, j, hj⟩
    refine ⟨i, hi, (nomatch ·), j, i, ?_, hj⟩
    rw [ends, if_pos (h0 trivial)]
    exact List.mem_singleton_self i

/-- The second expression goes on from where the first one ends. -/
def GoesOn (text : List ℕ) (end' r r' : Regex) : Prop :=
  ∀ i j, j ∈ ends text r' i ↔ j ∈ ends text (.cat r end') i

theorem goesOn_empty (text : List ℕ) (end' : Regex) :
    GoesOn text end' .empty (.cat end' .empty) := by
  intro i j
  rw [mem_ends_cat, mem_ends_cat]
  simp only [ends, List.mem_singleton, exists_eq_left, exists_eq_right']

theorem GoesOn.cat {text : List ℕ} {end' r r' : Regex} (h : GoesOn text end' r r') (q : Regex) :
    GoesOn text end' (.cat q r) (.cat q r') := by
  intro i j
  simp only [mem_ends_cat, h _ j]
  constructor
  · intro ⟨k, hk, l, hl, hj⟩
    exact ⟨l, ⟨k, hk, hl⟩, hj⟩
  · intro ⟨l, ⟨k, hk, hl⟩, hj⟩
    exact ⟨k, hk, l, hl, hj⟩

theorem unwind_later (r : Regex) (later : List Regex) (st : List Item) :
    unwind r later st = ((unwind r [] st).1 ++ later, (unwind r [] st).2) := by
  induction st generalizing r later with
  | nil => rfl
  | cons i st ih =>
    cases i with
    | regex p => exact ih _ later
    | bar =>
      simp only [unwind]
      rw [ih .empty (r :: later), ih .empty [r], List.append_assoc]
      rfl
    | paren fl => rfl

/-- What is put on top goes to the end of the last alternative. -/
theorem unwind_goesOn {text : List ℕ} {end' r r' : Regex} (h : GoesOn text end' r r')
    (st : List Item) :
    ∃ rs t t', unwind r [] st = (rs ++ [t], (unwind r [] st).2) ∧
      unwind r' [] st = (rs ++ [t'], (unwind r [] st).2) ∧ GoesOn text end' t t' := by
  induction st generalizing r r' with
  | nil => exact ⟨[], r, r', rfl, rfl, h⟩
  | cons i st ih =>
    cases i with
    | regex p => exact ih (h.cat p)
    | bar =>
      refine ⟨(unwind .empty [] st).1, r, r', ?_, ?_, h⟩
      · simp only [unwind]
        rw [unwind_later .empty [r]]
      · simp only [unwind]
        rw [unwind_later .empty [r'], unwind_later .empty [r]]
    | paren fl => exact ⟨[], r, r', rfl, rfl, h⟩

/-- What is put at the bottom goes to the front of the first alternative. -/
theorem unwind_bottom {r t : Regex} {later rs : List Regex} {st : List Item} (b : Regex)
    (h : unwind r later st = (t :: rs, none)) :
    unwind r later (st ++ [.regex b]) = (.cat b t :: rs, none) := by
  induction st generalizing r later with
  | nil =>
    cases h
    rfl
  | cons i st ih =>
    cases i with
    | regex p => exact ih h
    | bar => exact ih h
    | paren fl => cases h

theorem alternation_cons_append (r t : Regex) (rs : List Regex) :
    alternation (r :: (rs ++ [t])) = .alt r (alternation (rs ++ [t])) := by
  cases rs <;> rfl

theorem reaches_cons_append (text : List ℕ) (end' r t : Regex) (front : Bool) (rs : List Regex) :
    reaches text end' front (r :: (rs ++ [t])) =
      (searchFrom front r text || reaches text end' false (rs ++ [t])) := by
  cases rs <;> rfl

theorem search_alternation {text : List ℕ} {end' t t' : Regex} (h : GoesOn text end' t t')
    (rs : List Regex) :
    search (alternation (rs ++ [t'])) text = reaches text end' false (rs ++ [t]) := by
  induction rs with
  | nil => exact searchFrom_congr h
  | cons r rs ih =>
    rw [List.cons_append, List.cons_append, alternation_cons_append, reaches_cons_append, ← ih, search,
      searchFrom_alt]
    rfl

theorem search_unwind {st : List Item} {rs : List Regex} (h : unwind .empty [] st = (rs, none))
    (text : List ℕ) (end' : Regex) :
    ∃ rs', unwind .empty [] (.regex end' :: (st ++ [.regex .beginText])) = (rs', none) ∧
      search (alternation rs') text = reaches text end' true rs := by
  obtain ⟨us, t, t', hu, hu', hgo⟩ := unwind_goesOn (goesOn_empty text end') st
  rw [h] at hu hu'
  have hrs : rs = us ++ [t] := congrArg Prod.fst hu
  cases us with
  | nil =>
    refine ⟨_, unwind_bottom .beginText hu', ?_⟩
    rw [hrs]
    exact (search_beginText t' text).trans (searchFrom_congr hgo)
  | cons u us =>
    rw [List.cons_append] at hu' hrs
    refine ⟨_, unwind_bottom .beginText hu', ?_⟩
    rw [hrs, alternation_cons_append, reaches_cons_append, ← search_alternation hgo, search,
      searchFrom_alt, ← search_beginText]
    rfl

/-- A pattern that compiles on its own compiles between a caret and a dollar sign, unless that makes
it too large. -/
theorem parse_anchored {s : List Char} {p : Pattern} (h : tb.parse s = some p)
    (hfits : tb.fits ('^' :: (s ++ ['$']))) (text : List ℕ) :
    ∃ q, tb.parse ('^' :: (s ++ ['$'])) = some q ∧ search q.regex text = tb.reaches p text := by
  obtain ⟨ts, σ, hlex, hrun, hu, hopen, hfl⟩ := parse_eq_some tb h
  obtain ⟨rs, hrs, hsearch⟩ := search_unwind hu text (tb.dollarPiece p.openQuote p.flags)
  have hrun' : tb.run ⟨{}, [], false⟩ (.piece caret :: withDollar ts) =
      some ((σ.over (.regex .beginText)).push (tb.dollarPiece (leavesOpen ts) σ.flags)) :=
    run_withDollar tb (run_over tb (.regex .beginText) hrun)
  rw [hopen, hfl] at hrs
  refine ⟨⟨rs, leavesOpen (.piece caret :: withDollar ts), σ.flags⟩, ?_, hsearch⟩
  simp only [Tables.parse, hfits, lex_anchored tb hlex, guard, if_true, Option.pure_def,
    Option.bind_eq_bind, Option.bind_some, hrun']
  simp only [State.push, State.over, hrs]

theorem whole_iff {r : Regex} {text : List ℕ} : whole r text ↔ text.length ∈ ends text r 0 :=
  decide_eq_true_iff

theorem mem_ends_dollar {text : List ℕ} (hline : 10 ∉ text) (fl : Flags) {i j : ℕ} :
    j ∈ ends text (dollar fl) i ↔ i = text.length ∧ j = i := by
  have hend : text[i]? ≠ some 10 := fun h => hline (List.mem_of_getElem? h)
  have hsingle (c : Prop) [Decidable c] : j ∈ (if c then [i] else []) ↔ c ∧ j = i := by
    split <;> simp [*]
  rw [dollar]
  split
  · rw [ends, hsingle, or_iff_left hend]
  · rw [ends, hsingle]

theorem searchFrom_dollar {text : List ℕ} (hline : 10 ∉ text) (fl : Flags) (r : Regex) :
    searchFrom true (.cat r (dollar fl)) text = whole r text := by
  rw [Bool.eq_iff_iff, searchFrom_iff, whole_iff]
  simp only [mem_ends_cat, mem_ends_dollar hline]
  constructor
  · intro ⟨i, _, hi, j, k, hk, hlen, _⟩
    rw [← hlen, ← hi trivial]
    exact hk
  · intro h
    exact ⟨0, Nat.zero_le _, fun _ => rfl, _, _, h, rfl, rfl⟩

/-- A pattern with no bar at the top level and no quotation left open is anchored as a whole. -/
def Pattern.closed (p : Pattern) : Bool := p.alternatives.length = 1 && !p.openQuote

theorem reaches_closed {p : Pattern} (hp : p.closed) {text : List ℕ} (hline : 10 ∉ text) :
    tb.reaches p text = whole p.regex text := by
  obtain ⟨rs, openQuote, fl⟩ := p
  obtain ⟨hlen, hopen⟩ := Bool.and_eq_true_iff.mp hp
  obtain ⟨r, hr⟩ := List.length_eq_one_iff.mp (of_decide_eq_true hlen)
  have hsingle : rs = [r] := hr
  have hquote : openQuote = false := (Bool.not_eq_true' _).mp hopen
  subst hsingle hquote
  exact searchFrom_dollar hline fl r

end Regexp
