import ArchGuard.GoText
import Mathlib.Data.List.Sort

/-! JSON values and their text as Go's encoder writes it with HTML escaping off: keys
sorted, no white space. -/
namespace GoJson
open GoText

inductive Json
  | str (s : GoString)
  | int (n : ℤ)
  | arr (items : List Json)
  | obj (fields : List (String × Json))

def hex4 (n : ℕ) : List Char :=
  [n/4096%16, n/256%16, n/16%16, n%16].map fun d => "0123456789abcdef".toList.getD d '0'

def escape (c : Char) : List Char :=
  if c = '"' then ['\\', '"']
  else if c = '\\' then ['\\', '\\']
  else if c = '\n' then ['\\', 'n']
  else if c = '\r' then ['\\', 'r']
  else if c = '\t' then ['\\', 't']
  else if c.toNat = 0x08 then ['\\', 'b']
  else if c.toNat = 0x0c then ['\\', 'f']
  else if c.toNat < 0x20 ∨ c.toNat = 0x2028 ∨ c.toNat = 0x2029 then '\\' :: 'u' :: hex4 c.toNat
  else [c]

def quote (s : String) : String := "\"" ++ String.ofList (s.toList.flatMap escape) ++ "\""

/-- A rune of a value: a malformed byte is written as the escape of U+FFFD. -/
def escapeRune : Rune → List Char
  | .char c => escape c
  | .malformed => ['\\', 'u', 'f', 'f', 'f', 'd']

def quoteString (s : GoString) : String :=
  "\"" ++ String.ofList ((runes s).flatMap escapeRune) ++ "\""

mutual

def Json.render : Json → String
  | .str s => quoteString s
  | .int n => toString n
  | .arr items => "[" ++ ",".intercalate (renderItems items) ++ "]"
  | .obj fields =>
    let sorted := (renderFields fields).insertionSort fun a b => a.1 ≤ b.1
    "\x7b" ++ ",".intercalate (sorted.map fun f => quote f.1 ++ ":" ++ f.2) ++ "\x7d"

def renderItems : List Json → List String
  | [] => []
  | item :: items => item.render :: renderItems items

def renderFields : List (String × Json) → List (String × String)
  | [] => []
  | (key, value) :: fields => (key, value.render) :: renderFields fields

end

example : (Json.obj [("b", .arr [.int (-7), .str (utf8 "x\ty" ++ [0xff])]), ("a", .obj [])]).render =
    "\x7b\"a\":\x7b\x7d,\"b\":[-7,\"x\\ty\\ufffd\"]\x7d" := by
  decide +kernel

end GoJson
