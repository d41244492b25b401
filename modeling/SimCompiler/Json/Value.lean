import SimCompiler.Decimal.Notation

/-!
# JSON values and their text

Object fields keep their order. There are two ways to write a value: compact, without any blanks,
and pretty, with every element and field on a line of its own.
-/
namespace SimCompiler

inductive Json where
  | null
  | bool (value : Bool)
  | int (value : Int)
  | float (value : Float)
  | str (value : String)
  | arr (elements : List Json)
  | obj (fields : List (String × Json))
deriving Repr, Inhabited

namespace Json

def ofOption (f : α → Json) : Option α → Json
  | some a => f a
  | none => null

def ofList (f : α → Json) (l : List α) : Json := arr (l.map f)

/-- Doubles from `1e-5` up to `1e16` are written out. -/
def floatFormat : Decimal.Format where
  plainFrom := -5
  plainTo := 15
  plusSign := true
  tie := .toEven
  nan := "null"
  infinity := "null"

/-- Quotes, backslashes and control characters are escaped, and nothing else. -/
def escapeChar (c : Char) : List Char :=
  match c with
  | '"' => ['\\', '"']
  | '\\' => ['\\', '\\']
  | '\n' => ['\\', 'n']
  | '\r' => ['\\', 'r']
  | '\t' => ['\\', 't']
  | '\x08' => ['\\', 'b']
  | '\x0c' => ['\\', 'f']
  | c =>
    if c.toNat < 0x20 then
      ['\\', 'u', '0', '0', Nat.digitChar (c.toNat / 16), Nat.digitChar (c.toNat % 16)]
    else [c]

def quote (s : String) : String :=
  "\"" ++ String.ofList (s.toList.flatMap escapeChar) ++ "\""

def boolText (b : Bool) : String := if b then "true" else "false"

mutual

/-- The text without any blanks. -/
def compact : Json → String
  | null => "null"
  | bool b => boolText b
  | int n => toString n
  | float x => floatFormat.render x
  | str s => quote s
  | arr xs => "[" ++ ",".intercalate (compactAll xs) ++ "]"
  | obj fields => "\x7b" ++ ",".intercalate (compactFields fields) ++ "\x7d"

def compactAll : List Json → List String
  | [] => []
  | j :: js => j.compact :: compactAll js

def compactFields : List (String × Json) → List String
  | [] => []
  | (key, j) :: fields => (quote key ++ ":" ++ j.compact) :: compactFields fields

end

/-- Puts parts between two brackets, each on its own line and two blanks further in than the
brackets, which stand `indent` blanks in. -/
def bracketed (indent : Nat) (opening closing : String) (parts : List String) : String :=
  if parts.isEmpty then opening ++ closing
  else
    let line := "\n".pushn ' ' (indent + 2)
    opening ++ line ++ ("," ++ line).intercalate parts ++ "\n".pushn ' ' indent ++ closing

mutual

/-- The text with a line for each element and field, `indent` blanks in. -/
def prettyAt (indent : Nat) : Json → String
  | null => "null"
  | bool b => boolText b
  | int n => toString n
  | float x => floatFormat.render x
  | str s => quote s
  | arr xs => bracketed indent "[" "]" (prettyAll (indent + 2) xs)
  | obj fields => bracketed indent "\x7b" "\x7d" (prettyFields (indent + 2) fields)

def prettyAll (indent : Nat) : List Json → List String
  | [] => []
  | j :: js => j.prettyAt indent :: prettyAll indent js

def prettyFields (indent : Nat) : List (String × Json) → List String
  | [] => []
  | (key, j) :: fields => (quote key ++ ": " ++ j.prettyAt indent) :: prettyFields indent fields

end

def pretty (j : Json) : String := j.prettyAt 0

end Json

end SimCompiler
