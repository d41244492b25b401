import SimCompiler.Json.Problem

/-!
# Reading a document from front to back

A reader moves a cursor over the text and stops at the first problem. Places are counted in bytes.
A problem is placed at the byte that comes next, or after what has been read. One that is noticed
only when a whole value has been read starts without a place and is given one by the reader of the
value around it.
-/
namespace SimCompiler.Json

structure Cursor where
  rest : List Char
  /-- How many bytes have been read. -/
  offset : Nat
  /-- No fewer characters than are left to read. -/
  bound : Nat
deriving DecidableEq, Repr

/-- The start of a text. -/
def Cursor.ofString (text : String) : Cursor := ⟨text.toList, 0, text.length⟩

structure ReadError where
  problem : Problem
  offset : Option Nat
deriving Repr

abbrev Reader := EStateM ReadError Cursor

namespace Reader

/-- Fails at the byte that comes next. -/
def failAt (p : Problem) : Reader α := do
  let c ← get
  throw ⟨p, some (if c.rest.isEmpty then c.offset else c.offset + 1)⟩

/-- Fails after what has been read. -/
def failAfter (p : Problem) : Reader α := do throw ⟨p, some (← get).offset⟩

/-- Fails without a place. -/
def failSomewhere (m : Mismatch) : Reader α := throw ⟨.mismatch m, none⟩

/-- A problem of `x` without a place is placed after what has been read. -/
def placed (x : Reader α) : Reader α := fun c =>
  match x c with
  | .ok a c' => .ok a c'
  | .error e c' => .error { e with offset := some (e.offset.getD c'.offset) } c'

/-- Reads what stands between brackets and then the closing bracket. If the inside fails, the
closing bracket is still taken where it comes next, which moves the place of a problem that has
none. -/
def enclosed (inside : Reader α) (closing : Reader Unit) : Reader α := fun c =>
  match inside c with
  | .ok a c' =>
    match closing c' with
    | .ok () c'' => .ok a c''
    | .error e c'' => .error e c''
  | .error e c' =>
    match closing c' with
    | .ok () c'' => .error e c''
    | .error _ c'' => .error e c''

def peek : Reader (Option Char) := do return (← get).rest.head?

/-- Moves over the next character. -/
def skip : Reader Unit := modify fun c =>
  match c.rest with
  | [] => c
  | x :: rest => { c with rest, offset := c.offset + x.utf8Size }

/-- Blanks are all of one byte. -/
def isBlank (c : Char) : Bool := c == ' ' || c == '\n' || c == '\t' || c == '\r'

/-- Moves over blanks and answers the character after them. -/
def peekToken : Reader (Option Char) := do
  modify fun c => { c with
    rest := c.rest.dropWhile isBlank
    offset := c.offset + (c.rest.takeWhile isBlank).length }
  peek

/-- How many rounds a loop may take that moves the cursor in every round. -/
def rounds : Reader Nat := do return (← get).bound + 1

/-- Reads exactly the given letters. -/
def letters : List Char → Reader Unit
  | [] => pure ()
  | x :: xs => do
    match ← peek with
    | none => failAfter (.unfinished .value)
    | some y =>
      if x == y then
        skip
        letters xs
      else failAt (.grammar .expectedWord)

/-- The colon between a key and its value. -/
def colon : Reader Unit := do
  match ← peekToken with
  | some ':' => skip
  | some _ => failAt (.grammar .expectedColon)
  | none => failAt (.unfinished .object)

/-- Moves to the next element of a list, over the comma in front of it. Answers `false` at the
closing bracket. -/
def nextElement (first : Bool) : Reader Bool := do
  match ← peekToken with
  | some ']' => return false
  | some x =>
    if first then return true
    else if x == ',' then
      skip
      match ← peekToken with
      | some ']' => failAt (.grammar .trailingComma)
      | some _ => return true
      | none => failAt (.unfinished .value)
    else failAt (.grammar .expectedCommaOrBracket)
  | none => failAt (.unfinished .list)

/-- Moves to the key of the next field, over the comma in front of it. Answers `false` at the
closing brace. -/
def nextKey (first : Bool) : Reader Bool := do
  match ← peekToken with
  | some '\x7d' => return false
  | some x =>
    if first then
      if x == '"' then return true else failAt (.grammar .keyNotString)
    else if x == ',' then
      skip
      match ← peekToken with
      | some '"' => return true
      | some '\x7d' => failAt (.grammar .trailingComma)
      | some _ => failAt (.grammar .keyNotString)
      | none => failAt (.unfinished .value)
    else failAt (.grammar .expectedCommaOrBrace)
  | none => failAt (.unfinished .object)

/-- The bracket that ends a list all of whose expected elements have been read. -/
def closeList : Reader Unit := do
  match ← peekToken with
  | some ']' => skip
  | some ',' =>
    skip
    match ← peekToken with
    | some ']' => failAt (.grammar .trailingComma)
    | _ => failAt (.grammar .trailingCharacters)
  | some _ => failAt (.grammar .trailingCharacters)
  | none => failAt (.unfinished .list)

/-- The brace that ends an object all of whose fields have been read. -/
def closeObject : Reader Unit := do
  match ← peekToken with
  | some '\x7d' => skip
  | some ',' => failAt (.grammar .trailingComma)
  | some _ => failAt (.grammar .trailingCharacters)
  | none => failAt (.unfinished .object)

/-- Only blanks may follow a document. -/
def finish : Reader Unit := do
  match ← peekToken with
  | some _ => failAt (.grammar .trailingCharacters)
  | none => return

end Reader

end SimCompiler.Json
