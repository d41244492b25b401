import SimCompiler.Json.Scalar

/-!
# Skipping a value

A value that nobody asked for is skipped: any JSON, nested to any depth. Its grammar is checked, but
neither the range of its numbers nor the pairing of its surrogates.
-/
namespace SimCompiler.Json

inductive Bracket where
  | list
  | object
deriving DecidableEq, Repr

namespace Bracket

def closing : Bracket → Char
  | .list => ']'
  | .object => '\x7d'

def unfinished : Bracket → Unfinished
  | .list => .list
  | .object => .object

/-- What is wrong if neither a comma nor the closing bracket follows an element. -/
def expected : Bracket → GrammarFault
  | .list => .expectedCommaOrBracket
  | .object => .expectedCommaOrBrace

end Bracket

namespace Reader

def skipEscape : Reader Unit := do
  match ← peek with
  | none => failAfter (.unfinished .string)
  | some 'u' =>
    skip
    let _ ← hexEscape
  | some x => if (simpleEscape? x).isSome then skip else failAt (.grammar .invalidEscape)

/-- The rest of a string, after its opening quote. -/
def skipStringTail : (rounds : Nat) → Reader Unit
  | 0 => failAfter (.unfinished .string)
  | rounds + 1 => do
    match ← peek with
    | none => failAfter (.unfinished .string)
    | some '"' => skip
    | some '\\' =>
      skip
      skipEscape
      skipStringTail rounds
    | some x =>
      if x.toNat < 0x20 then failAfter (.grammar .controlCharacter)
      else
        skip
        skipStringTail rounds

/-- A string, at its opening quote. -/
def skipString : Reader Unit := do
  skip
  skipStringTail (← rounds)

def skipExponent : Reader Unit := do
  skip
  let sign ← peek
  if sign == some '+' || sign == some '-' then skip
  if (← digits).isEmpty then failAt (.grammar .invalidNumber)

def skipFraction : Reader Unit := do
  skip
  if (← digits).isEmpty then failAt (.grammar .invalidNumber)
  match ← peek with
  | some 'e' | some 'E' => skipExponent
  | _ => return

/-- A number, at its first character. -/
def skipNumber : Reader Unit := do
  if (← peek) == some '-' then skip
  if (← peek) == some '0' then
    skip
    if (← peek).any Char.isDigit then failAt (.grammar .invalidNumber)
  else if (← digits).isEmpty then failAt (.grammar .invalidNumber)
  match ← peek with
  | some '.' => skipFraction
  | some 'e' | some 'E' => skipExponent
  | _ => return

/-- The key of a field and its colon. -/
def skipKey : Reader Unit := do
  match ← peekToken with
  | some '"' => skipString
  | some _ => failAt (.grammar .keyNotString)
  | none => failAt (.unfinished .object)
  colon

/-- What comes next when a value is skipped. -/
inductive SkipState where
  | value
  /-- The first element, or the closing bracket. -/
  | opened
  /-- A comma and an element, or the closing bracket. -/
  | after
deriving DecidableEq, Repr

/-- Skips what is left of a value inside the given brackets, innermost first. -/
def skipFrom : (rounds : Nat) → SkipState → List Bracket → Reader Unit
  | 0, _, _ => failAt (.grammar .expectedValue)
  | rounds + 1, .value, stack => do
    match ← peekToken with
    | none => failAt (.unfinished .value)
    | some 'n' =>
      letters "null".toList
      skipFrom rounds .after stack
    | some 't' =>
      letters "true".toList
      skipFrom rounds .after stack
    | some 'f' =>
      letters "false".toList
      skipFrom rounds .after stack
    | some '"' =>
      skipString
      skipFrom rounds .after stack
    | some '[' =>
      skip
      skipFrom rounds .opened (.list :: stack)
    | some '\x7b' =>
      skip
      skipFrom rounds .opened (.object :: stack)
    | some x =>
      if x == '-' || x.isDigit then
        skipNumber
        skipFrom rounds .after stack
      else failAt (.grammar .expectedValue)
  | _ + 1, _, [] => pure ()
  | rounds + 1, state, bracket :: stack => do
    match ← peekToken with
    | none => failAt (.unfinished bracket.unfinished)
    | some x =>
      if x == bracket.closing then
        skip
        skipFrom rounds .after stack
      else
        if state = .after then
          if x == ',' then skip else failAt (.grammar bracket.expected)
        if bracket = .object then skipKey
        skipFrom rounds .value (bracket :: stack)

/-- Skips one value. Of any two rounds at least one moves the cursor. -/
def skipValue : Reader Unit := do skipFrom (2 * (← rounds)) .value []

end Reader

end SimCompiler.Json
