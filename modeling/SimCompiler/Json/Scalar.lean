import SimCompiler.Json.Cursor

/-!
# Reading strings and numbers

Strings and numbers of the strict grammar: all escapes are checked, surrogates come in pairs, and a
number has no leading zero. A whole number in the range of 64 bits is read as such; every other
number is a double. As many of its digits as fit into 64 bits are made a double, which is then
multiplied or divided by a power of ten. Each of these steps rounds, so the result is not always
the double nearest to the number.
-/
namespace SimCompiler.Json

def hexDigit? (c : Char) : Option Nat :=
  if '0' ≤ c && c ≤ '9' then some (c.toNat - '0'.toNat)
  else if 'a' ≤ c && c ≤ 'f' then some (c.toNat - 'a'.toNat + 10)
  else if 'A' ≤ c && c ≤ 'F' then some (c.toNat - 'A'.toNat + 10)
  else none

/-- The value of four hexadecimal digits. -/
def hexValue? (a b c d : Char) : Option Nat := do
  return ((← hexDigit? a) * 16 + (← hexDigit? b)) * 256 + (← hexDigit? c) * 16 + (← hexDigit? d)

/-- What a character after a backslash stands for, `u` apart. -/
def simpleEscape? : Char → Option Char
  | '"' => some '"'
  | '\\' => some '\\'
  | '/' => some '/'
  | 'b' => some '\x08'
  | 'f' => some '\x0c'
  | 'n' => some '\n'
  | 'r' => some '\r'
  | 't' => some '\t'
  | _ => none

namespace Reader

/-- The four digits of an escape, which are the next four bytes. -/
def hexEscape : Reader Nat := do
  let c ← get
  let byteCount := (c.rest.take 4).foldl (fun n x => n + x.utf8Size) 0
  if byteCount < 4 then throw ⟨.unfinished .string, some (c.offset + byteCount)⟩
  match c.rest with
  | x :: y :: z :: w :: rest =>
    match hexValue? x y z w with
    | some n =>
      set { c with rest, offset := c.offset + 4 }
      return n
    | none => throw ⟨.grammar .invalidEscape, some (c.offset + 4)⟩
  | _ => throw ⟨.grammar .invalidEscape, some (c.offset + 4)⟩

/-- The next character has to be `x`, inside a pair of surrogates. -/
def pairLetter (x : Char) : Reader Unit := do
  match ← peek with
  | none => failAfter (.unfinished .string)
  | some y => if x == y then skip else failAt (.grammar .brokenSurrogatePair)

/-- The character that a `u` escape stands for; characters beyond sixteen bits take a pair. -/
def unicodeEscape : Reader Char := do
  let high ← hexEscape
  if 0xDC00 ≤ high && high ≤ 0xDFFF then failAfter (.grammar .loneSurrogate)
  else if high < 0xD800 || 0xDBFF < high then return Char.ofNat high
  else
    pairLetter '\\'
    pairLetter 'u'
    let low ← hexEscape
    if low < 0xDC00 || 0xDFFF < low then failAfter (.grammar .loneSurrogate)
    else return Char.ofNat ((high - 0xD800) * 0x400 + (low - 0xDC00) + 0x10000)

/-- The character that an escape stands for, after its backslash. -/
def escape : Reader Char := do
  match ← peek with
  | none => failAfter (.unfinished .string)
  | some 'u' =>
    skip
    unicodeEscape
  | some x =>
    match simpleEscape? x with
    | some y =>
      skip
      return y
    | none => failAt (.grammar .invalidEscape)

/-- The rest of a string, after its opening quote. What was read so far is in `done`, last
character first. -/
def stringTail : (rounds : Nat) → (done : List Char) → Reader String
  | 0, _ => failAfter (.unfinished .string)
  | rounds + 1, done => do
    match ← peek with
    | none => failAfter (.unfinished .string)
    | some '"' =>
      skip
      return String.ofList done.reverse
    | some '\\' =>
      skip
      let x ← escape
      stringTail rounds (x :: done)
    | some x =>
      if x.toNat < 0x20 then failAt (.grammar .controlCharacter)
      else
        skip
        stringTail rounds (x :: done)

/-- A string, at its opening quote. -/
def string : Reader String := do
  skip
  stringTail (← rounds) []

/-- Reads as many digits as there are. -/
def digits : Reader (List Char) := do
  let c ← get
  let ds := c.rest.takeWhile Char.isDigit
  set { c with rest := c.rest.dropWhile Char.isDigit, offset := c.offset + ds.length }
  return ds

end Reader

def digitsValue (ds : List Char) : Nat := ds.foldl (fun n d => n * 10 + (d.toNat - '0'.toNat)) 0

/-- A number as the document has it. -/
inductive Number where
  | unsigned (value : Nat)
  | negative (value : Int)
  | float (value : Float)
deriving Repr

def Number.toFloat : Number → Float
  | .unsigned n => Float.ofNat n
  | .negative n => -Float.ofNat n.natAbs
  | .float x => x

/-- Appends digits to a number as long as it stays within 64 bits. Answers also how many digits are
left over. -/
def appendDigits (significand : Nat) : List Char → Nat × Nat
  | [] => (significand, 0)
  | d :: ds =>
    let longer := significand * 10 + (d.toNat - '0'.toNat)
    if longer < Nat.pow 2 64 then appendDigits longer ds else (significand, ds.length + 1)

/-- The largest power of ten that is a double. -/
def maxPower : Nat := 308

/-- A double times a power of ten, if it is in the range of doubles. -/
def scaleByTen? (x : Float) (exponent : Int) : Option Float :=
  if exponent.natAbs ≤ maxPower then
    let power := Float.ofScientific 1 false exponent.natAbs
    if exponent < 0 then some (x / power)
    else if (x * power).isInf then none
    else some (x * power)
  else if x == 0.0 then some x
  else if 0 ≤ exponent then none
  else scaleByTen? (x / Float.ofScientific 1 false maxPower) (exponent + maxPower)
termination_by exponent.natAbs
decreasing_by
  simp only [maxPower] at *
  omega

namespace Reader

/-- The largest exponent that is worked out. -/
def maxExponent : Nat := Nat.pow 2 31 - 1

/-- How many of the digits it takes to exceed the largest exponent, if they do. -/
def exponentOverflow? : (taken value : Nat) → List Char → Option Nat
  | _, _, [] => none
  | taken, value, d :: ds =>
    let value := value * 10 + (d.toNat - '0'.toNat)
    if maxExponent < value then some (taken + 1) else exponentOverflow? (taken + 1) value ds

/-- A double that must be finite. -/
def finite (isNegative : Bool) (significand : Nat) (exponent : Int) : Reader Number := do
  match scaleByTen? (Float.ofNat significand) exponent with
  | some x => return .float (if isNegative then -x else x)
  | none => failAfter (.grammar .numberOutOfRange)

/-- The exponent of a number, at its letter, when the digits before it say `significand` times ten
to the power `shift`. -/
def exponentPart (isNegative : Bool) (significand : Nat) (shift : Int) : Reader Number := do
  skip
  let sign ← peek
  if sign == some '+' || sign == some '-' then skip
  match ← peek with
  | none => failAfter (.unfinished .value)
  | some d =>
    if !d.isDigit then failAt (.grammar .invalidNumber)
    else
      let start := (← get).offset
      let ds ← digits
      match exponentOverflow? 0 0 ds with
      | some taken =>
        if significand ≠ 0 && sign ≠ some '-' then
          throw ⟨.grammar .numberOutOfRange, some (start + taken)⟩
        else return .float (if isNegative then -0.0 else 0.0)
      | none =>
        let e : Int := digitsValue ds
        finite isNegative significand (if sign == some '-' then shift - e else shift + e)

/-- The part after the point of a number, at the point. -/
def fractionPart (isNegative : Bool) (whole : List Char) : Reader Number := do
  skip
  let ds ← digits
  if ds.isEmpty then
    match ← peek with
    | some _ => failAt (.grammar .invalidNumber)
    | none => failAt (.unfinished .value)
  else
    let (significand, left) := appendDigits 0 whole
    let (significand, left') := appendDigits significand ds
    let shift : Int := left - (ds.length - left')
    match ← peek with
    | some 'e' | some 'E' => exponentPart isNegative significand shift
    | _ => finite isNegative significand shift

/-- A whole number; one that needs more than 64 bits is a double, and so is minus zero. -/
def wholeNumber (isNegative : Bool) (ds : List Char) : Reader Number :=
  let n := digitsValue ds
  if !isNegative && n < Nat.pow 2 64 then pure (.unsigned n)
  else if isNegative && 0 < n && n ≤ Nat.pow 2 63 then pure (.negative (-n))
  else
    let (significand, left) := appendDigits 0 ds
    finite isNegative significand left

/-- The digits of a number and what belongs to it after them. -/
def wholePart (isNegative : Bool) : Reader Number := do
  let ds ← digits
  match ← peek with
  | some '.' => fractionPart isNegative ds
  | some 'e' | some 'E' =>
    let (significand, left) := appendDigits 0 ds
    exponentPart isNegative significand left
  | _ => wholeNumber isNegative ds

/-- A number without its sign. -/
def magnitude (isNegative : Bool) : Reader Number := do
  match ← peek with
  | none => failAfter (.unfinished .value)
  | some d =>
    if !d.isDigit then failAt (.grammar .invalidNumber)
    else if d == '0' && (← get).rest.tail.head?.any Char.isDigit then
      skip
      failAt (.grammar .invalidNumber)
    else wholePart isNegative

/-- A number, at its first character. -/
def number : Reader Number := do
  if (← peek) == some '-' then
    skip
    magnitude true
  else magnitude false

/-- Reads a value that is not of the expected kind as far as needed to name it. -/
def unexpected (expected : String) : Reader α := placed do
  match ← peek with
  | some 'n' =>
    letters "null".toList
    failSomewhere (.kind .null expected)
  | some 't' =>
    letters "true".toList
    failSomewhere (.kind (.bool true) expected)
  | some 'f' =>
    letters "false".toList
    failSomewhere (.kind (.bool false) expected)
  | some '"' =>
    let s ← string
    failSomewhere (.kind (.str s) expected)
  | some '[' => failSomewhere (.kind .list expected)
  | some '\x7b' => failSomewhere (.kind .object expected)
  | some x =>
    if x == '-' || x.isDigit then
      match ← number with
      | .unsigned n => failSomewhere (.kind (.int n) expected)
      | .negative n => failSomewhere (.kind (.int n) expected)
      | .float y => failSomewhere (.kind (.float y) expected)
    else failAt (.grammar .expectedValue)
  | none => failAt (.grammar .expectedValue)

end Reader

/-- The kinds of plain value. -/
inductive Scalar where
  | text
  | truth
  | u32
  | i64
  | f64
deriving DecidableEq, Repr

/-- How a plain value is named in messages. -/
def Scalar.describe : Scalar → String
  | .text => "a string"
  | .truth => "a boolean"
  | .u32 => "u32"
  | .i64 => "i64"
  | .f64 => "f64"

/-- A number as a value of the expected kind. -/
def Scalar.ofNumber (s : Scalar) : Number → Except Mismatch Json
  | .float x =>
    if s = .f64 then .ok (.float x) else .error (.kind (.float x) s.describe)
  | .unsigned n =>
    match s with
    | .f64 => .ok (.float (Number.unsigned n).toFloat)
    | .i64 => if n < Nat.pow 2 63 then .ok (.int n) else .error (.range n s.describe)
    | _ => if n < Nat.pow 2 32 then .ok (.int n) else .error (.range n s.describe)
  | .negative n =>
    match s with
    | .f64 => .ok (.float (Number.negative n).toFloat)
    | .i64 => .ok (.int n)
    | _ => .error (.range n s.describe)

namespace Reader

/-- A plain value of the expected kind. -/
def scalar (s : Scalar) : Reader Json := placed do
  match s, ← peekToken with
  | _, none => failAt (.unfinished .value)
  | .text, some '"' => return .str (← string)
  | .truth, some 't' =>
    letters "true".toList
    return .bool true
  | .truth, some 'f' =>
    letters "false".toList
    return .bool false
  | .text, some _ | .truth, some _ => unexpected s.describe
  | s, some x =>
    if x == '-' || x.isDigit then
      match s.ofNumber (← number) with
      | .ok j => return j
      | .error m => failSomewhere m
    else unexpected s.describe

end Reader

end SimCompiler.Json
