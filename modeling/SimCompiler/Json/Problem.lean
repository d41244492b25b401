import SimCompiler.Json.Value
import SimCompiler.Text.Unprintable

/-!
# What can be wrong with a document

A document can break the grammar of JSON, it can end too early, or it can be good JSON that is not
of the expected form.
-/
namespace SimCompiler.Json

/-- Ways to break the grammar of JSON. -/
inductive GrammarFault where
  | expectedValue
  | expectedWord
  | expectedColon
  | expectedCommaOrBrace
  | expectedCommaOrBracket
  | keyNotString
  | trailingComma
  | trailingCharacters
  | nestedTooDeep
  | invalidNumber
  | numberOutOfRange
  | invalidEscape
  | controlCharacter
  | loneSurrogate
  | brokenSurrogatePair
deriving DecidableEq, Repr

def GrammarFault.message : GrammarFault → String
  | .expectedValue => "expected value"
  | .expectedWord => "expected ident"
  | .expectedColon => "expected `:`"
  | .expectedCommaOrBrace => "expected `,` or `\x7d`"
  | .expectedCommaOrBracket => "expected `,` or `]`"
  | .keyNotString => "key must be a string"
  | .trailingComma => "trailing comma"
  | .trailingCharacters => "trailing characters"
  | .nestedTooDeep => "recursion limit exceeded"
  | .invalidNumber => "invalid number"
  | .numberOutOfRange => "number out of range"
  | .invalidEscape => "invalid escape"
  | .controlCharacter => "control character (\\u0000-\\u001F) found while parsing a string"
  | .loneSurrogate => "lone leading surrogate in hex escape"
  | .brokenSurrogatePair => "unexpected end of hex escape"

/-- What the document was in the middle of when it ended. -/
inductive Unfinished where
  | value
  | string
  | object
  | list
deriving DecidableEq, Repr

def Unfinished.message : Unfinished → String
  | .value => "EOF while parsing a value"
  | .string => "EOF while parsing a string"
  | .object => "EOF while parsing an object"
  | .list => "EOF while parsing a list"

/-- A value as it is named when another kind of value was expected. -/
inductive Found where
  | null
  | bool (value : Bool)
  | int (value : Int)
  | float (value : Float)
  | str (value : String)
  | list
  | object
  /-- The bare name of a kind of node, where a node of that kind was expected. -/
  | bareVariant
deriving Repr

/-- A character inside a quoted text of a message, which shows every character. -/
def messageChar (c : Char) : List Char :=
  match c with
  | '"' => ['\\', '"']
  | '\\' => ['\\', '\\']
  | '\n' => ['\\', 'n']
  | '\r' => ['\\', 'r']
  | '\t' => ['\\', 't']
  | '\x00' => ['\\', '0']
  | c =>
    if Text.isUnprintable c then
      ['\\', 'u', '\x7b'] ++ Nat.toDigits 16 c.toNat ++ ['\x7d']
    else [c]

def Found.describe : Found → String
  | .null => "null"
  | .bool b => "boolean `" ++ boolText b ++ "`"
  | .int n => "integer `" ++ toString n ++ "`"
  | .float x => "floating point `" ++ floatFormat.render x ++ "`"
  | .str s => "string \"" ++ String.ofList (s.toList.flatMap messageChar) ++ "\""
  | .list => "sequence"
  | .object => "map"
  | .bareVariant => "unit variant"

/-- Ways in which good JSON is not of the expected form. -/
inductive Mismatch where
  | kind (found : Found) (expected : String)
  | range (found : Int) (expected : String)
  | unknownVariant (name : String) (known : List String)
  | duplicateField (name : String)
  | missingField (name : String)
  | length (found : Nat) (record : String) (fields : Nat)
deriving Repr

def Mismatch.message : Mismatch → String
  | .kind found expected => "invalid type: " ++ found.describe ++ ", expected " ++ expected
  | .range found expected =>
    "invalid value: integer `" ++ toString found ++ "`, expected " ++ expected
  | .unknownVariant name known =>
    "unknown variant `" ++ name ++ "`, expected one of " ++
      ", ".intercalate (known.map fun k => "`" ++ k ++ "`")
  | .duplicateField name => "duplicate field `" ++ name ++ "`"
  | .missingField name => "missing field `" ++ name ++ "`"
  | .length found record fields =>
    "invalid length " ++ toString found ++ ", expected struct " ++ record ++ " with " ++
      toString fields ++ (if fields = 1 then " element" else " elements")

inductive Problem where
  | grammar (fault : GrammarFault)
  | unfinished (what : Unfinished)
  | mismatch (what : Mismatch)
deriving Repr

def Problem.message : Problem → String
  | .grammar fault => fault.message
  | .unfinished what => what.message
  | .mismatch m => m.message

end SimCompiler.Json
