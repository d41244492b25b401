import SimCompiler.Decimal.Notation
import SimCompiler.Types.Name

/-!
# Spelling of the target language

Names, types and literals as they are written in C++.
-/
namespace SimCompiler.Target

/-- A name of the program gets a leading underscore, so it never meets a C++ keyword. -/
def mangle (name : String) : String := "_" ++ name

def primitiveType? : String → Option String
  | "int" => some "std::int64_t"
  | "uint" => some "std::uint64_t"
  | "float" => some "double"
  | "bool" => some "bool"
  | "u8" => some "std::uint8_t"
  | "u16" => some "std::uint16_t"
  | "u32" => some "std::uint32_t"
  | "u64" => some "std::uint64_t"
  | "i8" => some "std::int8_t"
  | "i16" => some "std::int16_t"
  | "i32" => some "std::int32_t"
  | "i64" => some "std::int64_t"
  | "f32" => some "float"
  | "f64" => some "double"
  | "str" => some "std::string"
  | _ => none

/-- The built-in functions and constants with their spellings. -/
def natives : List (String × String) :=
  [("sqrt", "std::sqrt"), ("exp", "std::exp"), ("log", "std::log"), ("sin", "std::sin"),
    ("cos", "std::cos"), ("tan", "std::tan"), ("abs", "std::fabs"), ("floor", "std::floor"),
    ("ceil", "std::ceil"), ("min", "std::fmin"), ("max", "std::fmax"), ("pow", "std::pow"),
    ("CONFIG", "CONFIG")]

def nativeName? (name : String) : Option String := natives.lookup name

def escapeChar (c : Char) : List Char :=
  match c with
  | '"' => ['\\', '"']
  | '\\' => ['\\', '\\']
  | '\n' => ['\\', 'n']
  | '\t' => ['\\', 't']
  | '\r' => ['\\', 'r']
  | c => [c]

/-- A string literal with its quotes. -/
def quote (s : String) : String :=
  "\"" ++ String.ofList (s.toList.flatMap escapeChar) ++ "\""

/-- Doubles from `1e-4` up to `1e16` are written out, always with a point, so that the literal
stays a double. -/
def floatFormat : Decimal.Format where
  plainFrom := -4
  plainTo := 15
  plusSign := false
  tie := .up
  nan := "NaN"
  infinity := "inf"

end SimCompiler.Target
