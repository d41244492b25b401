import SimCompiler.Types.Name

/-!
# Built-in functions and constants

What every program may use without declaring it.
-/
namespace SimCompiler

structure BuiltinFunc where
  name : String
  params : List String
  result : String
deriving DecidableEq, Repr, Inhabited

structure BuiltinConst where
  name : String
  type : String
deriving DecidableEq, Repr, Inhabited

namespace BuiltinFunc

/-- The type of the function as text, such as `(float, float) -> float`. -/
def signature (f : BuiltinFunc) : String := TypeName.signature f.params (some f.result)

def ofArity (arity : Nat) (name : String) : BuiltinFunc :=
  ⟨name, List.replicate arity TypeName.float, TypeName.float⟩

/-- All built-in functions work on `float`. -/
def all : List BuiltinFunc :=
  ["sqrt", "exp", "log", "sin", "cos", "tan", "abs", "floor", "ceil"].map (ofArity 1) ++
    ["min", "max", "pow"].map (ofArity 2)

def find? (name : String) : Option BuiltinFunc := all.find? (·.name == name)

end BuiltinFunc

namespace BuiltinConst

def all : List BuiltinConst := [⟨"CONFIG", TypeName.json⟩]

def find? (name : String) : Option BuiltinConst := all.find? (·.name == name)

end BuiltinConst

end SimCompiler
