/-!
# Names of types

Types are known by name. The names below have a meaning of their own in the typing rules; any
other name is that of a sized number type or of an enumeration.
-/
namespace SimCompiler.TypeName

def bool := "bool"
def int := "int"
def uint := "uint"
def float := "float"
def str := "str"

/-- The type of schema-less values. Only built-ins have it. -/
def json := "json"

/-- The text of a function type. A function without a return type returns `void`. -/
def signature (params : List String) (result : Option String) : String :=
  "(" ++ ", ".intercalate params ++ ") -> " ++ result.getD "void"

end SimCompiler.TypeName
