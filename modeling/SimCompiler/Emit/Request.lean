import SimCompiler.Syntax.Encode

/-!
# Render requests

The generator does not write target files itself. It asks a template engine to render one named
template after another; the parameters that stand for code are already generated text.
-/
namespace SimCompiler

/-- Storage that is allocated up front: a name, its type and its initial value. -/
structure VariableSlot where
  name : String
  type : String
  init : String
deriving DecidableEq, Repr, Inhabited

structure ParamSlot where
  name : String
  type : String
deriving DecidableEq, Repr, Inhabited

/-- A function's signature, which is declared before any body can call the function. -/
structure Prototype where
  name : String
  params : List ParamSlot
  returnType : String
deriving DecidableEq, Repr, Inhabited

/-- One request for a template. -/
inductive Request where
  | passStmt (position : Position)
  | assignmentStmt (target value : String) (position : Position)
  | updateStmt (target op value : String) (position : Position)
  | printStmt (format : String) (args : List String) (position : Position)
  | returnStmt (value : Option String) (position : Position)
  | ifStmt (condition : String) (stmts elifs : List String) (otherwise : Option String)
      (position : Position)
  | elifSection (condition : String) (stmts : List String) (position : Position)
  | elseSection (stmts : List String) (position : Position)
  | enumDecl (name : String) (constants : List String) (position : Position)
  | function (prototype : Prototype) (locals : List VariableSlot) (stmts : List String)
      (position : Position)
  | mainFile (enums : List String) (prototypes : List Prototype) (decls : List String)
      (globals locals : List VariableSlot) (stmts : List String)
  | buildFile (project : String)
deriving DecidableEq, Repr, Inhabited

open Json

def VariableSlot.toJson (v : VariableSlot) : Json :=
  obj [("name", str v.name), ("type", str v.type), ("init", str v.init)]

def ParamSlot.toJson (p : ParamSlot) : Json := obj [("name", str p.name), ("type", str p.type)]

namespace Prototype

def fields (p : Prototype) : List (String × Json) :=
  [("name", str p.name), ("params", ofList ParamSlot.toJson p.params),
    ("return_type", str p.returnType)]

def toJson (p : Prototype) : Json := obj p.fields

end Prototype

namespace Request

/-- The name of the template that is asked for. -/
def template : Request → String
  | passStmt .. => "openmp-cpu:pass_stmt"
  | assignmentStmt .. => "openmp-cpu:assignment_stmt"
  | updateStmt .. => "openmp-cpu:update_stmt"
  | printStmt .. => "openmp-cpu:print_stmt"
  | returnStmt .. => "openmp-cpu:return_stmt"
  | ifStmt .. => "openmp-cpu:if_stmt"
  | elifSection .. => "openmp-cpu:elif_section"
  | elseSection .. => "openmp-cpu:else_section"
  | enumDecl .. => "openmp-cpu:enum_decl"
  | function .. => "openmp-cpu:function"
  | mainFile .. => "openmp-cpu:main.cpp"
  | buildFile .. => "openmp-cpu:CMakeLists.txt"

def texts (l : List String) : Json := ofList str l

/-- The parameters by name, in the order the template declares them. -/
def params : Request → List (String × Json)
  | passStmt position => [("pos", position.toJson)]
  | assignmentStmt target value position =>
    [("lvalue", str target), ("rvalue", str value), ("pos", position.toJson)]
  | updateStmt target op value position =>
    [("lvalue", str target), ("op", str op), ("rvalue", str value), ("pos", position.toJson)]
  | printStmt format args position =>
    [("format_string", str format), ("args", texts args), ("pos", position.toJson)]
  | returnStmt value position => [("value", ofOption str value), ("pos", position.toJson)]
  | ifStmt condition stmts elifs otherwise position =>
    [("condition", str condition), ("stmts", texts stmts), ("elifs", texts elifs),
      ("else_", ofOption str otherwise), ("pos", position.toJson)]
  | elifSection condition stmts position =>
    [("condition", str condition), ("stmts", texts stmts), ("pos", position.toJson)]
  | elseSection stmts position => [("stmts", texts stmts), ("pos", position.toJson)]
  | enumDecl name constants position =>
    [("name", str name), ("constants", texts constants), ("pos", position.toJson)]
  | function prototype locals stmts position =>
    prototype.fields ++ [("lvars", ofList VariableSlot.toJson locals), ("stmts", texts stmts),
      ("pos", position.toJson)]
  | mainFile enums prototypes decls globals locals stmts =>
    [("enums", texts enums), ("prototypes", ofList Prototype.toJson prototypes),
      ("decls", texts decls), ("globals", ofList VariableSlot.toJson globals),
      ("lvars", ofList VariableSlot.toJson locals), ("stmts", texts stmts)]
  | buildFile project => [("module", str project)]

def toJson (r : Request) : Json :=
  obj [("template", str r.template), ("params", obj r.params)]

end Request

end SimCompiler
