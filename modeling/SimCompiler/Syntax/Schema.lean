import SimCompiler.Json.Schema

/-!
# The schema of syntax trees

The form in which a program is handed to the compiler.
-/
namespace SimCompiler

/-- The kinds of node of a document that holds a program. -/
inductive DocumentKind where
  | position
  | source
  | item
  | globalVar
  | enum
  | constant
  | func
  | param
  | localVar
  | typeRef
  | block
  | stmt
  | pass
  | assign
  | update
  | print
  | cond
  | elif
  | otherwise
  | ret
  | expr
  | boolLiteral
  | intLiteral
  | floatLiteral
  | strLiteral
  | ref
  | unary
  | binary
  | call
  | json
deriving DecidableEq, Repr

namespace DocumentKind

/-- A record of a place in the program and further fields. -/
def located (name : String) (fields : List (String × Json.Field DocumentKind)) :
    Json.Shape DocumentKind :=
  .record name (("position", .node .position) :: fields)

def text : Json.Field DocumentKind := .scalar .text

def variableShape (name : String) : Json.Shape DocumentKind :=
  located name [("name", text), ("type_ref", .node .typeRef)]

def schema : Json.Schema DocumentKind
  | .position =>
    .record "Position" [("file", text), ("line", .scalar .u32), ("column", .scalar .u32)]
  | .source => located "Source" [("items", .list .item)]
  | .item =>
    .choice [("GlobalVariable", .globalVar), ("Enum", .enum), ("Func", .func), ("Stmt", .stmt)]
  | .globalVar => variableShape "GlobalVariable"
  | .enum => located "EnumDecl" [("name", text), ("constants", .list .constant)]
  | .constant => located "EnumConstant" [("name", text), ("enum_name", text)]
  | .func =>
    located "Func" [("name", text), ("params", .list .param), ("return_type", .optional .typeRef),
      ("body", .node .block)]
  | .param => variableShape "Parameter"
  | .localVar => variableShape "LocalVariable"
  | .typeRef => located "TypeRef" [("name", text), ("is_const", .scalar .truth)]
  | .block => located "Block" [("stmts", .list .stmt)]
  | .stmt =>
    .choice [("Pass", .pass), ("Assignment", .assign), ("Update", .update), ("Print", .print),
      ("If", .cond), ("Return", .ret)]
  | .pass => located "PassStmt" []
  | .assign =>
    located "AssignmentStmt" [("lvalue", .node .ref), ("rvalue", .node .expr),
      ("var", .optional .localVar)]
  | .update =>
    located "UpdateStmt" [("lvalue", .node .ref), ("op", text), ("rvalue", .node .expr)]
  | .print => located "PrintStmt" [("args", .list .expr)]
  | .cond =>
    located "IfStmt" [("condition", .node .expr), ("block", .node .block), ("elifs", .list .elif),
      ("else_section", .optional .otherwise)]
  | .elif => located "ElifSection" [("condition", .node .expr), ("block", .node .block)]
  | .otherwise => located "ElseSection" [("block", .node .block)]
  | .ret => located "ReturnStmt" [("value", .optional .expr)]
  | .expr =>
    .choice [("Bool", .boolLiteral), ("Int", .intLiteral), ("Float", .floatLiteral),
      ("Str", .strLiteral), ("Ref", .ref), ("Unary", .unary), ("Binary", .binary), ("Call", .call),
      ("Json", .json)]
  | .boolLiteral => located "BoolLiteral" [("value", .scalar .truth)]
  | .intLiteral => located "IntLiteral" [("value", .scalar .i64)]
  | .floatLiteral => located "FloatLiteral" [("value", .scalar .f64)]
  | .strLiteral => located "StrLiteral" [("value", text)]
  | .ref => located "Ref" [("name", text)]
  | .unary => located "UnaryExpr" [("op", text), ("arg", .node .expr)]
  | .binary => located "BinaryExpr" [("left", .node .expr), ("op", text), ("right", .node .expr)]
  | .call => located "FuncCall" [("func", .node .ref), ("args", .list .expr)]
  | .json =>
    located "JsonExpr" [("jvar", .node .ref), ("idxs", .list .expr), ("target", .node .typeRef)]

end DocumentKind

end SimCompiler
