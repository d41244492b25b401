import SimCompiler.Json.Value
import SimCompiler.Syntax.Tree

/-!
# Syntax trees as JSON values

A record is an object of its fields in order of declaration; a choice between several kinds of node
is an object with one field, named for the kind; what is absent is `null`.
-/
namespace SimCompiler

open Json in
def Position.toJson (p : Position) : Json :=
  obj [("file", str p.file), ("line", int p.line.toNat), ("column", int p.column.toNat)]

open Json in
def TypeRef.toJson (t : TypeRef) : Json :=
  obj [("position", t.position.toJson), ("name", str t.name), ("is_const", bool t.isConst)]

open Json in
def Variable.toJson (v : Variable) : Json :=
  obj [("position", v.position.toJson), ("name", str v.name), ("type_ref", v.type.toJson)]

open Json in
def EnumConstant.toJson (c : EnumConstant) : Json :=
  obj [("position", c.position.toJson), ("name", str c.name), ("enum_name", str c.enumName)]

open Json in
def EnumDecl.toJson (d : EnumDecl) : Json :=
  obj [("position", d.position.toJson), ("name", str d.name),
    ("constants", ofList EnumConstant.toJson d.constants)]

open Json in
def Ref.toJson (r : Ref) : Json :=
  obj [("position", r.position.toJson), ("name", str r.name)]

namespace Expr

open Json in
/-- A literal of some kind. -/
def literal (kind : String) (position : Position) (value : Json) : Json :=
  obj [(kind, obj [("position", position.toJson), ("value", value)])]

mutual

def toJson : Expr → Json
  | .bool p b => literal "Bool" p (.bool b)
  | .int p n => literal "Int" p (.int n.toInt)
  | .float p x => literal "Float" p (.float x)
  | .str p s => literal "Str" p (.str s)
  | .ref r => .obj [("Ref", r.toJson)]
  | .unary p op e =>
    .obj [("Unary", .obj [("position", p.toJson), ("op", .str op), ("arg", e.toJson)])]
  | .binary p l op r =>
    .obj [("Binary", .obj [("position", p.toJson), ("left", l.toJson), ("op", .str op),
      ("right", r.toJson)])]
  | .call p f args =>
    .obj [("Call", .obj [("position", p.toJson), ("func", f.toJson),
      ("args", .arr (toJsons args))])]
  | .json p r indices t =>
    .obj [("Json", .obj [("position", p.toJson), ("jvar", r.toJson),
      ("idxs", .arr (toJsons indices)), ("target", t.toJson)])]

def toJsons : List Expr → List Json
  | [] => []
  | e :: es => e.toJson :: toJsons es

end

end Expr

mutual

def Stmt.toJson : Stmt → Json
  | .pass p => .obj [("Pass", .obj [("position", p.toJson)])]
  | .assign p r e declared =>
    .obj [("Assignment", .obj [("position", p.toJson), ("lvalue", r.toJson), ("rvalue", e.toJson),
      ("var", .ofOption Variable.toJson declared)])]
  | .update p r op e =>
    .obj [("Update", .obj [("position", p.toJson), ("lvalue", r.toJson), ("op", .str op),
      ("rvalue", e.toJson)])]
  | .print p args =>
    .obj [("Print", .obj [("position", p.toJson), ("args", .ofList Expr.toJson args)])]
  | .cond p c b elifs none =>
    .obj [("If", .obj [("position", p.toJson), ("condition", c.toJson), ("block", b.toJson),
      ("elifs", .arr (Elif.toJsons elifs)), ("else_section", .null)])]
  | .cond p c b elifs (some e) =>
    .obj [("If", .obj [("position", p.toJson), ("condition", c.toJson), ("block", b.toJson),
      ("elifs", .arr (Elif.toJsons elifs)), ("else_section", e.toJson)])]
  | .ret p value =>
    .obj [("Return", .obj [("position", p.toJson), ("value", .ofOption Expr.toJson value)])]

def Stmt.toJsons : List Stmt → List Json
  | [] => []
  | s :: ss => s.toJson :: Stmt.toJsons ss

def Block.toJson : Block → Json
  | ⟨p, stmts⟩ => .obj [("position", p.toJson), ("stmts", .arr (Stmt.toJsons stmts))]

def Elif.toJson : Elif → Json
  | ⟨p, c, b⟩ => .obj [("position", p.toJson), ("condition", c.toJson), ("block", b.toJson)]

def Elif.toJsons : List Elif → List Json
  | [] => []
  | e :: es => e.toJson :: Elif.toJsons es

def Else.toJson : Else → Json
  | ⟨p, b⟩ => .obj [("position", p.toJson), ("block", b.toJson)]

end

def Func.toJson (f : Func) : Json :=
  .obj [("position", f.position.toJson), ("name", .str f.name),
    ("params", .ofList Variable.toJson f.params),
    ("return_type", .ofOption TypeRef.toJson f.returnType), ("body", f.body.toJson)]

def Item.toJson : Item → Json
  | .globalVar v => .obj [("GlobalVariable", v.toJson)]
  | .enum d => .obj [("Enum", d.toJson)]
  | .func f => .obj [("Func", f.toJson)]
  | .stmt s => .obj [("Stmt", s.toJson)]

def Source.toJson (s : Source) : Json :=
  .obj [("position", s.position.toJson), ("items", .ofList Item.toJson s.items)]

end SimCompiler
