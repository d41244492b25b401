import SimCompiler.Syntax.Encode
import SimCompiler.Syntax.Schema

/-!
# Syntax trees from JSON

A tree is read from the normal form of a document, see `SimCompiler.Json.Schema`. Every document
that the schema accepts is the form of exactly one tree.
-/
namespace SimCompiler

def Position.ofJson? : Json → Option Position
  | .obj [("file", .str file), ("line", .int line), ("column", .int column)] =>
    some ⟨file, .ofNat line.toNat, .ofNat column.toNat⟩
  | _ => none

def TypeRef.ofJson? : Json → Option TypeRef
  | .obj [("position", p), ("name", .str name), ("is_const", .bool isConst)] => do
    return ⟨← Position.ofJson? p, name, isConst⟩
  | _ => none

def Variable.ofJson? : Json → Option Variable
  | .obj [("position", p), ("name", .str name), ("type_ref", t)] => do
    return ⟨← Position.ofJson? p, name, ← TypeRef.ofJson? t⟩
  | _ => none

def EnumConstant.ofJson? : Json → Option EnumConstant
  | .obj [("position", p), ("name", .str name), ("enum_name", .str enumName)] => do
    return ⟨← Position.ofJson? p, name, enumName⟩
  | _ => none

def EnumDecl.ofJson? : Json → Option EnumDecl
  | .obj [("position", p), ("name", .str name), ("constants", .arr constants)] => do
    return ⟨← Position.ofJson? p, name, ← constants.mapM EnumConstant.ofJson?⟩
  | _ => none

def Ref.ofJson? : Json → Option Ref
  | .obj [("position", p), ("name", .str name)] => do return ⟨← Position.ofJson? p, name⟩
  | _ => none

/-- What may be absent. -/
def Json.toOption? (f : Json → Option α) : Json → Option (Option α)
  | .null => some none
  | j => (f j).map some

mutual

def Expr.ofJson? : Json → Option Expr
  | .obj [("Bool", .obj [("position", p), ("value", .bool b)])] => do
    return .bool (← Position.ofJson? p) b
  | .obj [("Int", .obj [("position", p), ("value", .int n)])] => do
    return .int (← Position.ofJson? p) (.ofInt n)
  | .obj [("Float", .obj [("position", p), ("value", .float x)])] => do
    return .float (← Position.ofJson? p) x
  | .obj [("Str", .obj [("position", p), ("value", .str s)])] => do
    return .str (← Position.ofJson? p) s
  | .obj [("Ref", r)] => do return .ref (← Ref.ofJson? r)
  | .obj [("Unary", .obj [("position", p), ("op", .str op), ("arg", e)])] => do
    return .unary (← Position.ofJson? p) op (← Expr.ofJson? e)
  | .obj [("Binary", .obj [("position", p), ("left", l), ("op", .str op), ("right", r)])] => do
    return .binary (← Position.ofJson? p) (← Expr.ofJson? l) op (← Expr.ofJson? r)
  | .obj [("Call", .obj [("position", p), ("func", f), ("args", .arr args)])] => do
    return .call (← Position.ofJson? p) (← Ref.ofJson? f) (← Expr.ofJsons? args)
  | .obj [("Json", .obj [("position", p), ("jvar", r), ("idxs", .arr indices),
      ("target", t)])] => do
    return .json (← Position.ofJson? p) (← Ref.ofJson? r) (← Expr.ofJsons? indices)
      (← TypeRef.ofJson? t)
  | _ => none
termination_by structural j => j

def Expr.ofJsons? : List Json → Option (List Expr)
  | [] => some []
  | j :: js => do return (← Expr.ofJson? j) :: (← Expr.ofJsons? js)
termination_by structural js => js

end

mutual

def Stmt.ofJson? : Json → Option Stmt
  | .obj [("Pass", .obj [("position", p)])] => do return .pass (← Position.ofJson? p)
  | .obj [("Assignment", .obj [("position", p), ("lvalue", r), ("rvalue", e), ("var", v)])] => do
    return .assign (← Position.ofJson? p) (← Ref.ofJson? r) (← Expr.ofJson? e)
      (← v.toOption? Variable.ofJson?)
  | .obj [("Update", .obj [("position", p), ("lvalue", r), ("op", .str op), ("rvalue", e)])] => do
    return .update (← Position.ofJson? p) (← Ref.ofJson? r) op (← Expr.ofJson? e)
  | .obj [("Print", .obj [("position", p), ("args", .arr args)])] => do
    return .print (← Position.ofJson? p) (← Expr.ofJsons? args)
  | .obj [("If", .obj [("position", p), ("condition", c), ("block", b), ("elifs", .arr elifs),
      ("else_section", .null)])] => do
    return .cond (← Position.ofJson? p) (← Expr.ofJson? c) (← Block.ofJson? b)
      (← Elif.ofJsons? elifs) none
  | .obj [("If", .obj [("position", p), ("condition", c), ("block", b), ("elifs", .arr elifs),
      ("else_section", e)])] => do
    return .cond (← Position.ofJson? p) (← Expr.ofJson? c) (← Block.ofJson? b)
      (← Elif.ofJsons? elifs) (some (← Else.ofJson? e))
  | .obj [("Return", .obj [("position", p), ("value", v)])] => do
    return .ret (← Position.ofJson? p) (← v.toOption? Expr.ofJson?)
  | _ => none
termination_by structural j => j

def Stmt.ofJsons? : List Json → Option (List Stmt)
  | [] => some []
  | j :: js => do return (← Stmt.ofJson? j) :: (← Stmt.ofJsons? js)
termination_by structural js => js

def Block.ofJson? : Json → Option Block
  | .obj [("position", p), ("stmts", .arr stmts)] => do
    return ⟨← Position.ofJson? p, ← Stmt.ofJsons? stmts⟩
  | _ => none
termination_by structural j => j

def Elif.ofJson? : Json → Option Elif
  | .obj [("position", p), ("condition", c), ("block", b)] => do
    return ⟨← Position.ofJson? p, ← Expr.ofJson? c, ← Block.ofJson? b⟩
  | _ => none
termination_by structural j => j

def Elif.ofJsons? : List Json → Option (List Elif)
  | [] => some []
  | j :: js => do return (← Elif.ofJson? j) :: (← Elif.ofJsons? js)
termination_by structural js => js

def Else.ofJson? : Json → Option Else
  | .obj [("position", p), ("block", b)] => do
    return ⟨← Position.ofJson? p, ← Block.ofJson? b⟩
  | _ => none
termination_by structural j => j

end

def Func.ofJson? : Json → Option Func
  | .obj [("position", p), ("name", .str name), ("params", .arr params), ("return_type", t),
      ("body", b)] => do
    return ⟨← Position.ofJson? p, name, ← params.mapM Variable.ofJson?,
      ← t.toOption? TypeRef.ofJson?, ← Block.ofJson? b⟩
  | _ => none

def Item.ofJson? : Json → Option Item
  | .obj [("GlobalVariable", v)] => do return .globalVar (← Variable.ofJson? v)
  | .obj [("Enum", d)] => do return .enum (← EnumDecl.ofJson? d)
  | .obj [("Func", f)] => do return .func (← Func.ofJson? f)
  | .obj [("Stmt", s)] => do return .stmt (← Stmt.ofJson? s)
  | _ => none

namespace Source

def ofJson? : Json → Option Source
  | .obj [("position", p), ("items", .arr items)] => do
    return ⟨← Position.ofJson? p, ← items.mapM Item.ofJson?⟩
  | _ => none

/-- Reads a program from the text of a document. -/
def read (text : String) : Except Json.ReadFailure Source := do
  let j ← DocumentKind.schema.read Json.depthLimit .source text
  match ofJson? j with
  | some source => return source
  | none => throw ⟨.mismatch (.kind .object "struct Source"), 1, 0⟩

/-- The text of a program without any blanks. -/
def write (s : Source) : String := s.toJson.compact

end Source

end SimCompiler
