import SimCompiler.Position

/-!
# Syntax trees

A program is a list of items: global variables, enumerations, functions and statements. The tree
is plain data. What the analyses find out about it is kept beside it, see
`SimCompiler.Annotation.Table`.
-/
namespace SimCompiler

structure TypeRef where
  position : Position
  name : String
  isConst : Bool
deriving DecidableEq, Repr, Inhabited

/-- A declared variable: a global, a parameter or a local, depending on where it stands. -/
structure Variable where
  position : Position
  name : String
  type : TypeRef
deriving DecidableEq, Repr, Inhabited

structure EnumConstant where
  position : Position
  name : String
  /-- The enumeration of the constant, which is also its type. -/
  enumName : String
deriving DecidableEq, Repr, Inhabited

structure EnumDecl where
  position : Position
  name : String
  constants : List EnumConstant
deriving DecidableEq, Repr, Inhabited

structure Ref where
  position : Position
  name : String
deriving DecidableEq, Repr, Inhabited

inductive Expr where
  | bool (position : Position) (value : Bool)
  | int (position : Position) (value : Int64)
  | float (position : Position) (value : Float)
  | str (position : Position) (value : String)
  | ref (ref : Ref)
  | unary (position : Position) (op : String) (operand : Expr)
  | binary (position : Position) (left : Expr) (op : String) (right : Expr)
  | call (position : Position) (callee : Ref) (args : List Expr)
  /-- Indexing into a schema-less value; the author declares the type of the result. -/
  | json (position : Position) (root : Ref) (indices : List Expr) (target : TypeRef)
deriving Repr, Inhabited

mutual

inductive Stmt where
  | pass (position : Position)
  /-- The variable is present only where the assignment declares it. -/
  | assign (position : Position) (target : Ref) (value : Expr) (declared : Option Variable)
  | update (position : Position) (target : Ref) (op : String) (value : Expr)
  | print (position : Position) (args : List Expr)
  | cond (position : Position) (condition : Expr) (block : Block) (elifs : List Elif)
      (otherwise : Option Else)
  | ret (position : Position) (value : Option Expr)

structure Block where
  position : Position
  stmts : List Stmt

structure Elif where
  position : Position
  condition : Expr
  block : Block

structure Else where
  position : Position
  block : Block

end

structure Func where
  position : Position
  name : String
  params : List Variable
  returnType : Option TypeRef
  body : Block

inductive Item where
  | globalVar (var : Variable)
  | enum (decl : EnumDecl)
  | func (func : Func)
  | stmt (stmt : Stmt)

structure Source where
  position : Position
  items : List Item

namespace Expr

def position : Expr → Position
  | .bool p _ | .int p _ | .float p _ | .str p _ => p
  | .ref r => r.position
  | .unary p _ _ | .binary p _ _ _ | .call p _ _ | .json p _ _ _ => p

end Expr

namespace Stmt

def position : Stmt → Position
  | .pass p | .assign p _ _ _ | .update p _ _ _ | .print p _ | .cond p _ _ _ _ | .ret p _ => p

end Stmt

end SimCompiler
