import SimCompiler.Scope.Builtin
import SimCompiler.Syntax.Tree

/-!
# Declarations

What a name stands for.
-/
namespace SimCompiler

/-- Numbers the functions of a program in the order they are declared. -/
structure FuncId where
  index : Nat
deriving DecidableEq, Repr, Inhabited

instance : Ord FuncId := ⟨fun a b => compare a.index b.index⟩

def FuncId.render (id : FuncId) : String := "#" ++ toString id.index

structure EnumType where
  position : Position
  name : String
deriving DecidableEq, Repr, Inhabited

structure FuncSignature where
  id : FuncId
  position : Position
  name : String
  params : List TypeRef
  returnType : Option TypeRef
deriving DecidableEq, Repr, Inhabited

inductive Declaration where
  | localVar (var : Variable)
  | param (var : Variable)
  | globalVar (var : Variable)
  | constant (constant : EnumConstant)
  | enum (type : EnumType)
  | func (signature : FuncSignature)
  | builtinFunc (func : BuiltinFunc)
  | builtinConst (constant : BuiltinConst)
deriving DecidableEq, Repr, Inhabited

namespace FuncSignature

def paramTypes (s : FuncSignature) : List String := s.params.map (·.name)

def result (s : FuncSignature) : Option String := s.returnType.map (·.name)

end FuncSignature

namespace Declaration

def name : Declaration → String
  | localVar v | param v | globalVar v => v.name
  | constant c => c.name
  | enum t => t.name
  | func s => s.name
  | builtinFunc f => f.name
  | builtinConst c => c.name

/-- Built-ins have no position in the program. -/
def position : Declaration → Option Position
  | localVar v | param v | globalVar v => some v.position
  | constant c => some c.position
  | enum t => some t.position
  | func s => some s.position
  | builtinFunc _ | builtinConst _ => none

def isBuiltin (d : Declaration) : Bool := d.position.isNone

def kind : Declaration → String
  | localVar _ => "local variable"
  | param _ => "function parameter"
  | globalVar _ => "global variable"
  | constant _ => "enum constant"
  | enum _ => "enum"
  | func _ => "function"
  | builtinFunc _ => "builtin function"
  | builtinConst _ => "builtin constant"

def describe (d : Declaration) : String := d.kind ++ " `" ++ d.name ++ "`"

end Declaration

end SimCompiler
