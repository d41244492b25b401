import SimCompiler.Analysis.Work
import SimCompiler.Types.Rules

/-!
# Type checking

Every node is checked when it is left, so the types of its children are known. Operators and calls
record their type; the type of any other expression can be read off the expression itself.
-/
namespace SimCompiler

/-- The type of a declaration whose name is used as a value. -/
def Declaration.valueType : Declaration → Result String
  | .localVar v | .param v | .globalVar v => .ok v.type.name
  | .constant c => .ok c.enumName
  | .builtinConst c => .ok c.type
  | .builtinFunc f => .ok f.signature
  | .func s => .ok (TypeName.signature s.paramTypes s.result)
  | .enum _ => Result.defect (.enumAsValue "declaration")

/-- The parameter types and the return type of what can be called. -/
def Declaration.callable? : Declaration → Option (List String × Option String)
  | .builtinFunc f => some (f.params, some f.result)
  | .func s => some (s.paramTypes, s.result)
  | _ => none

/-- The type of the expression at `path`, once its children have been checked. -/
def Annotations.exprType (notes : Annotations) (scopes : Scopes) (path : Path) :
    Expr → Result String
  | .bool .. => .ok TypeName.bool
  | .int .. => .ok TypeName.int
  | .float .. => .ok TypeName.float
  | .str .. => .ok TypeName.str
  | .ref r => do (← notes.resolve scopes path r).valueType
  | .unary .. | .binary .. | .call .. => notes.readType path
  | .json _ _ _ target => .ok target.name

/-- What type checking knows about the whole program. -/
structure TypeContext where
  scopes : Scopes
  lattice : Lattice

namespace TypeContext

/-- The standard types and the enumerations of the program. -/
def ofScopes (scopes : Scopes) : Result TypeContext := do
  let root ← scopes.frame Scopes.root
  return ⟨scopes, root.enumNames.foldl Lattice.addType Lattice.standard⟩

variable (cx : TypeContext) (notes : Annotations) (path : Path)

/-- The declared type of the variable that the reference at `path` names. -/
def targetType (target : Ref) : Result TypeRef := do
  match ← notes.resolve cx.scopes path target with
  | .localVar v | .param v | .globalVar v => return v.type
  | d => Result.fault (.notAssignable d)

/-- The argument with the given index converts to the type of its parameter. -/
def checkArg (d : Declaration) (i : Nat) (param : String) (arg : Expr) : Result Unit := do
  let type ← notes.exprType cx.scopes (.arg i :: path) arg
  if cx.lattice.isConvertible type param then return
  else Result.orPosition (Result.fault (.argumentType (i + 1) d param type)) arg.position

def checkArgs (d : Declaration) : (index : Nat) → List String → List Expr → Result Unit
  | i, param :: params, arg :: args => do
    cx.checkArg notes path d i param arg
    checkArgs d (i + 1) params args
  | _, _, _ => .ok ()

/-- The type of the call at `path`. -/
def callType (callee : Ref) (args : List Expr) : Result String := do
  let d ← notes.resolve cx.scopes (.callee :: path) callee
  match d.callable? with
  | none => Result.fault (.notCallable d)
  | some (params, result) =>
    if params.length ≠ args.length then
      Result.fault (.argumentCount d params.length args.length)
    cx.checkArgs notes path d 0 params args
    match result with
    | some type => return type
    | none => Result.fault (.noReturnValue d)

/-- An index is a `str` or converts to `int`. -/
def checkIndex (i : Nat) (e : Expr) : Result Unit := do
  let type ← notes.exprType cx.scopes (.arg i :: path) e
  if type == TypeName.str || cx.lattice.isConvertible type TypeName.int then return
  else Result.orPosition (Result.fault (.jsonIndexType type)) e.position

def checkIndices : (index : Nat) → List Expr → Result Unit
  | _, [] => .ok ()
  | i, e :: es => do
    cx.checkIndex notes path i e
    checkIndices (i + 1) es

def checkJson (root : Ref) (indices : List Expr) : Result Unit := do
  let type ← (← notes.resolve cx.scopes (.root :: path) root).valueType
  if type ≠ TypeName.json then Result.fault (.notJson root.name type)
  cx.checkIndices notes path 0 indices

def checkAssign (target : Ref) (value : Expr) (declares : Bool) : Result Unit := do
  let type ← cx.targetType notes (.target :: path) target
  if type.isConst && !declares then Result.fault .constantTarget
  cx.lattice.checkAssign type.name (← notes.exprType cx.scopes (.value :: path) value)

def checkUpdate (target : Ref) (op : String) (value : Expr) : Result Unit := do
  let type ← cx.targetType notes (.target :: path) target
  if type.isConst then Result.fault .constantTarget
  cx.lattice.checkUpdate op type.name (← notes.exprType cx.scopes (.value :: path) value)

def checkCondition (condition : Expr) : Result Unit := do
  let type ← notes.exprType cx.scopes (.condition :: path) condition
  Result.orPosition (cx.lattice.checkCondition type) condition.position

/-- Any value can be printed. The name of a function is not a value. -/
def checkPrinted (i : Nat) : Expr → Result Unit
  | .ref r => do
    let d ← notes.resolve cx.scopes (.arg i :: path) r
    if d.callable?.isSome then
      Result.orPosition (Result.fault (.printedFunction d)) r.position
  | _ => .ok ()

def checkPrint : (index : Nat) → List Expr → Result Unit
  | _, [] => .ok ()
  | i, e :: es => do
    cx.checkPrinted notes path i e
    checkPrint (i + 1) es

/-- A return statement gives a value exactly if its function has a return type, and the value
converts to it. -/
def checkReturn (func : Func) (value : Option Expr) : Result Unit := do
  match func.returnType, value with
  | some type, some e =>
    let found ← notes.exprType cx.scopes (.value :: path) e
    if cx.lattice.isConvertible found type.name then return
    else Result.fault (.returnedType found func.name type.name)
  | some type, none => Result.fault (.missingReturnValue func.name type.name)
  | none, some _ => Result.fault (.unexpectedReturnValue func.name)
  | none, none => return

/-- Checks the node at `path`, whose children have been checked, inside the functions `funcs`,
innermost first. Answers the type to record, if the node has a slot for one. -/
def checkNode (funcs : List Func) : Node → Result (Option String)
  | .typeRef t => do cx.lattice.checkTypeRef t.name; return none
  | .expr (.ref r) => do let _ ← notes.resolve cx.scopes path r; return none
  | .expr (.unary _ op e) => do
    let type ← notes.exprType cx.scopes (.operand :: path) e
    return some (← cx.lattice.checkUnary op type)
  | .expr (.binary _ l op r) => do
    let left ← notes.exprType cx.scopes (.left :: path) l
    let right ← notes.exprType cx.scopes (.right :: path) r
    return some (← cx.lattice.checkBinary op left right)
  | .expr (.call _ callee args) => do return some (← cx.callType notes path callee args)
  | .expr (.json _ root indices _) => do cx.checkJson notes path root indices; return none
  | .stmt (.assign _ target value declared) => do
    cx.checkAssign notes path target value declared.isSome; return none
  | .stmt (.update _ target op value) => do cx.checkUpdate notes path target op value; return none
  | .stmt (.cond _ condition _ _ _) => do cx.checkCondition notes path condition; return none
  | .elif branch => do cx.checkCondition notes path branch.condition; return none
  | .stmt (.print _ args) => do cx.checkPrint notes path 0 args; return none
  | .stmt (.ret _ value) => do
    match funcs with
    | [] => Result.defect .returnOutsideFunction
    | func :: _ => cx.checkReturn notes path func value; return none
  | _ => return none

/-- The functions being visited are the working data, innermost first. -/
def visitor : Visitor (Work (List Func)) where
  enter _
    | .func f => Pass.modifyOwn (f :: ·)
    | _ => pure ()
  leave path
    | .func _ => Pass.modifyOwn (·.tail)
    | node => do
      let funcs ← Pass.own
      match ← Pass.consult (cx.checkNode · path funcs node) with
      | some type => Pass.annotate (·.writeType path type)
      | none => return

end TypeContext

def Source.checkTypes (source : Source) : Pass Annotations Unit := do
  let cx ← Pass.ofResult (TypeContext.ofScopes (← Pass.ofResult (← get).readScopes))
  Pass.walking cx.visitor [] source

end SimCompiler
