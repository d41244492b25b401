import SimCompiler.Analysis.Typing
import SimCompiler.Proofs.Resolution

/-!
# Typing without annotations

Type checking as one recursion over the tree. The type of an expression is computed from the types
of its operands, names are looked up in the list of declarations in scope, and nothing is recorded.
Each node is checked after its children, in source order, and a rule that fails without saying
where fails at the node it belongs to.

The name of an enumeration can be written where an expression is expected, but it has no type. Only
a rule that needs the type finds that out.
-/
namespace SimCompiler

/-- An expression as a rule sees it: where it stands, and its type unless it names an
enumeration. -/
structure Operand where
  position : Position
  type : Option String

def Operand.value (o : Operand) : Result String :=
  match o.type with
  | some type => .ok type
  | none => Result.defect (.enumAsValue "declaration")

/-- What the types inside an item depend on. -/
structure TypeScope where
  inScope : List Declaration
  lattice : Lattice

namespace TypeScope

variable (c : TypeScope)

def resolve (r : Ref) : Result Declaration := Declaration.resolveIn c.inScope r.name

def checkRef (r : Ref) : Result Declaration := (c.resolve r).orPosition r.position

def checkTypeRef (t : TypeRef) : Result Unit :=
  (c.lattice.checkTypeRef t.name).orPosition t.position

def argRule (d : Declaration) (number : Nat) (param : String) (arg : Operand) : Result Unit := do
  let type ← arg.value
  if c.lattice.isConvertible type param then return
  else Result.orPosition (Result.fault (.argumentType number d param type)) arg.position

/-- The arguments from number `i + 1` on. -/
def argsRule (d : Declaration) : (i : Nat) → List String → List Operand → Result Unit
  | i, param :: params, arg :: args => do
    c.argRule d (i + 1) param arg
    argsRule d (i + 1) params args
  | _, _, _ => .ok ()

def callRule (callee : Ref) (args : List Operand) : Result String := do
  let d ← c.resolve callee
  match d.callable? with
  | none => Result.fault (.notCallable d)
  | some (params, result) =>
    if params.length ≠ args.length then
      Result.fault (.argumentCount d params.length args.length)
    c.argsRule d 0 params args
    match result with
    | some type => return type
    | none => Result.fault (.noReturnValue d)

def indexRule (index : Operand) : Result Unit := do
  let type ← index.value
  if type == TypeName.str || c.lattice.isConvertible type TypeName.int then return
  else Result.orPosition (Result.fault (.jsonIndexType type)) index.position

def jsonRule (root : Ref) (indices : List Operand) : Result Unit := do
  let type ← (← c.resolve root).valueType
  if type ≠ TypeName.json then Result.fault (.notJson root.name type)
  forM indices c.indexRule

mutual

/-- The type of an expression, or `none` if it is the name of an enumeration. -/
def typeOf : Expr → Result (Option String)
  | .bool _ _ => .ok (some TypeName.bool)
  | .int _ _ => .ok (some TypeName.int)
  | .float _ _ => .ok (some TypeName.float)
  | .str _ _ => .ok (some TypeName.str)
  | .ref r => do return (← c.checkRef r).valueType.toOption
  | .unary p op e => do
    let type ← typeOf e
    Result.orPosition (do
      return some (← c.lattice.checkUnary op (← Operand.value ⟨e.position, type⟩))) p
  | .binary p l op r => do
    let left ← typeOf l
    let right ← typeOf r
    Result.orPosition (do
      let leftType ← Operand.value ⟨l.position, left⟩
      let rightType ← Operand.value ⟨r.position, right⟩
      return some (← c.lattice.checkBinary op leftType rightType)) p
  | .call p callee args => do
    let _ ← c.checkRef callee
    let operands ← operandsOf args
    Result.orPosition (do return some (← c.callRule callee operands)) p
  | .json p root indices target => do
    let _ ← c.checkRef root
    let operands ← operandsOf indices
    c.checkTypeRef target
    Result.orPosition (do c.jsonRule root operands; return some target.name) p

def operandsOf : List Expr → Result (List Operand)
  | [] => .ok []
  | e :: es => do
    let type ← typeOf e
    return ⟨e.position, type⟩ :: (← operandsOf es)

end

variable {c} in
/-- Only the name of an enumeration has no type. -/
theorem typeOf_eq_none {e : Expr} (h : c.typeOf e = .ok none) :
    ∃ r t, e = .ref r ∧ c.resolve r = .ok (.enum t) := by
  cases e with
  | ref r =>
    simp only [typeOf, checkRef, Result.bind_eq_ok_iff, Result.orPosition_eq_ok_iff,
      Result.pure_eq_ok, Except.ok.injEq] at h
    obtain ⟨d, hd, hnone⟩ := h
    cases d with
    | enum t => exact ⟨r, t, rfl, hd⟩
    | _ => simp [Declaration.valueType, Except.toOption] at hnone
  | _ => simp [typeOf, Result.bind_eq_ok_iff] at h

def targetType (target : Ref) : Result TypeRef := do
  match ← c.resolve target with
  | .localVar v | .param v | .globalVar v => return v.type
  | d => Result.fault (.notAssignable d)

def assignRule (target : Ref) (value : Operand) (declares : Bool) : Result Unit := do
  let type ← c.targetType target
  if type.isConst && !declares then Result.fault .constantTarget
  c.lattice.checkAssign type.name (← value.value)

def updateRule (target : Ref) (op : String) (value : Operand) : Result Unit := do
  let type ← c.targetType target
  if type.isConst then Result.fault .constantTarget
  c.lattice.checkUpdate op type.name (← value.value)

def conditionRule (condition : Operand) : Result Unit := do
  Result.orPosition (c.lattice.checkCondition (← condition.value)) condition.position

/-- Of what can be written as an argument only the name of a function cannot be printed. -/
def printedRule : Expr → Result Unit
  | .ref r => do
    let d ← c.resolve r
    if d.callable?.isSome then
      Result.orPosition (Result.fault (.printedFunction d)) r.position
  | _ => .ok ()

/-- The statement returns `value` from the function around it. -/
def returnRule (func : Option Func) (value : Option Operand) : Result Unit := do
  match func with
  | none => Result.defect .returnOutsideFunction
  | some f =>
    match f.returnType, value with
    | some type, some operand =>
      let found ← operand.value
      if c.lattice.isConvertible found type.name then return
      else Result.fault (.returnedType found f.name type.name)
    | some type, none => Result.fault (.missingReturnValue f.name type.name)
    | none, some _ => Result.fault (.unexpectedReturnValue f.name)
    | none, none => return

def checkVariable (v : Variable) : Result Unit := c.checkTypeRef v.type

def operandOf (e : Expr) : Result Operand := do return ⟨e.position, ← c.typeOf e⟩

mutual

/-- Checks a statement of the function `func`, or of the program itself. -/
def checkStmt (func : Option Func) : Stmt → Result Unit
  | .pass _ => .ok ()
  | .assign p target value declared => do
    declared.forM c.checkVariable
    let _ ← c.checkRef target
    let operand ← c.operandOf value
    Result.orPosition (c.assignRule target operand declared.isSome) p
  | .update p target op value => do
    let _ ← c.checkRef target
    let operand ← c.operandOf value
    Result.orPosition (c.updateRule target op operand) p
  | .print p args => do
    let _ ← c.operandsOf args
    Result.orPosition (forM args c.printedRule) p
  | .cond p condition block elifs none => do
    let operand ← c.operandOf condition
    checkBlock func block
    checkElifs func elifs
    Result.orPosition (c.conditionRule operand) p
  | .cond p condition block elifs (some otherwise) => do
    let operand ← c.operandOf condition
    checkBlock func block
    checkElifs func elifs
    checkElse func otherwise
    Result.orPosition (c.conditionRule operand) p
  | .ret p none => Result.orPosition (c.returnRule func none) p
  | .ret p (some value) => do
    let operand ← c.operandOf value
    Result.orPosition (c.returnRule func (some operand)) p

def checkStmts (func : Option Func) : List Stmt → Result Unit
  | [] => .ok ()
  | s :: ss => do
    checkStmt func s
    checkStmts func ss

def checkBlock (func : Option Func) : Block → Result Unit
  | ⟨_, stmts⟩ => checkStmts func stmts

def checkElif (func : Option Func) : Elif → Result Unit
  | ⟨p, condition, block⟩ => do
    let operand ← c.operandOf condition
    checkBlock func block
    Result.orPosition (c.conditionRule operand) p

def checkElifs (func : Option Func) : List Elif → Result Unit
  | [] => .ok ()
  | e :: es => do
    checkElif func e
    checkElifs func es

def checkElse (func : Option Func) : Else → Result Unit
  | ⟨_, block⟩ => checkBlock func block

end

def checkFunc (f : Func) : Result Unit := do
  forM f.params c.checkVariable
  f.returnType.forM c.checkTypeRef
  c.checkBlock (some f) f.body

def checkItem : Item → Result Unit
  | .globalVar v => c.checkVariable v
  | .enum _ => .ok ()
  | .func f => c.checkFunc f
  | .stmt s => c.checkStmt none s

end TypeScope

namespace Source

/-- The names of the enumerations of a program. -/
def enumNames (s : Source) : List String :=
  s.declarations.filterMap fun
    | .enum t => some t.name
    | _ => none

/-- The standard types and the enumerations of the program. -/
def lattice (s : Source) : Lattice := s.enumNames.foldl Lattice.addType Lattice.standard

def typeScope (s : Source) (item : Item) : TypeScope := ⟨s.inScope item, s.lattice⟩

/-- Type checking by recursion over the tree. -/
def typeCheck (s : Source) : Result Unit :=
  forM s.items fun item => (s.typeScope item).checkItem item

end Source

end SimCompiler
