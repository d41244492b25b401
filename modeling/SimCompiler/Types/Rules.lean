import SimCompiler.Error
import SimCompiler.Types.Lattice

/-!
# Typing rules of operators, assignments and conditions

Each rule looks only at type names. A type that does not fit is a fault of the program; an
operator that the language does not have is a defect, since no program text can contain it.
-/
namespace SimCompiler

/-- Binary operators by the rule that types them. -/
inductive OperatorClass where
  /-- Both sides are numbers, the result is a truth value. -/
  | comparison
  /-- As a comparison, but two values of one type can always be compared. -/
  | equality
  /-- Both sides are numbers, and so is the result. -/
  | arithmetic
  /-- As arithmetic, on whole numbers only. -/
  | remainder
  /-- The result is always a `float`. -/
  | power
deriving DecidableEq, Repr

def OperatorClass.ofSymbol? : String → Option OperatorClass
  | "and" | "or" | "<" | "<=" | ">" | ">=" => some .comparison
  | "==" | "!=" => some .equality
  | "+" | "-" | "*" | "/" => some .arithmetic
  | "%" => some .remainder
  | "**" => some .power
  | _ => none

namespace Lattice

def checkTypeRef (l : Lattice) (name : String) : Result Unit :=
  if l.contains name then .ok () else Result.fault (.unknownType name)

/-- Negation gives the narrower of `int` and `float`; `not` gives a truth value. -/
def checkUnary (l : Lattice) (op operand : String) : Result String :=
  if op == "-" || op == "not" then
    if !l.isConvertible operand TypeName.float then Result.fault (.unaryOperand op operand)
    else if op == "not" then .ok TypeName.bool
    else if l.isConvertible operand TypeName.int then .ok TypeName.int
    else .ok TypeName.float
  else Result.defect (.unaryOperator op)

/-- Both operands of `op` convert to `target`; the left one is looked at first. -/
def expectOperands (l : Lattice) (op left right target : String) : Result Unit :=
  if !l.isConvertible left target then Result.fault (.binaryOperand op left)
  else if !l.isConvertible right target then Result.fault (.binaryOperand op right)
  else .ok ()

/-- The type of a sum or product. Both operands already convert to a common type. -/
def arithmeticType (l : Lattice) (op left right : String) : Result String :=
  match l.lub? left right with
  | some type => .ok type
  | none => Result.defect (.noCommonType left op right)

def checkBinary (l : Lattice) (op left right : String) : Result String := do
  match OperatorClass.ofSymbol? op with
  | some .comparison =>
    l.expectOperands op left right TypeName.float
    return TypeName.bool
  | some .equality =>
    if left ≠ right then l.expectOperands op left right TypeName.float
    return TypeName.bool
  | some .arithmetic =>
    l.expectOperands op left right TypeName.float
    l.arithmeticType op left right
  | some .remainder =>
    l.expectOperands op left right TypeName.int
    l.arithmeticType op left right
  | some .power =>
    l.expectOperands op left right TypeName.float
    return TypeName.float
  | none => Result.defect (.binaryOperator op)

def checkAssign (l : Lattice) (target value : String) : Result Unit :=
  if l.isConvertible value target then .ok () else Result.fault (.assignedType value target)

def checkUpdate (l : Lattice) (op target value : String) : Result Unit := do
  if op == "+=" || op == "-=" || op == "*=" || op == "/=" then
    l.expectOperands op target value TypeName.float
    l.checkAssign target value
  else Result.defect (.updateOperator op)

def checkCondition (l : Lattice) (type : String) : Result Unit :=
  if l.isConvertible type TypeName.float then .ok () else Result.fault (.conditionType type)

end Lattice

end SimCompiler
