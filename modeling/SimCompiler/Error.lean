import SimCompiler.Scope.Declaration

/-!
# Errors

Three things stop a compilation: the program is at fault (`CodeError`), the compiler itself finds
an invariant broken (`Defect`), or the template engine refuses (`RenderError`). Only the first is
about the program text, so only it carries a position.
-/
namespace SimCompiler

inductive CodeErrorKind where
  | parse
  | reference
  | type
deriving DecidableEq, Repr, Inhabited

def CodeErrorKind.render : CodeErrorKind → String
  | .parse => "Parse error"
  | .reference => "Reference error"
  | .type => "Type error"

/-- What can be wrong with a program. -/
inductive Fault where
  | malformedTree (reason : String)
  | undefined (name : String)
  | redefined (holder : Declaration)
  | unknownType (name : String)
  | unaryOperand (op type : String)
  | binaryOperand (op type : String)
  | assignedType (valueType targetType : String)
  | conditionType (type : String)
  | notAssignable (declaration : Declaration)
  | constantTarget
  | notCallable (declaration : Declaration)
  | argumentCount (declaration : Declaration) (expected given : Nat)
  | argumentType (number : Nat) (declaration : Declaration) (expected given : String)
  | noReturnValue (declaration : Declaration)
  | notJson (name type : String)
  | jsonIndexType (type : String)
  | printedFunction (declaration : Declaration)
  | returnedType (valueType func returnType : String)
  | missingReturnValue (func returnType : String)
  | unexpectedReturnValue (func : String)
  /-- For visitors outside the library, which have faults of their own. -/
  | custom (kind : CodeErrorKind) (message : String)
deriving DecidableEq, Repr

namespace Fault

def kind : Fault → CodeErrorKind
  | malformedTree _ => .parse
  | undefined _ | redefined _ => .reference
  | custom k _ => k
  | _ => .type

def message : Fault → String
  | malformedTree reason => "malformed syntax tree: " ++ reason
  | undefined name => name ++ " not defined"
  | redefined holder => holder.name ++ " has been already defined as " ++ holder.describe
  | unknownType name => "Unknown type " ++ name
  | unaryOperand op type => "Unary `" ++ op ++ "` not supported for type " ++ type
  | binaryOperand op type => "Binary `" ++ op ++ "` not supported for type " ++ type
  | assignedType valueType targetType =>
    "Can't assign expression of type " ++ valueType ++ " to variable of type " ++ targetType
  | conditionType type => "condition type not boolean or numeric: " ++ type
  | notAssignable d => "Can't assign to " ++ d.describe
  | constantTarget => "Can't assign to constants"
  | notCallable d => d.describe ++ " is not callable"
  | argumentCount d expected given =>
    d.describe ++ " takes " ++ toString expected ++ " arguments but " ++ toString given ++
      " were given"
  | argumentType number d expected given =>
    "Argument " ++ toString number ++ " of " ++ d.describe ++ " must be convertible to " ++
      expected ++ ", but it is " ++ given
  | noReturnValue d => d.describe ++ " has no return value and can't be used as a value"
  | notJson name type => name ++ " is not a json value but " ++ type
  | jsonIndexType type => "json index must be str or int, but it is " ++ type
  | printedFunction d => "Can't print " ++ d.describe
  | returnedType valueType func returnType =>
    "Can't return expression of type " ++ valueType ++ " from function `" ++ func ++
      "` returning " ++ returnType
  | missingReturnValue func returnType =>
    "function `" ++ func ++ "` must return a value of type " ++ returnType
  | unexpectedReturnValue func =>
    "function `" ++ func ++ "` has no return type but returns a value"
  | custom _ message => message

end Fault

structure CodeError where
  fault : Fault
  position : Option Position := none
deriving DecidableEq, Repr

namespace CodeError

/-- The most specific position wins: one that is already attached stays. -/
def orPosition (e : CodeError) (p : Position) : CodeError :=
  { e with position := some (e.position.getD p) }

@[simp] theorem orPosition_orPosition (e : CodeError) (p q : Position) :
    (e.orPosition p).orPosition q = e.orPosition p := by
  simp [orPosition]

def kind (e : CodeError) : CodeErrorKind := e.fault.kind

def message (e : CodeError) : String := e.fault.message

def render (e : CodeError) : String :=
  (e.position.map fun p => p.render ++ ": ").getD "" ++ e.kind.render ++ ": " ++ e.message

end CodeError

/-- The kinds of write-once slot that the analyses fill. -/
inductive Slot where
  | scopeChain
  | programLocals
  | functionId
  | functionFrame
  | functionLocals
  | returnSites
  | capabilities
  | returnOwner
  | referenceFrame
deriving DecidableEq, Repr, Inhabited

def Slot.describe : Slot → String
  | .scopeChain => "scope chain of the program"
  | .programLocals => "local variables of the program"
  | .functionId => "function id"
  | .functionFrame => "function frame"
  | .functionLocals => "local variables"
  | .returnSites => "return statements"
  | .capabilities => "capabilities"
  | .returnOwner => "owner of return statement"
  | .referenceFrame => "reference frame"

/-- Something an internal error was about: a label, and the value where it is a number. -/
structure Context where
  label : String
  value : Option Int := none
deriving DecidableEq, Repr, Inhabited

def Context.render (c : Context) : String :=
  match c.value with
  | some v => c.label ++ ": " ++ toString v
  | none => c.label

/-- A violated invariant of the compiler itself. -/
inductive Defect where
  | reassigned (slot : Slot)
  | unannotated (slot : Slot)
  | untyped
  | retyped (before after : String)
  | noFrame (index frames : Nat)
  | emptyScopeStack
  | unbalancedFunctions
  | returnOutsideFunction
  | enumAsValue (context : String)
  | unaryOperator (op : String)
  | binaryOperator (op : String)
  | updateOperator (op : String)
  | noCommonType (left op right : String)
  | scatteredIds
  | notInCallGraph (id : FuncId)
  | passesNotApplied
  | noTargetType (name : String)
  | noNativeName (declaration : Declaration)
  | jsonVariable
  | custom (message : String) (context : List Context)
deriving DecidableEq, Repr

namespace Defect

def message : Defect → String
  | reassigned slot => slot.describe ++ " was already assigned"
  | unannotated slot => slot.describe ++ " is not annotated yet"
  | untyped => "expression type is not annotated yet"
  | retyped before after =>
    "type of expression changed from `" ++ before ++ "` to `" ++ after ++ "`"
  | noFrame index _ => "no frame FrameId(" ++ toString index ++ ")"
  | emptyScopeStack => "scope stack is empty"
  | unbalancedFunctions => "unbalanced function stack"
  | returnOutsideFunction => "return statement outside of a function"
  | enumAsValue _ => "enumeration used as a value"
  | unaryOperator op => "Unexpected unary operator: " ++ op
  | binaryOperator op => "Unexpected binary operator: " ++ op
  | updateOperator op => "Unexpected update operator: " ++ op
  | noCommonType left op right =>
    "no common type for " ++ left ++ " `" ++ op ++ "` " ++ right
  | scatteredIds => "function ids are not contiguous"
  | notInCallGraph id => "function " ++ id.render ++ " is not in the call graph"
  | passesNotApplied => "compiler passes have not been applied"
  | noTargetType name => "no C++ type for `" ++ name ++ "`"
  | noNativeName d => "no native name for " ++ d.describe
  | jsonVariable => "unexpected json variable"
  | custom message _ => message

def context : Defect → List Context
  | reassigned _ => [⟨"rejected value", none⟩]
  | untyped | retyped .. | returnOutsideFunction | scatteredIds => [⟨"node", none⟩]
  | noFrame _ frames => [⟨"frames", some frames⟩]
  | unbalancedFunctions => [⟨"function", none⟩]
  | enumAsValue label => [⟨label, none⟩]
  | noTargetType _ => [⟨"type", none⟩]
  | noNativeName _ | jsonVariable => [⟨"declaration", none⟩]
  | custom _ context => context
  | _ => []

/-- The message alone, without what it was about. -/
def headline (d : Defect) : String := "internal compiler error: " ++ d.message

def render (d : Defect) : String :=
  d.context.foldl (fun text c => text ++ "\n  " ++ c.render) d.headline

end Defect

inductive RenderError where
  | unknownTemplate (template : String)
  | failed (template message : String)
deriving DecidableEq, Repr

def RenderError.render : RenderError → String
  | .unknownTemplate template => "unknown template: " ++ template
  | .failed template message => "failed to render " ++ template ++ ": " ++ message

inductive CompileError where
  | code (error : CodeError)
  | defect (defect : Defect)
  | render (error : RenderError)
deriving DecidableEq, Repr

namespace CompileError

/-- Attaches a position to a code error that has none. Other errors stay as they are. -/
def orPosition (e : CompileError) (p : Position) : CompileError :=
  match e with
  | code c => code (c.orPosition p)
  | e => e

@[simp] theorem orPosition_orPosition (e : CompileError) (p q : Position) :
    (e.orPosition p).orPosition q = e.orPosition p := by
  cases e <;> simp [orPosition]

def codeError? : CompileError → Option CodeError
  | code c => some c
  | _ => none

def isInternal : CompileError → Bool
  | defect _ => true
  | _ => false

def display : CompileError → String
  | code c => c.render
  | defect d => d.render
  | render r => r.render

/-- A code error that has no position yet. -/
def ofFault (f : Fault) : CompileError := code { fault := f }

end CompileError

/-- What a step of the compiler answers. -/
abbrev Result (α : Type) := Except CompileError α

namespace Result

def fault (f : Fault) : Result α := .error (.ofFault f)

def defect (d : Defect) : Result α := .error (.defect d)

/-- Attaches a position to a code error that has none. -/
def orPosition (r : Result α) (p : Position) : Result α := r.mapError (·.orPosition p)

end Result

/-- A computation that may stop with an error and keeps its state when it does. -/
abbrev Pass (σ : Type) := EStateM CompileError σ

namespace Pass

def ofResult (r : Result α) : Pass σ α :=
  match r with
  | .ok a => pure a
  | .error e => throw e

def fault (f : Fault) : Pass σ α := throw (.ofFault f)

def defect (d : Defect) : Pass σ α := throw (.defect d)

/-- Attaches a position to a code error that has none. -/
def orPosition (x : Pass σ α) (p : Position) : Pass σ α := fun s =>
  match x s with
  | .ok a s' => .ok a s'
  | .error e s' => .error (e.orPosition p) s'

/-- Runs `x` on a part of the state, which is put back as `x` leaves it, also when it fails. -/
def onPart (part : τ → σ) (put : σ → τ → τ) (x : Pass σ α) : Pass τ α := fun t =>
  match x (part t) with
  | .ok a s => .ok a (put s t)
  | .error e s => .error e (put s t)

@[simp] theorem run_pure (a : α) (s : σ) : (pure a : Pass σ α) s = .ok a s := rfl

@[simp] theorem run_bind (x : Pass σ α) (f : α → Pass σ β) (s : σ) :
    (x >>= f) s = match x s with
      | .ok a s' => f a s'
      | .error e s' => .error e s' := by
  change EStateM.bind x f s = _
  rw [EStateM.bind]
  cases x s <;> rfl

@[simp] theorem run_get (s : σ) : (get : Pass σ σ) s = .ok s s := rfl

@[simp] theorem run_set (s t : σ) : (set t : Pass σ Unit) s = .ok () t := rfl

@[simp] theorem run_modify (f : σ → σ) (s : σ) : (modify f : Pass σ Unit) s = .ok () (f s) := rfl

@[simp] theorem run_ofResult (r : Result α) (s : σ) :
    ofResult r s = match r with
      | .ok a => .ok a s
      | .error e => .error e s := by
  cases r <;> rfl

@[simp] theorem run_fault (f : Fault) (s : σ) :
    (fault f : Pass σ α) s = .error (.ofFault f) s := rfl

@[simp] theorem run_defect (d : Defect) (s : σ) :
    (defect d : Pass σ α) s = .error (.defect d) s := rfl

@[simp] theorem run_orPosition (x : Pass σ α) (p : Position) (s : σ) :
    x.orPosition p s = match x s with
      | .ok a s' => .ok a s'
      | .error e s' => .error (e.orPosition p) s' := rfl

@[simp] theorem run_onPart (part : τ → σ) (put : σ → τ → τ) (x : Pass σ α) (t : τ) :
    onPart part put x t = match x (part t) with
      | .ok a s => .ok a (put s t)
      | .error e s => .error e (put s t) := rfl

end Pass

end SimCompiler
