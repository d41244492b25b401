import SimCompiler.Analysis.Session
import SimCompiler.Emit.Renderer
import SimCompiler.Emit.Target

/-!
# Generating a project

Expressions become inline target text. Statements and declarations become requests to a template
engine, children before their parents, so a request's parameters hold the finished text of the
parts.
-/
namespace SimCompiler

/-- What generation knows about an analysed program. -/
structure Generator where
  notes : Annotations
  scopes : Scopes
  enums : List String
deriving DecidableEq, Repr, Inhabited

/-- The files of a generated project. -/
structure Project where
  mainFile : String
  buildFile : String
deriving DecidableEq, Repr, Inhabited

namespace Generator

/-- The program must have been analysed. -/
def ofAnnotations (notes : Annotations) : Result Generator := do
  let scopes ← notes.readScopes
  let root ← scopes.frame Scopes.root
  return ⟨notes, scopes, root.enumNames⟩

def typeCode (g : Generator) (type : TypeRef) : Result String :=
  match Target.primitiveType? type.name with
  | some code => .ok code
  | none =>
    if g.enums.contains type.name then .ok (Target.mangle type.name)
    else Result.defect (.noTargetType type.name)

/-- The initial value of a variable. -/
def initCode (g : Generator) (type : TypeRef) : String :=
  if type.name == TypeName.str then "\"\""
  else if g.enums.contains type.name then "\x7b\x7d"
  else "0"

def variableSlot (g : Generator) (v : Variable) : Result VariableSlot := do
  return ⟨Target.mangle v.name, ← g.typeCode v.type, g.initCode v.type⟩

def paramSlot (g : Generator) (v : Variable) : Result ParamSlot := do
  return ⟨Target.mangle v.name, ← g.typeCode v.type⟩

def nativeCode (d : Declaration) : Result String :=
  match Target.nativeName? d.name with
  | some code => .ok code
  | none => Result.defect (.noNativeName d)

/-- The text of the reference at `path`. -/
def refCode (g : Generator) (path : Path) (r : Ref) : Result String := do
  match ← g.notes.resolve g.scopes path r with
  | .builtinFunc f => nativeCode (.builtinFunc f)
  | .builtinConst c => nativeCode (.builtinConst c)
  | .constant c => return Target.mangle c.enumName ++ "::" ++ Target.mangle c.name
  | .enum _ => Result.defect (.enumAsValue "node")
  | _ => return Target.mangle r.name

/-- The text of the schema-less value that the reference at `path` names. -/
def jsonRootCode (g : Generator) (path : Path) (r : Ref) : Result String := do
  match ← g.notes.resolve g.scopes path r with
  | .builtinConst c => nativeCode (.builtinConst c)
  | _ => Result.defect .jsonVariable

/-- A function that is called on the spot and turns a failed access into a runtime error with the
position of the expression. -/
def jsonAccessCode (access type : String) (p : Position) : String :=
  "[&]() \x7b try \x7b return " ++ access ++ ".template get<" ++ type ++ ">(); \x7d " ++
    "catch (const nlohmann::json::exception& e) \x7b " ++
    "throw std::runtime_error(fmt::format(\"bad json expression:" ++
    "\x7b\x7d:\x7b\x7d:\x7b\x7d: \x7b\x7d\", " ++ Target.quote p.file ++ ", " ++
    toString p.line.toNat ++ ", " ++ toString p.column.toNat ++ ", e.what())); \x7d \x7d()"

mutual

/-- The text of the expression at `path`. -/
def exprCode (g : Generator) (path : Path) : Expr → Result String
  | .bool _ b => .ok (if b then "true" else "false")
  | .int _ n => .ok (toString n.toInt)
  | .float _ x => .ok (Target.floatFormat.render x)
  | .str _ s => .ok (Target.quote s)
  | .ref r => g.refCode path r
  | .unary _ op e => do
    let operand ← g.exprCode (.operand :: path) e
    return "( " ++ op ++ " (" ++ operand ++ ") )"
  | .binary _ l op r => do
    let left ← g.exprCode (.left :: path) l
    let right ← g.exprCode (.right :: path) r
    if op == "**" then return "std::pow( (" ++ left ++ "), (" ++ right ++ ") )"
    else return "( (" ++ left ++ ") " ++ op ++ " (" ++ right ++ ") )"
  | .call _ callee args => do
    let args ← g.exprCodes path 0 args
    let callee ← g.refCode (.callee :: path) callee
    return callee ++ "(" ++ ", ".intercalate args ++ ")"
  | .json p root indices target => do
    let root ← g.jsonRootCode (.root :: path) root
    let indices ← g.exprCodes path 0 indices
    let type ← g.typeCode target
    return jsonAccessCode (root ++ String.join (indices.map fun i => "[" ++ i ++ "]")) type p

/-- The texts of arguments or indices, numbered from `i`. -/
def exprCodes (g : Generator) (path : Path) (i : Nat) : List Expr → Result (List String)
  | [] => .ok []
  | e :: es => do
    let first ← g.exprCode (.arg i :: path) e
    let rest ← g.exprCodes path (i + 1) es
    return first :: rest

end

/-- Asks the engine for a template. -/
def ask (engine : Renderer σ) (request : Request) : Pass σ String := fun s =>
  match engine.render request s with
  | .ok text s' => .ok text s'
  | .error e s' => .error (.render e) s'

/-- One placeholder for each of `n` printed values. -/
def printFormat (n : Nat) : String := " ".intercalate (List.replicate n "\x7b\x7d")

mutual

/-- Renders the statement at `path`. -/
def stmt (g : Generator) (engine : Renderer σ) (path : Path) : Stmt → Pass σ String
  | .pass p => ask engine (.passStmt p)
  | .assign p target value _ => do
    let target ← Pass.ofResult (g.refCode (.target :: path) target)
    let value ← Pass.ofResult (g.exprCode (.value :: path) value)
    ask engine (.assignmentStmt target value p)
  | .update p target op value => do
    let target ← Pass.ofResult (g.refCode (.target :: path) target)
    let value ← Pass.ofResult (g.exprCode (.value :: path) value)
    ask engine (.updateStmt target op value p)
  | .print p args => do
    let args ← Pass.ofResult (g.exprCodes path 0 args)
    ask engine (.printStmt (printFormat args.length) args p)
  | .ret p none => ask engine (.returnStmt none p)
  | .ret p (some value) => do
    let value ← Pass.ofResult (g.exprCode (.value :: path) value)
    ask engine (.returnStmt (some value) p)
  | .cond p condition block elifs none => do
    let condition ← Pass.ofResult (g.exprCode (.condition :: path) condition)
    let stmts ← g.block engine (.block :: path) block
    let elifs ← g.elifs engine path 0 elifs
    ask engine (.ifStmt condition stmts elifs none p)
  | .cond p condition block elifs (some otherwise) => do
    let condition ← Pass.ofResult (g.exprCode (.condition :: path) condition)
    let stmts ← g.block engine (.block :: path) block
    let elifs ← g.elifs engine path 0 elifs
    let otherwise ← g.elseSection engine (.otherwise :: path) otherwise
    ask engine (.ifStmt condition stmts elifs (some otherwise) p)

def stmts (g : Generator) (engine : Renderer σ) (path : Path) (i : Nat) :
    List Stmt → Pass σ (List String)
  | [] => pure []
  | s :: ss => do
    let first ← g.stmt engine (.stmt i :: path) s
    let rest ← g.stmts engine path (i + 1) ss
    return first :: rest

/-- Renders the statements of a block; a block is no template of its own. -/
def block (g : Generator) (engine : Renderer σ) (path : Path) : Block → Pass σ (List String)
  | ⟨_, ss⟩ => g.stmts engine path 0 ss

def elif (g : Generator) (engine : Renderer σ) (path : Path) : Elif → Pass σ String
  | ⟨p, condition, block⟩ => do
    let condition ← Pass.ofResult (g.exprCode (.condition :: path) condition)
    let stmts ← g.block engine (.block :: path) block
    ask engine (.elifSection condition stmts p)

def elifs (g : Generator) (engine : Renderer σ) (path : Path) (i : Nat) :
    List Elif → Pass σ (List String)
  | [] => pure []
  | e :: es => do
    let first ← g.elif engine (.elif i :: path) e
    let rest ← g.elifs engine path (i + 1) es
    return first :: rest

def elseSection (g : Generator) (engine : Renderer σ) (path : Path) : Else → Pass σ String
  | ⟨p, block⟩ => do
    let stmts ← g.block engine (.block :: path) block
    ask engine (.elseSection stmts p)

end

def enumDecl (engine : Renderer σ) (d : EnumDecl) : Pass σ String :=
  ask engine (.enumDecl (Target.mangle d.name) (d.constants.map (Target.mangle ·.name)) d.position)

def prototype (g : Generator) (f : Func) : Result Prototype := do
  let params ← f.params.mapM g.paramSlot
  let returnType ← match f.returnType with
    | some type => g.typeCode type
    | none => pure "void"
  return ⟨Target.mangle f.name, params, returnType⟩

def func (g : Generator) (engine : Renderer σ) (path : Path) (f : Func) : Pass σ String := do
  let prototype ← Pass.ofResult (g.prototype f)
  let locals ← Pass.ofResult ((← Pass.ofResult (g.notes.readFuncLocals path)).mapM g.variableSlot)
  let stmts ← g.block engine (.body :: path) f.body
  ask engine (.function prototype locals stmts f.position)

/-- The rendered items of a program by kind, each kind in source order. -/
structure Sections where
  enums : List String := []
  decls : List String := []
  globals : List VariableSlot := []
  stmts : List String := []

def items (g : Generator) (engine : Renderer σ) (i : Nat) (done : Sections) :
    List Item → Pass σ Sections
  | [] => pure done
  | .globalVar v :: rest => do
    let slot ← Pass.ofResult (g.variableSlot v)
    g.items engine (i + 1) { done with globals := done.globals ++ [slot] } rest
  | .enum d :: rest => do
    let text ← enumDecl engine d
    g.items engine (i + 1) { done with enums := done.enums ++ [text] } rest
  | .func f :: rest => do
    let text ← g.func engine [.item i] f
    g.items engine (i + 1) { done with decls := done.decls ++ [text] } rest
  | .stmt s :: rest => do
    let text ← g.stmt engine [.item i] s
    g.items engine (i + 1) { done with stmts := done.stmts ++ [text] } rest

/-- Renders the main file. A body may call a function or name an enumeration that is declared
after it, since all prototypes and enumerations stand in front of the bodies. -/
def program (g : Generator) (engine : Renderer σ) (source : Source) : Pass σ String := do
  let prototypes ← Pass.ofResult (source.functions.mapM fun (_, f) => g.prototype f)
  let sections ← g.items engine 0 {} source.items
  let vars ← Pass.ofResult g.notes.readProgramLocals
  let locals ← Pass.ofResult (vars.mapM g.variableSlot)
  ask engine (.mainFile sections.enums prototypes sections.decls sections.globals locals
    sections.stmts)

def project (g : Generator) (engine : Renderer σ) (source : Source) (name : String) :
    Pass σ Project := do
  let mainFile ← g.program engine source
  let buildFile ← ask engine (.buildFile name)
  return ⟨mainFile, buildFile⟩

end Generator

/-- Renders a program with the annotations it has. -/
def Source.generate (source : Source) (notes : Annotations) (engine : Renderer σ)
    (name : String) : Pass σ Project := do
  (← Pass.ofResult (Generator.ofAnnotations notes)).project engine source name

/-- Analyses a program and renders it. Answers the text of the main file. -/
def Source.compile (source : Source) (engine : Renderer σ) (name : String) : Pass σ String := do
  match Session.apply source {} with
  | .error e _ => throw e
  | .ok () session => return (← source.generate session.notes engine name).mainFile

end SimCompiler
