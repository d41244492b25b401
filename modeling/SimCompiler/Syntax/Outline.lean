import SimCompiler.Syntax.Path
import SimCompiler.Syntax.Tree

/-!
# The uniform view of a syntax tree

Analyses do not care how the kinds of node differ in their fields. The outline of a program shows
it as one kind of tree: every node with its path and its children in source order.
-/
namespace SimCompiler

/-- Any node of a syntax tree. A reference is a node of the same kind wherever it stands. -/
inductive Node where
  | source (source : Source)
  | globalVar (var : Variable)
  | enum (decl : EnumDecl)
  | constant (constant : EnumConstant)
  | func (func : Func)
  | param (var : Variable)
  | localVar (var : Variable)
  | typeRef (type : TypeRef)
  | block (block : Block)
  | stmt (stmt : Stmt)
  | elif (branch : Elif)
  | otherwise (branch : Else)
  | expr (expr : Expr)

namespace Node

abbrev ref (r : Ref) : Node := .expr (.ref r)

def position : Node → Position
  | .source s => s.position
  | .globalVar v | .param v | .localVar v => v.position
  | .enum d => d.position
  | .constant c => c.position
  | .func f => f.position
  | .typeRef t => t.position
  | .block b => b.position
  | .stmt s => s.position
  | .elif e => e.position
  | .otherwise e => e.position
  | .expr e => e.position

/-- Literals are leaves that no visitor is told about. -/
def isLiteral : Node → Bool
  | .expr (.bool ..) | .expr (.int ..) | .expr (.float ..) | .expr (.str ..) => true
  | _ => false

end Node

/-- A node where it stands, and the outlines of its children in source order. -/
structure Outline where
  path : Path
  node : Node
  children : List Outline

namespace Outline

def position (o : Outline) : Position := o.node.position

/-- Applies `f` to every element together with its step, numbered from `start`. -/
def numbered (step : Nat → Step) (f : Path → α → Outline) (path : Path) :
    (start : Nat) → List α → List Outline
  | _, [] => []
  | i, x :: xs => f (step i :: path) x :: numbered step f path (i + 1) xs

def leaf (path : Path) (node : Node) : Outline := ⟨path, node, []⟩

end Outline

open Outline

def TypeRef.outline (path : Path) (t : TypeRef) : Outline := leaf path (.typeRef t)

def Ref.outline (path : Path) (r : Ref) : Outline := leaf path (.ref r)

mutual

def Expr.outline (path : Path) : Expr → Outline
  | .bool p b => leaf path (.expr (.bool p b))
  | .int p n => leaf path (.expr (.int p n))
  | .float p x => leaf path (.expr (.float p x))
  | .str p s => leaf path (.expr (.str p s))
  | .ref r => r.outline path
  | .unary p op e =>
    ⟨path, .expr (.unary p op e), [e.outline (.operand :: path)]⟩
  | .binary p l op r =>
    ⟨path, .expr (.binary p l op r), [l.outline (.left :: path), r.outline (.right :: path)]⟩
  | .call p f args =>
    ⟨path, .expr (.call p f args), f.outline (.callee :: path) :: Expr.outlines path 0 args⟩
  | .json p r indices t =>
    ⟨path, .expr (.json p r indices t),
      r.outline (.root :: path) :: Expr.outlines path 0 indices ++
        [t.outline (.typeRef :: path)]⟩

/-- The outlines of arguments or indices, numbered from `i`. -/
def Expr.outlines (path : Path) (i : Nat) : List Expr → List Outline
  | [] => []
  | e :: es => e.outline (.arg i :: path) :: Expr.outlines path (i + 1) es

end

/-- A variable has its type as its one child; `kind` says which kind of variable it is. -/
def Variable.outline (kind : Variable → Node) (path : Path) (v : Variable) : Outline :=
  ⟨path, kind v, [v.type.outline (.typeRef :: path)]⟩

mutual

def Stmt.outline (path : Path) : Stmt → Outline
  | .pass p => leaf path (.stmt (.pass p))
  | .assign p r e declared =>
    ⟨path, .stmt (.assign p r e declared),
      (declared.map (Variable.outline .localVar (.declared :: path))).toList ++
        [r.outline (.target :: path), e.outline (.value :: path)]⟩
  | .update p r op e =>
    ⟨path, .stmt (.update p r op e),
      [r.outline (.target :: path), e.outline (.value :: path)]⟩
  | .print p args => ⟨path, .stmt (.print p args), Expr.outlines path 0 args⟩
  | .cond p c b elifs none =>
    ⟨path, .stmt (.cond p c b elifs none),
      c.outline (.condition :: path) :: b.outline (.block :: path) :: Elif.outlines path 0 elifs⟩
  | .cond p c b elifs (some e) =>
    ⟨path, .stmt (.cond p c b elifs (some e)),
      c.outline (.condition :: path) :: b.outline (.block :: path) ::
        (Elif.outlines path 0 elifs ++ [e.outline (.otherwise :: path)])⟩
  | .ret p value =>
    ⟨path, .stmt (.ret p value), (value.map (Expr.outline (.value :: path))).toList⟩

def Stmt.outlines (path : Path) (i : Nat) : List Stmt → List Outline
  | [] => []
  | s :: ss => s.outline (.stmt i :: path) :: Stmt.outlines path (i + 1) ss

def Block.outline (path : Path) : Block → Outline
  | ⟨p, stmts⟩ => ⟨path, .block ⟨p, stmts⟩, Stmt.outlines path 0 stmts⟩

def Elif.outline (path : Path) : Elif → Outline
  | ⟨p, c, b⟩ =>
    ⟨path, .elif ⟨p, c, b⟩, [c.outline (.condition :: path), b.outline (.block :: path)]⟩

def Elif.outlines (path : Path) (i : Nat) : List Elif → List Outline
  | [] => []
  | e :: es => e.outline (.elif i :: path) :: Elif.outlines path (i + 1) es

def Else.outline (path : Path) : Else → Outline
  | ⟨p, b⟩ => ⟨path, .otherwise ⟨p, b⟩, [b.outline (.block :: path)]⟩

end

def EnumDecl.outline (path : Path) (d : EnumDecl) : Outline :=
  ⟨path, .enum d, numbered .constant (fun p c => leaf p (.constant c)) path 0 d.constants⟩

def Func.outline (path : Path) (f : Func) : Outline :=
  ⟨path, .func f,
    numbered .param (Variable.outline .param) path 0 f.params ++
      (f.returnType.map (TypeRef.outline (.returnType :: path))).toList ++
      [f.body.outline (.body :: path)]⟩

def Item.outline (path : Path) : Item → Outline
  | .globalVar v => v.outline .globalVar path
  | .enum d => d.outline path
  | .func f => f.outline path
  | .stmt s => s.outline path

/-- The whole program. Its root has the empty path. -/
def Source.outline (s : Source) : Outline :=
  ⟨[], .source s, numbered .item Item.outline [] 0 s.items⟩

/-- The functions of a program with their paths, in source order. -/
def Source.functions (s : Source) : List (Path × Func) :=
  (s.items.zipIdx).filterMap fun
    | (.func f, i) => some ([.item i], f)
    | _ => none

namespace Outline

mutual

/-- Every node of the outline with its path, parents before children. -/
def nodes : Outline → List (Path × Node)
  | ⟨path, node, children⟩ => (path, node) :: nodesAll children

def nodesAll : List Outline → List (Path × Node)
  | [] => []
  | o :: os => o.nodes ++ nodesAll os

end

end Outline

end SimCompiler
