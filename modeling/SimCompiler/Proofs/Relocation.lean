import SimCompiler.Proofs.Images

/-!
# Moving a program

A program whose nodes stand elsewhere is the same program with other positions. Moving it by a map
of positions changes the positions of its nodes and nothing else, so the moved program has the same
outline, with moved nodes, and a walk over it meets the moved nodes in the same order.
-/
namespace SimCompiler

variable (move : Position → Position)

def TypeRef.relocate (t : TypeRef) : TypeRef := { t with position := move t.position }

def Variable.relocate (v : Variable) : Variable := ⟨move v.position, v.name, v.type.relocate move⟩

def EnumConstant.relocate (c : EnumConstant) : EnumConstant :=
  { c with position := move c.position }

def EnumDecl.relocate (d : EnumDecl) : EnumDecl :=
  ⟨move d.position, d.name, d.constants.map (·.relocate move)⟩

def Ref.relocate (r : Ref) : Ref := { r with position := move r.position }

mutual

def Expr.relocate : Expr → Expr
  | .bool p b => .bool (move p) b
  | .int p n => .int (move p) n
  | .float p x => .float (move p) x
  | .str p s => .str (move p) s
  | .ref r => .ref (r.relocate move)
  | .unary p op e => .unary (move p) op e.relocate
  | .binary p l op r => .binary (move p) l.relocate op r.relocate
  | .call p callee args => .call (move p) (callee.relocate move) (Expr.relocateAll args)
  | .json p root indices target =>
    .json (move p) (root.relocate move) (Expr.relocateAll indices) (target.relocate move)

def Expr.relocateAll : List Expr → List Expr
  | [] => []
  | e :: es => e.relocate :: Expr.relocateAll es

end

mutual

def Stmt.relocate : Stmt → Stmt
  | .pass p => .pass (move p)
  | .assign p target value declared =>
    .assign (move p) (target.relocate move) (value.relocate move) (declared.map (·.relocate move))
  | .update p target op value => .update (move p) (target.relocate move) op (value.relocate move)
  | .print p args => .print (move p) (args.map (·.relocate move))
  | .cond p condition block elifs none =>
    .cond (move p) (condition.relocate move) block.relocate (Elif.relocateAll elifs) none
  | .cond p condition block elifs (some e) =>
    .cond (move p) (condition.relocate move) block.relocate (Elif.relocateAll elifs)
      (some e.relocate)
  | .ret p value => .ret (move p) (value.map (·.relocate move))

def Stmt.relocateAll : List Stmt → List Stmt
  | [] => []
  | s :: ss => s.relocate :: Stmt.relocateAll ss

def Block.relocate : Block → Block
  | ⟨p, ss⟩ => ⟨move p, Stmt.relocateAll ss⟩

def Elif.relocate : Elif → Elif
  | ⟨p, condition, block⟩ => ⟨move p, condition.relocate move, block.relocate⟩

def Elif.relocateAll : List Elif → List Elif
  | [] => []
  | e :: es => e.relocate :: Elif.relocateAll es

def Else.relocate : Else → Else
  | ⟨p, block⟩ => ⟨move p, block.relocate⟩

end

def Func.relocate (f : Func) : Func :=
  ⟨move f.position, f.name, f.params.map (·.relocate move), f.returnType.map (·.relocate move),
    f.body.relocate move⟩

def Item.relocate : Item → Item
  | .globalVar v => .globalVar (v.relocate move)
  | .enum d => .enum (d.relocate move)
  | .func f => .func (f.relocate move)
  | .stmt s => .stmt (s.relocate move)

def Source.relocate (s : Source) : Source := ⟨move s.position, s.items.map (·.relocate move)⟩

def Node.relocate : Node → Node
  | .source s => .source (s.relocate move)
  | .globalVar v => .globalVar (v.relocate move)
  | .enum d => .enum (d.relocate move)
  | .constant c => .constant (c.relocate move)
  | .func f => .func (f.relocate move)
  | .param v => .param (v.relocate move)
  | .localVar v => .localVar (v.relocate move)
  | .typeRef t => .typeRef (t.relocate move)
  | .block b => .block (b.relocate move)
  | .stmt s => .stmt (s.relocate move)
  | .elif e => .elif (e.relocate move)
  | .otherwise e => .otherwise (e.relocate move)
  | .expr e => .expr (e.relocate move)

def Event.relocate (e : Event) : Event := { e with node := e.node.relocate move }

theorem Expr.relocateAll_eq_map (es : List Expr) :
    relocateAll move es = es.map (·.relocate move) := by
  induction es with
  | nil => rw [relocateAll, List.map_nil]
  | cons e es ih => rw [relocateAll, ih, List.map_cons]

theorem Stmt.relocateAll_eq_map (ss : List Stmt) :
    relocateAll move ss = ss.map (·.relocate move) := by
  induction ss with
  | nil => rw [relocateAll, List.map_nil]
  | cons s ss ih => rw [relocateAll, ih, List.map_cons]

theorem Elif.relocateAll_eq_map (es : List Elif) :
    relocateAll move es = es.map (·.relocate move) := by
  induction es with
  | nil => rw [relocateAll, List.map_nil]
  | cons e es ih => rw [relocateAll, ih, List.map_cons]

@[simp] theorem Expr.position_relocate (e : Expr) :
    (e.relocate move).position = move e.position := by
  cases e <;> simp [relocate, position, Ref.relocate]

@[simp] theorem Stmt.position_relocate (s : Stmt) :
    (s.relocate move).position = move s.position := by
  cases s with
  | cond p condition block elifs otherwise => cases otherwise <;> simp [relocate, position]
  | _ => simp [relocate, position]

theorem Node.position_relocate (node : Node) :
    (node.relocate move).position = move node.position := by
  cases node with
  | expr e => exact e.position_relocate move
  | stmt s => exact s.position_relocate move
  | block b => obtain ⟨p, ss⟩ := b; simp [relocate, position, Block.relocate]
  | elif e => obtain ⟨p, condition, b⟩ := e; simp [relocate, position, Elif.relocate]
  | otherwise e => obtain ⟨p, b⟩ := e; simp [relocate, position, Else.relocate]
  | _ => rfl

theorem Node.isLiteral_relocate (node : Node) :
    (node.relocate move).isLiteral = node.isLiteral := by
  cases node with
  | expr e => cases e <;> simp [relocate, Expr.relocate, isLiteral]
  | _ => rfl

namespace Outline

mutual

def relocate : Outline → Outline
  | ⟨path, node, children⟩ => ⟨path, node.relocate move, relocateAll children⟩

def relocateAll : List Outline → List Outline
  | [] => []
  | o :: os => o.relocate :: relocateAll os

end

@[simp] theorem relocateAll_eq_map (os : List Outline) :
    relocateAll move os = os.map (·.relocate move) := by
  induction os with
  | nil => rw [relocateAll, List.map_nil]
  | cons o os ih => rw [relocateAll, ih, List.map_cons]

@[simp] theorem relocate_mk (path : Path) (node : Node) (children : List Outline) :
    (⟨path, node, children⟩ : Outline).relocate move =
      ⟨path, node.relocate move, children.map (·.relocate move)⟩ := by
  rw [relocate, relocateAll_eq_map]

theorem numbered_map (step : Nat → Step) {g : Path → α → Outline} {g' : Path → β → Outline}
    {k : α → β} {h : Outline → Outline} (xs : List α)
    (hx : ∀ x ∈ xs, ∀ path, g' path (k x) = h (g path x)) (path : Path) (i : Nat) :
    numbered step g' path i (xs.map k) = (numbered step g path i xs).map h := by
  induction xs generalizing i with
  | nil => rfl
  | cons x xs ih =>
    rw [List.map_cons, numbered, numbered, List.map_cons, hx x (by simp),
      ih fun y hy => hx y (by simp [hy])]

mutual

/-- A walk over the moved outline has the moved events. -/
theorem events_relocate : ∀ o : Outline, (o.relocate move).events = o.events.map (·.relocate move)
  | ⟨path, node, children⟩ => by
    have hchildren := eventsAll_relocate children
    rw [relocate_mk, events_mk, events_mk, hchildren, Node.isLiteral_relocate]
    by_cases hliteral : node.isLiteral
    · rw [if_pos hliteral, if_pos hliteral]
    · rw [if_neg hliteral, if_neg hliteral, List.map_append, List.map_cons]
      rfl

theorem eventsAll_relocate : ∀ os : List Outline,
    eventsAll (os.map (·.relocate move)) = (eventsAll os).map (·.relocate move)
  | [] => by simp [eventsAll]
  | o :: os => by
    rw [List.map_cons, eventsAll, eventsAll, events_relocate o, eventsAll_relocate os,
      List.map_append]

end

end Outline

open Outline

theorem Expr.outline_relocate (e : Expr) :
    ∀ path, (e.relocate move).outline path = (e.outline path).relocate move := by
  induction e using Expr.induction with
  | bool | int | float | str | ref =>
    intro path
    simp [Expr.relocate, Expr.outline, Ref.outline, leaf, Node.relocate]
  | unary p op e ih =>
    intro path
    simp [Expr.relocate, Expr.outline, Node.relocate, ih]
  | binary p l op r ihl ihr =>
    intro path
    simp [Expr.relocate, Expr.outline, Node.relocate, ihl, ihr]
  | call p callee args ih =>
    intro path
    have hargs := numbered_map .arg args ih path 0
    simp [Expr.relocate, Expr.outline, Node.relocate, Expr.outlines_eq_numbered,
      Expr.relocateAll_eq_map, hargs, Ref.outline, leaf]
  | json p root indices target ih =>
    intro path
    have hindices := numbered_map .arg indices ih path 0
    simp [Expr.relocate, Expr.outline, Node.relocate, Expr.outlines_eq_numbered,
      Expr.relocateAll_eq_map, hindices, Ref.outline, TypeRef.outline, leaf]

theorem Variable.outline_relocate (kind : Variable → Node)
    (hkind : ∀ v, kind (v.relocate move) = (kind v).relocate move) (v : Variable) (path : Path) :
    (v.relocate move).outline kind path = (v.outline kind path).relocate move := by
  rw [Variable.outline, Variable.outline, relocate_mk, hkind]
  simp [TypeRef.outline, leaf, Node.relocate, Variable.relocate]

theorem Block.outline_relocate {b : Block}
    (ih : ∀ s ∈ b.stmts, ∀ path,
      (s.relocate move).outline path = (s.outline path).relocate move) (path : Path) :
    (b.relocate move).outline path = (b.outline path).relocate move := by
  obtain ⟨p, ss⟩ := b
  have hstmts := numbered_map .stmt ss ih path 0
  simp [Block.relocate, Block.outline, Node.relocate, Stmt.outlines_eq_numbered,
    Stmt.relocateAll_eq_map, hstmts]

theorem Elif.outline_relocate {e : Elif}
    (ih : ∀ s ∈ e.block.stmts, ∀ path,
      (s.relocate move).outline path = (s.outline path).relocate move) (path : Path) :
    (e.relocate move).outline path = (e.outline path).relocate move := by
  obtain ⟨p, condition, b⟩ := e
  simp [Elif.relocate, Elif.outline, Node.relocate, Expr.outline_relocate,
    Block.outline_relocate move ih]

theorem Else.outline_relocate {e : Else}
    (ih : ∀ s ∈ e.block.stmts, ∀ path,
      (s.relocate move).outline path = (s.outline path).relocate move) (path : Path) :
    (e.relocate move).outline path = (e.outline path).relocate move := by
  obtain ⟨p, b⟩ := e
  simp [Else.relocate, Else.outline, Node.relocate, Block.outline_relocate move ih]

theorem Stmt.outline_relocate (s : Stmt) :
    ∀ path, (s.relocate move).outline path = (s.outline path).relocate move := by
  induction s using Stmt.induction with
  | pass p =>
    intro path
    simp [Stmt.relocate, Stmt.outline, leaf, Node.relocate]
  | assign p target value declared =>
    intro path
    cases declared with
    | none =>
      simp [Stmt.relocate, Stmt.outline, Node.relocate, Ref.outline, leaf, Expr.relocate,
        Expr.outline_relocate]
    | some v =>
      have hvariable := v.outline_relocate move .localVar fun _ => rfl
      simp [Stmt.relocate, Stmt.outline, Node.relocate, Ref.outline, leaf, Expr.relocate,
        Expr.outline_relocate, hvariable]
  | update p target op value =>
    intro path
    simp [Stmt.relocate, Stmt.outline, Node.relocate, Ref.outline, leaf, Expr.relocate,
      Expr.outline_relocate]
  | print p args =>
    intro path
    have hargs := numbered_map .arg args (fun e _ => e.outline_relocate move) path 0
    simp [Stmt.relocate, Stmt.outline, Node.relocate, Expr.outlines_eq_numbered, hargs]
  | cond p condition block elifs otherwise ihblock ihelifs ihelse =>
    intro path
    have hblock := Block.outline_relocate move ihblock
    have helifs := numbered_map .elif elifs
      (fun e he => Elif.outline_relocate move (ihelifs e he)) path 0
    cases otherwise with
    | none =>
      simp [Stmt.relocate, Stmt.outline, Node.relocate, Elif.outlines_eq_numbered,
        Elif.relocateAll_eq_map, Expr.outline_relocate, hblock, helifs]
    | some e =>
      have helse := Else.outline_relocate move (ihelse e rfl)
      simp [Stmt.relocate, Stmt.outline, Node.relocate, Elif.outlines_eq_numbered,
        Elif.relocateAll_eq_map, Expr.outline_relocate, hblock, helifs, helse]
  | ret p value =>
    intro path
    cases value with
    | none => simp [Stmt.relocate, Stmt.outline, Node.relocate]
    | some value => simp [Stmt.relocate, Stmt.outline, Node.relocate, Expr.outline_relocate]

theorem EnumDecl.outline_relocate (d : EnumDecl) (path : Path) :
    (d.relocate move).outline path = (d.outline path).relocate move := by
  rw [EnumDecl.outline, EnumDecl.outline, relocate_mk]
  refine congrArg (Outline.mk path _) (numbered_map .constant d.constants (fun c _ p => ?_) path 0)
  simp [leaf, Node.relocate]

theorem Func.outline_relocate (f : Func) (path : Path) :
    (f.relocate move).outline path = (f.outline path).relocate move := by
  have hparams := numbered_map .param f.params
    (fun v _ p => v.outline_relocate move .param (fun _ => rfl) p) path 0
  have hbody := Block.outline_relocate move (b := f.body) fun s _ => s.outline_relocate move
  cases hreturn : f.returnType <;>
    simp [Func.relocate, Func.outline, Node.relocate, TypeRef.outline, leaf, hparams, hbody,
      hreturn]

theorem Item.outline_relocate (item : Item) (path : Path) :
    (item.relocate move).outline path = (item.outline path).relocate move := by
  cases item with
  | globalVar v => exact v.outline_relocate move .globalVar (fun _ => rfl) path
  | enum d => exact d.outline_relocate move path
  | func f => exact f.outline_relocate move path
  | stmt s => exact s.outline_relocate move path

/-- The outline of a moved program is the moved outline. -/
theorem Source.outline_relocate (s : Source) :
    (s.relocate move).outline = s.outline.relocate move := by
  rw [Source.outline, Source.outline, relocate_mk]
  exact congrArg (Outline.mk [] _)
    (numbered_map .item s.items (fun item _ path => item.outline_relocate move path) [] 0)

theorem Source.functions_relocate (s : Source) :
    (s.relocate move).functions = s.functions.map fun x => (x.1, x.2.relocate move) := by
  simp only [functions, relocate, List.zipIdx_map, List.filterMap_map, List.map_filterMap]
  refine List.filterMap_congr fun x _ => ?_
  obtain ⟨item, i⟩ := x
  cases item <;> rfl

end SimCompiler
