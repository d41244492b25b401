import SimCompiler.Analysis.Session
import SimCompiler.Proofs.Subtrees

/-!
# What an error blames

An analysis blames names and types, never the syntax. The check of a node either leaves the position
open or points at an operand that the node has as a child.
-/
namespace SimCompiler

/-- The error is a broken invariant, or a fault in the names or types at one of `places`; `none`
stands for a position that is still open. -/
def CompileError.Blames (places : List (Option Position)) : CompileError → Prop
  | .code e => (e.kind = .reference ∨ e.kind = .type) ∧ e.position ∈ places
  | .defect _ => True
  | .render _ => False

namespace CompileError.Blames

variable {places places' : List (Option Position)} {e : CompileError}

theorem mono (h : e.Blames places) (hsub : places ⊆ places') : e.Blames places' := by
  cases e with
  | code c => exact ⟨h.1, hsub h.2⟩
  | defect d => trivial
  | render r => exact h

/-- An open position is filled in. -/
theorem orPosition {p : Position} (h : e.Blames (none :: places)) (hp : some p ∈ places) :
    (e.orPosition p).Blames places := by
  cases e with
  | code c =>
    obtain ⟨hkind, hplace⟩ := h
    refine ⟨hkind, ?_⟩
    obtain ⟨f, _ | q⟩ := c
    · exact hp
    · simpa [CodeError.orPosition] using hplace
  | defect d => trivial
  | render r => exact h

end CompileError.Blames

namespace Result

/-- If `r` is an error, it blames one of `places`. -/
def Blames (places : List (Option Position)) : Result α → Prop
  | .ok _ => True
  | .error e => e.Blames places

variable {places : List (Option Position)}

@[simp] theorem blames_ok (a : α) : Blames places (.ok a) := trivial

@[simp] theorem blames_defect (d : Defect) : Blames places (Result.defect d : Result α) := trivial

@[simp] theorem blames_fault (f : Fault) : Blames places (Result.fault f : Result α) ↔
    (f.kind = .reference ∨ f.kind = .type) ∧ none ∈ places := Iff.rfl

@[simp] theorem blames_fault_bind (f : Fault) (g : α → Result β) :
    Blames places (Result.fault f >>= g) ↔
      (f.kind = .reference ∨ f.kind = .type) ∧ none ∈ places := Iff.rfl

@[simp] theorem blames_ite {c : Prop} [Decidable c] {r r' : Result α} :
    Blames places (if c then r else r') ↔ (c → r.Blames places) ∧ (¬ c → r'.Blames places) := by
  split <;> simp_all

theorem Blames.bind {r : Result α} {f : α → Result β} (hr : r.Blames places)
    (hf : ∀ a, (f a).Blames places) : (r >>= f).Blames places := by
  cases r with
  | ok a => exact hf a
  | error e => exact hr

theorem Blames.orPosition {r : Result α} {p : Position} (h : r.Blames (none :: places))
    (hp : some p ∈ places) : (r.orPosition p).Blames places := by
  cases r with
  | ok a => trivial
  | error e => exact CompileError.Blames.orPosition h hp

theorem blames_forM {f : α → Result Unit} {xs : List α} (h : ∀ x ∈ xs, (f x).Blames places) :
    Blames places (forM xs f) := by
  induction xs with
  | nil => trivial
  | cons x xs ih =>
    rw [List.forM_cons]
    exact (h x (by simp)).bind fun _ => ih fun y hy => h y (by simp [hy])

theorem blames_mapM {f : α → Result β} {xs : List α} (h : ∀ x ∈ xs, (f x).Blames places) :
    Blames places (xs.mapM f) := by
  induction xs with
  | nil => trivial
  | cons x xs ih =>
    rw [List.mapM_cons]
    exact (h x (by simp)).bind fun _ => (ih fun y hy => h y (by simp [hy])).bind fun _ => trivial

end Result

section Tables

variable {places : List (Option Position)}

open Result

theorem SlotTable.blames_read (t : SlotTable α) (slot : Slot) (path : Path) :
    (t.read slot path).Blames places := by
  rw [read]
  split <;> simp

theorem SlotTable.blames_write (t : SlotTable α) (slot : Slot) (path : Path) (a : α) :
    (t.write slot path a).Blames places := by
  rw [write]
  split <;> simp

namespace Scopes

variable (s : Scopes)

theorem blames_frame (id : FrameId) : (s.frame id).Blames places := by
  rw [frame]
  split <;> simp

theorem blames_define (id : FrameId) (d : Declaration) :
    (s.define id d).Blames (none :: places) := by
  rw [define_eq]
  refine (s.blames_frame id).bind fun f => ?_
  split
  · simp [Fault.kind]
  · trivial

theorem blames_lookupWithin (name : String) (steps : Nat) (id : FrameId) :
    (s.lookupWithin name steps id).Blames places := by
  induction steps generalizing id with
  | zero => trivial
  | succ steps ih =>
    rw [lookupWithin]
    refine (s.blames_frame id).bind fun f => ?_
    split
    · trivial
    · exact ih _
    · trivial

theorem blames_resolve (id : FrameId) (name : String) :
    (s.resolve id name).Blames (none :: places) := by
  refine (s.blames_lookupWithin name _ id).bind fun found => ?_
  split
  · trivial
  · simp [Fault.kind]

end Scopes

theorem Annotations.blames_resolve (notes : Annotations) (scopes : Scopes) (path : Path) (r : Ref) :
    (notes.resolve scopes path r).Blames (none :: places) :=
  (notes.refFrames.blames_read _ path).bind fun id => scopes.blames_resolve id r.name

theorem Annotations.blames_writeType (notes : Annotations) (path : Path) (type : String) :
    (notes.writeType path type).Blames places := by
  rw [writeType]
  split
  · split <;> simp
  · simp

end Tables

namespace Lattice

variable {places : List (Option Position)} (l : Lattice)

theorem blames_checkTypeRef (name : String) : (l.checkTypeRef name).Blames (none :: places) := by
  simp [checkTypeRef, Fault.kind]

theorem blames_checkUnary (op operand : String) :
    (l.checkUnary op operand).Blames (none :: places) := by
  simp [checkUnary, Fault.kind]

theorem blames_expectOperands (op left right target : String) :
    (l.expectOperands op left right target).Blames (none :: places) := by
  simp [expectOperands, Fault.kind]

theorem blames_arithmeticType (op left right : String) :
    (l.arithmeticType op left right).Blames (none :: places) := by
  rw [arithmeticType]
  split <;> simp

theorem blames_checkBinary (op left right : String) :
    (l.checkBinary op left right).Blames (none :: places) := by
  have hexpect : ∀ target, (l.expectOperands op left right target).Blames (none :: places) :=
    l.blames_expectOperands op left right
  rw [checkBinary]
  split
  · exact (hexpect _).bind fun _ => trivial
  · split
    · exact (hexpect _).bind fun _ => trivial
    · trivial
  · exact (hexpect _).bind fun _ => l.blames_arithmeticType op left right
  · exact (hexpect _).bind fun _ => l.blames_arithmeticType op left right
  · exact (hexpect _).bind fun _ => trivial
  · trivial

theorem blames_checkAssign (target value : String) :
    (l.checkAssign target value).Blames (none :: places) := by
  simp [checkAssign, Fault.kind]

theorem blames_checkUpdate (op target value : String) :
    (l.checkUpdate op target value).Blames (none :: places) := by
  rw [checkUpdate]
  split
  · exact (l.blames_expectOperands op target value _).bind fun _ =>
      l.blames_checkAssign target value
  · trivial

theorem blames_checkCondition (type : String) :
    (l.checkCondition type).Blames (none :: places) := by
  simp [checkCondition, Fault.kind]

end Lattice

/-- The expressions right below a node that a fault of the node may point at. -/
def Node.operands : Node → List Expr
  | .expr (.call _ _ args) => args
  | .expr (.json _ _ indices _) => indices
  | .stmt (.print _ args) => args
  | .stmt (.cond _ condition _ _ _) => [condition]
  | .elif branch => [branch.condition]
  | _ => []

/-- The places that a fault of the node may point at: the node itself, left open, or an operand. -/
def Node.places (node : Node) : List (Option Position) :=
  none :: node.operands.map fun e => some e.position

theorem Node.operand_mem_children {node : Node} {e : Expr} (h : e ∈ node.operands) (path : Path) :
    ∃ path', e.outline path' ∈ (node.outline path).children := by
  cases node with
  | elif branch =>
    obtain ⟨p, condition, b⟩ := branch
    obtain rfl := List.mem_singleton.mp h
    exact ⟨.condition :: path, by simp [Node.outline, Elif.outline]⟩
  | expr e' =>
    cases e' with
    | call p callee args =>
      change e ∈ args at h
      obtain ⟨path', hpath'⟩ := Expr.exists_outline_mem h path
      exact ⟨path', by simp [Node.outline, Expr.outline, hpath']⟩
    | json p root indices target =>
      change e ∈ indices at h
      obtain ⟨path', hpath'⟩ := Expr.exists_outline_mem h path
      exact ⟨path', by simp [Node.outline, Expr.outline, hpath']⟩
    | _ => simp [Node.operands] at h
  | stmt st =>
    cases st with
    | print p args =>
      change e ∈ args at h
      obtain ⟨path', hpath'⟩ := Expr.exists_outline_mem h path
      exact ⟨path', by simp [Node.outline, Stmt.outline, hpath']⟩
    | cond p condition b elifs otherwise =>
      obtain rfl := List.mem_singleton.mp h
      refine ⟨.condition :: path, ?_⟩
      cases otherwise <;> simp [Node.outline, Stmt.outline]
    | _ => simp [Node.operands] at h
  | _ => simp [Node.operands] at h

namespace TypeContext

variable {places : List (Option Position)} (cx : TypeContext) (notes : Annotations) (path : Path)

theorem blames_exprType (e : Expr) :
    (notes.exprType cx.scopes path e).Blames (none :: places) := by
  cases e with
  | ref r =>
    refine (notes.blames_resolve cx.scopes path r).bind fun d => ?_
    cases d <;> trivial
  | unary | binary | call =>
    change (notes.readType path).Blames _
    rw [Annotations.readType]
    split <;> simp
  | _ => trivial

theorem blames_targetType (target : Ref) :
    (cx.targetType notes path target).Blames (none :: places) := by
  refine (notes.blames_resolve cx.scopes path target).bind fun d => ?_
  cases d <;> first | trivial | simp [Fault.kind]

theorem blames_checkArgs (d : Declaration) (args : List Expr) :
    ∀ (i : Nat) (params : List String),
      (∀ e ∈ args, some e.position ∈ places) →
      (cx.checkArgs notes path d i params args).Blames (none :: places) := by
  induction args with
  | nil =>
    intro i params _
    cases params <;> trivial
  | cons arg args ih =>
    intro i params hargs
    cases params with
    | nil => trivial
    | cons param params =>
      have harg : (cx.checkArg notes path d i param arg).Blames (none :: places) := by
        refine (cx.blames_exprType notes _ arg).bind fun type => ?_
        split
        · trivial
        · refine Result.Blames.orPosition ?_ (List.mem_cons_of_mem _ (hargs arg (by simp)))
          simp [Fault.kind]
      exact harg.bind fun _ => ih (i + 1) params fun e he => hargs e (by simp [he])

theorem blames_callType (p : Position) (callee : Ref) (args : List Expr) :
    (cx.callType notes path callee args).Blames (Node.expr (.call p callee args)).places := by
  have hargs : ∀ d params, (cx.checkArgs notes path d 0 params args).Blames
      (Node.expr (.call p callee args)).places := fun d params =>
    cx.blames_checkArgs notes path d args 0 params fun e he => List.mem_map_of_mem he
  refine (notes.blames_resolve cx.scopes _ callee).bind fun d => ?_
  cases hcallable : d.callable? with
  | none => simp [Fault.kind]
  | some signature =>
    obtain ⟨params, result⟩ := signature
    refine Result.blames_ite.mpr ⟨fun _ => ?_, fun _ => (hargs d params).bind fun _ => ?_⟩
    · simp [Fault.kind]
    · cases result <;> simp [Fault.kind, Node.places]

theorem blames_checkIndices (indices : List Expr) : ∀ i : Nat,
    (∀ e ∈ indices, some e.position ∈ places) →
    (cx.checkIndices notes path i indices).Blames (none :: places) := by
  induction indices with
  | nil => exact fun _ _ => trivial
  | cons e es ih =>
    intro i hindices
    have hindex : (cx.checkIndex notes path i e).Blames (none :: places) := by
      refine (cx.blames_exprType notes _ e).bind fun type => ?_
      split
      · trivial
      · refine Result.Blames.orPosition ?_ (List.mem_cons_of_mem _ (hindices e (by simp)))
        simp [Fault.kind]
    exact hindex.bind fun _ => ih (i + 1) fun e he => hindices e (by simp [he])

theorem blames_checkJson (p : Position) (root : Ref) (indices : List Expr) (target : TypeRef) :
    (cx.checkJson notes path root indices).Blames
      (Node.expr (.json p root indices target)).places := by
  have hindices : (cx.checkIndices notes path 0 indices).Blames
      (Node.expr (.json p root indices target)).places :=
    cx.blames_checkIndices notes path indices 0 fun e he => List.mem_map_of_mem he
  refine (notes.blames_resolve cx.scopes _ root).bind fun d => Result.Blames.bind ?_ fun type => ?_
  · cases d <;> trivial
  · split
    · simp [Fault.kind]
    · exact hindices

theorem blames_checkCondition {condition : Expr} (h : some condition.position ∈ places) :
    (cx.checkCondition notes path condition).Blames (none :: places) := by
  refine (cx.blames_exprType notes _ condition).bind fun type => ?_
  exact (cx.lattice.blames_checkCondition type).orPosition (List.mem_cons_of_mem _ h)

theorem blames_checkPrint (args : List Expr) : ∀ i : Nat,
    (∀ e ∈ args, some e.position ∈ places) →
    (cx.checkPrint notes path i args).Blames (none :: places) := by
  induction args with
  | nil => exact fun _ _ => trivial
  | cons e es ih =>
    intro i hargs
    have hprinted : (cx.checkPrinted notes path i e).Blames (none :: places) := by
      cases e with
      | ref r =>
        refine (notes.blames_resolve cx.scopes _ r).bind fun d => ?_
        split
        · refine Result.Blames.orPosition ?_ (List.mem_cons_of_mem _ (hargs (.ref r) (by simp)))
          simp [Fault.kind]
        · trivial
      | _ => trivial
    exact hprinted.bind fun _ => ih (i + 1) fun e he => hargs e (by simp [he])

theorem blames_checkReturn (func : Func) (value : Option Expr) :
    (cx.checkReturn notes path func value).Blames (none :: places) := by
  unfold checkReturn
  split
  · refine (cx.blames_exprType notes _ _).bind fun type => ?_
    split
    · trivial
    · simp [Fault.kind]
  · simp [Fault.kind]
  · simp [Fault.kind]
  · trivial

theorem blames_checkAssign (target : Ref) (value : Expr) (declares : Bool) :
    (cx.checkAssign notes path target value declares).Blames (none :: places) := by
  refine (cx.blames_targetType notes _ target).bind fun type => ?_
  split
  · simp [Fault.kind]
  · exact (cx.blames_exprType notes _ value).bind fun found =>
      cx.lattice.blames_checkAssign type.name found

theorem blames_checkUpdate (target : Ref) (op : String) (value : Expr) :
    (cx.checkUpdate notes path target op value).Blames (none :: places) := by
  refine (cx.blames_targetType notes _ target).bind fun type => ?_
  split
  · simp [Fault.kind]
  · exact (cx.blames_exprType notes _ value).bind fun found =>
      cx.lattice.blames_checkUpdate op type.name found

/-- A fault in a node is reported at the node or at one of its operands. -/
theorem blames_checkNode (funcs : List Func) (node : Node) :
    (cx.checkNode notes path funcs node).Blames node.places := by
  cases node with
  | typeRef t => exact (cx.lattice.blames_checkTypeRef t.name).bind fun _ => trivial
  | elif branch =>
    exact (cx.blames_checkCondition notes path (List.mem_singleton.mpr rfl)).bind fun _ => trivial
  | expr e =>
    cases e with
    | ref r => exact (notes.blames_resolve cx.scopes path r).bind fun _ => trivial
    | unary p op e =>
      exact (cx.blames_exprType notes _ e).bind fun type =>
        (cx.lattice.blames_checkUnary op type).bind fun _ => trivial
    | binary p l op r =>
      exact (cx.blames_exprType notes _ l).bind fun left =>
        (cx.blames_exprType notes _ r).bind fun right =>
          (cx.lattice.blames_checkBinary op left right).bind fun _ => trivial
    | call p callee args =>
      exact (cx.blames_callType notes path p callee args).bind fun _ => trivial
    | json p root indices target =>
      exact (cx.blames_checkJson notes path p root indices target).bind fun _ => trivial
    | _ => trivial
  | stmt st =>
    cases st with
    | assign p target value declared =>
      exact (cx.blames_checkAssign notes path target value declared.isSome).bind fun _ => trivial
    | update p target op value =>
      exact (cx.blames_checkUpdate notes path target op value).bind fun _ => trivial
    | cond p condition b elifs otherwise =>
      exact (cx.blames_checkCondition notes path (List.mem_singleton.mpr rfl)).bind fun _ => trivial
    | print p args =>
      have hargs : ∀ e ∈ args, some e.position ∈ args.map fun e => some e.position :=
        fun e he => List.mem_map_of_mem he
      exact (cx.blames_checkPrint notes path args 0 hargs).bind fun _ => trivial
    | ret p value =>
      cases funcs with
      | nil => trivial
      | cons func funcs =>
        exact (cx.blames_checkReturn notes path func value).bind fun _ => trivial
    | pass p => trivial
  | _ => trivial

end TypeContext

end SimCompiler
