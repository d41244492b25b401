import SimCompiler.Proofs.Conversion

/-!
# Typing in scopes that agree

Typing asks what names stand for, and which types there are and convert to each other. The numbers
of functions do not matter to it, nor does the order of types. So where two scopes agree on the
rest, an expression has the same type in both or in none, and a statement passes the check in both
or in none. Errors may differ.
-/
namespace SimCompiler

/-- Both succeed, with answers that `r` relates, or both fail. -/
inductive Result.Agree (r : α → β → Prop) : Result α → Result β → Prop
  | ok {a : α} {b : β} (h : r a b) : Agree r (.ok a) (.ok b)
  | error (e e' : CompileError) : Agree r (.error e) (.error e')

namespace Result

variable {r : α → β → Prop}

theorem Agree.refl (x : Result α) : Agree Eq x x := by
  cases x with
  | ok a => exact .ok rfl
  | error e => exact .error e e

theorem agree_of_eq {x y : Result α} (h : x = y) : Agree Eq x y := h ▸ .refl x

theorem Agree.bind {x : Result α} {y : Result β} {f : α → Result γ} {g : β → Result δ}
    {r' : γ → δ → Prop} (hxy : Agree r x y) (hfg : ∀ a b, r a b → Agree r' (f a) (g b)) :
    Agree r' (x >>= f) (y >>= g) := by
  cases hxy with
  | ok h => exact hfg _ _ h
  | error e e' => exact .error e e'

/-- The same goes on after equal answers. -/
theorem Agree.then {x y : Result α} {f g : α → Result β} {r' : β → β → Prop} (hxy : Agree Eq x y)
    (hfg : ∀ a, Agree r' (f a) (g a)) : Agree r' (x >>= f) (y >>= g) :=
  hxy.bind fun a b hab => by
    subst hab
    exact hfg a

theorem Agree.orPosition {x : Result α} {y : Result β} (h : Agree r x y) (p q : Position) :
    Agree r (x.orPosition p) (y.orPosition q) := by
  cases h with
  | ok h => exact .ok h
  | error e e' => exact .error (e.orPosition p) (e'.orPosition q)

theorem Agree.ok_iff {x y : Result α} (h : Agree Eq x y) (a : α) : x = .ok a ↔ y = .ok a := by
  cases h with
  | ok h => rw [h]
  | error e e' => simp

theorem agree_forM {f g : α → Result Unit} {xs : List α} (h : ∀ x ∈ xs, Agree Eq (f x) (g x)) :
    Agree Eq (forM xs f) (forM xs g) := by
  induction xs with
  | nil => exact .refl _
  | cons x xs ih =>
    rw [List.forM_cons, List.forM_cons]
    exact (h x (by simp)).then fun _ => ih fun y hy => h y (by simp [hy])

end Result

namespace Declaration

/-- The declaration without the number of a function. -/
def plain : Declaration → Declaration
  | .func s => .func { s with id := ⟨0⟩ }
  | d => d

@[simp] theorem name_plain (d : Declaration) : d.plain.name = d.name := by
  cases d <;> rfl

theorem valueType_plain (d : Declaration) : d.plain.valueType = d.valueType := by
  cases d <;> rfl

theorem callable?_plain (d : Declaration) : d.plain.callable? = d.callable? := by
  cases d <;> rfl

/-- Only functions have something to leave out. -/
theorem eq_or_func_of_plain {d d' : Declaration} (h : d.plain = d'.plain) :
    d = d' ∨ ∃ s s', d = .func s ∧ d' = .func s' := by
  cases d with
  | func s =>
    cases d' with
    | func s' => exact .inr ⟨s, s', rfl, rfl⟩
    | _ => cases h
  | _ =>
    cases d' with
    | func s' => cases h
    | _ => exact .inl h

end Declaration

/-- The lattices have the same types and the same conversions. -/
structure Lattice.Alike (l l' : Lattice) : Prop where
  edges : l.edges = l'.edges
  names : l.names.Perm l'.names

namespace Lattice.Alike

variable {l l' : Lattice} (h : l.Alike l')
include h

theorem contains (name : String) : l.contains name = l'.contains name := h.names.contains_eq

theorem follow? (name : String) (s : Search) : l.follow? name s = l'.follow? name s := by
  have hsuccessors : l.successors? = l'.successors? := by
    funext name
    rw [Lattice.successors?, Lattice.successors?, h.contains, h.edges]
  rw [Lattice.follow?, Lattice.follow?, hsuccessors]

theorem search? (s : Search) : l.search? s = l'.search? s := by
  induction s using Lattice.search?.induct l with
  | case1 found => rw [Lattice.search?_nil, Lattice.search?_nil]
  | case2 found name queue s hfollow _ ih =>
    rw [Lattice.search?_cons, Lattice.search?_cons, ← h.follow?, hfollow]
    exact ih
  | case3 found name queue hfollow =>
    rw [Lattice.search?_cons, Lattice.search?_cons, ← h.follow?, hfollow]
    rfl

theorem targets (name : String) : l.targets name = l'.targets name := by
  rw [Lattice.targets, Lattice.targets, h.contains, h.search?]

theorem isConvertible (a b : String) : l.isConvertible a b = l'.isConvertible a b := by
  rw [Lattice.isConvertible, Lattice.isConvertible, h.targets]

theorem lub? (a b : String) : l.lub? a b = l'.lub? a b := by
  rw [Lattice.lub?, Lattice.lub?, Lattice.commonTargets, Lattice.commonTargets, h.targets,
    h.targets]

theorem checkTypeRef (name : String) : l.checkTypeRef name = l'.checkTypeRef name := by
  rw [Lattice.checkTypeRef, Lattice.checkTypeRef, h.contains]

theorem checkUnary (op operand : String) : l.checkUnary op operand = l'.checkUnary op operand := by
  simp only [Lattice.checkUnary, h.isConvertible]

theorem checkBinary (op left right : String) :
    l.checkBinary op left right = l'.checkBinary op left right := by
  simp only [Lattice.checkBinary, Lattice.expectOperands, Lattice.arithmeticType, h.isConvertible,
    h.lub?]

theorem checkAssign (target value : String) :
    l.checkAssign target value = l'.checkAssign target value := by
  rw [Lattice.checkAssign, Lattice.checkAssign, h.isConvertible]

theorem checkUpdate (op target value : String) :
    l.checkUpdate op target value = l'.checkUpdate op target value := by
  simp only [Lattice.checkUpdate, Lattice.expectOperands, h.isConvertible, h.checkAssign]

theorem checkCondition (type : String) : l.checkCondition type = l'.checkCondition type := by
  rw [Lattice.checkCondition, Lattice.checkCondition, h.isConvertible]

end Lattice.Alike

/-- Names stand for the same in both scopes, the numbers of functions apart. -/
structure TypeScope.Alike (c c' : TypeScope) : Prop where
  resolve : ∀ r, Result.Agree (fun d d' => d.plain = d'.plain) (c.resolve r) (c'.resolve r)
  lattice : c.lattice.Alike c'.lattice

theorem TypeScope.agree_operandsOf {c c' : TypeScope} {es : List Expr}
    (ih : ∀ e ∈ es, Result.Agree Eq (c.typeOf e) (c'.typeOf e)) :
    Result.Agree Eq (c.operandsOf es) (c'.operandsOf es) := by
  induction es with
  | nil => exact .refl _
  | cons e es ihes =>
    rw [TypeScope.operandsOf, TypeScope.operandsOf]
    exact (ih e (by simp)).then fun type =>
      (ihes fun e he => ih e (by simp [he])).then fun _ => .refl _

theorem TypeScope.agree_checkBlock {c c' : TypeScope} {func : Option Func} {b : Block}
    (ih : ∀ s ∈ b.stmts, Result.Agree Eq (c.checkStmt func s) (c'.checkStmt func s)) :
    Result.Agree Eq (c.checkBlock func b) (c'.checkBlock func b) := by
  obtain ⟨p, ss⟩ := b
  rw [TypeScope.checkBlock, TypeScope.checkBlock]
  induction ss with
  | nil => exact .refl _
  | cons s ss ihss =>
    rw [TypeScope.checkStmts, TypeScope.checkStmts]
    exact (ih s (by simp)).then fun _ => ihss fun s hs => ih s (by simp [hs])

namespace TypeScope.Alike

open Result

variable {c c' : TypeScope} (h : c.Alike c')
include h

theorem checkRef (r : Ref) :
    Agree (fun d d' => d.plain = d'.plain) (c.checkRef r) (c'.checkRef r) :=
  (h.resolve r).orPosition _ _

theorem checkTypeRef (t : TypeRef) : c.checkTypeRef t = c'.checkTypeRef t := by
  rw [TypeScope.checkTypeRef, TypeScope.checkTypeRef, h.lattice.checkTypeRef]

theorem argsRule (d d' : Declaration) (i : Nat) (params : List String) (args : List Operand) :
    Agree Eq (c.argsRule d i params args) (c'.argsRule d' i params args) := by
  induction params generalizing i args with
  | nil => exact .refl _
  | cons param params ih =>
    cases args with
    | nil => exact .refl _
    | cons arg args =>
      have hfirst : Agree Eq (c.argRule d (i + 1) param arg) (c'.argRule d' (i + 1) param arg) := by
        refine (Agree.refl arg.value).then fun type => ?_
        rw [h.lattice.isConvertible]
        split
        · exact .refl _
        · exact .error _ _
      exact hfirst.then fun _ => ih (i + 1) args

theorem callRule (callee : Ref) (args : List Operand) :
    Agree Eq (c.callRule callee args) (c'.callRule callee args) := by
  refine (h.resolve callee).bind fun d d' hd => ?_
  have hcallable : d.callable? = d'.callable? := by
    rw [← d.callable?_plain, hd, d'.callable?_plain]
  rw [hcallable]
  cases d'.callable? with
  | none => exact .error _ _
  | some signature =>
    obtain ⟨params, result⟩ := signature
    by_cases hcount : params.length ≠ args.length
    · simp only [if_pos hcount]
      exact .error _ _
    · simp only [if_neg hcount]
      refine Agree.then (h.argsRule d d' 0 params args) fun _ => ?_
      cases result with
      | some type => exact .refl _
      | none => exact .error _ _

theorem jsonRule (root : Ref) (indices : List Operand) :
    Agree Eq (c.jsonRule root indices) (c'.jsonRule root indices) := by
  refine (h.resolve root).bind fun d d' hd => ?_
  have hvalue : d.valueType = d'.valueType := by rw [← d.valueType_plain, hd, d'.valueType_plain]
  rw [hvalue]
  have hindices : Agree Eq (forM indices c.indexRule) (forM indices c'.indexRule) := by
    refine agree_forM fun index _ => agree_of_eq ?_
    rw [TypeScope.indexRule, TypeScope.indexRule]
    simp only [h.lattice.isConvertible]
  refine (Agree.refl d'.valueType).then fun type => ?_
  by_cases hjson : type ≠ TypeName.json
  · simp only [if_pos hjson]
    exact .error _ _
  · simp only [if_neg hjson]
    exact hindices

/-- An expression has the same type in both scopes. -/
theorem typeOf (e : Expr) : Agree Eq (c.typeOf e) (c'.typeOf e) := by
  induction e using Expr.induction with
  | bool | int | float | str => exact .refl _
  | ref r =>
    rw [TypeScope.typeOf, TypeScope.typeOf]
    refine (h.checkRef r).bind fun d d' hd => ?_
    rw [← d.valueType_plain, hd, d'.valueType_plain]
    exact .refl _
  | unary p op e ih =>
    rw [TypeScope.typeOf, TypeScope.typeOf]
    refine ih.then fun type => agree_of_eq ?_
    simp only [h.lattice.checkUnary]
  | binary p l op r ihl ihr =>
    rw [TypeScope.typeOf, TypeScope.typeOf]
    refine ihl.then fun left => ihr.then fun right => agree_of_eq ?_
    simp only [h.lattice.checkBinary]
  | call p callee args ih =>
    rw [TypeScope.typeOf, TypeScope.typeOf]
    refine (h.checkRef callee).bind fun _ _ _ => (agree_operandsOf ih).then fun operands => ?_
    exact ((h.callRule callee operands).then fun _ => .refl _).orPosition _ _
  | json p root indices target ih =>
    rw [TypeScope.typeOf, TypeScope.typeOf]
    refine (h.checkRef root).bind fun _ _ _ => (agree_operandsOf ih).then fun operands => ?_
    rw [h.checkTypeRef]
    exact (Agree.refl _).then fun _ =>
      ((h.jsonRule root operands).then fun _ => .refl _).orPosition _ _

theorem operandOf (e : Expr) : Agree Eq (c.operandOf e) (c'.operandOf e) :=
  (h.typeOf e).then fun _ => .refl _

theorem targetType (target : Ref) : Agree Eq (c.targetType target) (c'.targetType target) := by
  refine (h.resolve target).bind fun d d' hd => ?_
  rcases Declaration.eq_or_func_of_plain hd with rfl | ⟨s, s', rfl, rfl⟩
  · exact .refl _
  · exact .error _ _

theorem assignRule (target : Ref) (value : Operand) (declares : Bool) :
    Agree Eq (c.assignRule target value declares) (c'.assignRule target value declares) := by
  refine (h.targetType target).then fun type => agree_of_eq ?_
  simp only [h.lattice.checkAssign]

theorem updateRule (target : Ref) (op : String) (value : Operand) :
    Agree Eq (c.updateRule target op value) (c'.updateRule target op value) := by
  refine (h.targetType target).then fun type => agree_of_eq ?_
  simp only [h.lattice.checkUpdate]

theorem conditionRule (condition : Operand) :
    Agree Eq (c.conditionRule condition) (c'.conditionRule condition) := by
  refine (Agree.refl condition.value).then fun type => agree_of_eq ?_
  rw [h.lattice.checkCondition]

theorem printedRule (e : Expr) : Agree Eq (c.printedRule e) (c'.printedRule e) := by
  cases e with
  | ref r =>
    refine (h.resolve r).bind fun d d' hd => ?_
    rw [← d.callable?_plain, hd, d'.callable?_plain]
    split
    · exact .error _ _
    · exact .refl _
  | _ => exact .refl _

theorem returnRule (func : Option Func) (value : Option Operand) :
    c.returnRule func value = c'.returnRule func value := by
  simp only [TypeScope.returnRule, h.lattice.isConvertible]

theorem checkElifs {func : Option Func} {es : List Elif}
    (ih : ∀ e ∈ es, ∀ s ∈ e.block.stmts, Agree Eq (c.checkStmt func s) (c'.checkStmt func s)) :
    Agree Eq (c.checkElifs func es) (c'.checkElifs func es) := by
  induction es with
  | nil => exact .refl _
  | cons e es ihes =>
    have hfirst : Agree Eq (c.checkElif func e) (c'.checkElif func e) := by
      have hblock := agree_checkBlock (ih e (by simp))
      obtain ⟨p, condition, block⟩ := e
      rw [TypeScope.checkElif, TypeScope.checkElif]
      exact (h.operandOf condition).then fun operand =>
        hblock.then fun _ => (h.conditionRule operand).orPosition p p
    rw [TypeScope.checkElifs, TypeScope.checkElifs]
    exact hfirst.then fun _ => ihes fun e he => ih e (by simp [he])

/-- A statement passes the check in both scopes or in none. -/
theorem checkStmt (func : Option Func) (s : Stmt) :
    Agree Eq (c.checkStmt func s) (c'.checkStmt func s) := by
  induction s using Stmt.induction with
  | pass p => exact .refl _
  | assign p target value declared =>
    rw [TypeScope.checkStmt, TypeScope.checkStmt]
    have hdeclared : declared.forM c.checkVariable = declared.forM c'.checkVariable := by
      cases declared with
      | none => rfl
      | some v => exact h.checkTypeRef v.type
    rw [hdeclared]
    exact (Agree.refl _).then fun _ => (h.checkRef target).bind fun _ _ _ =>
      (h.operandOf value).then fun operand => (h.assignRule target operand _).orPosition p p
  | update p target op value =>
    rw [TypeScope.checkStmt, TypeScope.checkStmt]
    exact (h.checkRef target).bind fun _ _ _ => (h.operandOf value).then fun operand =>
      (h.updateRule target op operand).orPosition p p
  | print p args =>
    rw [TypeScope.checkStmt, TypeScope.checkStmt]
    exact (agree_operandsOf fun e _ => h.typeOf e).then fun _ =>
      (agree_forM fun e _ => h.printedRule e).orPosition p p
  | cond p condition block elifs otherwise ihb ihelifs ihelse =>
    cases otherwise with
    | none =>
      rw [TypeScope.checkStmt, TypeScope.checkStmt]
      exact (h.operandOf condition).then fun operand => (agree_checkBlock ihb).then fun _ =>
        (h.checkElifs ihelifs).then fun _ => (h.conditionRule operand).orPosition p p
    | some e =>
      have helse : Agree Eq (c.checkElse func e) (c'.checkElse func e) := by
        have hblock := agree_checkBlock (ihelse e rfl)
        obtain ⟨q, block⟩ := e
        rw [TypeScope.checkElse, TypeScope.checkElse]
        exact hblock
      rw [TypeScope.checkStmt, TypeScope.checkStmt]
      exact (h.operandOf condition).then fun operand => (agree_checkBlock ihb).then fun _ =>
        (h.checkElifs ihelifs).then fun _ => helse.then fun _ =>
          (h.conditionRule operand).orPosition p p
  | ret p value =>
    cases value with
    | none =>
      rw [TypeScope.checkStmt, TypeScope.checkStmt, h.returnRule]
      exact .refl _
    | some e =>
      rw [TypeScope.checkStmt, TypeScope.checkStmt]
      refine (h.operandOf e).then fun operand => ?_
      rw [h.returnRule]
      exact .refl _

/-- An item passes the check in both scopes or in none. -/
theorem checkItem (item : Item) : Agree Eq (c.checkItem item) (c'.checkItem item) := by
  cases item with
  | globalVar v => exact agree_of_eq (h.checkTypeRef v.type)
  | enum d => exact .refl _
  | func f =>
    have hparams : Agree Eq (forM f.params c.checkVariable) (forM f.params c'.checkVariable) :=
      agree_forM fun v _ => agree_of_eq (h.checkTypeRef v.type)
    have hreturn : f.returnType.forM c.checkTypeRef = f.returnType.forM c'.checkTypeRef := by
      cases f.returnType with
      | none => rfl
      | some t => exact h.checkTypeRef t
    show Agree Eq (c.checkFunc f) (c'.checkFunc f)
    rw [TypeScope.checkFunc, TypeScope.checkFunc, hreturn]
    exact hparams.then fun _ => (Agree.refl _).then fun _ =>
      agree_checkBlock fun s _ => h.checkStmt (some f) s
  | stmt s => exact h.checkStmt none s

end TypeScope.Alike

end SimCompiler
