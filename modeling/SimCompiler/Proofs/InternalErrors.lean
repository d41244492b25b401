import SimCompiler.Proofs.Annotated

/-!
# Internal errors

A program in which every operator is one of the language, no return statement stands outside of a
function and no enumeration is used as a value is accepted, or it is rejected with an error about
the program. Slots, frames, the stack of functions and the call graph are no concern here: the
analyses do what functions without them say. What is left are the typing rules, each of which has
a defect for what it takes for granted.
-/
namespace SimCompiler

namespace Result

/-- The answer satisfies `p`, or the program is at fault. -/
def Meets (p : α → Prop) : Result α → Prop
  | .ok a => p a
  | .error e => ∃ c, e = .code c

@[simp] theorem meets_ok {p : α → Prop} {a : α} : Meets p (.ok a) ↔ p a := Iff.rfl

@[simp] theorem meets_fault (p : α → Prop) (f : Fault) : Meets p (Result.fault f) := ⟨_, rfl⟩

theorem Meets.bind {p : α → Prop} {q : β → Prop} {r : Result α} {f : α → Result β}
    (hr : r.Meets p) (hf : ∀ a, r = .ok a → p a → (f a).Meets q) : (r >>= f).Meets q := by
  cases r with
  | ok a => exact hf a rfl hr
  | error e => exact hr

theorem Meets.orPosition {p : α → Prop} {r : Result α} (hr : r.Meets p) (position : Position) :
    (r.orPosition position).Meets p := by
  cases r with
  | ok a => exact hr
  | error e =>
    obtain ⟨c, rfl⟩ := hr
    exact ⟨c.orPosition position, rfl⟩

theorem meets_ite {p : α → Prop} {c : Prop} [Decidable c] {r r' : Result α} (hr : c → r.Meets p)
    (hr' : ¬ c → r'.Meets p) : (if c then r else r').Meets p := by
  split
  · exact hr ‹_›
  · exact hr' ‹_›

/-- A step that may fail in front of the rest. -/
theorem Meets.guard {p : β → Prop} {c : Prop} [Decidable c] (f : Fault) {r : α → Result β}
    {r' : Result β} (hr' : ¬ c → r'.Meets p) :
    (if c then Result.fault f >>= r else r').Meets p :=
  meets_ite (fun _ => ⟨_, rfl⟩) hr'

theorem meets_forM {xs : List α} {f : α → Result Unit} (h : ∀ x ∈ xs, (f x).Meets fun _ => True) :
    (forM xs f).Meets fun _ => True := by
  induction xs with
  | nil => trivial
  | cons x xs ih =>
    rw [List.forM_cons]
    exact (h x (by simp)).bind fun _ _ _ => ih fun y hy => h y (by simp [hy])

end Result

theorem Pass.Follows.code_of_meets {x : Pass σ Unit} {s s' : σ} {r : Result α} {q : α → σ → Prop}
    {p : α → Prop} (hx : x.Follows s r q) (hr : r.Meets p) {e : CompileError}
    (h : x s = .error e s') : ∃ c, e = .code c := by
  cases r with
  | ok a =>
    obtain ⟨t, ht, -⟩ := hx
    cases ht.symm.trans h
  | error e' =>
    obtain ⟨t, ht⟩ := hx
    cases ht.symm.trans h
    exact hr

/-- The unary operators of the language. -/
def unaryOperators : List String := ["-", "not"]

/-- The binary operators of the language. -/
def binaryOperators : List String :=
  ["and", "or", "<", "<=", ">", ">=", "==", "!=", "+", "-", "*", "/", "%", "**"]

/-- The operators of update statements. -/
def updateOperators : List String := ["+=", "-=", "*=", "/="]

namespace Lattice

variable {l : Lattice}

theorem meets_checkTypeRef (name : String) : (l.checkTypeRef name).Meets fun _ => True :=
  Result.meets_ite (fun _ => trivial) fun _ => Result.meets_fault _ _

theorem meets_checkUnary {op : String} (hop : op ∈ unaryOperators) (operand : String) :
    (l.checkUnary op operand).Meets fun _ => True := by
  have hknown : (op == "-" || op == "not") = true := by
    simpa [unaryOperators] using hop
  rw [checkUnary, if_pos hknown]
  refine Result.meets_ite (fun _ => Result.meets_fault _ _) fun _ => ?_
  exact Result.meets_ite (fun _ => trivial) fun _ =>
    Result.meets_ite (fun _ => trivial) fun _ => trivial

theorem meets_expectOperands (op left right target : String) :
    (l.expectOperands op left right target).Meets fun _ =>
      l.isConvertible left target = true ∧ l.isConvertible right target = true := by
  refine Result.meets_ite (fun _ => Result.meets_fault _ _) fun hleft => ?_
  refine Result.meets_ite (fun _ => Result.meets_fault _ _) fun hright => ?_
  exact ⟨by simpa using hleft, by simpa using hright⟩

/-- Two types that convert to a common type have a nearest one. -/
theorem meets_arithmeticType (hclosed : l.Closed) (op : String) {left right target : String}
    (htarget : l.contains target = true) (hleft : l.isConvertible left target = true)
    (hright : l.isConvertible right target = true) :
    (l.arithmeticType op left right).Meets fun _ => True := by
  obtain ⟨type, htype⟩ := exists_lub? hclosed htarget hleft hright
  rw [arithmeticType, htype]
  trivial

theorem meets_checkBinary (hclosed : l.Closed) (hl : l.HasStandard) {op : String}
    (hop : op ∈ binaryOperators) (left right : String) :
    (l.checkBinary op left right).Meets fun _ => True := by
  have hall : ∀ op ∈ binaryOperators, (OperatorClass.ofSymbol? op).isSome = true := by decide
  obtain ⟨k, hk⟩ := Option.isSome_iff_exists.mp (hall op hop)
  have hfloat := l.meets_expectOperands op left right TypeName.float
  rw [checkBinary, hk]
  cases k with
  | comparison => exact hfloat.bind fun _ _ _ => trivial
  | equality =>
    exact Result.meets_ite (fun _ => hfloat.bind fun _ _ _ => trivial) fun _ => trivial
  | arithmetic =>
    refine hfloat.bind fun _ _ h => ?_
    exact meets_arithmeticType hclosed op (hl _ (by decide)) h.1 h.2
  | remainder =>
    refine (l.meets_expectOperands op left right TypeName.int).bind fun _ _ h => ?_
    exact meets_arithmeticType hclosed op (hl _ (by decide)) h.1 h.2
  | power => exact hfloat.bind fun _ _ _ => trivial

theorem meets_checkAssign (target value : String) :
    (l.checkAssign target value).Meets fun _ => True :=
  Result.meets_ite (fun _ => trivial) fun _ => Result.meets_fault _ _

theorem meets_checkUpdate {op : String} (hop : op ∈ updateOperators) (target value : String) :
    (l.checkUpdate op target value).Meets fun _ => True := by
  have hknown : (op == "+=" || op == "-=" || op == "*=" || op == "/=") = true := by
    simpa [updateOperators, or_assoc] using hop
  rw [checkUpdate, if_pos hknown]
  exact (meets_expectOperands op target value _).bind fun _ _ _ => meets_checkAssign _ _

theorem meets_checkCondition (type : String) : (l.checkCondition type).Meets fun _ => True :=
  Result.meets_ite (fun _ => trivial) fun _ => Result.meets_fault _ _

end Lattice

/-- The operator of the node, if it has one, is one of the language. -/
def Node.KnownOperator : Node → Prop
  | .expr (.unary _ op _) => op ∈ unaryOperators
  | .expr (.binary _ _ op _) => op ∈ binaryOperators
  | .stmt (.update _ _ op _) => op ∈ updateOperators
  | _ => True

/-- A reference at the path is used as a value: it is neither called nor assigned to. -/
def Path.IsValue : Path → Prop
  | .callee :: _ => False
  | .target :: _ => False
  | _ => True

theorem Operand.meets_value {o : Operand} (h : o.type ≠ none) : o.value.Meets fun _ => True := by
  obtain ⟨type, htype⟩ := Option.ne_none_iff_exists'.mp h
  rw [value_eq_ok_iff.mpr htype]
  trivial

theorem Declaration.meets_resolveIn (declarations : List Declaration) (name : String) :
    (Declaration.resolveIn declarations name).Meets fun _ => True := by
  rw [Declaration.resolveIn]
  split
  · trivial
  · exact Result.meets_fault _ _

theorem Declaration.valueType_eq_ok {d : Declaration} (h : ∀ t, d ≠ .enum t) :
    ∃ type, d.valueType = .ok type := by
  cases d with
  | enum t => exact absurd rfl (h t)
  | _ => exact ⟨_, rfl⟩

namespace TypeScope

/-- What the typing rules take for granted about a node of the function `func`, or of the program
itself. -/
structure Expects (c : TypeScope) (func : Option Func) (x : Path × Node) : Prop where
  operator : x.2.KnownOperator
  value : ∀ r t, x.2 = .ref r → x.1.IsValue → c.resolve r ≠ .ok (.enum t)
  owner : ∀ p value, x.2 = .stmt (.ret p value) → func ≠ none

variable {c : TypeScope} {func : Option Func}

theorem meets_checkRef (r : Ref) : (c.checkRef r).Meets fun _ => True :=
  (Declaration.meets_resolveIn c.inScope r.name).orPosition r.position

theorem meets_checkTypeRef (t : TypeRef) : (c.checkTypeRef t).Meets fun _ => True :=
  (Lattice.meets_checkTypeRef t.name).orPosition t.position

theorem meets_argsRule (d : Declaration) (i : Nat) (params : List String) {args : List Operand}
    (h : Operand.AllTyped args) : (c.argsRule d i params args).Meets fun _ => True := by
  induction args generalizing i params with
  | nil => cases params <;> trivial
  | cons arg args ih =>
    cases params with
    | nil => trivial
    | cons param params =>
      rw [Operand.allTyped_cons] at h
      refine Result.Meets.bind (p := fun _ => True) ?_ fun _ _ _ => ih (i + 1) params h.2
      refine (Operand.meets_value h.1).bind fun type _ _ => ?_
      exact Result.meets_ite (fun _ => trivial) fun _ => (Result.meets_fault _ _).orPosition _

theorem meets_callRule (callee : Ref) {args : List Operand} (h : Operand.AllTyped args) :
    (c.callRule callee args).Meets fun _ => True := by
  refine (Declaration.meets_resolveIn c.inScope callee.name).bind fun d _ _ => ?_
  cases d.callable? with
  | none => exact Result.meets_fault _ _
  | some signature =>
    obtain ⟨params, result⟩ := signature
    refine Result.Meets.guard _ fun _ => (meets_argsRule d 0 params h).bind fun _ _ _ => ?_
    cases result with
    | none => exact Result.meets_fault _ _
    | some type => trivial

theorem meets_jsonRule {root : Ref} (hroot : ∀ t, c.resolve root ≠ .ok (.enum t))
    {indices : List Operand} (h : Operand.AllTyped indices) :
    (c.jsonRule root indices).Meets fun _ => True := by
  refine (Declaration.meets_resolveIn c.inScope root.name).bind fun d hd _ => ?_
  obtain ⟨type, htype⟩ := Declaration.valueType_eq_ok fun t ht => hroot t (ht ▸ hd)
  rw [htype, Result.ok_bind]
  refine Result.Meets.guard _ fun _ => Result.meets_forM fun index hindex => ?_
  refine (Operand.meets_value (h index hindex)).bind fun type _ _ => ?_
  exact Result.meets_ite (fun _ => trivial) fun _ => (Result.meets_fault _ _).orPosition _

theorem meets_operandsOf {path : Path} {es : List Expr}
    (h : ∀ e ∈ es, ∀ path : Path, path.IsValue → (∀ x ∈ (e.outline path).nodes, c.Expects func x) →
      (c.typeOf e).Meets (· ≠ none))
    (i : Nat) (hnodes : ∀ x ∈ Outline.nodesAll (Expr.outlines path i es), c.Expects func x) :
    (c.operandsOf es).Meets Operand.AllTyped := by
  induction es generalizing i with
  | nil => exact Operand.allTyped_nil
  | cons e es ih =>
    rw [Expr.outlines, Outline.nodesAll_cons, List.forall_mem_append] at hnodes
    refine (h e (by simp) (.arg i :: path) trivial hnodes.1).bind fun type _ htype => ?_
    refine (ih (fun e he => h e (by simp [he])) (i + 1) hnodes.2).bind fun operands _ hrest => ?_
    exact (Operand.allTyped_cons _ _).mpr ⟨htype, hrest⟩

/-- An expression has a type or is at fault. -/
theorem meets_typeOf (hclosed : c.lattice.Closed) (hl : c.lattice.HasStandard) (e : Expr) :
    ∀ path : Path, path.IsValue → (∀ x ∈ (e.outline path).nodes, c.Expects func x) →
      (c.typeOf e).Meets (· ≠ none) := by
  induction e using Expr.induction with
  | bool | int | float | str =>
    intro path _ _
    rw [typeOf]
    exact Option.some_ne_none _
  | ref r =>
    intro path hpath hnodes
    have hself := hnodes (path, .ref r) (by simp [Expr.outline, Ref.outline])
    rw [typeOf]
    refine (meets_checkRef r).bind fun d hd _ => ?_
    have hresolve : c.resolve r = .ok d := Result.orPosition_eq_ok_iff.mp hd
    obtain ⟨type, htype⟩ := Declaration.valueType_eq_ok fun t ht =>
      hself.value r t rfl hpath (ht ▸ hresolve)
    rw [htype]
    exact Option.some_ne_none _
  | unary p op e ih =>
    intro path _ hnodes
    rw [Expr.outline, Outline.nodes_mk, List.forall_mem_cons] at hnodes
    have hchild := ih (.operand :: path) trivial (by simpa using hnodes.2)
    rw [typeOf]
    refine hchild.bind fun type _ htype => Result.Meets.orPosition ?_ p
    refine (Operand.meets_value htype).bind fun t _ _ => ?_
    refine (Lattice.meets_checkUnary hnodes.1.operator t).bind fun _ _ _ => ?_
    exact Option.some_ne_none _
  | binary p l op r ihl ihr =>
    intro path _ hnodes
    rw [Expr.outline, Outline.nodes_mk, List.forall_mem_cons] at hnodes
    simp only [Outline.nodesAll_cons, Outline.nodesAll_nil, List.append_nil,
      List.forall_mem_append] at hnodes
    rw [typeOf]
    refine (ihl (.left :: path) trivial hnodes.2.1).bind fun left _ hleft => ?_
    refine (ihr (.right :: path) trivial hnodes.2.2).bind fun right _ hright => ?_
    refine Result.Meets.orPosition ?_ p
    refine (Operand.meets_value hleft).bind fun t _ _ => ?_
    refine (Operand.meets_value hright).bind fun u _ _ => ?_
    refine (Lattice.meets_checkBinary hclosed hl hnodes.1.operator t u).bind fun _ _ _ => ?_
    exact Option.some_ne_none _
  | call p callee args ih =>
    intro path _ hnodes
    rw [Expr.outline, Outline.nodes_mk, List.forall_mem_cons, Outline.nodesAll_cons,
      List.forall_mem_append] at hnodes
    rw [typeOf]
    refine (meets_checkRef callee).bind fun _ _ _ => ?_
    refine (meets_operandsOf ih 0 hnodes.2.2).bind fun operands _ htyped => ?_
    refine Result.Meets.orPosition ?_ p
    exact (meets_callRule callee htyped).bind fun _ _ _ => Option.some_ne_none _
  | json p root indices target ih =>
    intro path _ hnodes
    rw [Expr.outline, Outline.nodes_mk, List.forall_mem_cons, Outline.nodesAll_append,
      Outline.nodesAll_cons, List.forall_mem_append, List.forall_mem_append] at hnodes
    have hroot := hnodes.2.1.1 (.root :: path, .ref root) (by simp [Ref.outline])
    rw [typeOf]
    refine (meets_checkRef root).bind fun _ _ _ => ?_
    refine (meets_operandsOf ih 0 hnodes.2.1.2).bind fun operands _ htyped => ?_
    refine (meets_checkTypeRef target).bind fun _ _ _ => Result.Meets.orPosition ?_ p
    refine (meets_jsonRule (fun t => hroot.value root t rfl trivial) htyped).bind fun _ _ _ => ?_
    exact Option.some_ne_none _

theorem meets_operandOf (hclosed : c.lattice.Closed) (hl : c.lattice.HasStandard) {e : Expr}
    {path : Path} (hnodes : ∀ x ∈ (e.outline path).nodes, c.Expects func x) (hpath : path.IsValue) :
    (c.operandOf e).Meets fun operand => operand.type ≠ none :=
  (meets_typeOf hclosed hl e path hpath hnodes).bind fun _ _ htype => htype

theorem meets_targetType (target : Ref) : (c.targetType target).Meets fun _ => True := by
  refine (Declaration.meets_resolveIn c.inScope target.name).bind fun d _ _ => ?_
  cases d <;> first | trivial | exact Result.meets_fault _ _

theorem meets_assignRule (target : Ref) {value : Operand} (hvalue : value.type ≠ none)
    (declares : Bool) : (c.assignRule target value declares).Meets fun _ => True := by
  refine (meets_targetType target).bind fun type _ _ => Result.Meets.guard _ fun _ => ?_
  exact (Operand.meets_value hvalue).bind fun _ _ _ => Lattice.meets_checkAssign _ _

theorem meets_updateRule (target : Ref) {op : String} (hop : op ∈ updateOperators)
    {value : Operand} (hvalue : value.type ≠ none) :
    (c.updateRule target op value).Meets fun _ => True := by
  refine (meets_targetType target).bind fun type _ _ => Result.Meets.guard _ fun _ => ?_
  exact (Operand.meets_value hvalue).bind fun _ _ _ => Lattice.meets_checkUpdate hop _ _

theorem meets_conditionRule {condition : Operand} (h : condition.type ≠ none) :
    (c.conditionRule condition).Meets fun _ => True :=
  (Operand.meets_value h).bind fun _ _ _ => (Lattice.meets_checkCondition _).orPosition _

theorem meets_printedRule (e : Expr) : (c.printedRule e).Meets fun _ => True := by
  cases e with
  | ref r =>
    refine (Declaration.meets_resolveIn c.inScope r.name).bind fun d _ _ => ?_
    exact Result.meets_ite (fun _ => (Result.meets_fault _ _).orPosition _) fun _ => trivial
  | _ => trivial

theorem meets_returnRule (hfunc : func ≠ none) {value : Option Operand}
    (hvalue : ∀ operand, value = some operand → operand.type ≠ none) :
    (c.returnRule func value).Meets fun _ => True := by
  obtain ⟨f, rfl⟩ := Option.ne_none_iff_exists'.mp hfunc
  simp only [returnRule]
  cases f.returnType with
  | none =>
    cases value with
    | none => trivial
    | some operand => exact Result.meets_fault _ _
  | some type =>
    cases value with
    | none => exact Result.meets_fault _ _
    | some operand =>
      refine (Operand.meets_value (hvalue operand rfl)).bind fun _ _ _ => ?_
      exact Result.meets_ite (fun _ => trivial) fun _ => Result.meets_fault _ _

theorem meets_checkBlock {b : Block} {path : Path}
    (h : ∀ s ∈ b.stmts, ∀ path, (∀ x ∈ (s.outline path).nodes, c.Expects func x) →
      (c.checkStmt func s).Meets fun _ => True)
    (hnodes : ∀ x ∈ (b.outline path).nodes, c.Expects func x) :
    (c.checkBlock func b).Meets fun _ => True := by
  obtain ⟨p, ss⟩ := b
  have hstmts : ∀ (ss : List Stmt) (i : Nat), (∀ s ∈ ss, ∀ path,
      (∀ x ∈ (s.outline path).nodes, c.Expects func x) → (c.checkStmt func s).Meets fun _ => True) →
      (∀ x ∈ Outline.nodesAll (Stmt.outlines path i ss), c.Expects func x) →
      (c.checkStmts func ss).Meets fun _ => True := by
    intro ss
    induction ss with
    | nil =>
      intro i _ _
      rw [checkStmts]
      trivial
    | cons s ss ih =>
      intro i h hnodes
      rw [Stmt.outlines, Outline.nodesAll_cons, List.forall_mem_append] at hnodes
      rw [checkStmts]
      exact (h s (by simp) _ hnodes.1).bind fun _ _ _ =>
        ih (i + 1) (fun t ht => h t (by simp [ht])) hnodes.2
  rw [Block.outline, Outline.nodes_mk, List.forall_mem_cons] at hnodes
  rw [checkBlock]
  exact hstmts ss 0 h hnodes.2

theorem meets_checkElifs (hclosed : c.lattice.Closed) (hl : c.lattice.HasStandard) {path : Path}
    {es : List Elif} (i : Nat)
    (h : ∀ e ∈ es, ∀ s ∈ e.block.stmts, ∀ path, (∀ x ∈ (s.outline path).nodes, c.Expects func x) →
      (c.checkStmt func s).Meets fun _ => True)
    (hnodes : ∀ x ∈ Outline.nodesAll (Elif.outlines path i es), c.Expects func x) :
    (c.checkElifs func es).Meets fun _ => True := by
  induction es generalizing i with
  | nil =>
    rw [checkElifs]
    trivial
  | cons e es ih =>
    obtain ⟨p, condition, block⟩ := e
    rw [Elif.outlines, Outline.nodesAll_cons, List.forall_mem_append, Elif.outline,
      Outline.nodes_mk, List.forall_mem_cons] at hnodes
    obtain ⟨⟨-, hbranch⟩, hrest⟩ := hnodes
    simp only [Outline.nodesAll_cons, Outline.nodesAll_nil, List.append_nil,
      List.forall_mem_append] at hbranch
    rw [checkElifs, checkElif]
    refine Result.Meets.bind (p := fun _ => True) ?_ fun _ _ _ =>
      ih (i + 1) (fun e he => h e (by simp [he])) hrest
    refine (meets_operandOf hclosed hl hbranch.1 trivial).bind fun operand _ htyped => ?_
    refine (meets_checkBlock (h ⟨p, condition, block⟩ (by simp)) hbranch.2).bind fun _ _ _ => ?_
    exact (meets_conditionRule htyped).orPosition p

/-- A statement is accepted or at fault. -/
theorem meets_checkStmt (hclosed : c.lattice.Closed) (hl : c.lattice.HasStandard) (s : Stmt) :
    ∀ path, (∀ x ∈ (s.outline path).nodes, c.Expects func x) →
      (c.checkStmt func s).Meets fun _ => True := by
  induction s using Stmt.induction with
  | pass p =>
    intro path _
    rw [checkStmt]
    trivial
  | assign p target value declared =>
    intro path hnodes
    rw [Stmt.outline, Outline.nodes_mk, List.forall_mem_cons, Outline.nodesAll_append,
      List.forall_mem_append] at hnodes
    obtain ⟨-, -, hrest⟩ := hnodes
    simp only [Outline.nodesAll_cons, Outline.nodesAll_nil, List.append_nil,
      List.forall_mem_append] at hrest
    have hdeclared : (declared.forM c.checkVariable).Meets fun _ => True := by
      cases declared with
      | none => trivial
      | some v => exact meets_checkTypeRef v.type
    rw [checkStmt]
    refine hdeclared.bind fun _ _ _ => (meets_checkRef target).bind fun _ _ _ => ?_
    refine (meets_operandOf hclosed hl hrest.2 trivial).bind fun operand _ htyped => ?_
    exact (meets_assignRule target htyped _).orPosition p
  | update p target op value =>
    intro path hnodes
    rw [Stmt.outline, Outline.nodes_mk, List.forall_mem_cons] at hnodes
    obtain ⟨hself, hrest⟩ := hnodes
    simp only [Outline.nodesAll_cons, Outline.nodesAll_nil, List.append_nil,
      List.forall_mem_append] at hrest
    rw [checkStmt]
    refine (meets_checkRef target).bind fun _ _ _ => ?_
    refine (meets_operandOf hclosed hl hrest.2 trivial).bind fun operand _ htyped => ?_
    exact (meets_updateRule target hself.operator htyped).orPosition p
  | print p args =>
    intro path hnodes
    rw [Stmt.outline, Outline.nodes_mk, List.forall_mem_cons] at hnodes
    rw [checkStmt]
    refine (meets_operandsOf (fun e _ => meets_typeOf hclosed hl e) 0 hnodes.2).bind
      fun _ _ _ => ?_
    exact (Result.meets_forM fun e _ => meets_printedRule e).orPosition p
  | cond p condition block elifs otherwise ihb ihelifs ihelse =>
    intro path hnodes
    cases otherwise with
    | none =>
      rw [Stmt.outline, Outline.nodes_mk, List.forall_mem_cons] at hnodes
      obtain ⟨-, hrest⟩ := hnodes
      simp only [Outline.nodesAll_cons, List.forall_mem_append] at hrest
      rw [checkStmt]
      refine (meets_operandOf hclosed hl hrest.1 trivial).bind fun operand _ htyped => ?_
      refine (meets_checkBlock ihb hrest.2.1).bind fun _ _ _ => ?_
      refine (meets_checkElifs hclosed hl 0 ihelifs hrest.2.2).bind fun _ _ _ => ?_
      exact (meets_conditionRule htyped).orPosition p
    | some e =>
      obtain ⟨q, body⟩ := e
      rw [Stmt.outline, Outline.nodes_mk, List.forall_mem_cons] at hnodes
      obtain ⟨-, hrest⟩ := hnodes
      simp only [Outline.nodesAll_cons, Outline.nodesAll_append, Outline.nodesAll_nil,
        List.append_nil, List.forall_mem_append, Else.outline, Outline.nodes_mk,
        List.forall_mem_cons] at hrest
      rw [checkStmt]
      refine (meets_operandOf hclosed hl hrest.1 trivial).bind fun operand _ htyped => ?_
      refine (meets_checkBlock ihb hrest.2.1).bind fun _ _ _ => ?_
      refine (meets_checkElifs hclosed hl 0 ihelifs hrest.2.2.1).bind fun _ _ _ => ?_
      refine Result.Meets.bind (p := fun _ => True) ?_ fun _ _ _ =>
        (meets_conditionRule htyped).orPosition p
      rw [checkElse]
      exact meets_checkBlock (ihelse _ rfl) hrest.2.2.2.2
  | ret p value =>
    intro path hnodes
    rw [Stmt.outline, Outline.nodes_mk, List.forall_mem_cons] at hnodes
    have hfunc := hnodes.1.owner p value rfl
    cases value with
    | none =>
      rw [checkStmt]
      exact (meets_returnRule hfunc (by simp)).orPosition p
    | some e =>
      have hvalue : ∀ x ∈ (e.outline (.value :: path)).nodes, c.Expects func x := by
        simpa using hnodes.2
      rw [checkStmt]
      refine (meets_operandOf hclosed hl hvalue trivial).bind fun operand _ htyped => ?_
      refine (meets_returnRule hfunc ?_).orPosition p
      rintro _ ⟨⟩
      exact htyped

theorem meets_checkItem (hclosed : c.lattice.Closed) (hl : c.lattice.HasStandard) {item : Item}
    {path : Path} (hnodes : ∀ x ∈ (item.outline path).nodes, c.Expects item.func? x) :
    (c.checkItem item).Meets fun _ => True := by
  cases item with
  | globalVar v => exact meets_checkTypeRef v.type
  | enum d => trivial
  | func f =>
    rw [Item.outline, f.nodes_outline, List.forall_mem_cons] at hnodes
    obtain ⟨-, hinner⟩ := hnodes
    simp only [Func.inner, Func.outline, Outline.nodesAll_append, Outline.nodesAll_cons,
      Outline.nodesAll_nil, List.append_nil, List.forall_mem_append] at hinner
    have hreturn : (f.returnType.forM c.checkTypeRef).Meets fun _ => True := by
      cases f.returnType with
      | none => trivial
      | some t => exact meets_checkTypeRef t
    refine (Result.meets_forM fun v _ => meets_checkTypeRef v.type).bind fun _ _ _ => ?_
    refine hreturn.bind fun _ _ _ => ?_
    exact meets_checkBlock (fun s _ => meets_checkStmt hclosed hl s) hinner.2
  | stmt s => exact meets_checkStmt hclosed hl s path hnodes

end TypeScope

namespace Source

/-- What the front end guarantees about a tree, and that no enumeration is used as a value. -/
structure WellFormed (s : Source) : Prop where
  returns : ∀ (j : Nat) (st : Stmt), s.items[j]? = some (.stmt st) →
    ∀ path position value, (path, .stmt (.ret position value)) ∉ (st.outline [.item j]).nodes
  operators : ∀ path node, (path, node) ∈ s.outline.nodes → node.KnownOperator
  values : ∀ notes scopes, s.bindNames {} = .ok () notes → notes.readScopes = .ok scopes →
    ∀ path r t, (path, .ref r) ∈ s.outline.nodes → path.IsValue →
      notes.resolve scopes path r ≠ .ok (.enum t)

variable {s : Source}

theorem meets_enroll (s : Source) : (Site.enroll [] s.sites).Meets fun _ => True := by
  cases h : Site.enroll [] s.sites with
  | ok u => trivial
  | error e =>
    obtain ⟨_, site, _, holder, -, -, -, rfl⟩ := Site.enroll_eq_error h
    exact ⟨_, rfl⟩

theorem meets_checkCalls (s : Source) : s.checkCalls.Meets fun _ => True := by
  refine Result.meets_forM fun x _ => ?_
  rw [checkCallsIn]
  cases x.1.func? with
  | none => trivial
  | some f =>
    refine Result.meets_forM fun y _ => ?_
    unfold Node.checkCall
    split
    · refine Result.Meets.orPosition ?_ _
      exact (Declaration.meets_resolveIn _ _).bind fun _ _ _ => trivial
    · trivial

theorem WellFormed.ret_mem_func (h : s.WellFormed) {j : Nat} {item : Item}
    (hj : s.items[j]? = some item) {path : Path} {position : Position} {value : Option Expr}
    (hret : (path, .stmt (.ret position value)) ∈ (item.outline [.item j]).nodes) :
    item.func? ≠ none := by
  intro hfunc
  have hmem : (path, .stmt (.ret position value)) ∈
      (item.outline [.item j]).nodes.filter (·.2.isStmt) := List.mem_filter.mpr ⟨hret, rfl⟩
  rw [item.filter_isStmt_nodes, hfunc, Option.toList_none, List.flatMap_nil,
    List.append_nil] at hmem
  have htop := (List.mem_filter.mp hmem).1
  cases item with
  | stmt st => exact h.returns j st hj path position value htop
  | _ => cases htop

theorem WellFormed.checkReturns (h : s.WellFormed) : s.checkReturns = .ok () := by
  refine checkReturns_eq_ok_iff.mpr fun path position value hret => ?_
  obtain ⟨j, st, hj, hret⟩ := mem_topNodes.mp hret
  exact h.returns j st hj path position value hret

theorem WellFormed.expects (h : s.WellFormed) (hclash : s.ClashFree) {j : Nat} {item : Item}
    (hj : s.items[j]? = some item) :
    ∀ x ∈ (item.outline [.item j]).nodes, (s.typeScope item).Expects item.func? x := by
  rintro ⟨path, node⟩ hx
  have hbind := (s.bindNames_eq_ok_iff _).mpr ⟨hclash, rfl⟩
  have hmem := mem_nodes_of_item hj hx
  refine ⟨h.operators path node hmem, ?_, ?_⟩
  · rintro r t rfl hpath hresolve
    refine h.values _ s.walked.scopes hbind rfl path r t hmem hpath ?_
    rw [s.resolve_boundNotes hj hx]
    exact hresolve
  · rintro p value rfl
    exact h.ret_mem_func hj hx

theorem WellFormed.meets_verdict (h : s.WellFormed) : s.verdict.Meets fun _ => True := by
  refine s.meets_enroll.bind fun _ henroll _ => ?_
  have hclash := s.enroll_sites_eq_ok_iff.mp henroll
  rw [h.checkReturns, Result.ok_bind]
  refine s.meets_checkCalls.bind fun _ _ _ => Result.meets_forM fun item hitem => ?_
  obtain ⟨j, hj⟩ := List.mem_iff_getElem?.mp hitem
  exact TypeScope.meets_checkItem s.closed_lattice s.hasStandard_lattice (h.expects hclash hj)

/-- Whatever the analyses find wrong with a well-formed program is a fault of the program. -/
theorem apply_error_not_internal (source : Source) (e : CompileError) (session : Session)
    (hsource : source.WellFormed) (h : Session.apply source {} = .error e session) :
    e.isInternal = false ∧ ∃ c, e = .code c := by
  obtain ⟨c, rfl⟩ := source.apply_follows.code_of_meets hsource.meets_verdict h
  exact ⟨rfl, c, rfl⟩

/-- The negation of a variable whose type is an enumeration is a fault of the program. -/
theorem apply_error_not_internal_negation :
    let line (n : UInt32) : Position := ⟨"main", n, 1⟩
    let a : Variable := ⟨line 2, "a", ⟨line 2, "Cell", false⟩⟩
    let negation : Expr := .unary (line 3) "-" (.ref ⟨line 3, "a"⟩)
    let f : Func := ⟨line 2, "f", [a], some ⟨line 2, "int", false⟩,
      ⟨line 3, [.ret (line 3) (some negation)]⟩⟩
    let source : Source := ⟨line 1, [.enum ⟨line 1, "Cell", [⟨line 1, "Dead", "Cell"⟩]⟩, .func f]⟩
    source.WellFormed ∧ ∃ e session, Session.apply source {} = .error e session ∧
      e.isInternal = false := by
  intro line a negation f source
  have hnodes : ∀ path node, (path, node) ∈ source.outline.nodes →
      node.KnownOperator ∧ ∀ r, node = .ref r →
        path = [.operand, .value, .stmt 0, .body, .item 1] ∧ r = ⟨line 3, "a"⟩ := by
    intro path node hmem
    simp [source, f, a, negation, outline, Outline.numbered, Item.outline, EnumDecl.outline,
      Func.outline, Variable.outline, TypeRef.outline, Block.outline, Stmt.outlines, Stmt.outline,
      Expr.outline, Ref.outline] at hmem
    rcases hmem with ⟨rfl, rfl⟩ | ⟨rfl, rfl⟩ | ⟨rfl, rfl⟩ | ⟨rfl, rfl⟩ | ⟨rfl, rfl⟩ | ⟨rfl, rfl⟩ |
      ⟨rfl, rfl⟩ | ⟨rfl, rfl⟩ | ⟨rfl, rfl⟩ | ⟨rfl, rfl⟩ | ⟨rfl, rfl⟩ <;>
      simp [Node.KnownOperator, unaryOperators]
  have hwellFormed : source.WellFormed := by
    refine ⟨?_, fun path node hmem => (hnodes path node hmem).1, ?_⟩
    · intro j st hj
      have hmem := List.mem_of_getElem? hj
      simp [source] at hmem
    · intro notes scopes hbind hscopes path r t hmem _
      obtain ⟨rfl, rfl⟩ := (hnodes path _ hmem).2 r rfl
      obtain ⟨-, rfl⟩ := (source.bindNames_eq_ok_iff notes).mp hbind
      obtain rfl : source.walked.scopes = scopes := Except.ok.inj hscopes
      have hparam : source.boundNotes.resolve source.walked.scopes
          [.operand, .value, .stmt 0, .body, .item 1] ⟨line 3, "a"⟩ = .ok (.param a) := by
        decide +kernel
      rw [hparam]
      simp
  have hanswer : (Session.apply source).answer {} =
      .error (.code ⟨.unaryOperand "-" "Cell", some (line 3)⟩) := by decide +kernel
  obtain ⟨session, hrun⟩ := Pass.answer_eq_error_iff.mp hanswer
  exact ⟨hwellFormed, _, session, hrun,
    (source.apply_error_not_internal _ session hwellFormed hrun).1⟩

end Source

end SimCompiler
