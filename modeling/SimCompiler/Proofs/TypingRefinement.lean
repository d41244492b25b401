import SimCompiler.Proofs.TypingInvariant

/-!
# Type checking by walking refines typing without annotations

Each rule of the checker reads types from slots, and by the invariant these are the computed types.
So the rule answers what the rule of the recursion answers, and one induction over expressions and
one over statements carry this to the whole program: the walk succeeds or fails as the recursion
does, error for error.
-/
namespace SimCompiler

namespace Setting

variable {S : Setting} {funcs : List Func} {c : TypeScope}

theorem resolve_of_mem {notes : Annotations} (h : S.Sound notes) {nodes : List (Path × Node)}
    (hnodes : S.Describes c nodes) {path : Path} {r : Ref} (hr : (path, .ref r) ∈ nodes) :
    notes.resolve S.cx.scopes path r = c.resolve r := by
  rw [← hnodes.refs path r hr, Annotations.resolve, Annotations.resolve, Annotations.readRefFrame,
    Annotations.readRefFrame, h.refFrames]

theorem resolve_eq {notes : Annotations} (h : S.Sound notes) {path : Path} {r : Ref}
    (hnodes : S.Describes c (r.outline path).nodes) :
    notes.resolve S.cx.scopes path r = c.resolve r :=
  resolve_of_mem h hnodes (by simp [Ref.outline])

theorem valueType_eq (d : Declaration) (p : Position) :
    d.valueType = Operand.value ⟨p, d.valueType.toOption⟩ := by
  cases d <;> rfl

theorem readType_of_mem {notes : Annotations} (h : S.Sound notes) {nodes : List (Path × Node)}
    (hnodes : S.Describes c nodes) (hfilled : S.Filled notes nodes) {path : Path} {e : Expr}
    (hmem : (path, .expr e) ∈ nodes) (hslot : e.hasSlot = true) :
    ∃ t, c.typeOf e = .ok (some t) ∧ notes.readType path = .ok t := by
  obtain ⟨t, hget⟩ := hfilled.slots path e hmem hslot
  refine ⟨t, (hnodes.types path e hmem _).mp (h.types path t hget), ?_⟩
  rw [Annotations.readType, hget]

/-- Among nodes that have been checked, expressions have their computed types. -/
theorem exprType_of_mem {notes : Annotations} (h : S.Sound notes) {nodes : List (Path × Node)}
    (hnodes : S.Describes c nodes) (hfilled : S.Filled notes nodes) {path : Path} {e : Expr}
    (hmem : (path, .expr e) ∈ nodes) {type : Option String} (ht : c.typeOf e = .ok type) :
    notes.exprType S.cx.scopes path e = Operand.value ⟨e.position, type⟩ := by
  have hslot : e.hasSlot = true → notes.readType path = Operand.value ⟨e.position, type⟩ := by
    intro hslot
    obtain ⟨t, htype, hread⟩ := readType_of_mem h hnodes hfilled hmem hslot
    rw [ht, Except.ok.injEq] at htype
    rw [hread, htype]
    rfl
  cases e with
  | ref r =>
    simp only [TypeScope.typeOf, TypeScope.checkRef, Result.bind_eq_ok_iff,
      Result.orPosition_eq_ok_iff, Result.pure_eq_ok, Except.ok.injEq] at ht
    obtain ⟨d, hd, rfl⟩ := ht
    rw [Annotations.exprType, resolve_of_mem h hnodes hmem, hd]
    exact valueType_eq d _
  | unary p op e => exact hslot rfl
  | binary p l op r => exact hslot rfl
  | call p callee args => exact hslot rfl
  | json p root indices target =>
    simp only [TypeScope.typeOf, Result.bind_eq_ok_iff, Result.orPosition_eq_ok_iff,
      Result.pure_eq_ok, Except.ok.injEq] at ht
    obtain ⟨-, -, -, -, -, -, -, -, rfl⟩ := ht
    rfl
  | bool p b | int p n | float p x | str p s =>
    rw [TypeScope.typeOf, Except.ok.injEq] at ht
    rw [← ht]
    rfl

theorem exprType_eq {notes : Annotations} (h : S.Sound notes) {e : Expr} {path : Path}
    (hnodes : S.Describes c (e.outline path).nodes)
    (hfilled : S.Filled notes (e.outline path).nodes) {type : Option String}
    (ht : c.typeOf e = .ok type) :
    notes.exprType S.cx.scopes path e = Operand.value ⟨e.position, type⟩ := by
  refine exprType_of_mem h hnodes hfilled ?_ ht
  cases e <;> simp [Expr.outline, Ref.outline]

/-- The list `operands` is what `read` finds for the expressions, the first of which has number
`i`. -/
inductive Reads (read : Nat → Expr → Result String) : Nat → List Expr → List Operand → Prop
  | nil (i : Nat) : Reads read i [] []
  | cons {i : Nat} {e : Expr} {es : List Expr} {operand : Operand} {operands : List Operand}
      (position : operand.position = e.position) (value : read i e = operand.value)
      (rest : Reads read (i + 1) es operands) : Reads read i (e :: es) (operand :: operands)

theorem Reads.length_eq {read : Nat → Expr → Result String} {i : Nat} {es : List Expr}
    {operands : List Operand} (h : Reads read i es operands) : es.length = operands.length := by
  induction h with
  | nil i => rfl
  | cons _ _ _ ih => simp [ih]

theorem reads_of_filled {notes : Annotations} (h : S.Sound notes) {path : Path} {es : List Expr}
    {i : Nat} (hnodes : S.Describes c (Outline.nodesAll (Expr.outlines path i es)))
    (hfilled : S.Filled notes (Outline.nodesAll (Expr.outlines path i es)))
    {operands : List Operand} (ho : c.operandsOf es = .ok operands) :
    Reads (fun i => notes.exprType S.cx.scopes (.arg i :: path)) i es operands := by
  induction es generalizing i operands with
  | nil =>
    rw [TypeScope.operandsOf, Except.ok.injEq] at ho
    rw [← ho]
    exact .nil i
  | cons e es ih =>
    simp only [TypeScope.operandsOf, Result.bind_eq_ok_iff, Result.pure_eq_ok,
      Except.ok.injEq] at ho
    obtain ⟨type, ht, rest, hrest, rfl⟩ := ho
    rw [Expr.outlines, Outline.nodesAll_cons] at hnodes hfilled
    rw [filled_append] at hfilled
    exact .cons rfl (exprType_eq h hnodes.left hfilled.1 ht) (ih hnodes.right hfilled.2 hrest)

theorem checkArgs_eq {notes : Annotations} {path : Path} (hc : c.lattice = S.cx.lattice)
    (d : Declaration) {i : Nat} {args : List Expr} {operands : List Operand}
    (h : Reads (fun i => notes.exprType S.cx.scopes (.arg i :: path)) i args operands)
    (params : List String) :
    S.cx.checkArgs notes path d i params args = c.argsRule d i params operands := by
  induction h generalizing params with
  | nil i => cases params <;> rfl
  | cons hposition hvalue _ ih =>
    cases params with
    | nil => rfl
    | cons param params =>
      rw [TypeContext.checkArgs, TypeScope.argsRule, TypeContext.checkArg, TypeScope.argRule,
        hvalue, hposition, hc, ih params]

theorem checkIndices_eq {notes : Annotations} {path : Path} (hc : c.lattice = S.cx.lattice)
    {i : Nat} {indices : List Expr} {operands : List Operand}
    (h : Reads (fun i => notes.exprType S.cx.scopes (.arg i :: path)) i indices operands) :
    S.cx.checkIndices notes path i indices = forM operands c.indexRule := by
  induction h with
  | nil i => rfl
  | cons hposition hvalue _ ih =>
    rw [TypeContext.checkIndices, List.forM_cons, TypeContext.checkIndex, TypeScope.indexRule,
      hvalue, hposition, hc, ih]

theorem callType_eq {notes : Annotations} {path : Path} (hc : c.lattice = S.cx.lattice)
    {callee : Ref} (hcallee : notes.resolve S.cx.scopes (.callee :: path) callee = c.resolve callee)
    {args : List Expr} {operands : List Operand}
    (h : Reads (fun i => notes.exprType S.cx.scopes (.arg i :: path)) 0 args operands) :
    S.cx.callType notes path callee args = c.callRule callee operands := by
  simp only [TypeContext.callType, hcallee, h.length_eq, checkArgs_eq hc _ h]
  rfl

theorem checkJson_eq {notes : Annotations} {path : Path} (hc : c.lattice = S.cx.lattice)
    {root : Ref} (hroot : notes.resolve S.cx.scopes (.root :: path) root = c.resolve root)
    {indices : List Expr} {operands : List Operand}
    (h : Reads (fun i => notes.exprType S.cx.scopes (.arg i :: path)) 0 indices operands) :
    S.cx.checkJson notes path root indices = c.jsonRule root operands := by
  simp only [TypeContext.checkJson, TypeScope.jsonRule, hroot, checkIndices_eq hc h]

theorem checks_literal {path : Path} {e : Expr} (h : (Node.expr e).isLiteral = true)
    (hnodes : S.Describes c (Outline.leaf path (.expr e)).nodes) {type : Option String}
    (ht : c.typeOf e = .ok type) :
    S.Checks funcs (Outline.leaf path (.expr e)) (c.typeOf e) := by
  intro notes hnotes
  have hwalk : (Outline.leaf path (.expr e)).walk S.cx.visitor = pure () := by
    rw [Outline.leaf, Outline.walk_mk, Visitor.visit]
    simp only [Visitor.handle, h, if_true]
    rfl
  rw [hwalk, ht]
  refine Pass.follows_pure ⟨rfl, .refl notes, hnotes, ?_, ?_⟩
  · intro p e' hmem
    rw [Outline.nodes_leaf, List.mem_singleton] at hmem
    cases hmem
    exact ⟨type, (hnodes.types path e (by simp) _).mpr ht⟩
  · intro p e' hmem hslot
    rw [Outline.nodes_leaf, List.mem_singleton] at hmem
    cases hmem
    cases e <;> simp [Expr.hasSlot, Node.isLiteral] at h hslot

theorem checks_ref {path : Path} {r : Ref} (hnodes : S.Describes c (r.outline path).nodes) :
    S.Checks funcs (r.outline path) (c.checkRef r) := by
  have hleaf : S.Checks funcs ⟨path, .ref r, []⟩
      (Except.ok () >>= fun _ => (c.resolve r).orPosition r.position) := by
    refine checks_mk (fun _ => none) rfl (by simp) (checksAll_nil ()) ?_ ?_ ?_ (by simp)
    · intro _ notes _ hnotes _
      rw [TypeContext.checkNode, resolve_eq hnotes hnodes]
      rfl
    · intro _ _ _ d _ hd
      refine ⟨d.valueType.toOption, (hnodes.types path (.ref r) (by simp [Ref.outline]) _).mpr ?_⟩
      simp [TypeScope.typeOf, TypeScope.checkRef, hd, Result.bind_eq_ok_iff]
    · intro e he hslot
      cases he
      simp [Expr.hasSlot] at hslot
  exact hleaf

theorem checks_typeRef {path : Path} {t : TypeRef} (hc : c.lattice = S.cx.lattice) :
    S.Checks funcs (t.outline path) (c.checkTypeRef t) := by
  have hleaf : S.Checks funcs ⟨path, .typeRef t, []⟩
      (Except.ok () >>= fun _ => (c.lattice.checkTypeRef t.name).orPosition t.position) := by
    refine checks_plain (by simp) (by simp) (checksAll_nil ()) ?_
    intro _ notes _ _ _
    rw [TypeContext.checkNode, hc]
    rfl
  exact hleaf

theorem checksAll_exprs {path : Path} {es : List Expr}
    (h : ∀ e ∈ es, ∀ p, S.Describes c (e.outline p).nodes →
      S.Checks funcs (e.outline p) (c.typeOf e)) (i : Nat)
    (hnodes : S.Describes c (Outline.nodesAll (Expr.outlines path i es))) :
    S.ChecksAll funcs (Expr.outlines path i es) (c.operandsOf es) := by
  induction es generalizing i with
  | nil => exact checksAll_nil []
  | cons e es ih =>
    rw [Expr.outlines, Outline.nodesAll_cons] at hnodes
    rw [Expr.outlines, TypeScope.operandsOf]
    refine (h e (by simp) _ hnodes.left).cons fun type _ => ?_
    exact (ih (fun e he => h e (by simp [he])) (i + 1) hnodes.right).map _

/-- The walk over an expression computes its type. -/
theorem checks_expr (e : Expr) : ∀ path, S.Describes c (e.outline path).nodes →
    S.Checks funcs (e.outline path) (c.typeOf e) := by
  induction e using Expr.induction with
  | bool p b | int p n | float p x | str p s =>
    intro path hnodes
    rw [Expr.outline] at hnodes ⊢
    exact checks_literal rfl hnodes (by rw [TypeScope.typeOf])
  | ref r =>
    intro path hnodes
    rw [Expr.outline] at hnodes ⊢
    rw [TypeScope.typeOf]
    exact (checks_ref hnodes).map _
  | unary p op e ih =>
    intro path hnodes
    rw [Expr.outline] at hnodes ⊢
    have hchild := hnodes.children
    rw [Outline.nodesAll_cons] at hchild
    have htype : c.typeOf (.unary p op e) = (c.typeOf e >>= fun type => Result.orPosition (do
        return some (← c.lattice.checkUnary op (← Operand.value ⟨e.position, type⟩))) p) := by
      rw [TypeScope.typeOf]
    refine checks_of_typeOf rfl (hnodes.types path (.unary p op e) (by simp)) htype ?_
      (ih _ hchild.left).singleton ?_
    · simp [Result.bind_eq_ok_iff]
    · intro type notes ht hsound hfilled
      rw [Outline.nodesAll_cons, filled_append] at hfilled
      rw [TypeContext.checkNode, exprType_eq hsound hchild.left hfilled.1 ht, hnodes.lattice]
      exact (bind_pure _).symm
  | binary p l op r ihl ihr =>
    intro path hnodes
    rw [Expr.outline] at hnodes ⊢
    have hchildren := hnodes.children
    simp only [Outline.nodesAll_cons] at hchildren
    have htype : c.typeOf (.binary p l op r) = ((do
        let left ← c.typeOf l
        let right ← c.typeOf r
        return (left, right)) >>= fun types => Result.orPosition (do
          let leftType ← Operand.value ⟨l.position, types.1⟩
          let rightType ← Operand.value ⟨r.position, types.2⟩
          return some (← c.lattice.checkBinary op leftType rightType)) p) := by
      rw [TypeScope.typeOf]
      simp
    refine checks_of_typeOf rfl (hnodes.types path (.binary p l op r) (by simp)) htype ?_
      ((ihl _ hchildren.left).cons fun left _ => ((ihr _ hchildren.right.left).singleton.map _)) ?_
    · simp [Result.bind_eq_ok_iff]
    · rintro ⟨left, right⟩ notes ht hsound hfilled
      simp only [Result.bind_eq_ok_iff, Result.pure_eq_ok, Except.ok.injEq, Prod.mk.injEq] at ht
      obtain ⟨left', hleft, right', hright, rfl, rfl⟩ := ht
      simp only [Outline.nodesAll_cons, filled_append] at hfilled
      rw [TypeContext.checkNode, exprType_eq hsound hchildren.left hfilled.1 hleft,
        exprType_eq hsound hchildren.right.left hfilled.2.1 hright, hnodes.lattice]
      exact (bind_pure _).symm
  | call p callee args ih =>
    intro path hnodes
    rw [Expr.outline] at hnodes ⊢
    have hchildren := hnodes.children
    rw [Outline.nodesAll_cons] at hchildren
    have htype : c.typeOf (.call p callee args) = ((c.checkRef callee >>= fun _ =>
        c.operandsOf args) >>= fun operands => Result.orPosition (do
          return some (← c.callRule callee operands)) p) := by
      rw [TypeScope.typeOf]
      simp
    refine checks_of_typeOf rfl (hnodes.types path (.call p callee args) (by simp)) htype ?_
      ((checks_ref hchildren.left).cons fun _ _ => checksAll_exprs ih 0 hchildren.right) ?_
    · simp [Result.bind_eq_ok_iff]
    · intro operands notes ho hsound hfilled
      obtain ⟨_, -, ho⟩ := Result.bind_eq_ok_iff.mp ho
      rw [Outline.nodesAll_cons, filled_append] at hfilled
      have hcallee := resolve_eq hsound hchildren.left
      have hreads := reads_of_filled hsound hchildren.right hfilled.2 ho
      rw [TypeContext.checkNode, callType_eq hnodes.lattice hcallee hreads]
      exact (bind_pure _).symm
  | json p root indices target ih =>
    intro path hnodes
    rw [Expr.outline] at hnodes ⊢
    have hchildren := hnodes.children
    rw [Outline.nodesAll_append, Outline.nodesAll_cons] at hchildren
    have htype : c.typeOf (.json p root indices target) = (((c.checkRef root >>= fun _ =>
        c.operandsOf indices) >>= fun operands => c.checkTypeRef target >>= fun _ =>
        .ok operands) >>= fun operands => Result.orPosition (do
          c.jsonRule root operands
          return some target.name) p) := by
      rw [TypeScope.typeOf]
      simp
    refine checks_of_typeOf rfl (hnodes.types path (.json p root indices target) (by simp)) htype
      (by simp [Expr.hasSlot]) (((checks_ref hchildren.left.left).cons fun _ _ =>
        checksAll_exprs ih 0 hchildren.left.right).append fun operands _ =>
          ((checks_typeRef hnodes.lattice).singleton.map _)) ?_
    intro operands notes ho hsound hfilled
    simp only [Result.bind_eq_ok_iff, Except.ok.injEq] at ho
    obtain ⟨_, ⟨_, -, ho⟩, _, -, rfl⟩ := ho
    rw [Outline.nodesAll_append, Outline.nodesAll_cons, filled_append,
      filled_append] at hfilled
    have hroot := resolve_eq hsound hchildren.left.left
    have hreads := reads_of_filled hsound hchildren.left.right hfilled.1.2 ho
    rw [TypeContext.checkNode, checkJson_eq hnodes.lattice hroot hreads]
    simp [Expr.hasSlot]

theorem checks_operand {path : Path} {e : Expr} (hnodes : S.Describes c (e.outline path).nodes) :
    S.Checks funcs (e.outline path) (c.operandOf e) :=
  (checks_expr e path hnodes).map _

theorem operand_eq {notes : Annotations} (h : S.Sound notes) {e : Expr} {path : Path}
    (hnodes : S.Describes c (e.outline path).nodes)
    (hfilled : S.Filled notes (e.outline path).nodes) {operand : Operand}
    (ho : c.operandOf e = .ok operand) :
    notes.exprType S.cx.scopes path e = operand.value ∧ operand.position = e.position := by
  obtain ⟨type, ht, hoperand⟩ := Result.bind_eq_ok_iff.mp ho
  obtain rfl : Operand.mk e.position type = operand := Except.ok.inj hoperand
  exact ⟨exprType_eq h hnodes hfilled ht, rfl⟩

theorem checks_variable {path : Path} {kind : Variable → Node} {v : Variable}
    (hkind : kind = .param ∨ kind = .localVar ∨ kind = .globalVar)
    (hc : c.lattice = S.cx.lattice) :
    S.Checks funcs (v.outline kind path) (c.checkVariable v) := by
  have htype : S.ChecksAll funcs [v.type.outline (.typeRef :: path)] (c.checkVariable v) :=
    (checks_typeRef hc).singleton
  obtain rfl | rfl | rfl := hkind <;>
    exact checks_silent (by simp) (by simp) (fun _ => rfl) htype

theorem targetType_eq {notes : Annotations} {path : Path} {target : Ref}
    (h : notes.resolve S.cx.scopes path target = c.resolve target) :
    S.cx.targetType notes path target = c.targetType target := by
  rw [TypeContext.targetType, h]
  rfl

theorem checkPrint_eq {notes : Annotations} (h : S.Sound notes) {path : Path} {args : List Expr}
    (i : Nat) (hnodes : S.Describes c (Outline.nodesAll (Expr.outlines path i args))) :
    S.cx.checkPrint notes path i args = forM args c.printedRule := by
  induction args generalizing i with
  | nil => rfl
  | cons e es ih =>
    rw [Expr.outlines, Outline.nodesAll_cons] at hnodes
    have hprinted : S.cx.checkPrinted notes path i e = c.printedRule e := by
      cases e with
      | ref r =>
        have hr := hnodes.left
        rw [Expr.outline] at hr
        rw [TypeContext.checkPrinted, TypeScope.printedRule, resolve_eq h hr]
      | _ => rfl
    rw [TypeContext.checkPrint, List.forM_cons, hprinted, ih (i + 1) hnodes.right]

theorem checks_block {path : Path} {b : Block}
    (h : ∀ s ∈ b.stmts, ∀ p, S.Describes c (s.outline p).nodes →
      S.Checks funcs (s.outline p) (c.checkStmt funcs.head? s))
    (hnodes : S.Describes c (b.outline path).nodes) :
    S.Checks funcs (b.outline path) (c.checkBlock funcs.head? b) := by
  obtain ⟨p, stmts⟩ := b
  have hstmts : ∀ (ss : List Stmt) (i : Nat), (∀ s ∈ ss, s ∈ stmts) →
      S.Describes c (Outline.nodesAll (Stmt.outlines path i ss)) →
      S.ChecksAll funcs (Stmt.outlines path i ss) (c.checkStmts funcs.head? ss) := by
    intro ss
    induction ss with
    | nil => exact fun _ _ _ => checksAll_nil ()
    | cons s ss ih =>
      intro i hsub hnodes
      rw [Stmt.outlines, Outline.nodesAll_cons] at hnodes
      rw [Stmt.outlines, TypeScope.checkStmts]
      refine (h s (hsub s (by simp)) _ hnodes.left).cons fun _ _ => ?_
      exact ih (i + 1) (fun t ht => hsub t (by simp [ht])) hnodes.right
  rw [Block.outline] at hnodes ⊢
  rw [TypeScope.checkBlock]
  exact checks_silent (by simp) (by simp) (fun _ => rfl)
    (hstmts stmts 0 (fun _ hs => hs) hnodes.children)

theorem checkCondition_eq {notes : Annotations} {path : Path} (hc : c.lattice = S.cx.lattice)
    {condition : Expr} {operand : Operand}
    (h : notes.exprType S.cx.scopes (.condition :: path) condition = operand.value ∧
      operand.position = condition.position) :
    S.cx.checkCondition notes path condition = c.conditionRule operand := by
  rw [TypeContext.checkCondition, TypeScope.conditionRule, h.1, h.2, hc]

theorem checks_elif {path : Path} {e : Elif}
    (h : ∀ s ∈ e.block.stmts, ∀ p, S.Describes c (s.outline p).nodes →
      S.Checks funcs (s.outline p) (c.checkStmt funcs.head? s))
    (hnodes : S.Describes c (e.outline path).nodes) :
    S.Checks funcs (e.outline path) (c.checkElif funcs.head? e) := by
  obtain ⟨p, condition, block⟩ := e
  rw [Elif.outline] at hnodes ⊢
  have hchildren := hnodes.children
  simp only [Outline.nodesAll_cons] at hchildren
  have hcheck : c.checkElif funcs.head? ⟨p, condition, block⟩ =
      ((c.operandOf condition >>= fun operand => c.checkBlock funcs.head? block >>= fun _ =>
        .ok operand) >>= fun operand => Result.orPosition (c.conditionRule operand) p) := by
    rw [TypeScope.checkElif]
    simp
  rw [hcheck]
  refine checks_plain (by simp) (by simp) ((checks_operand hchildren.left).cons
    fun operand _ => (checks_block h hchildren.right.left).singleton.map _) ?_
  intro operand notes ho hsound hfilled
  simp only [Result.bind_eq_ok_iff, Except.ok.injEq] at ho
  obtain ⟨_, ho, _, -, rfl⟩ := ho
  simp only [Outline.nodesAll_cons, filled_append] at hfilled
  have hoperand := operand_eq hsound hchildren.left hfilled.1 ho
  rw [TypeContext.checkNode, checkCondition_eq hnodes.lattice hoperand]
  rfl

theorem checksAll_elifs {path : Path} {es : List Elif}
    (h : ∀ e ∈ es, ∀ p, S.Describes c (e.outline p).nodes →
      S.Checks funcs (e.outline p) (c.checkElif funcs.head? e)) (i : Nat)
    (hnodes : S.Describes c (Outline.nodesAll (Elif.outlines path i es))) :
    S.ChecksAll funcs (Elif.outlines path i es) (c.checkElifs funcs.head? es) := by
  induction es generalizing i with
  | nil => exact checksAll_nil ()
  | cons e es ih =>
    rw [Elif.outlines, Outline.nodesAll_cons] at hnodes
    rw [Elif.outlines, TypeScope.checkElifs]
    refine (h e (by simp) _ hnodes.left).cons fun _ _ => ?_
    exact ih (fun e he => h e (by simp [he])) (i + 1) hnodes.right

theorem checks_else {path : Path} {e : Else}
    (h : ∀ s ∈ e.block.stmts, ∀ p, S.Describes c (s.outline p).nodes →
      S.Checks funcs (s.outline p) (c.checkStmt funcs.head? s))
    (hnodes : S.Describes c (e.outline path).nodes) :
    S.Checks funcs (e.outline path) (c.checkElse funcs.head? e) := by
  obtain ⟨p, block⟩ := e
  rw [Else.outline] at hnodes ⊢
  have hchildren := hnodes.children
  rw [Outline.nodesAll_cons] at hchildren
  rw [TypeScope.checkElse]
  exact checks_silent (by simp) (by simp) (fun _ => rfl)
    (checks_block h hchildren.left).singleton

theorem checks_assign {path : Path} {p : Position} {target : Ref} {value : Expr}
    {declared : Option Variable}
    (hnodes : S.Describes c ((Stmt.assign p target value declared).outline path).nodes) :
    S.Checks funcs ((Stmt.assign p target value declared).outline path)
      (c.checkStmt funcs.head? (.assign p target value declared)) := by
  rw [Stmt.outline] at hnodes ⊢
  have hchildren := hnodes.children
  simp only [Outline.nodesAll_append, Outline.nodesAll_cons] at hchildren
  have hcheck : c.checkStmt funcs.head? (.assign p target value declared) =
      ((declared.forM c.checkVariable >>= fun _ => c.checkRef target >>= fun _ =>
        c.operandOf value) >>= fun operand =>
        Result.orPosition (c.assignRule target operand declared.isSome) p) := by
    rw [TypeScope.checkStmt]
    simp
  have hdeclared : S.ChecksAll funcs
      (declared.map (Variable.outline .localVar (.declared :: path))).toList
      (declared.forM c.checkVariable) := by
    cases declared with
    | none => exact checksAll_nil ()
    | some v => exact (checks_variable (.inr (.inl rfl)) hnodes.lattice).singleton
  rw [hcheck]
  refine checks_plain (by simp) (by simp) (hdeclared.append fun _ _ =>
    (checks_ref hchildren.right.left).cons fun _ _ =>
      (checks_operand hchildren.right.right.left).singleton) ?_
  intro operand notes ho hsound hfilled
  simp only [Result.bind_eq_ok_iff] at ho
  obtain ⟨_, -, _, -, ho⟩ := ho
  simp only [Outline.nodesAll_append, Outline.nodesAll_cons, filled_append] at hfilled
  have htarget := targetType_eq (resolve_eq hsound hchildren.right.left)
  have hoperand := operand_eq hsound hchildren.right.right.left hfilled.2.2.1 ho
  rw [TypeContext.checkNode, TypeContext.checkAssign, TypeScope.assignRule, htarget, hoperand.1,
    hnodes.lattice]
  rfl

theorem checks_update {path : Path} {p : Position} {target : Ref} {op : String} {value : Expr}
    (hnodes : S.Describes c ((Stmt.update p target op value).outline path).nodes) :
    S.Checks funcs ((Stmt.update p target op value).outline path)
      (c.checkStmt funcs.head? (.update p target op value)) := by
  rw [Stmt.outline] at hnodes ⊢
  have hchildren := hnodes.children
  simp only [Outline.nodesAll_cons] at hchildren
  have hcheck : c.checkStmt funcs.head? (.update p target op value) =
      ((c.checkRef target >>= fun _ => c.operandOf value) >>= fun operand =>
        Result.orPosition (c.updateRule target op operand) p) := by
    rw [TypeScope.checkStmt]
    simp
  rw [hcheck]
  refine checks_plain (by simp) (by simp) ((checks_ref hchildren.left).cons fun _ _ =>
    (checks_operand hchildren.right.left).singleton) ?_
  intro operand notes ho hsound hfilled
  obtain ⟨_, -, ho⟩ := Result.bind_eq_ok_iff.mp ho
  simp only [Outline.nodesAll_cons, filled_append] at hfilled
  have htarget := targetType_eq (resolve_eq hsound hchildren.left)
  have hoperand := operand_eq hsound hchildren.right.left hfilled.2.1 ho
  rw [TypeContext.checkNode, TypeContext.checkUpdate, TypeScope.updateRule, htarget, hoperand.1,
    hnodes.lattice]
  rfl

theorem checks_print {path : Path} {p : Position} {args : List Expr}
    (hnodes : S.Describes c ((Stmt.print p args).outline path).nodes) :
    S.Checks funcs ((Stmt.print p args).outline path)
      (c.checkStmt funcs.head? (.print p args)) := by
  rw [Stmt.outline] at hnodes ⊢
  rw [TypeScope.checkStmt]
  refine checks_plain (by simp) (by simp)
    (checksAll_exprs (fun e _ => checks_expr e) 0 hnodes.children) ?_
  intro operands notes _ hsound _
  rw [TypeContext.checkNode, checkPrint_eq hsound 0 hnodes.children]
  rfl

theorem checkReturn_eq {notes : Annotations} {path : Path} (hc : c.lattice = S.cx.lattice)
    (f : Func) {value : Option Expr} {operand : Option Operand}
    (h : value.map (notes.exprType S.cx.scopes (.value :: path)) = operand.map Operand.value) :
    S.cx.checkReturn notes path f value = c.returnRule (some f) operand := by
  obtain ⟨_, _, _, returnType, _⟩ := f
  cases value <;> cases operand <;> simp only [Option.map_none, Option.map_some] at h
  · cases returnType <;> rfl
  · simp at h
  · simp at h
  · rw [Option.some.injEq] at h
    cases returnType with
    | none => rfl
    | some type => simp only [TypeContext.checkReturn, TypeScope.returnRule, h, hc]

theorem checks_ret {path : Path} {p : Position} {value : Option Expr}
    (hnodes : S.Describes c ((Stmt.ret p value).outline path).nodes) :
    S.Checks funcs ((Stmt.ret p value).outline path)
      (c.checkStmt funcs.head? (.ret p value)) := by
  rw [Stmt.outline] at hnodes ⊢
  have hchildren := hnodes.children
  cases value with
  | none =>
    have hplain : S.Checks funcs ⟨path, .stmt (.ret p none), []⟩
        (Except.ok () >>= fun _ => Result.orPosition (c.returnRule funcs.head? none) p) := by
      refine checks_plain (by simp) (by simp) (checksAll_nil ()) ?_
      intro _ notes _ _ _
      cases funcs with
      | nil => rfl
      | cons f funcs =>
        have hreturn : S.cx.checkReturn notes path f none = c.returnRule (some f) none :=
          checkReturn_eq hnodes.lattice f rfl
        exact congrArg (· >>= fun _ => .ok none) hreturn
    rw [TypeScope.checkStmt]
    exact hplain
  | some e =>
    simp only [Option.map_some, Option.toList_some, Outline.nodesAll_cons] at hchildren
    rw [TypeScope.checkStmt]
    refine checks_plain (by simp) (by simp) (checks_operand hchildren.left).singleton ?_
    intro operand notes ho hsound hfilled
    simp only [Option.map_some, Option.toList_some, Outline.nodesAll_cons,
      filled_append] at hfilled
    have hoperand := operand_eq hsound hchildren.left hfilled.1 ho
    cases funcs with
    | nil => rfl
    | cons f funcs =>
      have hreturn : S.cx.checkReturn notes path f (some e) =
          c.returnRule (some f) (some operand) :=
        checkReturn_eq hnodes.lattice f (congrArg some hoperand.1)
      exact congrArg (· >>= fun _ => .ok none) hreturn

/-- The walk over a statement checks it inside the innermost function. -/
theorem checks_stmt (s : Stmt) : ∀ path, S.Describes c (s.outline path).nodes →
    S.Checks funcs (s.outline path) (c.checkStmt funcs.head? s) := by
  induction s using Stmt.induction with
  | pass p =>
    intro path hnodes
    rw [Stmt.outline, TypeScope.checkStmt]
    exact checks_silent (by simp) (by simp) (fun _ => rfl) (checksAll_nil ())
  | assign p target value declared => exact fun path => checks_assign
  | update p target op value => exact fun path => checks_update
  | print p args => exact fun path => checks_print
  | ret p value => exact fun path => checks_ret
  | cond p condition block elifs otherwise ihb ihelifs ihelse =>
    intro path hnodes
    have helifs := fun e (he : e ∈ elifs) path => @checks_elif S funcs c path e (ihelifs e he)
    have hrule : ∀ (otherwise : Option Else) (operand : Operand) (notes : Annotations),
        S.Sound notes → c.operandOf condition = .ok operand →
        S.Describes c (condition.outline (.condition :: path)).nodes →
        S.Filled notes (condition.outline (.condition :: path)).nodes →
        S.cx.checkNode notes path funcs (.stmt (.cond p condition block elifs otherwise)) =
          (c.conditionRule operand >>= fun _ => .ok none) := by
      intro otherwise operand notes hsound ho hcondition hfilled
      have hoperand := operand_eq hsound hcondition hfilled ho
      rw [TypeContext.checkNode, checkCondition_eq hcondition.lattice hoperand]
      rfl
    cases otherwise with
    | none =>
      rw [Stmt.outline] at hnodes ⊢
      have hchildren := hnodes.children
      simp only [Outline.nodesAll_cons] at hchildren
      have hcheck : c.checkStmt funcs.head? (.cond p condition block elifs none) =
          ((c.operandOf condition >>= fun operand => c.checkBlock funcs.head? block >>= fun _ =>
            c.checkElifs funcs.head? elifs >>= fun _ => .ok operand) >>= fun operand =>
            Result.orPosition (c.conditionRule operand) p) := by
        rw [TypeScope.checkStmt]
        simp
      rw [hcheck]
      refine checks_plain (by simp) (by simp) ((checks_operand hchildren.left).cons
        fun operand _ => (checks_block ihb hchildren.right.left).cons fun _ _ =>
          (checksAll_elifs helifs 0 hchildren.right.right).map _) ?_
      intro operand notes ho hsound hfilled
      simp only [Result.bind_eq_ok_iff, Except.ok.injEq] at ho
      obtain ⟨_, ho, _, -, _, -, rfl⟩ := ho
      simp only [Outline.nodesAll_cons, filled_append] at hfilled
      exact hrule none _ notes hsound ho hchildren.left hfilled.1
    | some e =>
      rw [Stmt.outline] at hnodes ⊢
      have hchildren := hnodes.children
      simp only [Outline.nodesAll_cons, Outline.nodesAll_append] at hchildren
      have hcheck : c.checkStmt funcs.head? (.cond p condition block elifs (some e)) =
          ((c.operandOf condition >>= fun operand => c.checkBlock funcs.head? block >>= fun _ =>
            c.checkElifs funcs.head? elifs >>= fun _ => c.checkElse funcs.head? e >>= fun _ =>
            .ok operand) >>= fun operand => Result.orPosition (c.conditionRule operand) p) := by
        rw [TypeScope.checkStmt]
        simp
      rw [hcheck]
      refine checks_plain (by simp) (by simp) ((checks_operand hchildren.left).cons
        fun operand _ => (checks_block ihb hchildren.right.left).cons fun _ _ =>
          (checksAll_elifs helifs 0 hchildren.right.right.left).append fun _ _ =>
            (checks_else (ihelse e rfl) hchildren.right.right.right.left).singleton.map _) ?_
      intro operand notes ho hsound hfilled
      simp only [Result.bind_eq_ok_iff, Except.ok.injEq] at ho
      obtain ⟨_, ho, _, -, _, -, _, -, rfl⟩ := ho
      simp only [Outline.nodesAll_cons, filled_append] at hfilled
      exact hrule (some e) _ notes hsound ho hchildren.left hfilled.1

theorem checksAll_params (path : Path) (i : Nat) (vs : List Variable)
    (hc : c.lattice = S.cx.lattice) :
    S.ChecksAll funcs (Outline.numbered .param (Variable.outline .param) path i vs)
      (forM vs c.checkVariable) := by
  induction vs generalizing i with
  | nil => exact checksAll_nil ()
  | cons v vs ih =>
    rw [Outline.numbered, List.forM_cons]
    exact (checks_variable (.inl rfl) hc).cons fun _ _ => ih (i + 1)

/-- Inside a function its own return type counts. -/
theorem checks_func {path : Path} {f : Func} (hnodes : S.Describes c (f.outline path).nodes) :
    S.Checks funcs (f.outline path) (c.checkFunc f) := by
  rw [Func.outline] at hnodes ⊢
  have hchildren := hnodes.children
  simp only [Outline.nodesAll_append, Outline.nodesAll_cons] at hchildren
  have hreturn : S.ChecksAll (f :: funcs)
      (f.returnType.map (TypeRef.outline (.returnType :: path))).toList
      (f.returnType.forM c.checkTypeRef) := by
    cases f.returnType with
    | none => exact checksAll_nil ()
    | some t => exact (checks_typeRef hnodes.lattice).singleton
  have hbody : S.Checks (f :: funcs) (f.body.outline (.body :: path))
      (c.checkBlock (some f) f.body) :=
    checks_block (fun s _ => checks_stmt s) hchildren.right.left
  have hall := ((checksAll_params path 0 f.params hnodes.lattice).append fun _ _ =>
    hreturn).append fun _ _ => hbody.singleton
  have hcheck : c.checkFunc f = ((forM f.params c.checkVariable >>= fun _ =>
      f.returnType.forM c.checkTypeRef) >>= fun _ => c.checkBlock (some f) f.body) := by
    rw [TypeScope.checkFunc]
    simp
  rw [hcheck]
  intro notes hnotes
  have henter : S.cx.visitor.visit (path, .func f) ⟨notes, funcs⟩ =
      .ok () ⟨notes, f :: funcs⟩ := rfl
  rw [Outline.walk_mk]
  refine Pass.follows_bind_of_ok henter ((hall notes hnotes).then_ok ?_)
  rintro _ ⟨notes', funcs'⟩ ⟨hown, hext, hsound, hfilled⟩
  obtain rfl : funcs' = f :: funcs := hown
  refine ⟨⟨notes', funcs⟩, rfl, rfl, hext, hsound, ?_⟩
  rw [Outline.nodes_mk, ← List.singleton_append, filled_append]
  exact ⟨⟨by simp, by simp⟩, hfilled⟩

theorem checks_item {path : Path} {item : Item} (hnodes : S.Describes c (item.outline path).nodes) :
    S.Checks [] (item.outline path) (c.checkItem item) := by
  cases item with
  | globalVar v => exact checks_variable (.inr (.inr rfl)) hnodes.lattice
  | enum d =>
    have hconstants : ∀ (cs : List EnumConstant) (i : Nat), S.ChecksAll []
        (Outline.numbered .constant (fun p k => Outline.leaf p (.constant k)) path i cs)
        (.ok ()) := by
      intro cs
      induction cs with
      | nil => exact fun _ => checksAll_nil ()
      | cons k cs ih =>
        intro i
        have hleaf : S.Checks [] (Outline.leaf (.constant i :: path) (.constant k)) (.ok ()) :=
          checks_silent (by simp) (by simp) (fun _ => rfl) (checksAll_nil ())
        exact hleaf.cons fun _ _ => ih (i + 1)
    exact checks_silent (by simp) (by simp) (fun _ => rfl) (hconstants d.constants 0)
  | func f => exact checks_func hnodes
  | stmt s => exact checks_stmt s path hnodes

end Setting

namespace Source

/-- What typing says about the expression at `path`. -/
def typing (s : Source) (path : Path) (r : Result (Option String)) : Prop :=
  ∃ (j : Nat) (item : Item) (e : Expr), s.items[j]? = some item ∧
    (path, .expr e) ∈ (item.outline [.item j]).nodes ∧ (s.typeScope item).typeOf e = r

/-- The setting of a program whose names are bound. -/
def setting (s : Source) : Setting := ⟨⟨s.walked.scopes, s.lattice⟩, s.boundNotes, s.typing⟩

theorem mem_nodes_of_item {s : Source} {j : Nat} {item : Item} (hj : s.items[j]? = some item)
    {x : Path × Node} (hx : x ∈ (item.outline [.item j]).nodes) : x ∈ s.outline.nodes := by
  rw [outline, Outline.nodes_mk, Outline.nodesAll_eq_flatMap]
  refine List.mem_cons_of_mem _ (List.mem_flatMap.mpr ⟨item.outline [.item j], ?_, hx⟩)
  exact Outline.mem_numbered.mpr ⟨j, item, hj, by rw [Nat.zero_add]⟩

/-- A path leads to one node of one item. -/
theorem eq_of_mem_nodes {s : Source} {j j' : Nat} {item item' : Item} {path : Path}
    {node node' : Node} (hj : s.items[j]? = some item)
    (h : (path, node) ∈ (item.outline [.item j]).nodes) (hj' : s.items[j']? = some item')
    (h' : (path, node') ∈ (item'.outline [.item j']).nodes) : item = item' ∧ node = node' := by
  have hnode := List.inj_on_of_nodup_map s.nodup_paths (mem_nodes_of_item hj h)
    (mem_nodes_of_item hj' h') rfl
  refine ⟨?_, congrArg Prod.snd hnode⟩
  by_cases hne : j = j'
  · subst hne
    exact Option.some.inj (hj.symm.trans hj')
  · have hdisjoint := (item.wellPathed_outline [.item j]).disjoint
      (item'.wellPathed_outline [.item j']) (by simp) (by simpa using hne)
    exact absurd (List.mem_map_of_mem h') (hdisjoint (List.mem_map_of_mem h) : path ∉ _)

theorem describes_item (s : Source) {j : Nat} {item : Item} (hj : s.items[j]? = some item) :
    s.setting.Describes (s.typeScope item) (item.outline [.item j]).nodes := by
  refine ⟨rfl, fun path r hr => s.resolve_boundNotes hj hr, ?_⟩
  intro path e he r
  constructor
  · rintro ⟨j', item', e', hj', he', htype⟩
    obtain ⟨rfl, heq⟩ := eq_of_mem_nodes hj he hj' he'
    cases heq
    exact htype
  · intro htype
    exact ⟨j, item, e, hj, he, htype⟩

theorem checks_source (s : Source) : s.setting.Checks [] s.outline s.typeCheck := by
  have hitems : ∀ (items : List Item) (i : Nat),
      (∀ (j : Nat) (item : Item), items[j]? = some item → s.items[i + j]? = some item) →
      s.setting.ChecksAll [] (Outline.numbered .item Item.outline [] i items)
        (forM items fun item => (s.typeScope item).checkItem item) := by
    intro items
    induction items with
    | nil => exact fun _ _ => Setting.checksAll_nil ()
    | cons item items ih =>
      intro i hat
      rw [Outline.numbered, List.forM_cons]
      have hitem := s.describes_item (hat 0 item rfl)
      refine (Setting.checks_item hitem).cons fun _ _ => ih (i + 1) ?_
      intro j item' hj
      rw [Nat.add_assoc, Nat.add_comm 1]
      exact hat (j + 1) item' hj
  refine Setting.checks_silent (by simp) (by simp) (fun _ => rfl) (hitems s.items 0 ?_)
  intro j item hj
  rwa [Nat.zero_add]

theorem frame_root_walked (s : Source) :
    s.walked.scopes.frame Scopes.root = .ok ⟨"<root>", none, s.outerScope⟩ := by
  rw [← held_root_walked]
  rfl

/-- Built-ins are no enumerations. -/
theorem enumNames_root (s : Source) :
    (Frame.mk "<root>" none s.outerScope).enumNames = s.enumNames := by
  change List.filterMap _ (Declaration.builtins ++ s.declarations) = _
  rw [List.filterMap_append]
  rfl

theorem ofScopes_walked (s : Source) :
    TypeContext.ofScopes s.walked.scopes = .ok ⟨s.walked.scopes, s.lattice⟩ := by
  rw [TypeContext.ofScopes, frame_root_walked, Result.ok_bind, enumNames_root]
  rfl

/-- Type checking does what the recursion does, from any annotations that bind the names of the
program and hold no wrong type. -/
theorem checkTypes_follows (s : Source) {notes : Annotations}
    (hscopes : notes.scopeChain = s.boundNotes.scopeChain) (hnotes : s.setting.Sound notes) :
    s.checkTypes.Follows notes s.typeCheck fun _ notes' =>
      notes.Extends notes' ∧ s.setting.Sound notes' ∧
        s.setting.Filled notes' s.outline.nodes := by
  have hread : notes.readScopes = .ok s.walked.scopes := by
    rw [Annotations.readScopes, hscopes]
    rfl
  have hrun : s.checkTypes notes =
      Pass.walking (TypeContext.mk s.walked.scopes s.lattice).visitor [] s notes := by
    simp only [checkTypes, Pass.run_bind, Pass.run_get, Pass.run_ofResult, hread, ofScopes_walked]
  have hwalk : (s.outline.walk (TypeContext.mk s.walked.scopes s.lattice).visitor).Follows
      ⟨notes, []⟩ s.typeCheck fun _ => s.setting.Kept [] s.outline.nodes notes :=
    s.checks_source notes hnotes
  cases hcheck : s.typeCheck with
  | error e =>
    rw [hcheck] at hwalk
    obtain ⟨w, hw⟩ := hwalk
    exact ⟨w.notes, by rw [hrun, Pass.run_walking, hw]⟩
  | ok u =>
    rw [hcheck] at hwalk
    obtain ⟨w, hw, hkept⟩ := hwalk
    exact ⟨w.notes, by rw [hrun, Pass.run_walking, hw], hkept.grown, hkept.sound, hkept.filled⟩

theorem sound_boundNotes (s : Source) : s.setting.Sound s.boundNotes :=
  ⟨rfl, fun _ _ h => absurd h (by simp [boundNotes, Walked.notes])⟩

/-- Type checking a program whose names are bound answers what the recursion over the tree answers,
error for error. If it succeeds, the slots of operators and calls hold the computed types, and so
does every other expression that is not the name of an enumeration. -/
theorem checkTypes_refines_typeCheck (source : Source) (notes : Annotations)
    (h : source.bindNames {} = .ok () notes) :
    source.checkTypes.answer notes = source.typeCheck ∧
    ∀ notes', source.checkTypes notes = .ok () notes' → ∃ scopes,
      notes'.readScopes = .ok scopes ∧
      ∀ path e, (path, .expr e) ∈ source.outline.nodes → ∃ j item type,
        source.items[j]? = some item ∧ (path, .expr e) ∈ (item.outline [.item j]).nodes ∧
        (source.typeScope item).typeOf e = .ok type ∧
        (e.hasSlot = true → ∃ t, type = some t ∧ notes'.readType path = .ok t) ∧
        ((∀ r d, e = .ref r → (source.typeScope item).resolve r ≠ .ok (.enum d)) →
          ∃ t, type = some t ∧ notes'.exprType scopes path e = .ok t) := by
  obtain ⟨-, rfl⟩ := (source.bindNames_eq_ok_iff notes).mp h
  have hfollows := source.checkTypes_follows rfl source.sound_boundNotes
  refine ⟨hfollows.answer_eq, ?_⟩
  intro notes' hrun
  obtain ⟨hgrown, hsound, hfilled⟩ := hfollows.of_ok hrun
  refine ⟨source.walked.scopes, by rw [Annotations.readScopes, hgrown.rest]; rfl, ?_⟩
  intro path e hmem
  rcases mem_nodes hmem with heq | ⟨j, item, hj, hitem⟩
  · simp at heq
  have hnodes := source.describes_item hj
  have hfilledItem := hfilled.sub fun x hx => mem_nodes_of_item hj hx
  obtain ⟨type, htyping⟩ := hfilled.typed path e hmem
  have htype := (hnodes.types path e hitem _).mp htyping
  refine ⟨j, item, type, hj, hitem, htype, ?_, ?_⟩
  · intro hslot
    obtain ⟨t, ht, hread⟩ := Setting.readType_of_mem hsound hnodes hfilledItem hitem hslot
    exact ⟨t, Except.ok.inj (htype.symm.trans ht), hread⟩
  · intro hnoEnum
    have hexpr := Setting.exprType_of_mem hsound hnodes hfilledItem hitem htype
    cases type with
    | none =>
      obtain ⟨r, d, hr, hd⟩ := TypeScope.typeOf_eq_none htype
      exact absurd hd (hnoEnum r d hr)
    | some t => exact ⟨t, rfl, hexpr⟩

/-- Negating an eight-bit number gives an `int`. -/
theorem checkTypes_refines_typeCheck_negation :
    let line (n : UInt32) : Position := ⟨"main", n, 1⟩
    let a : Variable := ⟨line 1, "a", ⟨line 1, "i8", false⟩⟩
    let b : Variable := ⟨line 2, "b", ⟨line 2, "int", false⟩⟩
    let negation : Expr := .unary (line 2) "-" (.ref ⟨line 2, "a"⟩)
    let source : Source := ⟨line 1, [.globalVar a,
      .stmt (.assign (line 2) ⟨line 2, "b"⟩ negation (some b))]⟩
    source.bindNames {} = .ok () source.boundNotes ∧
      source.checkTypes.answer source.boundNotes = .ok () ∧
      ∃ notes, source.checkTypes source.boundNotes = .ok () notes ∧
        notes.readType [.value, .item 1] = .ok "int" := by
  intro line a b negation source
  have hbind : source.bindNames {} = .ok () source.boundNotes :=
    (source.bindNames_eq_ok_iff _).mpr ⟨⟨by decide, by decide, by simp [source]⟩, rfl⟩
  obtain ⟨hanswer, htypes⟩ := source.checkTypes_refines_typeCheck source.boundNotes hbind
  have hcheck : source.typeCheck = .ok () := by decide +kernel
  rw [hcheck] at hanswer
  obtain ⟨notes, hrun⟩ := Pass.answer_eq_ok_iff.mp hanswer
  refine ⟨hbind, hanswer, notes, hrun, ?_⟩
  obtain ⟨scopes, -, hexprs⟩ := htypes notes hrun
  obtain ⟨j, item, type, hj, hmem, htype, hslot, -⟩ := hexprs [.value, .item 1] negation (by
    simp [source, negation, outline, Outline.numbered, Item.outline, Stmt.outline, Expr.outline])
  have hsuffix := (item.wellPathed_outline [.item j]).path_suffix _ hmem
  obtain rfl : j = 1 := by simpa [List.suffix_cons_iff] using hsuffix
  obtain rfl : Item.stmt (.assign (line 2) ⟨line 2, "b"⟩ negation (some b)) = item := by
    simpa [source] using hj
  obtain ⟨t, rfl, hread⟩ := hslot rfl
  have hint : (source.typeScope (.stmt (.assign (line 2) ⟨line 2, "b"⟩ negation (some b)))).typeOf
      negation = .ok (some "int") := by decide +kernel
  rw [hint, Except.ok.injEq, Option.some.injEq] at htype
  rw [hread, htype]

end Source

end SimCompiler
