import SimCompiler.Proofs.PlanRuns

/-!
# Lowered references

Where generation does not stop, it has gone through the whole program: every reference in it has
been given a target text.
-/
namespace SimCompiler

namespace Plan

/-- Generation does not stop anywhere in the plan. -/
def Complete (p : Plan) : Prop := ∀ h ∈ p.heads, ∃ r, h = .ok r

theorem complete_node {parts : List Plan} {form : Result (Form parts.length)} :
    (node parts form).Complete ↔ (∀ p ∈ parts, p.Complete) ∧ ∃ f, form = .ok f := by
  have hlast : (∃ r, form.map (·.head) = .ok r) ↔ ∃ f, form = .ok f := by
    cases form <;> simp [Except.map]
  simp only [Complete, heads_node, List.forall_mem_append, List.forall_mem_flatMap,
    List.forall_mem_singleton, hlast]

theorem complete_leaf {form : Result (Form 0)} : (leaf form).Complete ↔ ∃ f, form = .ok f := by
  rw [leaf, complete_node]
  simp

theorem complete_after {r : Result α} {f : α → Plan} :
    (after r f).Complete ↔ ∃ a, r = .ok a ∧ (f a).Complete := by
  cases r with
  | ok a => simp [after]
  | error e => simp [after, stop, complete_leaf]

/-- Plans that have made requests have not stopped. -/
theorem complete_of_grows {ps : List Plan} {log : RequestLog} {texts : List String}
    {new : List Request} (h : RequestLog.Grows log (ps.flatMap (·.heads)) texts new) :
    ∀ p ∈ ps, p.Complete := by
  intro p hp head hhead
  have hmem : head ∈ ps.flatMap (·.heads) := List.mem_flatMap.mpr ⟨p, hp, hhead⟩
  rw [h.heads] at hmem
  obtain ⟨r, -, rfl⟩ := List.mem_map.mp hmem
  exact ⟨r.bare, rfl⟩

end Plan

/-- The references of the node at `path` have a target text. -/
def Node.Lowered (g : Generator) (path : Path) : Node → Prop
  | .expr (.ref r) => ∃ text, g.refCode path r = .ok text
  | .expr (.json _ root _ _) => ∃ text, g.jsonRootCode (.root :: path) root = .ok text
  | _ => True

namespace Generator

variable {g : Generator}

/-- A schema-less value that has a text has it as any other reference. -/
theorem refCode_of_jsonRootCode {path : Path} {r : Ref} {text : String}
    (h : g.jsonRootCode path r = .ok text) : g.refCode path r = .ok text := by
  obtain ⟨d, hd, h⟩ := Result.bind_eq_ok_iff.mp h
  rw [refCode, hd, Result.ok_bind]
  cases d with
  | builtinConst c => exact h
  | _ => cases h

def Lowers (g : Generator) (nodes : List (Path × Node)) : Prop := ∀ x ∈ nodes, x.2.Lowered g x.1

@[simp] theorem lowers_nil : g.Lowers [] := by simp [Lowers]

@[simp] theorem lowers_cons (path : Path) (node : Node) (nodes : List (Path × Node)) :
    g.Lowers ((path, node) :: nodes) ↔ node.Lowered g path ∧ g.Lowers nodes := by
  simp [Lowers]

@[simp] theorem lowers_append (xs ys : List (Path × Node)) :
    g.Lowers (xs ++ ys) ↔ g.Lowers xs ∧ g.Lowers ys := by
  simp only [Lowers, List.forall_mem_append]

@[simp] theorem lowers_typeRef (path : Path) (t : TypeRef) : g.Lowers (t.outline path).nodes := by
  simp [TypeRef.outline, Node.Lowered]

@[simp] theorem lowers_ref (path : Path) (r : Ref) :
    g.Lowers (r.outline path).nodes ↔ ∃ text, g.refCode path r = .ok text := by
  simp [Ref.outline, Node.Lowered]

theorem lowers_numbered {step : Nat → Step} {f : Path → α → Outline} {xs : List α}
    (h : ∀ x ∈ xs, ∀ path, g.Lowers (f path x).nodes) (path : Path) (i : Nat) :
    g.Lowers (Outline.nodesAll (Outline.numbered step f path i xs)) := by
  induction xs generalizing i with
  | nil => simp [Outline.numbered]
  | cons x xs ih =>
    rw [Outline.numbered, Outline.nodesAll_cons, lowers_append]
    exact ⟨h x (by simp) _, ih (fun y hy => h y (by simp [hy])) (i + 1)⟩

theorem lowers_exprs {es : List Expr}
    (ih : ∀ e ∈ es, ∀ path code, g.exprCode path e = .ok code → g.Lowers (e.outline path).nodes)
    {path : Path} {i : Nat} {codes : List String} (h : g.exprCodes path i es = .ok codes) :
    g.Lowers (Outline.nodesAll (Expr.outlines path i es)) := by
  induction es generalizing i codes with
  | nil => simp [Expr.outlines]
  | cons e es ihes =>
    rw [exprCodes] at h
    obtain ⟨first, hfirst, h⟩ := Result.bind_eq_ok_iff.mp h
    obtain ⟨rest, hrest, -⟩ := Result.bind_eq_ok_iff.mp h
    rw [Expr.outlines, Outline.nodesAll_cons, lowers_append]
    exact ⟨ih e (by simp) _ first hfirst, ihes (fun e he => ih e (by simp [he])) hrest⟩

/-- An expression with a text has lowered the references in it. -/
theorem lowers_expr (e : Expr) :
    ∀ path code, g.exprCode path e = .ok code → g.Lowers (e.outline path).nodes := by
  induction e using Expr.induction with
  | bool | int | float | str => simp [Expr.outline, Node.Lowered]
  | ref r =>
    intro path code h
    rw [exprCode] at h
    rw [Expr.outline, lowers_ref]
    exact ⟨code, h⟩
  | unary p op e ih =>
    intro path code h
    rw [exprCode] at h
    obtain ⟨operand, hoperand, -⟩ := Result.bind_eq_ok_iff.mp h
    simp [Expr.outline, Node.Lowered, ih _ _ hoperand]
  | binary p l op r ihl ihr =>
    intro path code h
    rw [exprCode] at h
    obtain ⟨left, hleft, h⟩ := Result.bind_eq_ok_iff.mp h
    obtain ⟨right, hright, -⟩ := Result.bind_eq_ok_iff.mp h
    simp [Expr.outline, Node.Lowered, ihl _ _ hleft, ihr _ _ hright]
  | call p callee args ih =>
    intro path code h
    rw [exprCode] at h
    obtain ⟨codes, hcodes, h⟩ := Result.bind_eq_ok_iff.mp h
    obtain ⟨text, htext, -⟩ := Result.bind_eq_ok_iff.mp h
    simp [Expr.outline, Node.Lowered, htext, lowers_exprs ih hcodes]
  | json p root indices target ih =>
    intro path code h
    rw [exprCode] at h
    obtain ⟨text, htext, h⟩ := Result.bind_eq_ok_iff.mp h
    obtain ⟨codes, hcodes, -⟩ := Result.bind_eq_ok_iff.mp h
    simp [Expr.outline, Node.Lowered, htext, refCode_of_jsonRootCode htext, lowers_exprs ih hcodes]

variable (g) in
/-- The plan of a statement goes through all references of the statement. -/
def Reaches (s : Stmt) : Prop :=
  ∀ path, (g.stmtPlan path s).Complete → g.Lowers (s.outline path).nodes

theorem lowers_block {b : Block} (ih : ∀ s ∈ b.stmts, g.Reaches s) {path : Path}
    (h : ∀ p ∈ g.blockPlans path b, p.Complete) : g.Lowers (b.outline path).nodes := by
  obtain ⟨p, ss⟩ := b
  have hstmts : ∀ (ss : List Stmt) (i : Nat), (∀ s ∈ ss, g.Reaches s) →
      (∀ p ∈ g.stmtPlans path i ss, p.Complete) →
      g.Lowers (Outline.nodesAll (Stmt.outlines path i ss)) := by
    intro ss
    induction ss with
    | nil => simp [Stmt.outlines]
    | cons s ss ihss =>
      intro i ih h
      rw [stmtPlans, List.forall_mem_cons] at h
      rw [Stmt.outlines, Outline.nodesAll_cons, lowers_append]
      exact ⟨ih s (by simp) _ h.1, ihss (i + 1) (fun s hs => ih s (by simp [hs])) h.2⟩
  rw [blockPlans] at h
  simp [Block.outline, Node.Lowered, hstmts ss 0 ih h]

theorem lowers_elif {e : Elif} (ih : ∀ s ∈ e.block.stmts, g.Reaches s) {path : Path}
    (h : (g.elifPlan path e).Complete) : g.Lowers (e.outline path).nodes := by
  obtain ⟨p, condition, b⟩ := e
  rw [elifPlan, Plan.complete_after] at h
  obtain ⟨code, hcode, h⟩ := h
  rw [Plan.complete_node] at h
  simp [Elif.outline, Node.Lowered, lowers_expr _ _ _ hcode, lowers_block ih h.1]

theorem lowers_elifs {es : List Elif} (ih : ∀ e ∈ es, ∀ s ∈ e.block.stmts, g.Reaches s)
    {path : Path} {i : Nat} (h : ∀ p ∈ g.elifPlans path i es, p.Complete) :
    g.Lowers (Outline.nodesAll (Elif.outlines path i es)) := by
  induction es generalizing i with
  | nil => simp [Elif.outlines]
  | cons e es ihes =>
    rw [elifPlans, List.forall_mem_cons] at h
    rw [Elif.outlines, Outline.nodesAll_cons, lowers_append]
    exact ⟨lowers_elif (ih e (by simp)) h.1, ihes (fun e he => ih e (by simp [he])) h.2⟩

theorem lowers_else {e : Else} (ih : ∀ s ∈ e.block.stmts, g.Reaches s) {path : Path}
    (h : (g.elsePlan path e).Complete) : g.Lowers (e.outline path).nodes := by
  obtain ⟨p, b⟩ := e
  rw [elsePlan, Plan.complete_node] at h
  simp [Else.outline, Node.Lowered, lowers_block ih h.1]

theorem reaches_stmt (s : Stmt) : g.Reaches s := by
  induction s using Stmt.induction with
  | pass p =>
    intro path h
    simp [Stmt.outline, Node.Lowered]
  | assign p target value declared =>
    intro path h
    rw [stmtPlan, Plan.complete_leaf] at h
    obtain ⟨f, h⟩ := h
    obtain ⟨text, htext, h⟩ := Result.bind_eq_ok_iff.mp h
    obtain ⟨code, hcode, -⟩ := Result.bind_eq_ok_iff.mp h
    have hvalue := lowers_expr _ _ _ hcode
    cases declared <;> simp [Stmt.outline, Variable.outline, Node.Lowered, htext, hvalue]
  | update p target op value =>
    intro path h
    rw [stmtPlan, Plan.complete_leaf] at h
    obtain ⟨f, h⟩ := h
    obtain ⟨text, htext, h⟩ := Result.bind_eq_ok_iff.mp h
    obtain ⟨code, hcode, -⟩ := Result.bind_eq_ok_iff.mp h
    simp [Stmt.outline, Node.Lowered, htext, lowers_expr _ _ _ hcode]
  | print p args =>
    intro path h
    rw [stmtPlan, Plan.complete_leaf] at h
    obtain ⟨f, h⟩ := h
    obtain ⟨codes, hcodes, -⟩ := Result.bind_eq_ok_iff.mp h
    simp [Stmt.outline, Node.Lowered, lowers_exprs (fun e _ => lowers_expr e) hcodes]
  | ret p value =>
    intro path h
    cases value with
    | none => simp [Stmt.outline, Node.Lowered]
    | some value =>
      rw [stmtPlan, Plan.complete_leaf] at h
      obtain ⟨f, h⟩ := h
      obtain ⟨code, hcode, -⟩ := Result.bind_eq_ok_iff.mp h
      simp [Stmt.outline, Node.Lowered, lowers_expr _ _ _ hcode]
  | cond p condition b elifs otherwise ihb ihelifs ihelse =>
    intro path h
    cases otherwise with
    | none =>
      rw [stmtPlan, Plan.complete_after] at h
      obtain ⟨code, hcode, h⟩ := h
      rw [Plan.complete_node, List.forall_mem_append] at h
      simp [Stmt.outline, Node.Lowered, lowers_expr _ _ _ hcode, lowers_block ihb h.1.1,
        lowers_elifs ihelifs h.1.2]
    | some e =>
      rw [stmtPlan, Plan.complete_after] at h
      obtain ⟨code, hcode, h⟩ := h
      simp only [Plan.complete_node, List.forall_mem_append, List.forall_mem_singleton] at h
      obtain ⟨⟨hblock, helifs, helse⟩, -⟩ := h
      simp [Stmt.outline, Node.Lowered, lowers_expr _ _ _ hcode, lowers_block ihb hblock,
        lowers_elifs ihelifs helifs, lowers_else (ihelse e rfl) helse]

theorem lowers_func {f : Func} {path : Path} (h : (g.funcPlan path f).Complete) :
    g.Lowers (f.outline path).nodes := by
  rw [funcPlan, Plan.complete_after] at h
  obtain ⟨_, -, h⟩ := h
  rw [Plan.complete_node] at h
  have hparams : g.Lowers (Outline.nodesAll
      (Outline.numbered .param (Variable.outline .param) path 0 f.params)) :=
    lowers_numbered (by simp [Variable.outline, Node.Lowered]) path 0
  have hbody := lowers_block (fun s _ => reaches_stmt s) h.1
  rw [Func.outline]
  cases f.returnType <;> simp [Node.Lowered, hparams, hbody]

theorem lowers_items {items : List Item} {i : Nat} (h : ∀ p ∈ g.itemPlans i items, p.Complete) :
    g.Lowers (Outline.nodesAll (Outline.numbered .item Item.outline [] i items)) := by
  induction items generalizing i with
  | nil => simp [Outline.numbered]
  | cons item items ih =>
    rw [Outline.numbered, Outline.nodesAll_cons, lowers_append]
    cases item with
    | globalVar v =>
      rw [itemPlans] at h
      cases hslot : g.variableSlot v with
      | ok slot =>
        simp only [hslot] at h
        exact ⟨by simp [Item.outline, Variable.outline, Node.Lowered], ih h⟩
      | error e =>
        simp only [hslot, List.forall_mem_cons] at h
        simp [Plan.stop, Plan.complete_leaf] at h
    | enum d =>
      rw [itemPlans, List.forall_mem_cons] at h
      refine ⟨?_, ih h.2⟩
      rw [Item.outline, EnumDecl.outline, Outline.nodes_mk, lowers_cons]
      exact ⟨trivial, lowers_numbered (by simp [Node.Lowered]) _ 0⟩
    | func f =>
      rw [itemPlans, List.forall_mem_cons] at h
      exact ⟨lowers_func h.1, ih h.2⟩
    | stmt s =>
      rw [itemPlans, List.forall_mem_cons] at h
      exact ⟨reaches_stmt s _ h.1, ih h.2⟩

end Generator

end SimCompiler
