import SimCompiler.Proofs.Events
import SimCompiler.Proofs.Slots

/-!
# Generation in post-order

The generator goes through a program by a recursion of its own, which knows nothing of visitors.
Still it makes its requests where a walk leaves the nodes: one for each statement, section,
enumeration and function, after those of the nodes below it and with the position of the node. The
request for the main file, which stands for the program itself, and the build file come last.
-/
namespace SimCompiler

namespace Request

/-- The position that the template is given. -/
def position? : Request → Option Position
  | .passStmt p | .assignmentStmt _ _ p | .updateStmt _ _ _ p | .printStmt _ _ p
  | .returnStmt _ p | .ifStmt _ _ _ _ p | .elifSection _ _ p | .elseSection _ p
  | .enumDecl _ _ p | .function _ _ _ p => some p
  | .mainFile .. | .buildFile .. => none

/-- What marks a request: its template and its position. -/
def tag (r : Request) : String × Option Position := (r.template, r.position?)

theorem tag_bare (r : Request) : r.bare.tag = r.tag := by
  cases r <;> rfl

end Request

namespace Node

/-- The template of a node that has a request of its own. -/
def template? : Node → Option String
  | .stmt (.pass ..) => some "openmp-cpu:pass_stmt"
  | .stmt (.assign ..) => some "openmp-cpu:assignment_stmt"
  | .stmt (.update ..) => some "openmp-cpu:update_stmt"
  | .stmt (.print ..) => some "openmp-cpu:print_stmt"
  | .stmt (.ret ..) => some "openmp-cpu:return_stmt"
  | .stmt (.cond ..) => some "openmp-cpu:if_stmt"
  | .elif _ => some "openmp-cpu:elif_section"
  | .otherwise _ => some "openmp-cpu:else_section"
  | .enum _ => some "openmp-cpu:enum_decl"
  | .func _ => some "openmp-cpu:function"
  | _ => none

def tag? (node : Node) : Option (String × Option Position) :=
  node.template?.map fun template => (template, some node.position)

theorem tag?_of_isLiteral {node : Node} (h : node.isLiteral) : node.tag? = none := by
  cases node with
  | expr e => rfl
  | _ => simp [isLiteral] at h

end Node

/-- The node that is left. -/
def Event.left? (e : Event) : Option Node :=
  match e.phase with
  | .enter => none
  | .leave => some e.node

/-- Writes down every node that it leaves. -/
def Visitor.leaving : Visitor (List Node) where
  leave _ node := modify (· ++ [node])

theorem Visitor.forM_call_leaving (events : List Event) (left : List Node) :
    forM events leaving.call left = .ok () (left ++ events.filterMap Event.left?) := by
  induction events generalizing left with
  | nil => simp
  | cons event events ih =>
    obtain ⟨phase, path, node⟩ := event
    cases phase with
    | enter =>
      have hcall : leaving.call ⟨.enter, path, node⟩ left = .ok () left := rfl
      rw [List.forM_cons, Pass.run_bind, hcall]
      exact ih left
    | leave =>
      have hcall : leaving.call ⟨.leave, path, node⟩ left = .ok () (left ++ [node]) := rfl
      rw [List.forM_cons, Pass.run_bind, hcall]
      show forM events leaving.call (left ++ [node]) = _
      rw [ih, List.append_assoc]
      rfl

namespace Outline

/-- The nodes in the order in which a walk leaves them. -/
def left (o : Outline) : List Node := o.events.filterMap Event.left?

theorem walk_leaving (o : Outline) : o.walk Visitor.leaving [] = .ok () o.left := by
  rw [walk_eq_forM_events, Visitor.forM_call_leaving, List.nil_append, left]

/-- The marks of the nodes, in the order in which a walk leaves them. -/
def tags (o : Outline) : List (String × Option Position) := o.left.filterMap Node.tag?

theorem tags_mk (path : Path) (node : Node) (children : List Outline) :
    (⟨path, node, children⟩ : Outline).tags =
      children.flatMap tags ++ node.tag?.toList := by
  have hchildren : ((eventsAll children).filterMap Event.left?).filterMap Node.tag? =
      children.flatMap tags := by
    rw [eventsAll_eq_flatMap, List.filterMap_flatMap, List.filterMap_flatMap]
    rfl
  rw [tags, left, events_mk]
  by_cases hliteral : node.isLiteral
  · rw [if_pos hliteral, hchildren, Node.tag?_of_isLiteral hliteral, Option.toList_none,
      List.append_nil]
  · rw [if_neg hliteral, List.filterMap_append, List.filterMap_append]
    show ((eventsAll children).filterMap Event.left?).filterMap Node.tag? ++
      [node].filterMap Node.tag? = _
    rw [hchildren]
    cases hnode : node.tag? <;> simp [hnode]

theorem tags_numbered_eq_nil (step : Nat → Step) {f : Path → α → Outline} {xs : List α}
    (h : ∀ x ∈ xs, ∀ path, (f path x).tags = []) (path : Path) :
    (numbered step f path 0 xs).flatMap tags = [] :=
  List.flatMap_eq_nil_iff.mpr (forall_mem_numbered step path h)

@[simp] theorem tags_typeRef (t : TypeRef) (path : Path) : (t.outline path).tags = [] := by
  rw [TypeRef.outline, leaf, tags_mk]
  rfl

@[simp] theorem tags_ref (r : Ref) (path : Path) : (r.outline path).tags = [] := by
  rw [Ref.outline, leaf, tags_mk]
  rfl

/-- There are no requests for expressions. -/
@[simp] theorem tags_expr (e : Expr) : ∀ path, (e.outline path).tags = [] := by
  induction e using Expr.induction with
  | bool | int | float | str =>
    intro path
    rw [Expr.outline, leaf, tags_mk]
    rfl
  | ref r =>
    intro path
    rw [Expr.outline, tags_ref]
  | unary p op e ih =>
    intro path
    simp [Expr.outline, tags_mk, ih, Node.tag?, Node.template?]
  | binary p l op r ihl ihr =>
    intro path
    simp [Expr.outline, tags_mk, ihl, ihr, Node.tag?, Node.template?]
  | call p f args ih =>
    intro path
    have hargs := tags_numbered_eq_nil .arg ih path
    rw [← Expr.outlines_eq_numbered] at hargs
    simp [Expr.outline, tags_mk, hargs, Node.tag?, Node.template?]
  | json p r indices t ih =>
    intro path
    have hindices := tags_numbered_eq_nil .arg ih path
    rw [← Expr.outlines_eq_numbered] at hindices
    simp [Expr.outline, tags_mk, hindices, Node.tag?, Node.template?]

end Outline

/-- The marks of the requests of a plan, in the order in which they are made. -/
def Plan.tags (p : Plan) : List (String × Option Position) :=
  Plan.seen (fun r => some r.tag) p.heads

namespace Plan

theorem tags_node (parts : List Plan) (f : Form parts.length) :
    (node parts (.ok f)).tags = parts.flatMap tags ++ [f.head.tag] := by
  have hparts : seen (fun r => some r.tag) (parts.flatMap (·.heads)) = parts.flatMap tags := by
    rw [seen, List.filterMap_flatMap]
    rfl
  rw [tags, heads_node, seen_append, hparts]
  rfl

theorem tags_leaf (f : Form 0) : (leaf (.ok f)).tags = [f.head.tag] := tags_node [] f

end Plan

namespace Generator

variable {g : Generator}

variable (g) in
/-- The plan of a statement makes its requests where a walk leaves the nodes. -/
def InPostOrder (s : Stmt) : Prop :=
  ∀ path, (g.stmtPlan path s).Complete → (g.stmtPlan path s).tags = (s.outline path).tags

theorem tags_block {b : Block} (ih : ∀ s ∈ b.stmts, g.InPostOrder s) {path : Path}
    (h : ∀ p ∈ g.blockPlans path b, p.Complete) :
    (g.blockPlans path b).flatMap Plan.tags = (b.outline path).tags := by
  obtain ⟨p, ss⟩ := b
  have hstmts : ∀ (ss : List Stmt) (i : Nat), (∀ s ∈ ss, g.InPostOrder s) →
      (∀ p ∈ g.stmtPlans path i ss, p.Complete) →
      (g.stmtPlans path i ss).flatMap Plan.tags =
        (Stmt.outlines path i ss).flatMap Outline.tags := by
    intro ss
    induction ss with
    | nil =>
      intro i _ _
      rw [stmtPlans, Stmt.outlines]
      rfl
    | cons s ss ihss =>
      intro i ih h
      rw [stmtPlans, List.forall_mem_cons] at h
      rw [stmtPlans, Stmt.outlines, List.flatMap_cons, List.flatMap_cons, ih s (by simp) _ h.1,
        ihss (i + 1) (fun s hs => ih s (by simp [hs])) h.2]
  rw [blockPlans] at h ⊢
  rw [Block.outline, Outline.tags_mk, hstmts ss 0 ih h]
  exact (List.append_nil _).symm

theorem tags_elif {e : Elif} (ih : ∀ s ∈ e.block.stmts, g.InPostOrder s) {path : Path}
    (h : (g.elifPlan path e).Complete) : (g.elifPlan path e).tags = (e.outline path).tags := by
  obtain ⟨p, condition, b⟩ := e
  rw [elifPlan, Plan.complete_after] at h
  obtain ⟨code, hcode, h⟩ := h
  have hblock := tags_block ih (Plan.complete_node.mp h).1
  rw [elifPlan, hcode, Plan.after, Plan.tags_node, hblock]
  simp [Elif.outline, Outline.tags_mk]
  rfl

theorem tags_elifs {es : List Elif} (ih : ∀ e ∈ es, ∀ s ∈ e.block.stmts, g.InPostOrder s)
    {path : Path} {i : Nat} (h : ∀ p ∈ g.elifPlans path i es, p.Complete) :
    (g.elifPlans path i es).flatMap Plan.tags =
      (Elif.outlines path i es).flatMap Outline.tags := by
  induction es generalizing i with
  | nil =>
    rw [elifPlans, Elif.outlines]
    rfl
  | cons e es ihes =>
    rw [elifPlans, List.forall_mem_cons] at h
    rw [elifPlans, Elif.outlines, List.flatMap_cons, List.flatMap_cons,
      tags_elif (ih e (by simp)) h.1, ihes (fun e he => ih e (by simp [he])) h.2]

theorem tags_else {e : Else} (ih : ∀ s ∈ e.block.stmts, g.InPostOrder s) {path : Path}
    (h : (g.elsePlan path e).Complete) : (g.elsePlan path e).tags = (e.outline path).tags := by
  obtain ⟨p, b⟩ := e
  rw [elsePlan] at h ⊢
  rw [Plan.tags_node, tags_block ih (Plan.complete_node.mp h).1]
  simp [Else.outline, Outline.tags_mk]
  rfl

theorem inPostOrder_stmt (s : Stmt) : g.InPostOrder s := by
  induction s using Stmt.induction with
  | pass p =>
    intro path h
    rw [stmtPlan, Plan.tags_leaf, Stmt.outline, Outline.leaf, Outline.tags_mk]
    rfl
  | assign p target value declared =>
    intro path h
    rw [stmtPlan] at h ⊢
    obtain ⟨f, h⟩ := Plan.complete_leaf.mp h
    rw [h, Plan.tags_leaf]
    obtain ⟨text, -, h⟩ := Result.bind_eq_ok_iff.mp h
    obtain ⟨code, -, h⟩ := Result.bind_eq_ok_iff.mp h
    cases h
    cases declared <;> simp [Stmt.outline, Outline.tags_mk, Variable.outline] <;> rfl
  | update p target op value =>
    intro path h
    rw [stmtPlan] at h ⊢
    obtain ⟨f, h⟩ := Plan.complete_leaf.mp h
    rw [h, Plan.tags_leaf]
    obtain ⟨text, -, h⟩ := Result.bind_eq_ok_iff.mp h
    obtain ⟨code, -, h⟩ := Result.bind_eq_ok_iff.mp h
    cases h
    simp [Stmt.outline, Outline.tags_mk]
    rfl
  | print p args =>
    intro path h
    rw [stmtPlan] at h ⊢
    obtain ⟨f, h⟩ := Plan.complete_leaf.mp h
    rw [h, Plan.tags_leaf]
    obtain ⟨codes, -, h⟩ := Result.bind_eq_ok_iff.mp h
    cases h
    have hargs := Outline.tags_numbered_eq_nil .arg
      (fun e (_ : e ∈ args) => Outline.tags_expr e) path
    rw [Stmt.outline, Outline.tags_mk, Expr.outlines_eq_numbered, hargs]
    rfl
  | ret p value =>
    intro path h
    cases value with
    | none =>
      rw [stmtPlan, Plan.tags_leaf, Stmt.outline, Outline.tags_mk]
      rfl
    | some value =>
      rw [stmtPlan] at h ⊢
      obtain ⟨f, h⟩ := Plan.complete_leaf.mp h
      rw [h, Plan.tags_leaf]
      obtain ⟨code, -, h⟩ := Result.bind_eq_ok_iff.mp h
      cases h
      simp [Stmt.outline, Outline.tags_mk]
      rfl
  | cond p condition b elifs otherwise ihb ihelifs ihelse =>
    intro path h
    cases otherwise with
    | none =>
      rw [stmtPlan, Plan.complete_after] at h
      obtain ⟨code, hcode, h⟩ := h
      simp only [Plan.complete_node, List.forall_mem_append] at h
      obtain ⟨⟨hblock, helifs⟩, -⟩ := h
      rw [stmtPlan, hcode, Plan.after, Plan.tags_node, List.flatMap_append, tags_block ihb hblock,
        tags_elifs ihelifs helifs]
      simp [Stmt.outline, Outline.tags_mk]
      rfl
    | some e =>
      rw [stmtPlan, Plan.complete_after] at h
      obtain ⟨code, hcode, h⟩ := h
      simp only [Plan.complete_node, List.forall_mem_append, List.forall_mem_singleton] at h
      obtain ⟨⟨hblock, helifs, helse⟩, -⟩ := h
      rw [stmtPlan, hcode, Plan.after, Plan.tags_node, List.flatMap_append, List.flatMap_append,
        tags_block ihb hblock, tags_elifs ihelifs helifs, List.flatMap_singleton,
        tags_else (ihelse e rfl) helse]
      simp [Stmt.outline, Outline.tags_mk]
      rfl

theorem tags_func {f : Func} {path : Path} (h : (g.funcPlan path f).Complete) :
    (g.funcPlan path f).tags = (f.outline path).tags := by
  rw [funcPlan, Plan.complete_after] at h
  obtain ⟨⟨prototype, locals⟩, hsignature, h⟩ := h
  have hblock := tags_block (fun s _ => inPostOrder_stmt s) (Plan.complete_node.mp h).1
  have hparams := Outline.tags_numbered_eq_nil .param (f := Variable.outline .param)
    (fun v (_ : v ∈ f.params) p => by
      rw [Variable.outline, Outline.tags_mk, List.flatMap_singleton, Outline.tags_typeRef]
      rfl) path
  rw [funcPlan, hsignature, Plan.after, Plan.tags_node, hblock, Func.outline, Outline.tags_mk]
  cases f.returnType <;> simp [hparams] <;> rfl

/-- The items make their requests where a walk leaves their nodes. -/
theorem tags_items {items : List Item} {i : Nat} (h : ∀ p ∈ g.itemPlans i items, p.Complete) :
    (g.itemPlans i items).flatMap Plan.tags =
      (Outline.numbered .item Item.outline [] i items).flatMap Outline.tags := by
  induction items generalizing i with
  | nil => rfl
  | cons item items ih =>
    rw [Outline.numbered, List.flatMap_cons]
    cases item with
    | globalVar v =>
      have hvariable : (Item.outline [.item i] (.globalVar v)).tags = [] := by
        rw [Item.outline, Variable.outline, Outline.tags_mk, List.flatMap_singleton,
          Outline.tags_typeRef]
        rfl
      rw [itemPlans] at h ⊢
      cases hslot : g.variableSlot v with
      | ok slot =>
        simp only [hslot] at h ⊢
        rw [hvariable, ih h, List.nil_append]
      | error e =>
        simp only [hslot, List.forall_mem_cons] at h
        simp [Plan.stop, Plan.complete_leaf] at h
    | enum d =>
      rw [itemPlans, List.forall_mem_cons] at h
      have hconstants := Outline.tags_numbered_eq_nil .constant
        (fun c (_ : c ∈ d.constants) p => (Outline.tags_mk p (.constant c) [] : _ = [])) [.item i]
      rw [itemPlans, List.flatMap_cons, ih h.2, enumPlan, Plan.tags_leaf, Item.outline,
        EnumDecl.outline, Outline.tags_mk]
      simp only [Outline.leaf, hconstants]
      rfl
    | func f =>
      rw [itemPlans, List.forall_mem_cons] at h
      rw [itemPlans, List.flatMap_cons, ih h.2, tags_func h.1]
      rfl
    | stmt s =>
      rw [itemPlans, List.forall_mem_cons] at h
      rw [itemPlans, List.flatMap_cons, ih h.2, inPostOrder_stmt s _ h.1]
      rfl

end Generator

namespace Source

/-- The log of a generated program: for each pass, assignment, update, print, return, if, elif,
else, enumeration and function node that a walk leaves, in that order, a request for its template
with its position, and then those for the main file and for the build file of the module. -/
theorem generate_in_post_order (source : Source) (notes : Annotations) (name : String)
    (project : Project) (log : RequestLog)
    (h : source.generate notes RequestLog.renderer name [] = .ok project log) :
    ∃ body enums prototypes decls globals locals stmts left,
      log = body ++ [.mainFile enums prototypes decls globals locals stmts, .buildFile name] ∧
      source.outline.walk Visitor.leaving [] = .ok () left ∧
      body.map (fun r => (r.template, r.position?)) =
        left.filterMap fun node =>
          node.template?.map fun template => (template, some node.position) := by
  obtain ⟨g, planned, -, hplan, rfl⟩ := generate_log h
  obtain ⟨prototypes, globals, own, locals, enums, decls, stmts, texts, new, -, -, -, -, hgrows, -,
    rfl⟩ := Generator.program_log hplan
  refine ⟨new, enums, prototypes, decls, globals, locals, stmts, source.outline.left,
    by rw [List.append_assoc]; rfl, source.outline.walk_leaving, ?_⟩
  have hitems := Generator.tags_items (Plan.complete_of_grows hgrows)
  have hsource : source.outline.tags =
      (Outline.numbered .item Item.outline [] 0 source.items).flatMap Outline.tags := by
    rw [outline, Outline.tags_mk]
    exact List.append_nil _
  calc new.map Request.tag
      = new.filterMap fun r => some r.tag := (congrFun List.filterMap_eq_map new).symm
    _ = Plan.seen (fun r => some r.tag) ((g.itemPlans 0 source.items).flatMap (·.heads)) :=
      Plan.seen_of_grows (fun r => by rw [r.tag_bare]) hgrows
    _ = (g.itemPlans 0 source.items).flatMap Plan.tags := List.filterMap_flatMap
    _ = source.outline.tags := by rw [hitems, hsource]

/-- The branches of a conditional come before the conditional, and all before its function. -/
theorem generate_in_post_order_branches :
    let line (n : UInt32) : Position := ⟨"main", n, 1⟩
    let cell : EnumDecl := ⟨line 1, "Cell", [⟨line 1, "Dead", "Cell"⟩]⟩
    let print : Stmt := .print (line 4) [.ref ⟨line 4, "Dead"⟩]
    let branch : Stmt := .cond (line 3) (.bool (line 3) true) ⟨line 3, [print]⟩
      [⟨line 5, .bool (line 5) false, ⟨line 5, [.pass (line 6)]⟩⟩]
      (some ⟨line 7, ⟨line 7, [.ret (line 8) none]⟩⟩)
    let f : Func := ⟨line 2, "f", [], none, ⟨line 2, [branch]⟩⟩
    let source : Source := ⟨line 1, [.enum cell, .func f, .stmt (.pass (line 9))]⟩
    ∃ session project log, Session.apply source {} = .ok () session ∧
      source.generate session.notes RequestLog.renderer "main" [] = .ok project log ∧
      ∃ body main, log = body ++ [main, .buildFile "main"] ∧
        body.map (fun r => (r.template, r.position?)) =
          [("openmp-cpu:enum_decl", some (line 1)), ("openmp-cpu:print_stmt", some (line 4)),
            ("openmp-cpu:pass_stmt", some (line 6)), ("openmp-cpu:elif_section", some (line 5)),
            ("openmp-cpu:return_stmt", some (line 8)), ("openmp-cpu:else_section", some (line 7)),
            ("openmp-cpu:if_stmt", some (line 3)), ("openmp-cpu:function", some (line 2)),
            ("openmp-cpu:pass_stmt", some (line 9))] := by
  intro line cell print branch f source
  have hanswer : (source.compile RequestLog.renderer "main").answer [] =
      .ok (RequestLog.placeholder 9) := by decide +kernel
  obtain ⟨log, hcompile⟩ := Pass.answer_eq_ok_iff.mp hanswer
  obtain ⟨session, project, hsession, hgenerate, -⟩ := generate_of_compile hcompile
  obtain ⟨body, enums, prototypes, decls, globals, locals, stmts, left, hlog, hwalk, hbody⟩ :=
    source.generate_in_post_order session.notes "main" project log hgenerate
  rw [source.outline.walk_leaving] at hwalk
  cases hwalk
  refine ⟨session, project, log, hsession, hgenerate, body, _, hlog, ?_⟩
  rw [hbody]
  decide +kernel

end Source

end SimCompiler
