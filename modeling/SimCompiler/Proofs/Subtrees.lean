import SimCompiler.Proofs.Nodes

/-!
# Subtrees

A node has the same outline wherever it stands. So with a node of a program all nodes below it are
nodes of the program, at the paths that the node itself gives them, and what every node hands on to
its children holds of all nodes if it holds of the root.
-/
namespace SimCompiler

open Outline

/-- The outline of the node at `path`. -/
def Node.outline (path : Path) : Node → Outline
  | .source s => s.outline
  | .globalVar v => v.outline .globalVar path
  | .enum d => d.outline path
  | .constant c => leaf path (.constant c)
  | .func f => f.outline path
  | .param v => v.outline .param path
  | .localVar v => v.outline .localVar path
  | .typeRef t => t.outline path
  | .block b => b.outline path
  | .stmt s => s.outline path
  | .elif e => e.outline path
  | .otherwise e => e.outline path
  | .expr e => e.outline path

/-- Every node has the children that its own outline gives it. -/
inductive Outline.Faithful : Outline → Prop
  | mk {path : Path} {node : Node} {children : List Outline}
      (hnode : node.outline path = ⟨path, node, children⟩) (h : ∀ o ∈ children, o.Faithful) :
      Faithful ⟨path, node, children⟩

theorem Outline.root_mem_nodes (o : Outline) : (o.path, o.node) ∈ o.nodes := by
  obtain ⟨path, node, children⟩ := o
  rw [nodes_mk]
  exact List.mem_cons_self

theorem Outline.child_mem_nodes {o child : Outline} (h : child ∈ o.children) :
    (child.path, child.node) ∈ o.nodes := by
  obtain ⟨path, node, children⟩ := o
  rw [nodes_mk, nodesAll_eq_flatMap]
  exact List.mem_cons_of_mem _ (List.mem_flatMap.mpr ⟨child, h, child.root_mem_nodes⟩)

/-- The nodes below a node of the outline are nodes of the outline. -/
theorem Outline.Faithful.nodes_subset {o : Outline} (h : o.Faithful) :
    ∀ x ∈ o.nodes, (x.2.outline x.1).nodes ⊆ o.nodes := by
  induction h with
  | @mk path node children hnode _ ih =>
    intro x hx
    rw [nodes_mk] at hx
    rcases List.mem_cons.mp hx with rfl | hx
    · rw [hnode]
      exact List.Subset.refl _
    · rw [nodesAll_eq_flatMap, List.mem_flatMap] at hx
      obtain ⟨o, ho, hx⟩ := hx
      intro y hy
      rw [nodes_mk, nodesAll_eq_flatMap]
      exact List.mem_cons_of_mem _ (List.mem_flatMap.mpr ⟨o, ho, ih o ho x hx hy⟩)

/-- The children of a node of the outline are nodes of the outline. -/
theorem Outline.Faithful.mem_nodes_child {o child : Outline} (h : o.Faithful) {path : Path}
    {node : Node} (hnode : (path, node) ∈ o.nodes) (hchild : child ∈ (node.outline path).children) :
    (child.path, child.node) ∈ o.nodes :=
  h.nodes_subset _ hnode (child_mem_nodes hchild)

/-- What holds of the root, and of the children of a node if it holds of the node, holds of all
nodes. -/
theorem Outline.Faithful.forall_nodes {o : Outline} (h : o.Faithful) {q : Path → Node → Prop}
    (hroot : q o.path o.node)
    (hstep : ∀ path node, (path, node) ∈ o.nodes → q path node →
      ∀ child ∈ (node.outline path).children, q child.path child.node) :
    ∀ x ∈ o.nodes, q x.1 x.2 := by
  induction h with
  | @mk path node children hnode _ ih =>
    intro x hx
    rw [nodes_mk] at hx
    rcases List.mem_cons.mp hx with rfl | hx
    · exact hroot
    · rw [nodesAll_eq_flatMap, List.mem_flatMap] at hx
      obtain ⟨o, ho, hx⟩ := hx
      have hchild := hstep path node (root_mem_nodes _) hroot o (by rwa [hnode])
      refine ih o ho hchild (fun path' node' hmem => hstep path' node' ?_) x hx
      rw [nodes_mk, nodesAll_eq_flatMap]
      exact List.mem_cons_of_mem _ (List.mem_flatMap.mpr ⟨o, ho, hmem⟩)

/-- Every node but the root is a child of another node. -/
theorem Outline.Faithful.exists_parent {o : Outline} (h : o.Faithful) {path : Path} {node : Node}
    (hmem : (path, node) ∈ o.nodes) : node = o.node ∨ ∃ q parent child, (q, parent) ∈ o.nodes ∧
      child ∈ (parent.outline q).children ∧ child.path = path ∧ child.node = node := by
  refine h.forall_nodes (q := fun path node => node = o.node ∨ ∃ q parent child,
    (q, parent) ∈ o.nodes ∧ child ∈ (parent.outline q).children ∧ child.path = path ∧
      child.node = node) (.inl rfl) ?_ _ hmem
  intro q parent hparent _ child hchild
  exact .inr ⟨q, parent, child, hparent, hchild, rfl, rfl⟩

@[simp] theorem Expr.node_outline (e : Expr) (path : Path) : (e.outline path).node = .expr e := by
  cases e <;> simp [Expr.outline, leaf, Ref.outline]

@[simp] theorem Stmt.node_outline (s : Stmt) (path : Path) : (s.outline path).node = .stmt s := by
  cases s with
  | pass p => simp [Stmt.outline, leaf]
  | cond p c b elifs otherwise => cases otherwise <;> rw [Stmt.outline]
  | _ => rw [Stmt.outline]

@[simp] theorem Block.node_outline (b : Block) (path : Path) :
    (b.outline path).node = .block b := by
  obtain ⟨p, stmts⟩ := b
  rw [Block.outline]

@[simp] theorem Elif.node_outline (e : Elif) (path : Path) : (e.outline path).node = .elif e := by
  obtain ⟨p, condition, block⟩ := e
  rw [Elif.outline]

@[simp] theorem Else.node_outline (e : Else) (path : Path) :
    (e.outline path).node = .otherwise e := by
  obtain ⟨p, block⟩ := e
  rw [Else.outline]

def Item.node : Item → Node
  | .globalVar v => .globalVar v
  | .enum d => .enum d
  | .func f => .func f
  | .stmt s => .stmt s

@[simp] theorem Item.node_outline (item : Item) (path : Path) :
    (item.outline path).node = item.node := by
  cases item with
  | stmt s => exact s.node_outline path
  | _ => rfl

/-- The nodes right below a node, in source order. -/
def Node.children : Node → List Node
  | .source s => s.items.map Item.node
  | .globalVar v | .param v | .localVar v => [.typeRef v.type]
  | .enum d => d.constants.map .constant
  | .constant _ | .typeRef _ => []
  | .func f => f.params.map .param ++ (f.returnType.map .typeRef).toList ++ [.block f.body]
  | .block b => b.stmts.map .stmt
  | .stmt (.pass _) => []
  | .stmt (.assign _ r e declared) => (declared.map .localVar).toList ++ [.ref r, .expr e]
  | .stmt (.update _ r _ e) => [.ref r, .expr e]
  | .stmt (.print _ args) => args.map .expr
  | .stmt (.cond _ c b elifs none) => .expr c :: .block b :: elifs.map .elif
  | .stmt (.cond _ c b elifs (some e)) => .expr c :: .block b :: (elifs.map .elif ++ [.otherwise e])
  | .stmt (.ret _ value) => (value.map .expr).toList
  | .elif e => [.expr e.condition, .block e.block]
  | .otherwise e => [.block e.block]
  | .expr (.unary _ _ e) => [.expr e]
  | .expr (.binary _ l _ r) => [.expr l, .expr r]
  | .expr (.call _ f args) => .ref f :: args.map .expr
  | .expr (.json _ r indices t) => .ref r :: (indices.map .expr ++ [.typeRef t])
  | .expr _ => []

theorem map_node_numbered {step : Nat → Step} {f : Path → α → Outline} {g : α → Node}
    (h : ∀ path x, (f path x).node = g x) (path : Path) (i : Nat) (xs : List α) :
    (numbered step f path i xs).map (·.node) = xs.map g := by
  induction xs generalizing i with
  | nil => rfl
  | cons x xs ih => rw [numbered, List.map_cons, h, ih, List.map_cons]

/-- The outline of a node has the nodes right below it as children. -/
theorem Node.map_node_outline (node : Node) (path : Path) :
    (node.outline path).children.map (·.node) = node.children := by
  have hexprs (es : List Expr) : (Expr.outlines path 0 es).map (·.node) = es.map .expr := by
    rw [Expr.outlines_eq_numbered]
    exact map_node_numbered (fun p e => e.node_outline p) path 0 es
  cases node with
  | source s => exact map_node_numbered (fun p item => item.node_outline p) [] 0 s.items
  | globalVar v | param v | localVar v | constant c | typeRef t => rfl
  | enum d =>
    apply map_node_numbered
    intro _ _
    rfl
  | func f =>
    have hparams : (numbered .param (Variable.outline .param) path 0 f.params).map (·.node) =
        f.params.map .param := by
      apply map_node_numbered
      intro _ _
      rfl
    cases hreturn : f.returnType <;>
      simp [Node.outline, Func.outline, Node.children, hparams, hreturn, TypeRef.outline, leaf]
  | block b =>
    obtain ⟨p, stmts⟩ := b
    rw [Node.outline, Block.outline, Stmt.outlines_eq_numbered]
    exact map_node_numbered (fun p s => s.node_outline p) path 0 stmts
  | stmt s =>
    cases s with
    | cond p condition block elifs otherwise =>
      have helifs : (Elif.outlines path 0 elifs).map (·.node) = elifs.map .elif := by
        rw [Elif.outlines_eq_numbered]
        exact map_node_numbered (fun p e => e.node_outline p) path 0 elifs
      cases otherwise <;> simp [Node.outline, Stmt.outline, Node.children, helifs]
    | print p args =>
      rw [Node.outline, Stmt.outline]
      exact hexprs args
    | assign p target value declared =>
      cases declared <;>
        simp [Node.outline, Stmt.outline, Node.children, Ref.outline, leaf, Variable.outline]
    | update p target op value =>
      simp [Node.outline, Stmt.outline, Node.children, Ref.outline, leaf]
    | pass p => simp [Node.outline, Stmt.outline, Node.children, leaf]
    | ret p value => cases value <;> simp [Node.outline, Stmt.outline, Node.children]
  | elif e =>
    obtain ⟨p, condition, block⟩ := e
    simp [Node.outline, Elif.outline, Node.children]
  | otherwise e =>
    obtain ⟨p, block⟩ := e
    simp [Node.outline, Else.outline, Node.children]
  | expr e =>
    cases e <;>
      simp [Node.outline, Expr.outline, Node.children, Ref.outline, TypeRef.outline, leaf, hexprs]

theorem Node.mem_children {node : Node} {path : Path} {child : Outline}
    (h : child ∈ (node.outline path).children) : child.node ∈ node.children := by
  rw [← node.map_node_outline path]
  exact List.mem_map_of_mem h

/-- Only an assignment has a local variable right below it. -/
theorem Node.eq_assign_of_localVar {node : Node} {v : Variable}
    (h : .localVar v ∈ node.children) :
    ∃ p target value, node = .stmt (.assign p target value (some v)) := by
  cases node with
  | source s =>
    obtain ⟨item, -, hitem⟩ := List.mem_map.mp h
    cases item <;> cases hitem
  | stmt st =>
    cases st with
    | assign p target value declared =>
      obtain rfl : declared = some v := by simpa [Node.children] using h
      exact ⟨p, target, value, rfl⟩
    | cond p condition block elifs otherwise =>
      cases otherwise <;> simp [Node.children] at h
    | _ => simp [Node.children] at h
  | expr e => cases e <;> simp [Node.children] at h
  | _ => simp [Node.children] at h

/-- Outlines of one node hold the same nodes in the same order. -/
theorem Outline.Faithful.map_snd_nodes {o o' : Outline} (h : o.Faithful) (h' : o'.Faithful)
    (hnode : o.node = o'.node) : o.nodes.map Prod.snd = o'.nodes.map Prod.snd := by
  induction h generalizing o' with
  | @mk path node children hoccurs _ ih =>
    obtain @⟨path', node', children', hoccurs', hfaithful⟩ := h'
    obtain rfl : node = node' := hnode
    have hsame : children.map (·.node) = children'.map (·.node) := by
      have hchildren := node.map_node_outline path
      rw [← node.map_node_outline path', hoccurs, hoccurs'] at hchildren
      exact hchildren
    have hall : ∀ os os' : List Outline, os.map (·.node) = os'.map (·.node) →
        (∀ o ∈ os, o ∈ children) → (∀ o ∈ os', o ∈ children') →
        (nodesAll os).map Prod.snd = (nodesAll os').map Prod.snd := by
      intro os
      induction os with
      | nil =>
        intro os' hnodes _ _
        rw [List.map_eq_nil_iff.mp hnodes.symm]
      | cons o os ihos =>
        intro os' hnodes hmem hmem'
        cases os' with
        | nil => cases hnodes
        | cons o' os' =>
          rw [List.map_cons, List.map_cons, List.cons.injEq] at hnodes
          have hfirst := ih o (hmem o (by simp)) (hfaithful o' (hmem' o' (by simp))) hnodes.1
          have hrest := ihos os' hnodes.2 (fun o ho => hmem o (by simp [ho]))
            fun o ho => hmem' o (by simp [ho])
          rw [nodesAll_cons, nodesAll_cons, List.map_append, List.map_append, hfirst, hrest]
    have hbelow := hall children children' hsame (fun _ ho => ho) fun _ ho => ho
    rw [nodes_mk, nodes_mk, List.map_cons, List.map_cons, hbelow]

theorem Expr.mem_outlines {path : Path} {es : List Expr} {o : Outline} :
    o ∈ Expr.outlines path 0 es ↔ ∃ i e, es[i]? = some e ∧ o = Expr.outline (.arg i :: path) e := by
  simp only [Expr.outlines_eq_numbered, mem_numbered, Nat.zero_add]

theorem Expr.outline_mem_outlines {es : List Expr} {i : Nat} {e : Expr} (h : es[i]? = some e)
    (path : Path) : e.outline (.arg i :: path) ∈ Expr.outlines path 0 es :=
  Expr.mem_outlines.mpr ⟨i, e, h, rfl⟩

theorem Outline.exists_mem_numbered (step : Nat → Step) (f : Path → α → Outline) (path : Path)
    {xs : List α} {x : α} (hx : x ∈ xs) : ∃ path', f path' x ∈ numbered step f path 0 xs := by
  obtain ⟨i, hi⟩ := List.mem_iff_getElem?.mp hx
  exact ⟨step (0 + i) :: path, mem_numbered.mpr ⟨i, x, hi, rfl⟩⟩

theorem Expr.exists_outline_mem {es : List Expr} {e : Expr} (h : e ∈ es) (path : Path) :
    ∃ path', e.outline path' ∈ Expr.outlines path 0 es := by
  rw [Expr.outlines_eq_numbered]
  exact exists_mem_numbered .arg Expr.outline path h

theorem faithful_ref (r : Ref) (path : Path) : (r.outline path).Faithful :=
  .mk (by rw [Node.outline, Expr.outline]; rfl) (by simp)

theorem faithful_typeRef (t : TypeRef) (path : Path) : (t.outline path).Faithful :=
  .mk rfl (by simp)

theorem faithful_expr (e : Expr) : ∀ path, (e.outline path).Faithful := by
  induction e using Expr.induction with
  | bool | int | float | str =>
    intro path
    rw [Expr.outline]
    exact .mk (by rw [Node.outline, Expr.outline]; rfl) (by simp)
  | ref r =>
    intro path
    rw [Expr.outline]
    exact faithful_ref r path
  | unary p op e ih =>
    intro path
    rw [Expr.outline]
    exact .mk (by rw [Node.outline, Expr.outline]) (by simp [ih])
  | binary p l op r ihl ihr =>
    intro path
    rw [Expr.outline]
    exact .mk (by rw [Node.outline, Expr.outline]) (by simp [ihl, ihr])
  | call p f args ih =>
    intro path
    rw [Expr.outline]
    refine .mk (by rw [Node.outline, Expr.outline])
      (List.forall_mem_cons.mpr ⟨faithful_ref f _, ?_⟩)
    rw [Expr.outlines_eq_numbered]
    exact forall_mem_numbered .arg path ih
  | json p r indices t ih =>
    intro path
    rw [Expr.outline]
    refine .mk (by rw [Node.outline, Expr.outline])
      (List.forall_mem_append.mpr ⟨List.forall_mem_cons.mpr ⟨faithful_ref r _, ?_⟩, ?_⟩)
    · rw [Expr.outlines_eq_numbered]
      exact forall_mem_numbered .arg path ih
    · simp [faithful_typeRef]

theorem faithful_block (b : Block) (path : Path) (h : ∀ s ∈ b.stmts, ∀ p, (s.outline p).Faithful) :
    (b.outline path).Faithful := by
  obtain ⟨p, ss⟩ := b
  rw [Block.outline]
  refine .mk (by rw [Node.outline, Block.outline]) ?_
  rw [Stmt.outlines_eq_numbered]
  exact forall_mem_numbered .stmt path h

theorem faithful_elif (e : Elif) (path : Path)
    (h : ∀ s ∈ e.block.stmts, ∀ p, (s.outline p).Faithful) : (e.outline path).Faithful := by
  obtain ⟨p, c, b⟩ := e
  rw [Elif.outline]
  exact .mk (by rw [Node.outline, Elif.outline]) (by simp [faithful_expr, faithful_block b _ h])

theorem faithful_else (e : Else) (path : Path)
    (h : ∀ s ∈ e.block.stmts, ∀ p, (s.outline p).Faithful) : (e.outline path).Faithful := by
  obtain ⟨p, b⟩ := e
  rw [Else.outline]
  exact .mk (by rw [Node.outline, Else.outline]) (by simp [faithful_block b _ h])

theorem faithful_stmt (s : Stmt) : ∀ path, (s.outline path).Faithful := by
  induction s using Stmt.induction with
  | pass p =>
    intro path
    rw [Stmt.outline]
    exact .mk (by rw [Node.outline, Stmt.outline]; rfl) (by simp)
  | assign p r e declared =>
    intro path
    rw [Stmt.outline]
    refine .mk (by rw [Node.outline, Stmt.outline]) ?_
    cases declared with
    | none => simp [faithful_ref, faithful_expr]
    | some v =>
      have hdeclared : (v.outline .localVar (.declared :: path)).Faithful :=
        .mk rfl (by simp [faithful_typeRef])
      simp [faithful_ref, faithful_expr, hdeclared]
  | update p r op e =>
    intro path
    rw [Stmt.outline]
    exact .mk (by rw [Node.outline, Stmt.outline]) (by simp [faithful_ref, faithful_expr])
  | print p args =>
    intro path
    rw [Stmt.outline]
    refine .mk (by rw [Node.outline, Stmt.outline]) ?_
    rw [Expr.outlines_eq_numbered]
    exact forall_mem_numbered .arg path fun e _ => faithful_expr e
  | cond p c b elifs otherwise ihb ihelifs ihelse =>
    intro path
    have helifs := forall_mem_numbered .elif path fun e he p => faithful_elif e p (ihelifs e he)
    rw [← Elif.outlines_eq_numbered] at helifs
    cases otherwise with
    | none =>
      rw [Stmt.outline]
      exact .mk (by rw [Node.outline, Stmt.outline]) (List.forall_mem_cons.mpr ⟨faithful_expr c _,
        List.forall_mem_cons.mpr ⟨faithful_block b _ ihb, helifs⟩⟩)
    | some e =>
      rw [Stmt.outline]
      refine .mk (by rw [Node.outline, Stmt.outline]) (List.forall_mem_cons.mpr
        ⟨faithful_expr c _, List.forall_mem_cons.mpr ⟨faithful_block b _ ihb,
          List.forall_mem_append.mpr ⟨helifs, ?_⟩⟩⟩)
      simp [faithful_else e _ (ihelse e rfl)]
  | ret p value =>
    intro path
    rw [Stmt.outline]
    refine .mk (by rw [Node.outline, Stmt.outline]) ?_
    cases value <;> simp [faithful_expr]

theorem faithful_item (item : Item) (path : Path) : (item.outline path).Faithful := by
  cases item with
  | globalVar v => exact .mk rfl (by simp [faithful_typeRef])
  | enum d =>
    exact .mk rfl (forall_mem_numbered .constant path fun c _ p => .mk rfl (by simp))
  | func f =>
    have hparams := forall_mem_numbered .param path fun v (_ : v ∈ f.params) p =>
      (.mk rfl (by simp [faithful_typeRef]) : (v.outline .param p).Faithful)
    have hbody := faithful_block f.body (.body :: path) fun s _ => faithful_stmt s
    refine .mk rfl (List.forall_mem_append.mpr
      ⟨List.forall_mem_append.mpr ⟨hparams, ?_⟩, by simpa using hbody⟩)
    cases f.returnType <;> simp [faithful_typeRef]
  | stmt s => exact faithful_stmt s path

namespace Source

theorem faithful_outline (s : Source) : s.outline.Faithful :=
  .mk rfl (forall_mem_numbered .item [] fun item _ path => faithful_item item path)

end Source

end SimCompiler
