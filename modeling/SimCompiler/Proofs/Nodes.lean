import SimCompiler.Proofs.Declarations

/-!
# The nodes of an outline

Which declarations the nodes of an outline stand for, in pre-order, and where its frames are: only
the program and its functions have one, and neither a function nor a statement contains a function.
-/
namespace SimCompiler

/-- What the node declares in the frame around it. A function is not among them: it also opens a
frame. -/
def Node.declaration? : Node → Option Declaration
  | .param v => some (.param v)
  | .localVar v => some (.localVar v)
  | .globalVar v => some (.globalVar v)
  | .enum d => some (.enum ⟨d.position, d.name⟩)
  | .constant c => some (.constant c)
  | _ => none

/-- What the nodes declare, in their order. -/
def declaredBy (nodes : List (Path × Node)) : List Declaration :=
  nodes.filterMap (·.2.declaration?)

@[simp] theorem declaredBy_nil : declaredBy [] = [] := rfl

@[simp] theorem declaredBy_cons (x : Path × Node) (xs : List (Path × Node)) :
    declaredBy (x :: xs) = x.2.declaration?.toList ++ declaredBy xs := by
  cases h : x.2.declaration? <;> simp [declaredBy, h]

@[simp] theorem declaredBy_append (xs ys : List (Path × Node)) :
    declaredBy (xs ++ ys) = declaredBy xs ++ declaredBy ys := by
  simp [declaredBy]

/-- Of outlines that stand side by side, each declares its own. -/
theorem declaredBy_numbered {step : Nat → Step} {f : Path → α → Outline} {path : Path}
    {g : α → List Declaration} (xs : List α) (i : Nat)
    (h : ∀ x ∈ xs, ∀ p, declaredBy (f p x).nodes = g x) :
    declaredBy (Outline.nodesAll (Outline.numbered step f path i xs)) = xs.flatMap g := by
  induction xs generalizing i with
  | nil => rfl
  | cons x xs ih =>
    rw [Outline.numbered, Outline.nodesAll_cons, declaredBy_append, h x (by simp),
      ih (i + 1) fun y hy => h y (by simp [hy]), List.flatMap_cons]

@[simp] theorem declaredBy_ref (r : Ref) (path : Path) :
    declaredBy (r.outline path).nodes = [] := by
  simp [Ref.outline, Node.declaration?]

@[simp] theorem declaredBy_typeRef (t : TypeRef) (path : Path) :
    declaredBy (t.outline path).nodes = [] := by
  simp [TypeRef.outline, Node.declaration?]

@[simp] theorem declaredBy_expr (e : Expr) :
    ∀ path, declaredBy (e.outline path).nodes = [] := by
  induction e using Expr.induction with
  | bool | int | float | str | ref => simp [Expr.outline, Node.declaration?]
  | unary p op e ih => simp [Expr.outline, Node.declaration?, ih]
  | binary p l op r ihl ihr => simp [Expr.outline, Node.declaration?, ihl, ihr]
  | call p f args ih =>
    simp [Expr.outline, Expr.outlines_eq_numbered, Node.declaration?, declaredBy_numbered _ _ ih]
  | json p r indices t ih =>
    simp [Expr.outline, Expr.outlines_eq_numbered, Node.declaration?, declaredBy_numbered _ _ ih]

theorem declaredBy_exprs (path : Path) (es : List Expr) :
    declaredBy (Outline.nodesAll (Expr.outlines path 0 es)) = [] := by
  rw [Expr.outlines_eq_numbered, declaredBy_numbered es 0 fun e _ => declaredBy_expr e]
  simp

theorem declaredBy_variable (kind : Variable → Node) (v : Variable) (path : Path) :
    declaredBy (v.outline kind path).nodes = (kind v).declaration?.toList := by
  simp [Variable.outline]

theorem declaredBy_block (b : Block) (path : Path)
    (h : ∀ s ∈ b.stmts, ∀ p, declaredBy (s.outline p).nodes = s.locals.map .localVar) :
    declaredBy (b.outline path).nodes = b.locals.map .localVar := by
  obtain ⟨p, ss⟩ := b
  rw [Block.outline, Stmt.outlines_eq_numbered, Outline.nodes_mk, declaredBy_cons,
    declaredBy_numbered ss 0 h, Block.locals, Stmt.allLocals_eq_flatMap, List.map_flatMap]
  rfl

theorem declaredBy_elif (e : Elif) (path : Path)
    (h : ∀ s ∈ e.block.stmts, ∀ p, declaredBy (s.outline p).nodes = s.locals.map .localVar) :
    declaredBy (e.outline path).nodes = e.locals.map .localVar := by
  obtain ⟨p, c, b⟩ := e
  simp [Elif.outline, Elif.locals, declaredBy_block b _ h, Node.declaration?]

theorem declaredBy_else (e : Else) (path : Path)
    (h : ∀ s ∈ e.block.stmts, ∀ p, declaredBy (s.outline p).nodes = s.locals.map .localVar) :
    declaredBy (e.outline path).nodes = e.locals.map .localVar := by
  obtain ⟨p, b⟩ := e
  simp [Else.outline, Else.locals, declaredBy_block b _ h, Node.declaration?]

/-- The nodes of a statement declare its local variables, in source order. -/
theorem declaredBy_stmt (s : Stmt) :
    ∀ path, declaredBy (s.outline path).nodes = s.locals.map .localVar := by
  induction s using Stmt.induction with
  | pass p => simp [Stmt.outline, Stmt.locals, Node.declaration?]
  | assign p r e declared =>
    intro path
    cases declared with
    | none => simp [Stmt.outline, Stmt.locals, Node.declaration?]
    | some v => simp [Stmt.outline, Stmt.locals, Node.declaration?, declaredBy_variable]
  | update p r op e => simp [Stmt.outline, Stmt.locals, Node.declaration?]
  | print p args => simp [Stmt.outline, Stmt.locals, Node.declaration?, declaredBy_exprs]
  | cond p c b elifs otherwise ihb ihelifs ihelse =>
    intro path
    have helifs : declaredBy (Outline.nodesAll (Elif.outlines path 0 elifs)) =
        (Elif.allLocals elifs).map .localVar := by
      rw [Elif.outlines_eq_numbered, Elif.allLocals_eq_flatMap, List.map_flatMap]
      exact declaredBy_numbered elifs 0 fun e he p => declaredBy_elif e p (ihelifs e he)
    cases otherwise with
    | none =>
      simp [Stmt.outline, Stmt.locals, Node.declaration?, declaredBy_block b _ ihb, helifs]
    | some e =>
      simp [Stmt.outline, Stmt.locals, Node.declaration?, declaredBy_block b _ ihb, helifs,
        declaredBy_else e _ (ihelse e rfl)]
  | ret p value =>
    intro path
    cases value <;> simp [Stmt.outline, Stmt.locals, Node.declaration?]

/-- The nodes inside the function at `path`. -/
def Func.inner (f : Func) (path : Path) : List (Path × Node) :=
  Outline.nodesAll (f.outline path).children

theorem Func.nodes_outline (f : Func) (path : Path) :
    (f.outline path).nodes = (path, .func f) :: f.inner path := by
  rw [Func.inner, Func.outline, Outline.nodes_mk]

theorem declaredBy_func (f : Func) (path : Path) :
    declaredBy (f.inner path) = f.declarations := by
  have hparams : declaredBy (Outline.nodesAll
      (Outline.numbered .param (Variable.outline .param) path 0 f.params)) =
      f.params.map .param := by
    rw [declaredBy_numbered f.params 0 fun v _ p => declaredBy_variable .param v p,
      List.map_eq_flatMap]
    rfl
  have hbody := declaredBy_block f.body (.body :: path) fun s _ => declaredBy_stmt s
  rw [Func.inner, Func.outline, Func.declarations]
  cases f.returnType <;> simp [hparams, hbody]

/-- The nodes of an item other than a function declare what the item adds to the root frame. -/
theorem declaredBy_item (item : Item) (path : Path) (funcs : Nat) (h : item.func? = none) :
    declaredBy (item.outline path).nodes = item.declarations funcs := by
  cases item with
  | globalVar v => exact declaredBy_variable .globalVar v path
  | enum d =>
    have hconstants : declaredBy (Outline.nodesAll
        (Outline.numbered .constant (fun p c => Outline.leaf p (.constant c)) path 0
          d.constants)) = d.constants.map .constant := by
      rw [List.map_eq_flatMap]
      exact declaredBy_numbered d.constants 0 (by simp [Node.declaration?])
    simp [Item.outline, EnumDecl.outline, Item.declarations, Node.declaration?, hconstants]
  | func f => simp [Item.func?] at h
  | stmt s => exact declaredBy_stmt s path

/-- The program and its functions are the nodes with a frame of their own. -/
def Node.hasFrame : Node → Bool
  | .source _ | .func _ => true
  | _ => false

/-- No node of the outline has a frame of its own. -/
def Outline.Flat (o : Outline) : Prop := ∀ x ∈ o.nodes, x.2.hasFrame = false

theorem flat_nodesAll {os : List Outline} (h : ∀ o ∈ os, o.Flat) :
    ∀ x ∈ Outline.nodesAll os, x.2.hasFrame = false := by
  intro x hx
  rw [Outline.nodesAll_eq_flatMap, List.mem_flatMap] at hx
  obtain ⟨o, ho, hx⟩ := hx
  exact h o ho x hx

theorem Outline.flat_mk {path : Path} {node : Node} {children : List Outline}
    (hnode : node.hasFrame = false) (h : ∀ o ∈ children, o.Flat) :
    (⟨path, node, children⟩ : Outline).Flat := by
  intro x hx
  rw [nodes_mk] at hx
  rcases List.mem_cons.mp hx with rfl | hx
  · exact hnode
  · exact flat_nodesAll h x hx

theorem Outline.forall_mem_numbered (step : Nat → Step) {f : Path → α → Outline} (path : Path)
    {xs : List α} {q : Outline → Prop} (h : ∀ x ∈ xs, ∀ p, q (f p x)) :
    ∀ o ∈ numbered step f path 0 xs, q o := by
  intro o ho
  obtain ⟨j, x, hx, rfl⟩ := mem_numbered.mp ho
  exact h x (List.mem_of_getElem? hx) _

theorem flat_variable {kind : Variable → Node} (hkind : ∀ v, (kind v).hasFrame = false)
    (v : Variable) (path : Path) : (v.outline kind path).Flat :=
  Outline.flat_mk (hkind v) (by simp [TypeRef.outline, Outline.Flat, Node.hasFrame])

theorem flat_ref (r : Ref) (path : Path) : (r.outline path).Flat := by
  simp [Ref.outline, Outline.Flat, Node.hasFrame]

theorem flat_typeRef (t : TypeRef) (path : Path) : (t.outline path).Flat := by
  simp [TypeRef.outline, Outline.Flat, Node.hasFrame]

theorem flat_expr (e : Expr) : ∀ path, (e.outline path).Flat := by
  induction e using Expr.induction with
  | bool | int | float | str => simp [Expr.outline, Outline.Flat, Node.hasFrame]
  | ref r => simpa [Expr.outline] using flat_ref r
  | unary p op e ih =>
    intro path
    rw [Expr.outline]
    exact Outline.flat_mk rfl (by simp [ih])
  | binary p l op r ihl ihr =>
    intro path
    rw [Expr.outline]
    exact Outline.flat_mk rfl (by simp [ihl, ihr])
  | call p f args ih =>
    intro path
    rw [Expr.outline, Expr.outlines_eq_numbered]
    exact Outline.flat_mk rfl (List.forall_mem_cons.mpr
      ⟨flat_ref f _, Outline.forall_mem_numbered .arg path ih⟩)
  | json p r indices t ih =>
    intro path
    rw [Expr.outline, Expr.outlines_eq_numbered]
    refine Outline.flat_mk rfl (List.forall_mem_append.mpr ⟨?_, by simp [flat_typeRef]⟩)
    exact List.forall_mem_cons.mpr ⟨flat_ref r _, Outline.forall_mem_numbered .arg path ih⟩

theorem flat_block (b : Block) (path : Path) (h : ∀ s ∈ b.stmts, ∀ p, (s.outline p).Flat) :
    (b.outline path).Flat := by
  obtain ⟨p, ss⟩ := b
  rw [Block.outline, Stmt.outlines_eq_numbered]
  exact Outline.flat_mk rfl (Outline.forall_mem_numbered .stmt path h)

theorem flat_elif (e : Elif) (path : Path) (h : ∀ s ∈ e.block.stmts, ∀ p, (s.outline p).Flat) :
    (e.outline path).Flat := by
  obtain ⟨p, c, b⟩ := e
  rw [Elif.outline]
  exact Outline.flat_mk rfl (by simp [flat_expr, flat_block b _ h])

theorem flat_else (e : Else) (path : Path) (h : ∀ s ∈ e.block.stmts, ∀ p, (s.outline p).Flat) :
    (e.outline path).Flat := by
  obtain ⟨p, b⟩ := e
  rw [Else.outline]
  exact Outline.flat_mk rfl (by simp [flat_block b _ h])

theorem flat_stmt (s : Stmt) : ∀ path, (s.outline path).Flat := by
  induction s using Stmt.induction with
  | pass p => simp [Stmt.outline, Outline.Flat, Node.hasFrame]
  | assign p r e declared =>
    intro path
    rw [Stmt.outline]
    refine Outline.flat_mk rfl ?_
    cases declared with
    | none => simp [flat_ref, flat_expr]
    | some v => simp [flat_ref, flat_expr, @flat_variable .localVar (fun _ => rfl)]
  | update p r op e =>
    intro path
    rw [Stmt.outline]
    exact Outline.flat_mk rfl (by simp [flat_ref, flat_expr])
  | print p args =>
    intro path
    rw [Stmt.outline, Expr.outlines_eq_numbered]
    exact Outline.flat_mk rfl (Outline.forall_mem_numbered .arg path fun e _ => flat_expr e)
  | cond p c b elifs otherwise ihb ihelifs ihelse =>
    intro path
    have helifs := Outline.forall_mem_numbered .elif path fun e he p =>
      flat_elif e p (ihelifs e he)
    rw [← Elif.outlines_eq_numbered] at helifs
    cases otherwise with
    | none =>
      rw [Stmt.outline]
      exact Outline.flat_mk rfl (List.forall_mem_cons.mpr ⟨flat_expr c _,
        List.forall_mem_cons.mpr ⟨flat_block b _ ihb, helifs⟩⟩)
    | some e =>
      rw [Stmt.outline]
      refine Outline.flat_mk rfl (List.forall_mem_cons.mpr ⟨flat_expr c _,
        List.forall_mem_cons.mpr ⟨flat_block b _ ihb, List.forall_mem_append.mpr ⟨helifs, ?_⟩⟩⟩)
      simp [flat_else e _ (ihelse e rfl)]
  | ret p value =>
    intro path
    rw [Stmt.outline]
    refine Outline.flat_mk rfl ?_
    cases value <;> simp [flat_expr]

/-- Functions do not contain functions. -/
theorem flat_func_children (f : Func) (path : Path) : ∀ o ∈ (f.outline path).children, o.Flat := by
  have hparams := Outline.forall_mem_numbered .param path fun v (_ : v ∈ f.params) p =>
    @flat_variable .param (fun _ => rfl) v p
  have hbody := flat_block f.body (.body :: path) fun s _ => flat_stmt s
  rw [Func.outline]
  refine List.forall_mem_append.mpr ⟨List.forall_mem_append.mpr ⟨hparams, ?_⟩, by simpa using hbody⟩
  cases f.returnType <;> simp [flat_typeRef]

theorem Func.flat_inner (f : Func) (path : Path) : ∀ x ∈ f.inner path, x.2.hasFrame = false :=
  flat_nodesAll (flat_func_children f path)

theorem Func.walk_outline {v : Visitor σ}
    (hleave : ∀ path node, node.hasFrame = false → v.leave path node = pure ()) (f : Func)
    (path : Path) :
    (f.outline path).walk v = (do
      v.visit (path, .func f)
      forM (f.inner path) v.visit
      (v.handle ⟨.leave, path, .func f⟩).orPosition f.position) := by
  have hchildren := Outline.forM_walk_eq_forM_nodesAll v (f.outline path).children
    fun x hx => hleave x.1 x.2 (f.flat_inner path x hx)
  rw [Func.inner, ← hchildren]
  exact Outline.walk_mk _ _ _ _

theorem flat_item (item : Item) (path : Path) (h : item.func? = none) :
    (item.outline path).Flat := by
  cases item with
  | globalVar v => exact flat_variable (fun _ => rfl) v path
  | enum d =>
    exact Outline.flat_mk rfl (Outline.forall_mem_numbered .constant path
      (by simp [Outline.Flat, Node.hasFrame]))
  | func f => simp [Item.func?] at h
  | stmt s => exact flat_stmt s path

/-- The name and the position of what the node declares, be it a function or not. -/
def Node.heading? : Node → Option (String × Position)
  | .func f => some (f.name, f.position)
  | node => node.declaration?.map fun d => (d.name, node.position)

/-- The name and the position of a declaration of the program. -/
def Declaration.heading? (d : Declaration) : Option (String × Position) :=
  d.position.map fun p => (d.name, p)

/-- The headings of the declaring nodes, in their order. -/
def headings (nodes : List (Path × Node)) : List (String × Position) :=
  nodes.filterMap (·.2.heading?)

@[simp] theorem headings_append (xs ys : List (Path × Node)) :
    headings (xs ++ ys) = headings xs ++ headings ys := by
  simp [headings]

theorem Node.declaration?_map_heading? {node : Node} (h : node.hasFrame = false) :
    node.declaration?.map (·.heading?) = node.heading?.map some := by
  cases node <;> first | rfl | simp [Node.hasFrame] at h

theorem map_some_headings {xs : List (Path × Node)} (h : ∀ x ∈ xs, x.2.hasFrame = false) :
    (headings xs).map some = (declaredBy xs).map (·.heading?) := by
  rw [headings, declaredBy, List.map_filterMap, List.map_filterMap]
  exact List.filterMap_congr fun x hx => (Node.declaration?_map_heading? (h x hx)).symm

theorem map_some_headings_item (item : Item) (path : Path) (funcs : Nat) :
    (headings (item.outline path).nodes).map some =
      (item.sites funcs).map (·.declaration.heading?) := by
  cases hitem : item.func? with
  | some f =>
    obtain rfl := Item.func?_eq_some_iff.mp hitem
    have hchildren : (headings (f.inner path)).map some =
        f.declarations.map (·.heading?) := by
      rw [map_some_headings (f.flat_inner path), declaredBy_func]
    rw [Item.outline, f.nodes_outline, ← List.singleton_append, headings_append, List.map_append,
      hchildren, Item.sites, List.map_append, List.map_map, List.map_map]
    rfl
  | none =>
    have hown : item.ownDeclarations = [] := by
      cases item <;> simp_all [Item.ownDeclarations, Item.func?]
    rw [map_some_headings (flat_item item path hitem), declaredBy_item item path funcs hitem,
      Item.sites, hown, List.map_nil, List.append_nil, List.map_map]
    rfl

/-- The sites of a program are its declaring nodes in pre-order. -/
theorem Source.map_some_headings (s : Source) :
    (headings s.outline.nodes).map some = s.sites.map (·.declaration.heading?) := by
  have hitems : ∀ (items : List Item) (i funcs : Nat),
      (headings (Outline.nodesAll (Outline.numbered .item Item.outline [] i items))).map some =
        (sitesFrom funcs items).map (·.declaration.heading?) := by
    intro items
    induction items with
    | nil => intro i funcs; rfl
    | cons item items ih =>
      intro i funcs
      rw [Outline.numbered, Outline.nodesAll_cons, headings_append, List.map_append,
        map_some_headings_item item _ funcs, ih (i + 1) (funcs + item.funcCount), sitesFrom,
        List.map_append]
  rw [Source.outline, Outline.nodes_mk]
  exact hitems s.items 0 0

end SimCompiler
