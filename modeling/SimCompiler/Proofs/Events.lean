import SimCompiler.Proofs.Subtrees

/-!
# The events of a walk

The events of a node are its entry, the events of the nodes right below it in source order, and its
exit. Literals have none. A walk is a loop over the events of its root: it calls one hook after
another and ends with the first that fails. Each hook puts the position of its own node on a code
error that has none, so the position of a node further out is never used.
-/
namespace SimCompiler

namespace CompileError

theorem orPosition_of_none {c : CodeError} (h : c.position = none) (p : Position) :
    (code c).orPosition p = code { c with position := some p } := by
  rw [orPosition, CodeError.orPosition, h, Option.getD_none]

/-- Only a code error without a position is changed. -/
theorem orPosition_of_placed {e : CompileError} (h : ∀ c, e = code c → c.position ≠ none)
    (p : Position) : e.orPosition p = e := by
  cases e with
  | code c =>
    obtain ⟨q, hq⟩ := Option.ne_none_iff_exists'.mp (h c rfl)
    rw [orPosition, CodeError.orPosition, hq, Option.getD_some, ← hq]
  | _ => rfl

end CompileError

/-- A reference stands two constructors deep, as its parent does. So the position of the parent has to
make the difference between their sizes. -/
theorem Position.sizeOf_pos (p : Position) : 0 < sizeOf p := by
  obtain ⟨file, line, column⟩ := p
  rw [mk.sizeOf_spec]
  omega

namespace Node

theorem sizeOf_lt_of_mem_map {α : Type} [SizeOf α] {k : α → Node}
    (hk : ∀ a, sizeOf (k a) = 1 + sizeOf a) {as : List α} {child : Node} (h : child ∈ as.map k) :
    sizeOf child < 1 + sizeOf as := by
  obtain ⟨a, ha, rfl⟩ := List.mem_map.mp h
  have hlt := List.sizeOf_lt_of_mem ha
  rw [hk]
  omega

theorem sizeOf_item (item : Item) : sizeOf item.node = sizeOf item := by
  cases item <;> rfl

/-- The nodes right below a statement are smaller than the statement. -/
theorem sizeOf_lt_of_mem_stmt {s : Stmt} {child : Node} (h : child ∈ (stmt s).children) :
    sizeOf child < sizeOf (stmt s) := by
  rw [stmt.sizeOf_spec]
  cases s with
  | pass p => simp [children] at h
  | assign p target value declared =>
    have hp := p.sizeOf_pos
    rw [Stmt.assign.sizeOf_spec]
    simp only [children, List.mem_append, Option.mem_toList, Option.map_eq_some_iff,
      List.mem_cons, List.not_mem_nil, or_false] at h
    rcases h with ⟨v, rfl, rfl⟩ | rfl | rfl
    · rw [localVar.sizeOf_spec, Option.some.sizeOf_spec]
      omega
    · rw [expr.sizeOf_spec, Expr.ref.sizeOf_spec]
      omega
    · rw [expr.sizeOf_spec]
      omega
  | update p target op value =>
    have hp := p.sizeOf_pos
    rw [Stmt.update.sizeOf_spec]
    simp only [children, List.mem_cons, List.not_mem_nil, or_false] at h
    rcases h with rfl | rfl
    · rw [expr.sizeOf_spec, Expr.ref.sizeOf_spec]
      omega
    · rw [expr.sizeOf_spec]
      omega
  | print p args =>
    have hlt := sizeOf_lt_of_mem_map (fun _ => rfl) h
    rw [Stmt.print.sizeOf_spec]
    omega
  | cond p condition block elifs otherwise =>
    have hcondition : sizeOf (expr condition) = 1 + sizeOf condition := rfl
    have hblock : sizeOf (Node.block block) = 1 + sizeOf block := rfl
    have helifs : child ∈ elifs.map Node.elif → sizeOf child < 1 + sizeOf elifs :=
      sizeOf_lt_of_mem_map fun _ => rfl
    rw [Stmt.cond.sizeOf_spec]
    cases otherwise with
    | none =>
      simp only [children, List.mem_cons] at h
      rcases h with rfl | rfl | helif
      · omega
      · omega
      · have hlt := helifs helif
        omega
    | some e =>
      rw [Option.some.sizeOf_spec]
      simp only [children, List.mem_cons, List.mem_append, List.not_mem_nil, or_false] at h
      rcases h with rfl | rfl | helif | rfl
      · omega
      · omega
      · have hlt := helifs helif
        omega
      · rw [otherwise.sizeOf_spec]
        omega
  | ret p value =>
    simp only [children, Option.mem_toList, Option.map_eq_some_iff] at h
    obtain ⟨e, rfl, rfl⟩ := h
    rw [Stmt.ret.sizeOf_spec, Option.some.sizeOf_spec, expr.sizeOf_spec]
    omega

/-- The nodes right below an expression are smaller than the expression. -/
theorem sizeOf_lt_of_mem_expr {e : Expr} {child : Node} (h : child ∈ (expr e).children) :
    sizeOf child < sizeOf (expr e) := by
  have hexprs : ∀ {es : List Expr}, child ∈ es.map Node.expr → sizeOf child < 1 + sizeOf es :=
    fun hmem => sizeOf_lt_of_mem_map (fun _ => rfl) hmem
  rw [expr.sizeOf_spec]
  cases e with
  | bool | int | float | str | ref => simp [children] at h
  | unary p op e =>
    simp only [children, List.mem_singleton] at h
    rw [h, Expr.unary.sizeOf_spec, expr.sizeOf_spec]
    omega
  | binary p l op r =>
    rw [Expr.binary.sizeOf_spec]
    simp only [children, List.mem_cons, List.not_mem_nil, or_false] at h
    rcases h with rfl | rfl
    · rw [expr.sizeOf_spec]
      omega
    · rw [expr.sizeOf_spec]
      omega
  | call p callee args =>
    have hp := p.sizeOf_pos
    rw [Expr.call.sizeOf_spec]
    simp only [children, List.mem_cons] at h
    rcases h with rfl | harg
    · rw [expr.sizeOf_spec, Expr.ref.sizeOf_spec]
      omega
    · have hlt := hexprs harg
      omega
  | json p root indices target =>
    have hp := p.sizeOf_pos
    rw [Expr.json.sizeOf_spec]
    simp only [children, List.mem_cons, List.mem_append, List.not_mem_nil, or_false] at h
    rcases h with rfl | hindex | rfl
    · rw [expr.sizeOf_spec, Expr.ref.sizeOf_spec]
      omega
    · have hlt := hexprs hindex
      omega
    · rw [typeRef.sizeOf_spec]
      omega

/-- The nodes right below a node are smaller than the node. -/
theorem sizeOf_lt_of_mem_children {node child : Node} (h : child ∈ node.children) :
    sizeOf child < sizeOf node := by
  have hvariable : ∀ v : Variable, child ∈ [typeRef v.type] → sizeOf child < 1 + sizeOf v := by
    rintro ⟨p, name, type⟩ hmem
    obtain rfl : child = typeRef type := List.mem_singleton.mp hmem
    rw [typeRef.sizeOf_spec, Variable.mk.sizeOf_spec]
    omega
  cases node with
  | source s =>
    obtain ⟨p, items⟩ := s
    obtain ⟨item, hitem, rfl⟩ := List.mem_map.mp h
    have hlt : sizeOf item < sizeOf items := List.sizeOf_lt_of_mem hitem
    rw [sizeOf_item, source.sizeOf_spec, Source.mk.sizeOf_spec]
    omega
  | globalVar v | param v | localVar v => exact hvariable v h
  | enum d =>
    obtain ⟨p, name, constants⟩ := d
    have hlt : sizeOf child < 1 + sizeOf constants := sizeOf_lt_of_mem_map (fun _ => rfl) h
    rw [enum.sizeOf_spec, EnumDecl.mk.sizeOf_spec]
    omega
  | constant c | typeRef t => simp [children] at h
  | func f =>
    obtain ⟨p, name, params, returnType, body⟩ := f
    rw [func.sizeOf_spec, Func.mk.sizeOf_spec]
    simp only [children, List.mem_append, Option.mem_toList, Option.map_eq_some_iff,
      List.mem_singleton] at h
    rcases h with (hparam | ⟨t, rfl, rfl⟩) | rfl
    · have hlt := sizeOf_lt_of_mem_map (fun _ => rfl) hparam
      omega
    · rw [typeRef.sizeOf_spec, Option.some.sizeOf_spec]
      omega
    · rw [block.sizeOf_spec]
      omega
  | block b =>
    obtain ⟨p, stmts⟩ := b
    have hlt : sizeOf child < 1 + sizeOf stmts := sizeOf_lt_of_mem_map (fun _ => rfl) h
    rw [block.sizeOf_spec, Block.mk.sizeOf_spec]
    omega
  | stmt s => exact sizeOf_lt_of_mem_stmt h
  | elif e =>
    obtain ⟨p, condition, body⟩ := e
    rw [elif.sizeOf_spec, Elif.mk.sizeOf_spec]
    simp only [children, List.mem_cons, List.not_mem_nil, or_false] at h
    rcases h with rfl | rfl
    · rw [expr.sizeOf_spec]
      omega
    · rw [block.sizeOf_spec]
      omega
  | otherwise e =>
    obtain ⟨p, body⟩ := e
    simp only [children, List.mem_singleton] at h
    rw [h, otherwise.sizeOf_spec, Else.mk.sizeOf_spec, block.sizeOf_spec]
    omega
  | expr e => exact sizeOf_lt_of_mem_expr h

/-- The events of a node: its own enclose those of the nodes right below it. -/
def events (node : Node) : List (Phase × Node) :=
  if node.isLiteral then []
  else (.enter, node) :: node.children.attach.flatMap (fun child => child.1.events) ++ [(.leave, node)]
termination_by sizeOf node
decreasing_by exact sizeOf_lt_of_mem_children child.2

theorem events_eq (node : Node) :
    node.events = if node.isLiteral then []
      else (.enter, node) :: node.children.flatMap events ++ [(.leave, node)] := by
  have hattach : node.children.attach.flatMap (fun child => child.1.events) =
      node.children.flatMap events := by
    rw [List.flatMap_subtype fun _ _ => rfl, List.unattach_attach]
  rw [events, hattach]

theorem children_of_isLiteral {node : Node} (h : node.isLiteral) : node.children = [] := by
  cases node with
  | expr e => cases e <;> first | rfl | simp [isLiteral] at h
  | _ => simp [isLiteral] at h

theorem faithful_outline (node : Node) (path : Path) : (node.outline path).Faithful := by
  cases node with
  | source s => exact s.faithful_outline
  | globalVar v | param v | localVar v => exact .mk rfl (by simp [faithful_typeRef])
  | enum d => exact faithful_item (.enum d) path
  | constant c => exact .mk rfl (by simp)
  | func f => exact faithful_item (.func f) path
  | typeRef t => exact faithful_typeRef t path
  | block b => exact faithful_block b path fun s _ => faithful_stmt s
  | stmt s => exact faithful_stmt s path
  | elif e => exact faithful_elif e path fun s _ => faithful_stmt s
  | otherwise e => exact faithful_else e path fun s _ => faithful_stmt s
  | expr e => exact faithful_expr e path

@[simp] theorem node_outline (node : Node) (path : Path) : (node.outline path).node = node := by
  cases node with
  | expr e => exact e.node_outline path
  | stmt s => exact s.node_outline path
  | block b => exact b.node_outline path
  | elif e => exact e.node_outline path
  | otherwise e => exact e.node_outline path
  | _ => rfl

end Node

namespace Visitor

/-- Calls the hook of an event, whatever its node. -/
def hook (v : Visitor σ) (e : Event) : Pass σ Unit :=
  match e.phase with
  | .enter => v.enter e.path e.node
  | .leave => v.leave e.path e.node

/-- Calls the hook of an event on behalf of its node. -/
def call (v : Visitor σ) (e : Event) : Pass σ Unit := (v.hook e).orPosition e.node.position

/-- Either every call succeeds, or there is a first one that fails. -/
theorem forM_call_cases (v : Visitor σ) (events : List Event) (s : σ) :
    (∃ s', forM events v.hook s = .ok () s' ∧ forM events v.call s = .ok () s') ∨
      ∃ before event after s₁ e s₂, events = before ++ event :: after ∧
        forM before v.hook s = .ok () s₁ ∧ v.hook event s₁ = .error e s₂ ∧
        forM events v.call s = .error (e.orPosition event.node.position) s₂ := by
  induction events generalizing s with
  | nil => exact .inl ⟨s, rfl, rfl⟩
  | cons event events ih =>
    cases hhook : v.hook event s with
    | error e s₂ =>
      refine .inr ⟨[], event, events, s, e, s₂, rfl, rfl, hhook, ?_⟩
      rw [List.forM_cons, Pass.run_bind, call, Pass.run_orPosition, hhook]
    | ok _ s₁ =>
      have hcall : v.call event s = .ok () s₁ := by rw [call, Pass.run_orPosition, hhook]
      simp only [List.forM_cons, Pass.run_bind, hcall, hhook]
      rcases ih s₁ with hall | ⟨before, next, after, t, e, t', rfl, hbefore, hnext, hrest⟩
      · exact .inl hall
      · refine .inr ⟨event :: before, next, after, t, e, t', rfl, ?_, hnext, hrest⟩
        rw [List.forM_cons, Pass.run_bind, hhook]
        exact hbefore

end Visitor

namespace Outline

theorem events_mk (path : Path) (node : Node) (children : List Outline) :
    (⟨path, node, children⟩ : Outline).events =
      if node.isLiteral then eventsAll children
      else ⟨.enter, path, node⟩ :: eventsAll children ++ [⟨.leave, path, node⟩] := by
  rw [events]

theorem eventsAll_eq_flatMap (os : List Outline) : eventsAll os = os.flatMap events := by
  induction os with
  | nil => rw [eventsAll]; rfl
  | cons o os ih => rw [eventsAll, ih, List.flatMap_cons]

mutual

/-- A walk is a loop over the events of its root. -/
theorem walk_eq_forM_events (v : Visitor σ) : ∀ o : Outline, o.walk v = forM o.events v.call
  | ⟨path, node, children⟩ => by
    have hrest := forM_walk_eq_forM_eventsAll v children
    rw [walk_mk, events_mk, hrest]
    by_cases hliteral : node.isLiteral
    · have hhandle (phase : Phase) : v.handle ⟨phase, path, node⟩ = pure () := if_pos hliteral
      rw [if_pos hliteral, Visitor.visit, hhandle, hhandle]
      show (do forM (eventsAll children) v.call; pure ()) = _
      exact bind_pure_unit
    · have hhandle (phase : Phase) : (v.handle ⟨phase, path, node⟩).orPosition node.position =
          v.call ⟨phase, path, node⟩ := by
        rw [Visitor.handle, if_neg hliteral]
        rfl
      rw [if_neg hliteral, List.cons_append, List.forM_cons, List.forM_append, List.forM_cons,
        List.forM_nil, Visitor.visit, hhandle, hhandle, bind_pure_unit]

theorem forM_walk_eq_forM_eventsAll (v : Visitor σ) : ∀ os : List Outline,
    forM os (walk v) = forM (eventsAll os) v.call
  | [] => by simp [eventsAll]
  | o :: os => by
    rw [List.forM_cons, walk_eq_forM_events v o, forM_walk_eq_forM_eventsAll v os, eventsAll,
      List.forM_append]

end

/-- The events of a faithful outline are those of its root. -/
theorem Faithful.map_events {o : Outline} (h : o.Faithful) :
    o.events.map (fun e => (e.phase, e.node)) = o.node.events := by
  induction h with
  | @mk path node children hnode _ ih =>
    have hchildren : children.map (·.node) = node.children := by
      rw [← node.map_node_outline path, hnode]
    have hbelow : (eventsAll children).map (fun e => (e.phase, e.node)) =
        node.children.flatMap Node.events := by
      rw [eventsAll_eq_flatMap, List.map_flatMap, ← hchildren, List.flatMap_map]
      exact List.flatMap_congr ih
    rw [events_mk, node.events_eq]
    by_cases hliteral : node.isLiteral
    · rw [if_pos hliteral, if_pos hliteral, hbelow, Node.children_of_isLiteral hliteral]
      rfl
    · rw [if_neg hliteral, if_neg hliteral, List.map_append, List.map_cons, hbelow]
      rfl

end Outline

/-- A walk from any node, with any visitor and from any state of it, calls the hooks in the order of
the node's events. The state goes from hook to hook. The first hook that fails is the last one
called: its state is left as it is, and its error is returned with the position of the hook's own
node if it is a code error without one, and as it is otherwise. -/
theorem Node.walk_calls_hooks_of_events (v : Visitor σ) (node : Node) (path : Path) (s : σ) :
    let events := (node.outline path).events
    events.map (fun e => (e.phase, e.node)) = node.events ∧
      ((∃ s', forM events v.hook s = .ok () s' ∧ (node.outline path).walk v s = .ok () s') ∨
        ∃ before event after s₁ e s₂ e', events = before ++ event :: after ∧
          forM before v.hook s = .ok () s₁ ∧ v.hook event s₁ = .error e s₂ ∧
          (node.outline path).walk v s = .error e' s₂ ∧
          (∀ c, e = .code c → c.position = none →
            e' = .code { c with position := some event.node.position }) ∧
          ((∀ c, e = .code c → c.position ≠ none) → e' = e)) := by
  intro events
  have hevents : events.map (fun e => (e.phase, e.node)) = node.events := by
    rw [(node.faithful_outline path).map_events, node_outline]
  refine ⟨hevents, ?_⟩
  rw [Outline.walk_eq_forM_events]
  rcases v.forM_call_cases events s with
    hall | ⟨before, event, after, s₁, e, s₂, hsplit, hbefore, hevent, hcall⟩
  · exact .inl hall
  · refine .inr ⟨before, event, after, s₁, e, s₂, _, hsplit, hbefore, hevent, hcall, ?_, ?_⟩
    · rintro c rfl hnone
      exact CompileError.orPosition_of_none hnone _
    · intro hplaced
      exact CompileError.orPosition_of_placed hplaced _

end SimCompiler
