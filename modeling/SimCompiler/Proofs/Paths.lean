import Mathlib.Data.List.Nodup
import SimCompiler.Proofs.Walking

/-!
# Paths are unique

The steps from a node to its children differ, and every node below a child has the child's path at
the end of its own. So no two nodes of an outline have the same path, and a slot that is keyed by a
path belongs to one node.
-/
namespace SimCompiler

/-- Induction over expressions, with a hypothesis for each argument and index. -/
@[elab_as_elim]
theorem Expr.induction {motive : Expr → Prop} (bool : ∀ p b, motive (.bool p b))
    (int : ∀ p n, motive (.int p n)) (float : ∀ p x, motive (.float p x))
    (str : ∀ p s, motive (.str p s)) (ref : ∀ r, motive (.ref r))
    (unary : ∀ p op e, motive e → motive (.unary p op e))
    (binary : ∀ p l op r, motive l → motive r → motive (.binary p l op r))
    (call : ∀ p f args, (∀ e ∈ args, motive e) → motive (.call p f args))
    (json : ∀ p r indices t, (∀ e ∈ indices, motive e) → motive (.json p r indices t)) :
    ∀ e, motive e
  | .bool p b => bool p b
  | .int p n => int p n
  | .float p x => float p x
  | .str p s => str p s
  | .ref r => ref r
  | .unary p op e => unary p op e (induction bool int float str ref unary binary call json e)
  | .binary p l op r =>
    binary p l op r (induction bool int float str ref unary binary call json l)
      (induction bool int float str ref unary binary call json r)
  | .call p f args =>
    call p f args fun e _ => induction bool int float str ref unary binary call json e
  | .json p r indices t =>
    json p r indices t fun e _ => induction bool int float str ref unary binary call json e

/-- Induction over statements, with a hypothesis for each statement of each branch. -/
@[elab_as_elim]
theorem Stmt.induction {motive : Stmt → Prop} (pass : ∀ p, motive (.pass p))
    (assign : ∀ p r e declared, motive (.assign p r e declared))
    (update : ∀ p r op e, motive (.update p r op e)) (print : ∀ p args, motive (.print p args))
    (cond : ∀ p c b elifs otherwise, (∀ s ∈ b.stmts, motive s) →
      (∀ e ∈ elifs, ∀ s ∈ e.block.stmts, motive s) →
      (∀ e, otherwise = some e → ∀ s ∈ e.block.stmts, motive s) →
      motive (.cond p c b elifs otherwise))
    (ret : ∀ p value, motive (.ret p value)) : ∀ s, motive s
  | .pass p => pass p
  | .assign p r e declared => assign p r e declared
  | .update p r op e => update p r op e
  | .print p args => print p args
  | .cond p c b elifs otherwise =>
    cond p c b elifs otherwise
      (fun s _hs => induction pass assign update print cond ret s)
      (fun e _he s _hs => induction pass assign update print cond ret s)
      (fun e _he s _hs => induction pass assign update print cond ret s)
  | .ret p value => ret p value
termination_by s => sizeOf s
decreasing_by
  · have hlt := List.sizeOf_lt_of_mem _hs
    obtain ⟨_, ss⟩ := b
    simp only [Stmt.cond.sizeOf_spec, Block.mk.sizeOf_spec] at *
    omega
  · have hbranch := List.sizeOf_lt_of_mem _he
    have hlt := List.sizeOf_lt_of_mem _hs
    obtain ⟨_, _, _, ss'⟩ := e
    simp only [Stmt.cond.sizeOf_spec, Elif.mk.sizeOf_spec, Block.mk.sizeOf_spec] at *
    omega
  · have hlt := List.sizeOf_lt_of_mem _hs
    obtain ⟨_, _, ss'⟩ := e
    simp only [Stmt.cond.sizeOf_spec, _he, Option.some.sizeOf_spec, Else.mk.sizeOf_spec,
      Block.mk.sizeOf_spec] at *
    omega

namespace Outline

/-- The children of a node are one step further, no two by the same step. -/
inductive WellPathed : Outline → Prop
  | intro {path : Path} {node : Node} {children : List Outline} (steps : List Step)
      (distinct : steps.Nodup)
      (below : children.map (·.path) = steps.map (· :: path))
      (inside : ∀ o ∈ children, WellPathed o) :
      WellPathed ⟨path, node, children⟩

theorem wellPathed_leaf (path : Path) (node : Node) : (leaf path node).WellPathed :=
  .intro [] List.nodup_nil rfl (by simp)

theorem exists_step {path : Path} {children : List Outline} {steps : List Step}
    (below : children.map (·.path) = steps.map (· :: path)) {o : Outline} (ho : o ∈ children) :
    ∃ step, o.path = step :: path := by
  have hpath : o.path ∈ steps.map (· :: path) := by
    rw [← below]
    exact List.mem_map_of_mem ho
  obtain ⟨step, -, hstep⟩ := List.mem_map.mp hpath
  exact ⟨step, hstep.symm⟩

theorem WellPathed.path_suffix {o : Outline} (h : o.WellPathed) :
    ∀ x ∈ o.nodes, o.path <:+ x.1 := by
  induction h with
  | @intro path node children steps distinct below inside ih =>
    intro x hx
    simp only [nodes_mk, nodesAll_eq_flatMap, List.mem_cons, List.mem_flatMap] at hx
    obtain rfl | ⟨o, ho, hx⟩ := hx
    · exact List.suffix_refl _
    · obtain ⟨step, hstep⟩ := exists_step below ho
      have hsuffix := ih o ho x hx
      rw [hstep] at hsuffix
      exact (List.suffix_cons step path).trans hsuffix

/-- Two children whose paths differ have no path in common below them. -/
theorem WellPathed.disjoint {o o' : Outline} (h : o.WellPathed) (h' : o'.WellPathed)
    (hlength : o.path.length = o'.path.length) (hne : o.path ≠ o'.path) :
    (o.nodes.map Prod.fst).Disjoint (o'.nodes.map Prod.fst) := by
  intro p hp hp'
  obtain ⟨x, hx, rfl⟩ := List.mem_map.mp hp
  obtain ⟨y, hy, hxy⟩ := List.mem_map.mp hp'
  have hsuffix := h.path_suffix x hx
  have hsuffix' := h'.path_suffix y hy
  rw [hxy] at hsuffix'
  have hle := List.suffix_of_suffix_length_le hsuffix hsuffix' (Nat.le_of_eq hlength)
  exact hne (hle.eq_of_length hlength)

theorem WellPathed.nodup_paths {o : Outline} (h : o.WellPathed) :
    (o.nodes.map Prod.fst).Nodup := by
  induction h with
  | @intro path node children steps distinct below inside ih =>
    have hpaths : (children.map (·.path)).Nodup := by
      rw [below]
      exact distinct.map (fun a b hab => (List.cons.inj hab).1)
    simp only [nodes_mk, nodesAll_eq_flatMap, List.map_cons, List.nodup_cons, List.map_flatMap,
      List.nodup_flatMap]
    refine ⟨?_, ih, ?_⟩
    · -- a path below a child is longer than that of the node
      intro hmem
      obtain ⟨o, ho, hmem⟩ := List.mem_flatMap.mp hmem
      obtain ⟨x, hx, hxp⟩ := List.mem_map.mp hmem
      obtain ⟨step, hstep⟩ := exists_step below ho
      have hlength := ((inside o ho).path_suffix x hx).length_le
      rw [hstep, hxp, List.length_cons] at hlength
      omega
    · refine (List.pairwise_map.mp hpaths).imp_of_mem ?_
      intro o o' ho ho' hne
      obtain ⟨step, hstep⟩ := exists_step below ho
      obtain ⟨step', hstep'⟩ := exists_step below ho'
      exact (inside o ho).disjoint (inside o' ho') (by simp [hstep, hstep']) hne

theorem numbered_eq_map (step : Nat → Step) (f : Path → α → Outline) (path : Path) (i : Nat)
    (xs : List α) :
    numbered step f path i xs = (xs.zipIdx i).map fun x => f (step x.2 :: path) x.1 := by
  induction xs generalizing i with
  | nil => rfl
  | cons x xs ih => rw [numbered, List.zipIdx_cons, List.map_cons, ih]

theorem mem_numbered {step : Nat → Step} {f : Path → α → Outline} {path : Path} {i : Nat}
    {xs : List α} {o : Outline} :
    o ∈ numbered step f path i xs ↔ ∃ j x, xs[j]? = some x ∧ o = f (step (i + j) :: path) x := by
  induction xs generalizing i with
  | nil => simp [numbered]
  | cons x xs ih =>
    rw [numbered, List.mem_cons, ih]
    constructor
    · rintro (rfl | ⟨j, y, hy, rfl⟩)
      · exact ⟨0, x, rfl, rfl⟩
      · exact ⟨j + 1, y, hy, by rw [Nat.add_assoc, Nat.add_comm 1 j]⟩
    · rintro ⟨j, y, hy, rfl⟩
      cases j with
      | zero => simp_all
      | succ j => exact .inr ⟨j, y, hy, by rw [Nat.add_assoc, Nat.add_comm 1 j]⟩

/-- The outlines `os` stand side by side below `path`, reached by `steps`. -/
def Spans (path : Path) (steps : List Step) (os : List Outline) : Prop :=
  os.map (·.path) = steps.map (· :: path) ∧ ∀ o ∈ os, o.WellPathed

theorem wellPathed_of_spans {path : Path} {node : Node} {children : List Outline}
    {steps : List Step} (distinct : steps.Nodup) (h : Spans path steps children) :
    (⟨path, node, children⟩ : Outline).WellPathed :=
  .intro steps distinct h.1 h.2

theorem spans_nil (path : Path) : Spans path [] [] := ⟨rfl, by simp⟩

theorem spans_singleton {o : Outline} {step : Step} {path : Path} (hpath : o.path = step :: path)
    (h : o.WellPathed) : Spans path [step] [o] :=
  ⟨by simp [hpath], by simpa using h⟩

theorem Spans.append {path : Path} {steps steps' : List Step} {os os' : List Outline}
    (h : Spans path steps os) (h' : Spans path steps' os') :
    Spans path (steps ++ steps') (os ++ os') := by
  refine ⟨by simp [h.1, h'.1], ?_⟩
  intro o ho
  rcases List.mem_append.mp ho with ho | ho
  · exact h.2 o ho
  · exact h'.2 o ho

theorem Spans.cons {path : Path} {step : Step} {steps : List Step} {o : Outline}
    {os : List Outline} (hpath : o.path = step :: path) (ho : o.WellPathed)
    (h : Spans path steps os) : Spans path (step :: steps) (o :: os) :=
  (spans_singleton hpath ho).append h

theorem spans_numbered {step : Nat → Step} {f : Path → α → Outline}
    (hpath : ∀ p x, (f p x).path = p) (path : Path) (i : Nat) (xs : List α)
    (h : ∀ x ∈ xs, ∀ p, (f p x).WellPathed) :
    Spans path ((List.range' i xs.length).map step) (numbered step f path i xs) := by
  induction xs generalizing i with
  | nil => exact spans_nil path
  | cons x xs ih =>
    rw [numbered, List.length_cons, List.range'_succ, List.map_cons]
    exact (ih (i + 1) fun y hy => h y (by simp [hy])).cons (hpath _ _) (h x (by simp) _)

/-- Numbered steps differ. -/
theorem nodup_steps {step : Nat → Step} (hstep : ∀ i j, step i = step j → i = j) (i n : Nat) :
    ((List.range' i n).map step).Nodup :=
  (List.nodup_range' 1).map fun a b hab => hstep a b hab

end Outline

open Outline

theorem Ref.wellPathed_outline (r : Ref) (path : Path) : (r.outline path).WellPathed :=
  wellPathed_leaf _ _

theorem TypeRef.wellPathed_outline (t : TypeRef) (path : Path) : (t.outline path).WellPathed :=
  wellPathed_leaf _ _

theorem Variable.wellPathed_outline (kind : Variable → Node) (v : Variable) (path : Path) :
    (v.outline kind path).WellPathed :=
  wellPathed_of_spans (by simp)
    (spans_singleton rfl (v.type.wellPathed_outline _))

namespace Expr

theorem outlines_eq_numbered (path : Path) (i : Nat) (es : List Expr) :
    outlines path i es = numbered .arg outline path i es := by
  induction es generalizing i with
  | nil => simp [outlines, numbered]
  | cons e es ih => simp [outlines, numbered, ih]

@[simp] theorem path_outline (e : Expr) (path : Path) : (e.outline path).path = path := by
  cases e <;> simp [outline, leaf, Ref.outline]

theorem spans_outlines (path : Path) (es : List Expr)
    (h : ∀ e ∈ es, ∀ p, (e.outline p).WellPathed) :
    Spans path ((List.range' 0 es.length).map .arg) (outlines path 0 es) := by
  rw [outlines_eq_numbered]
  exact spans_numbered (fun p e => path_outline e p) path 0 es h

theorem wellPathed_outline (e : Expr) : ∀ path, (e.outline path).WellPathed := by
  induction e using Expr.induction with
  | bool | int | float | str | ref =>
    intro path
    simp only [outline, Ref.outline]
    exact wellPathed_leaf _ _
  | unary p op e ih =>
    intro path
    rw [outline]
    exact wellPathed_of_spans (by simp) (spans_singleton (path_outline e _) (ih _))
  | binary p l op r ihl ihr =>
    intro path
    rw [outline]
    exact wellPathed_of_spans (by simp) ((spans_singleton (path_outline r _) (ihr _)).cons
      (path_outline l _) (ihl _))
  | call p f args ih =>
    intro path
    rw [outline]
    refine wellPathed_of_spans ?_ ((spans_outlines path args ih).cons rfl
      (f.wellPathed_outline _))
    simpa using nodup_steps (by simp) 0 args.length
  | json p r indices t ih =>
    intro path
    rw [outline]
    refine wellPathed_of_spans ?_ (((spans_outlines path indices ih).cons rfl
      (r.wellPathed_outline _)).append (spans_singleton rfl (t.wellPathed_outline _)))
    have hargs := @nodup_steps .arg (by simp) 0 indices.length
    simpa [List.nodup_append] using hargs

end Expr

namespace Stmt

theorem outlines_eq_numbered (path : Path) (i : Nat) (ss : List Stmt) :
    outlines path i ss = numbered .stmt outline path i ss := by
  induction ss generalizing i with
  | nil => simp [outlines, numbered]
  | cons s ss ih => simp [outlines, numbered, ih]

@[simp] theorem path_outline (s : Stmt) (path : Path) : (s.outline path).path = path := by
  cases s with
  | cond p c b elifs otherwise => cases otherwise <;> simp [outline]
  | _ => simp [outline, leaf]

end Stmt

theorem Block.wellPathed_outline (b : Block) (path : Path)
    (h : ∀ s ∈ b.stmts, ∀ p, (s.outline p).WellPathed) : (b.outline path).WellPathed := by
  obtain ⟨p, ss⟩ := b
  rw [Block.outline, Stmt.outlines_eq_numbered]
  exact wellPathed_of_spans (nodup_steps (by simp) 0 ss.length)
    (spans_numbered (fun p s => s.path_outline p) path 0 ss h)

@[simp] theorem Block.path_outline (b : Block) (path : Path) : (b.outline path).path = path := by
  cases b
  rw [Block.outline]

namespace Elif

theorem outlines_eq_numbered (path : Path) (i : Nat) (es : List Elif) :
    outlines path i es = numbered .elif outline path i es := by
  induction es generalizing i with
  | nil => simp [outlines, numbered]
  | cons e es ih => simp [outlines, numbered, ih]

@[simp] theorem path_outline (e : Elif) (path : Path) : (e.outline path).path = path := by
  cases e
  rw [outline]

theorem wellPathed_outline (e : Elif) (path : Path)
    (h : ∀ s ∈ e.block.stmts, ∀ p, (s.outline p).WellPathed) : (e.outline path).WellPathed := by
  obtain ⟨p, c, b⟩ := e
  rw [outline]
  exact wellPathed_of_spans (by simp) ((spans_singleton (b.path_outline _)
    (b.wellPathed_outline _ h)).cons (c.path_outline _) (c.wellPathed_outline _))

end Elif

@[simp] theorem Else.path_outline (e : Else) (path : Path) : (e.outline path).path = path := by
  cases e
  rw [Else.outline]

theorem Else.wellPathed_outline (e : Else) (path : Path)
    (h : ∀ s ∈ e.block.stmts, ∀ p, (s.outline p).WellPathed) : (e.outline path).WellPathed := by
  obtain ⟨p, b⟩ := e
  rw [Else.outline]
  exact wellPathed_of_spans (by simp)
    (spans_singleton (b.path_outline _) (b.wellPathed_outline _ h))

namespace Stmt

theorem wellPathed_outline (s : Stmt) : ∀ path, (s.outline path).WellPathed := by
  induction s using Stmt.induction with
  | pass p =>
    intro path
    rw [outline]
    exact wellPathed_leaf _ _
  | assign p r e declared =>
    intro path
    rw [outline]
    have hparts : Spans path [.target, .value]
        [r.outline (.target :: path), e.outline (.value :: path)] :=
      (spans_singleton (e.path_outline _) (e.wellPathed_outline _)).cons rfl
        (r.wellPathed_outline _)
    cases declared with
    | none => exact wellPathed_of_spans (by simp) hparts
    | some v =>
      exact wellPathed_of_spans (by simp) (hparts.cons rfl (v.wellPathed_outline _ _))
  | update p r op e =>
    intro path
    rw [outline]
    exact wellPathed_of_spans (by simp) ((spans_singleton (e.path_outline _)
      (e.wellPathed_outline _)).cons rfl (r.wellPathed_outline _))
  | print p args =>
    intro path
    rw [outline]
    exact wellPathed_of_spans (nodup_steps (by simp) 0 args.length)
      (Expr.spans_outlines path args fun e _ => e.wellPathed_outline)
  | cond p c b elifs otherwise ihb ihelifs ihelse =>
    intro path
    have helifs : Spans path ((List.range' 0 elifs.length).map .elif)
        (Elif.outlines path 0 elifs) := by
      rw [Elif.outlines_eq_numbered]
      exact spans_numbered (fun p e => e.path_outline p) path 0 elifs
        fun e he p => e.wellPathed_outline p (ihelifs e he)
    have hsteps := @nodup_steps .elif (by simp) 0 elifs.length
    cases otherwise with
    | none =>
      rw [outline]
      refine wellPathed_of_spans ?_ ((helifs.cons (b.path_outline _)
        (b.wellPathed_outline _ ihb)).cons (c.path_outline _) (c.wellPathed_outline _))
      simpa using hsteps
    | some e =>
      rw [outline]
      have hlast := spans_singleton (e.path_outline (.otherwise :: path))
        (e.wellPathed_outline _ (ihelse e rfl))
      refine wellPathed_of_spans ?_ (((helifs.append hlast).cons (b.path_outline _)
        (b.wellPathed_outline _ ihb)).cons (c.path_outline _) (c.wellPathed_outline _))
      simpa [List.nodup_append] using hsteps
  | ret p value =>
    intro path
    rw [outline]
    cases value with
    | none => exact wellPathed_of_spans List.nodup_nil (spans_nil path)
    | some e =>
      exact wellPathed_of_spans (by simp)
        (spans_singleton (e.path_outline _) (e.wellPathed_outline _))

end Stmt

theorem EnumDecl.wellPathed_outline (d : EnumDecl) (path : Path) : (d.outline path).WellPathed :=
  wellPathed_of_spans (nodup_steps (by simp) 0 d.constants.length)
    (spans_numbered (fun _ _ => rfl) path 0 d.constants fun _ _ _ => wellPathed_leaf _ _)

theorem Func.wellPathed_outline (f : Func) (path : Path) : (f.outline path).WellPathed := by
  have hparams : Spans path ((List.range' 0 f.params.length).map .param)
      (numbered .param (Variable.outline .param) path 0 f.params) :=
    spans_numbered (fun _ _ => rfl) path 0 f.params fun v _ p => v.wellPathed_outline .param p
  have hbody := spans_singleton (f.body.path_outline (.body :: path))
    (f.body.wellPathed_outline _ fun s _ => s.wellPathed_outline)
  have hsteps := @nodup_steps .param (by simp) 0 f.params.length
  rw [Func.outline]
  cases f.returnType with
  | none =>
    refine wellPathed_of_spans ?_ ((hparams.append (spans_nil path)).append hbody)
    simpa [List.nodup_append] using hsteps
  | some t =>
    refine wellPathed_of_spans ?_ ((hparams.append (spans_singleton rfl
      (t.wellPathed_outline (.returnType :: path)))).append hbody)
    simpa [List.nodup_append] using hsteps

namespace Item

@[simp] theorem path_outline (item : Item) (path : Path) : (item.outline path).path = path := by
  cases item with
  | stmt s => exact s.path_outline path
  | _ => rfl

theorem wellPathed_outline (item : Item) (path : Path) : (item.outline path).WellPathed := by
  cases item with
  | globalVar v => exact v.wellPathed_outline _ path
  | enum d => exact d.wellPathed_outline path
  | func f => exact f.wellPathed_outline path
  | stmt s => exact s.wellPathed_outline path

end Item

namespace Source

theorem wellPathed_outline (s : Source) : s.outline.WellPathed :=
  wellPathed_of_spans (nodup_steps (by simp) 0 s.items.length)
    (spans_numbered (fun p item => item.path_outline p) [] 0 s.items
      fun item _ p => item.wellPathed_outline p)

/-- No two nodes of a program have the same path. -/
theorem nodup_paths (s : Source) : (s.outline.nodes.map Prod.fst).Nodup :=
  s.wellPathed_outline.nodup_paths

end Source

end SimCompiler
