import SimCompiler.Proofs.Passes

/-!
# Walks as sequences of hook calls

A hook's error leaves its own node with a position, so the nodes further out never change it and a
walk over the children of a node is a plain loop. A visitor that does nothing when it leaves a node
sees the nodes one after another in pre-order. What every hook keeps, the walk keeps.
-/
namespace SimCompiler

namespace Visitor

/-- Enters the node at a path. -/
def visit (v : Visitor σ) (x : Path × Node) : Pass σ Unit :=
  (v.handle ⟨.enter, x.1, x.2⟩).orPosition x.2.position

end Visitor

namespace Outline

mutual

theorem positioned_walk (v : Visitor σ) : ∀ o : Outline, (o.walk v).Positioned
  | ⟨path, node, children⟩ => by
    rw [walk]
    refine (Pass.positioned_orPosition _ _).bind fun _ => ?_
    exact (positioned_walkAll v node.position children).bind fun _ =>
      Pass.positioned_orPosition _ _

theorem positioned_walkAll (v : Visitor σ) (p : Position) :
    ∀ os : List Outline, (walkAll v p os).Positioned
  | [] => Pass.positioned_pure ()
  | o :: os => by
    rw [walkAll]
    exact (Pass.positioned_orPosition _ _).bind fun _ => positioned_walkAll v p os

end

/-- The position of the parent is never needed. -/
theorem walkAll_eq_forM (v : Visitor σ) (p : Position) (os : List Outline) :
    walkAll v p os = forM os (walk v) := by
  induction os with
  | nil => rfl
  | cons o os ih => rw [walkAll, ih, positioned_walk v o p, List.forM_cons]

theorem walk_mk (v : Visitor σ) (path : Path) (node : Node) (children : List Outline) :
    (⟨path, node, children⟩ : Outline).walk v = (do
      v.visit (path, node)
      forM children (walk v)
      (v.handle ⟨.leave, path, node⟩).orPosition node.position) := by
  rw [walk, walkAll_eq_forM]
  rfl

@[simp] theorem nodes_mk (path : Path) (node : Node) (children : List Outline) :
    (⟨path, node, children⟩ : Outline).nodes = (path, node) :: nodesAll children := by
  rw [nodes]

theorem nodesAll_eq_flatMap (os : List Outline) : nodesAll os = os.flatMap nodes := by
  induction os with
  | nil => rw [nodesAll]; rfl
  | cons o os ih => rw [nodesAll, ih, List.flatMap_cons]

@[simp] theorem nodesAll_nil : nodesAll [] = [] := by rw [nodesAll]

@[simp] theorem nodesAll_cons (o : Outline) (os : List Outline) :
    nodesAll (o :: os) = o.nodes ++ nodesAll os := by
  rw [nodesAll]

@[simp] theorem nodesAll_append (os os' : List Outline) :
    nodesAll (os ++ os') = nodesAll os ++ nodesAll os' := by
  simp [nodesAll_eq_flatMap]

@[simp] theorem nodes_leaf (path : Path) (node : Node) :
    (leaf path node).nodes = [(path, node)] := by
  simp [leaf]

mutual

/-- A visitor with nothing to do on leaving the nodes of `o` enters them one by one. -/
theorem walk_eq_forM_nodes (v : Visitor σ) : ∀ o : Outline,
    (∀ x ∈ o.nodes, v.leave x.1 x.2 = pure ()) → o.walk v = forM o.nodes v.visit
  | ⟨path, node, children⟩, h => by
    have hleave : v.handle ⟨.leave, path, node⟩ = pure () := by
      have := h (path, node) (by simp)
      simp [Visitor.handle, this]
    have hrest := forM_walk_eq_forM_nodesAll v children fun x hx => h x (by simp [hx])
    rw [walk_mk, nodes_mk, List.forM_cons, hrest, hleave]
    exact congrArg _ (funext fun _ => bind_pure_unit)

theorem forM_walk_eq_forM_nodesAll (v : Visitor σ) : ∀ os : List Outline,
    (∀ x ∈ nodesAll os, v.leave x.1 x.2 = pure ()) →
      forM os (walk v) = forM (nodesAll os) v.visit
  | [], _ => by simp
  | o :: os, h => by
    have ho := walk_eq_forM_nodes v o fun x hx => h x (by simp [hx])
    have hos := forM_walk_eq_forM_nodesAll v os fun x hx => h x (by simp [hx])
    rw [List.forM_cons, ho, hos, nodesAll_cons, List.forM_append]

end

mutual

/-- A walk keeps what every hook keeps. -/
theorem keeps_walk {v : Visitor σ} {p : σ → Prop} : ∀ o : Outline,
    (∀ x ∈ o.nodes, ∀ phase, (v.handle ⟨phase, x.1, x.2⟩).Keeps p) → (o.walk v).Keeps p
  | ⟨path, node, children⟩, h => by
    have hnode := h (path, node) (by simp)
    have hchildren := keeps_forM_walk children fun x hx => h x (by simp [hx])
    rw [walk_mk]
    exact ((hnode .enter).orPosition _).bind fun _ =>
      hchildren.bind fun _ => (hnode .leave).orPosition _

theorem keeps_forM_walk {v : Visitor σ} {p : σ → Prop} : ∀ os : List Outline,
    (∀ x ∈ nodesAll os, ∀ phase, (v.handle ⟨phase, x.1, x.2⟩).Keeps p) →
      (forM os (walk v)).Keeps p
  | [], _ => Pass.keeps_pure p ()
  | o :: os, h => by
    have ho := keeps_walk o fun x hx => h x (by simp [hx])
    have hos := keeps_forM_walk os fun x hx => h x (by simp [hx])
    rw [List.forM_cons]
    exact ho.bind fun _ => hos

end

theorem keeps_handle {v : Visitor σ} {p : σ → Prop} {path : Path} {node : Node}
    (henter : (v.enter path node).Keeps p) (hleave : (v.leave path node).Keeps p) (phase : Phase) :
    (v.handle ⟨phase, path, node⟩).Keeps p := by
  rw [Visitor.handle]
  split
  · exact Pass.keeps_pure p ()
  · cases phase with
    | enter => exact henter
    | leave => exact hleave

end Outline

end SimCompiler
