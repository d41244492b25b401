import SimCompiler.Error
import SimCompiler.Syntax.Outline

/-!
# Walking a syntax tree

A visitor has a hook for entering a node and one for leaving it. A walk calls them depth first:
enter, the children in source order, leave. The first hook that fails ends the walk; the state of
the visitor is kept as that hook left it. A code error without a position gets the position of
the innermost node being visited.

`Outline.events` lists the calls a walk makes when no hook fails.
-/
namespace SimCompiler

/-- The hooks of a visitor whose state is a `σ`. -/
structure Visitor (σ : Type) where
  enter : Path → Node → Pass σ Unit := fun _ _ => pure ()
  leave : Path → Node → Pass σ Unit := fun _ _ => pure ()

inductive Phase where
  | enter
  | leave
deriving DecidableEq, Repr

structure Event where
  phase : Phase
  path : Path
  node : Node

namespace Visitor

/-- Calls the hook of an event. Literals have none. -/
def handle (v : Visitor σ) (e : Event) : Pass σ Unit :=
  if e.node.isLiteral then pure ()
  else match e.phase with
    | .enter => v.enter e.path e.node
    | .leave => v.leave e.path e.node

end Visitor

namespace Outline

mutual

def walk (v : Visitor σ) : Outline → Pass σ Unit
  | ⟨path, node, children⟩ => do
    (v.handle ⟨.enter, path, node⟩).orPosition node.position
    walkAll v node.position children
    (v.handle ⟨.leave, path, node⟩).orPosition node.position

/-- Walks the children of a node that stands at `position`. -/
def walkAll (v : Visitor σ) (position : Position) : List Outline → Pass σ Unit
  | [] => pure ()
  | o :: os => do
    (o.walk v).orPosition position
    walkAll v position os

end

mutual

/-- The events of a walk in order: each node encloses its children. -/
def events : Outline → List Event
  | ⟨path, node, children⟩ =>
    if node.isLiteral then eventsAll children
    else ⟨.enter, path, node⟩ :: eventsAll children ++ [⟨.leave, path, node⟩]

def eventsAll : List Outline → List Event
  | [] => []
  | o :: os => o.events ++ eventsAll os

end

end Outline

end SimCompiler
