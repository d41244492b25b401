import SimCompiler.Analysis.Work

/-!
# Binding names

Builds the frames of a program: every declaration goes into the frame that is active where it
stands, and every reference remembers that frame. Names are looked up later, so a program may use
what it declares further down. The frames are recorded on the program when the walk is complete.
-/
namespace SimCompiler

/-- The working data of name binding. -/
structure Binder where
  scopes : Scopes := Scopes.initial
  /-- The open frames, innermost first. -/
  stack : List FrameId := [Scopes.root]
  /-- How many functions have been met. -/
  funcs : Nat := 0

namespace Binder

def current : Pass (Work Binder) FrameId := do
  match (← Pass.own).stack with
  | frame :: _ => return frame
  | [] => Pass.defect .emptyScopeStack

/-- Adds a declaration to the innermost open frame. -/
def define (d : Declaration) : Pass (Work Binder) Unit := do
  let frame ← current
  Pass.onPart (·.own.scopes) (fun scopes w => { w with own := { w.own with scopes } })
    (Scopes.declare frame d)

/-- A declaration that fails leaves the binder as it is. -/
theorem define_eq (d : Declaration) : define d = current >>= fun frame => Pass.own >>= fun b =>
    Pass.ofResult (b.scopes.define frame d) >>= fun scopes =>
      Pass.modifyOwn fun b => { b with scopes } := by
  refine congrArg _ (funext fun frame => funext fun w => ?_)
  rw [Pass.run_onPart, Scopes.declare_eq]
  cases h : w.own.scopes.define frame d <;> simp [h]

/-- Declares a function in the frame around it and opens a frame for its body. -/
def enterFunc (path : Path) (f : Func) : Pass (Work Binder) Unit := do
  let id : FuncId := ⟨(← Pass.own).funcs⟩
  Pass.modifyOwn fun b => { b with funcs := b.funcs + 1 }
  define (.func ⟨id, f.position, f.name, f.params.map (·.type), f.returnType⟩)
  let (frame, scopes) := (← Pass.own).scopes.openFrame ("fn " ++ f.name) (← current)
  Pass.modifyOwn fun b => { b with scopes }
  Pass.annotate (·.writeFuncId path id)
  Pass.annotate (·.writeFuncFrame path frame)
  Pass.modifyOwn fun b => { b with stack := frame :: b.stack }

def visitor : Visitor (Work Binder) where
  enter path
    | .func f => enterFunc path f
    | .param v => define (.param v)
    | .localVar v => define (.localVar v)
    | .globalVar v => define (.globalVar v)
    | .enum d => define (.enum ⟨d.position, d.name⟩)
    | .constant c => define (.constant c)
    | .expr (.ref _) => do
      let frame ← current
      Pass.annotate (·.writeRefFrame path frame)
    | _ => pure ()
  leave _
    | .func _ => Pass.modifyOwn fun b => { b with stack := b.stack.tail }
    | _ => pure ()

end Binder

def Source.bindNames (source : Source) : Pass Annotations Unit := do
  let ((), binder) ← Pass.withOwn {} (source.outline.walk Binder.visitor)
  set (← Pass.ofResult ((← get).writeScopes binder.scopes))

end SimCompiler
