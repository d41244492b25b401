import SimCompiler.Analysis.Work

/-!
# Local variables

Copies the variables of the root frame to the program and those of each function's frame to the
function, in the order of definition.
-/
namespace SimCompiler

namespace Locals

/-- The variables declared in a frame. -/
def ofFrame (notes : Annotations) (id : FrameId) : Result (List Variable) := do
  return (← (← notes.readScopes).frame id).localVars

def visitor : Visitor (Work Unit) where
  enter path
    | .source _ => do
      let vars ← Pass.consult (ofFrame · Scopes.root)
      Pass.annotate (·.writeProgramLocals vars)
    | .func _ => do
      let frame ← Pass.consult (·.readFuncFrame path)
      let vars ← Pass.consult (ofFrame · frame)
      Pass.annotate (·.writeFuncLocals path vars)
    | _ => pure ()

end Locals

def Source.collectLocals (source : Source) : Pass Annotations Unit :=
  Pass.walking Locals.visitor () source

end SimCompiler
