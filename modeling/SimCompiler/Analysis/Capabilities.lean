import SimCompiler.Analysis.Work

/-!
# Capabilities

Records on each function whether it prints, whether it indexes into schema-less values, and which
functions of the program it calls. Statements outside of functions are not looked at. A callee
that is no function at all is left to the type checker.
-/
namespace SimCompiler

namespace Capabilities

/-- The functions being visited, innermost first, each with what it was seen to do so far. -/
abbrev Open := List Capabilities

/-- Changes what the innermost function is known to do, if there is one. -/
def update (f : Capabilities → Capabilities) : Pass (Work Open) Unit :=
  Pass.modifyOwn fun
    | [] => []
    | c :: outer => f c :: outer

def enterCall (path : Path) (callee : Ref) : Pass (Work Open) Unit := do
  let scopes ← Pass.consult (·.readScopes)
  if (← Pass.own).isEmpty then return
  match ← Pass.consult (·.resolve scopes (.callee :: path) callee) with
  | .func signature => update fun c => { c with calls := c.calls ++ [signature.id] }
  | _ => return

def visitor : Visitor (Work Open) where
  enter path
    | .source _ => do
      let _ ← Pass.consult (·.readScopes)
    | .func _ => Pass.modifyOwn ({} :: ·)
    | .stmt (.print ..) => update fun c => { c with containsPrint := true }
    | .expr (.json ..) => update fun c => { c with containsDynamicIndex := true }
    | .expr (.call _ callee _) => enterCall path callee
    | _ => pure ()
  leave path
    | .func _ => do
      match ← Pass.own with
      | [] => Pass.defect .unbalancedFunctions
      | c :: outer =>
        Pass.modifyOwn fun _ => outer
        Pass.annotate (·.writeCapabilities path c)
    | _ => pure ()

end Capabilities

def Source.collectCapabilities (source : Source) : Pass Annotations Unit :=
  Pass.walking Capabilities.visitor [] source

end SimCompiler
