import SimCompiler.Analysis.Work

/-!
# Return statements

Links every return statement to the innermost function around it, and records on each function
its return statements in source order.
-/
namespace SimCompiler

namespace Returns

/-- The functions being visited, innermost first, each with the return statements met so far. -/
abbrev Open := List (FuncId × List ReturnSite)

def visitor : Visitor (Work Open) where
  enter path
    | .func _ => do
      let id ← Pass.consult (·.readFuncId path)
      Pass.modifyOwn ((id, []) :: ·)
    | .stmt (.ret position value) => do
      match ← Pass.own with
      | [] => Pass.defect .returnOutsideFunction
      | (id, sites) :: outer =>
        Pass.annotate (·.writeReturnOwner path id)
        Pass.modifyOwn fun _ => (id, sites ++ [⟨position, value.isSome⟩]) :: outer
    | _ => pure ()
  leave path
    | .func _ => do
      match ← Pass.own with
      | [] => Pass.defect .unbalancedFunctions
      | (_, sites) :: outer =>
        Pass.modifyOwn fun _ => outer
        Pass.annotate (·.writeReturnSites path sites)
    | _ => pure ()

end Returns

def Source.linkReturns (source : Source) : Pass Annotations Unit :=
  Pass.walking Returns.visitor [] source

end SimCompiler
