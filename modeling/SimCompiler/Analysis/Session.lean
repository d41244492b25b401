import SimCompiler.Analysis.Binding
import SimCompiler.Analysis.CallGraph
import SimCompiler.Analysis.Capabilities
import SimCompiler.Analysis.Locals
import SimCompiler.Analysis.Returns
import SimCompiler.Analysis.Typing

/-!
# Analysing a program

Each analysis is a full walk and ends before the next one starts. A session keeps what was learned
about one program: its annotations, and the call graph of the last run that succeeded.
-/
namespace SimCompiler

def Source.analyze (source : Source) : Pass Annotations Unit := do
  source.bindNames
  source.collectLocals
  source.linkReturns
  source.collectCapabilities
  source.checkTypes

structure Session where
  notes : Annotations := {}
  callGraph : Option CallGraph := none
deriving DecidableEq, Repr, Inhabited

namespace Session

def readCallGraph (s : Session) : Result CallGraph :=
  match s.callGraph with
  | some g => .ok g
  | none => Result.defect .passesNotApplied

/-- Runs all analyses and builds the call graph. -/
def apply (source : Source) : Pass Session Unit := fun s =>
  match source.analyze s.notes with
  | .error e notes => .error e { s with notes }
  | .ok () notes =>
    match CallGraph.build source notes with
    | .error e => .error e { s with notes }
    | .ok g => .ok () ⟨notes, some g⟩

end Session

end SimCompiler
