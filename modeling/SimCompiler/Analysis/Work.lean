import SimCompiler.Annotation.Table
import SimCompiler.Syntax.Walk

/-!
# The state of an analysis

An analysis walks a program with the annotations found so far and with working data of its own.
The working data are gone when it ends, the annotations stay, also those made before an error.
-/
namespace SimCompiler

structure Work (ρ : Type) where
  notes : Annotations
  own : ρ

namespace Pass

/-- Runs `x` with working data of its own, which start as `own`, and answers what they became. -/
def withOwn (own : ρ) (x : Pass (Work ρ) α) : Pass Annotations (α × ρ) := fun notes =>
  match x ⟨notes, own⟩ with
  | .ok a w => .ok (a, w.own) w.notes
  | .error e w => .error e w.notes

/-- Reads from the annotations. -/
def consult (f : Annotations → Result α) : Pass (Work ρ) α := do ofResult (f (← get).notes)

/-- Adds to the annotations. They stay as they are when `f` fails. -/
def annotate (f : Annotations → Result Annotations) : Pass (Work ρ) Unit := do
  let notes ← consult f
  modify fun w => { w with notes }

def own : Pass (Work ρ) ρ := do return (← get).own

def modifyOwn (f : ρ → ρ) : Pass (Work ρ) Unit := modify fun w => { w with own := f w.own }

/-- Walks a whole program and forgets the working data. -/
def walking (v : Visitor (Work ρ)) (own : ρ) (source : Source) : Pass Annotations Unit := do
  let _ ← withOwn own (source.outline.walk v)

@[simp] theorem run_own (w : Work ρ) : (own : Pass (Work ρ) ρ) w = .ok w.own w := rfl

@[simp] theorem run_modifyOwn (f : ρ → ρ) (w : Work ρ) :
    modifyOwn f w = .ok () { w with own := f w.own } := rfl

@[simp] theorem run_consult (f : Annotations → Result α) (w : Work ρ) :
    consult f w = match f w.notes with
      | .ok a => .ok a w
      | .error e => .error e w := by
  change ofResult (f w.notes) w = _
  cases f w.notes <;> rfl

@[simp] theorem run_annotate (f : Annotations → Result Annotations) (w : Work ρ) :
    annotate f w = match f w.notes with
      | .ok notes => .ok () { w with notes }
      | .error e => .error e w := by
  rw [annotate, run_bind, run_consult]
  cases f w.notes <;> rfl

theorem run_withOwn (own : ρ) (x : Pass (Work ρ) α) (notes : Annotations) :
    withOwn own x notes = match x ⟨notes, own⟩ with
      | .ok a w => .ok (a, w.own) w.notes
      | .error e w => .error e w.notes := rfl

theorem run_walking (v : Visitor (Work ρ)) (own : ρ) (source : Source) (notes : Annotations) :
    walking v own source notes = match source.outline.walk v ⟨notes, own⟩ with
      | .ok _ w => .ok () w.notes
      | .error e w => .error e w.notes := by
  rw [walking, run_bind, run_withOwn]
  cases source.outline.walk v ⟨notes, own⟩ <;> rfl

end Pass

end SimCompiler
