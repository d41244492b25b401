import SimCompiler.Scope.Frames
import SimCompiler.Syntax.Path

/-!
# Annotations

What the analyses find out about a program is kept beside its tree, in slots keyed by the path of
the node they belong to. A slot is written once: filling it again is a defect, and so is reading
it before it is filled. The slot of an expression's type differs in one point: writing the type it
already holds is allowed.
-/
namespace SimCompiler

/-- A return statement as recorded on its function. -/
structure ReturnSite where
  position : Position
  hasValue : Bool
deriving DecidableEq, Repr, Inhabited

/-- What a function does directly, without looking into the functions it calls. -/
structure Capabilities where
  containsPrint : Bool := false
  containsDynamicIndex : Bool := false
  /-- The functions of the program that are called, one entry for each call. -/
  calls : List FuncId := []
deriving DecidableEq, Repr, Inhabited

/-- One kind of slot on many nodes. -/
structure SlotTable (α : Type) where
  entries : List (Path × α) := []
deriving DecidableEq, Repr, Inhabited

namespace SlotTable

def get? (t : SlotTable α) (path : Path) : Option α := t.entries.lookup path

def insert (t : SlotTable α) (path : Path) (a : α) : SlotTable α := ⟨(path, a) :: t.entries⟩

@[simp] theorem get?_empty (path : Path) : ({} : SlotTable α).get? path = none := rfl

theorem get?_insert (t : SlotTable α) (path other : Path) (a : α) :
    (t.insert path a).get? other = if other = path then some a else t.get? other := by
  by_cases h : other = path
  · simp [get?, insert, h]
  · simp [get?, insert, List.lookup_cons, h, beq_false_of_ne h]

/-- The content of the slot at `path`, which must be filled. -/
def read (t : SlotTable α) (slot : Slot) (path : Path) : Result α :=
  match t.get? path with
  | some a => .ok a
  | none => Result.defect (.unannotated slot)

/-- Fills the slot at `path`, which must be empty. -/
def write (t : SlotTable α) (slot : Slot) (path : Path) (a : α) : Result (SlotTable α) :=
  match t.get? path with
  | some _ => Result.defect (.reassigned slot)
  | none => .ok (t.insert path a)

theorem write_eq_ok_iff (t t' : SlotTable α) (slot : Slot) (path : Path) (a : α) :
    t.write slot path a = .ok t' ↔ t.get? path = none ∧ t' = t.insert path a := by
  cases h : t.get? path <;> simp [write, h, Result.defect, eq_comm]

end SlotTable

/-- All annotations of one program. -/
structure Annotations where
  scopeChain : SlotTable Scopes := {}
  programLocals : SlotTable (List Variable) := {}
  funcIds : SlotTable FuncId := {}
  funcFrames : SlotTable FrameId := {}
  funcLocals : SlotTable (List Variable) := {}
  returnSites : SlotTable (List ReturnSite) := {}
  capabilities : SlotTable Capabilities := {}
  returnOwners : SlotTable FuncId := {}
  refFrames : SlotTable FrameId := {}
  types : SlotTable String := {}
deriving DecidableEq, Repr, Inhabited

namespace Annotations

/-- The path of the program itself, where its own two slots are. -/
def program : Path := []

def readScopes (a : Annotations) : Result Scopes := a.scopeChain.read .scopeChain program

def writeScopes (a : Annotations) (s : Scopes) : Result Annotations := do
  return { a with scopeChain := ← a.scopeChain.write .scopeChain program s }

def readProgramLocals (a : Annotations) : Result (List Variable) :=
  a.programLocals.read .programLocals program

def writeProgramLocals (a : Annotations) (vars : List Variable) : Result Annotations := do
  return { a with programLocals := ← a.programLocals.write .programLocals program vars }

def readFuncId (a : Annotations) (path : Path) : Result FuncId :=
  a.funcIds.read .functionId path

def writeFuncId (a : Annotations) (path : Path) (id : FuncId) : Result Annotations := do
  return { a with funcIds := ← a.funcIds.write .functionId path id }

def readFuncFrame (a : Annotations) (path : Path) : Result FrameId :=
  a.funcFrames.read .functionFrame path

def writeFuncFrame (a : Annotations) (path : Path) (id : FrameId) : Result Annotations := do
  return { a with funcFrames := ← a.funcFrames.write .functionFrame path id }

def readFuncLocals (a : Annotations) (path : Path) : Result (List Variable) :=
  a.funcLocals.read .functionLocals path

def writeFuncLocals (a : Annotations) (path : Path) (vars : List Variable) :
    Result Annotations := do
  return { a with funcLocals := ← a.funcLocals.write .functionLocals path vars }

def readReturnSites (a : Annotations) (path : Path) : Result (List ReturnSite) :=
  a.returnSites.read .returnSites path

def writeReturnSites (a : Annotations) (path : Path) (sites : List ReturnSite) :
    Result Annotations := do
  return { a with returnSites := ← a.returnSites.write .returnSites path sites }

def readCapabilities (a : Annotations) (path : Path) : Result Capabilities :=
  a.capabilities.read .capabilities path

def writeCapabilities (a : Annotations) (path : Path) (c : Capabilities) :
    Result Annotations := do
  return { a with capabilities := ← a.capabilities.write .capabilities path c }

def readReturnOwner (a : Annotations) (path : Path) : Result FuncId :=
  a.returnOwners.read .returnOwner path

def writeReturnOwner (a : Annotations) (path : Path) (id : FuncId) : Result Annotations := do
  return { a with returnOwners := ← a.returnOwners.write .returnOwner path id }

/-- The frame that was active where the reference at `path` stands. -/
def readRefFrame (a : Annotations) (path : Path) : Result FrameId :=
  a.refFrames.read .referenceFrame path

def writeRefFrame (a : Annotations) (path : Path) (id : FrameId) : Result Annotations := do
  return { a with refFrames := ← a.refFrames.write .referenceFrame path id }

def readType (a : Annotations) (path : Path) : Result String :=
  match a.types.get? path with
  | some t => .ok t
  | none => Result.defect .untyped

/-- Two different types for one node mean that the checker contradicts itself. -/
def writeType (a : Annotations) (path : Path) (type : String) : Result Annotations :=
  match a.types.get? path with
  | some t => if t == type then .ok a else Result.defect (.retyped t type)
  | none => .ok { a with types := a.types.insert path type }

/-- What the reference `r` at `path` stands for, looked up from the frame it was written in. -/
def resolve (a : Annotations) (scopes : Scopes) (path : Path) (r : Ref) : Result Declaration := do
  scopes.resolve (← a.readRefFrame path) r.name

end Annotations

end SimCompiler
