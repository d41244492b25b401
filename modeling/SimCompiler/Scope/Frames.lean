import SimCompiler.Error

/-!
# Frames

A frame holds the declarations of one level of the program. Frames live in one list and name
their parent by index, so a reference can remember a frame without holding it. A name may shadow
one of an outer frame but not one of its own frame.
-/
namespace SimCompiler

structure FrameId where
  index : Nat
deriving DecidableEq, Repr, Inhabited

structure Frame where
  name : String
  parent : Option FrameId
  /-- In the order of definition; no two have the same name. -/
  entries : List Declaration := []
deriving DecidableEq, Repr, Inhabited

namespace Frame

def get? (f : Frame) (name : String) : Option Declaration := f.entries.find? (·.name == name)

/-- Adds a declaration at the end. If the name is taken, the error names the declaration that holds
it. -/
def insert (d : Declaration) : Pass Frame Unit := do
  match (← get).get? d.name with
  | some holder => Pass.fault (.redefined holder)
  | none => modify fun f => { f with entries := f.entries ++ [d] }

/-- The variables among the declarations of a frame, in the order of definition. -/
def localVars (f : Frame) : List Variable :=
  f.entries.filterMap fun
    | .localVar v => some v
    | _ => none

/-- The names of the enumerations of a frame, in the order of definition. -/
def enumNames (f : Frame) : List String :=
  f.entries.filterMap fun
    | .enum t => some t.name
    | _ => none

end Frame

structure Scopes where
  frames : List Frame
deriving DecidableEq, Repr, Inhabited

namespace Scopes

def root : FrameId := ⟨0⟩

/-- One root frame, which holds the built-ins. -/
def initial : Scopes :=
  ⟨[{ name := "<root>"
      parent := none
      entries := BuiltinFunc.all.map .builtinFunc ++ BuiltinConst.all.map .builtinConst }]⟩

def size (s : Scopes) : Nat := s.frames.length

def isEmpty (s : Scopes) : Bool := s.frames.isEmpty

/-- Opens an empty frame inside `parent` and answers its id. -/
def openFrame (s : Scopes) (name : String) (parent : FrameId) : FrameId × Scopes :=
  (⟨s.size⟩, ⟨s.frames ++ [{ name, parent := some parent }]⟩)

@[simp] theorem size_openFrame (s : Scopes) (name : String) (parent : FrameId) :
    (s.openFrame name parent).2.size = s.size + 1 := by
  simp [openFrame, size]

def frame (s : Scopes) (id : FrameId) : Result Frame :=
  match s.frames[id.index]? with
  | some f => .ok f
  | none => Result.defect (.noFrame id.index s.size)

/-- Adds a declaration to frame `id`. -/
def declare (id : FrameId) (d : Declaration) : Pass Scopes Unit := do
  let f ← Pass.ofResult ((← get).frame id)
  Pass.onPart (fun _ => f) (fun f s => ⟨s.frames.set id.index f⟩) (Frame.insert d)

/-- The frames after a declaration. -/
def define (s : Scopes) (id : FrameId) (d : Declaration) : Result Scopes :=
  match declare id d s with
  | .ok () s' => .ok s'
  | .error e _ => .error e

section Declare

variable {s : Scopes} {id : FrameId} {f : Frame} {d : Declaration}

theorem set_frames (h : s.frame id = .ok f) : s.frames.set id.index f = s.frames := by
  rw [frame] at h
  split at h
  · next hget =>
    cases h
    obtain ⟨hlt, rfl⟩ := List.getElem?_eq_some_iff.mp hget
    exact List.set_getElem_self hlt
  · cases h

theorem declare_of_error {e : CompileError} (h : s.frame id = .error e) :
    declare id d s = .error e s := by
  simp [declare, h]

/-- A frame that refuses a declaration is put back as it was. -/
theorem declare_of_taken {holder : Declaration} (h : s.frame id = .ok f)
    (hget : f.get? d.name = some holder) :
    declare id d s = .error (.ofFault (.redefined holder)) s := by
  simp [declare, h, Frame.insert, hget, set_frames h]

theorem declare_of_free (h : s.frame id = .ok f) (hget : f.get? d.name = none) :
    declare id d s = .ok () ⟨s.frames.set id.index { f with entries := f.entries ++ [d] }⟩ := by
  simp [declare, h, Frame.insert, hget]

end Declare

theorem define_eq (s : Scopes) (id : FrameId) (d : Declaration) :
    s.define id d = s.frame id >>= fun f =>
      match f.get? d.name with
      | some holder => Result.fault (.redefined holder)
      | none => .ok ⟨s.frames.set id.index { f with entries := f.entries ++ [d] }⟩ := by
  cases h : s.frame id with
  | error e =>
    rw [define, declare_of_error h]
    rfl
  | ok f =>
    cases hget : f.get? d.name with
    | some holder =>
      rw [define, declare_of_taken h hget]
      simp only [bind, Except.bind, hget]
      rfl
    | none =>
      rw [define, declare_of_free h hget]
      simp only [bind, Except.bind, hget]

/-- A declaration that fails leaves all frames as they are. -/
theorem declare_eq (s : Scopes) (id : FrameId) (d : Declaration) :
    declare id d s =
      match s.define id d with
      | .ok s' => .ok () s'
      | .error e => .error e s := by
  cases h : s.frame id with
  | error e => rw [define, declare_of_error h]
  | ok f =>
    cases hget : f.get? d.name with
    | some holder => rw [define, declare_of_taken h hget]
    | none => rw [define, declare_of_free h hget]

/-- Searches `id` and its ancestors, at most `steps` frames. -/
def lookupWithin (s : Scopes) (name : String) :
    (steps : Nat) → FrameId → Result (Option Declaration)
  | 0, _ => .ok none
  | steps + 1, id => do
    let f ← s.frame id
    match f.get? name, f.parent with
    | some d, _ => return some d
    | none, some parent => s.lookupWithin name steps parent
    | none, none => return none

/-- The nearest declaration of `name`, starting at frame `id`. A chain of frames that does not end
repeats itself after as many frames as there are; the one step more reaches a missing frame. -/
def lookup (s : Scopes) (id : FrameId) (name : String) : Result (Option Declaration) :=
  s.lookupWithin name (s.size + 1) id

def resolve (s : Scopes) (id : FrameId) (name : String) : Result Declaration := do
  match ← s.lookup id name with
  | some d => return d
  | none => Result.fault (.undefined name)

end Scopes

end SimCompiler
