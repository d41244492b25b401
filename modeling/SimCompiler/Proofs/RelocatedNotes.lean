import SimCompiler.Analysis.Session
import SimCompiler.Proofs.Relocation

/-!
# Moved annotations

Declarations and the notes of an analysis hold copies of positions. Moving them moves the copies, in
what is recorded as well as in errors. Looking up a name, reading a slot and filling one commute
with that: none of them compares positions.
-/
namespace SimCompiler

variable (move : Position → Position)

def EnumType.relocate (t : EnumType) : EnumType := { t with position := move t.position }

def FuncSignature.relocate (s : FuncSignature) : FuncSignature :=
  ⟨s.id, move s.position, s.name, s.params.map (·.relocate move),
    s.returnType.map (·.relocate move)⟩

def Declaration.relocate : Declaration → Declaration
  | .localVar v => .localVar (v.relocate move)
  | .param v => .param (v.relocate move)
  | .globalVar v => .globalVar (v.relocate move)
  | .constant c => .constant (c.relocate move)
  | .enum t => .enum (t.relocate move)
  | .func s => .func (s.relocate move)
  | .builtinFunc f => .builtinFunc f
  | .builtinConst c => .builtinConst c

def Frame.relocate (frame : Frame) : Frame :=
  { frame with entries := frame.entries.map (·.relocate move) }

def Scopes.relocate (s : Scopes) : Scopes := ⟨s.frames.map (·.relocate move)⟩

def ReturnSite.relocate (site : ReturnSite) : ReturnSite :=
  { site with position := move site.position }

/-- Changes the content of every slot. -/
def SlotTable.map (k : α → β) (t : SlotTable α) : SlotTable β := ⟨t.entries.map (Prod.map id k)⟩

def Annotations.relocate (a : Annotations) : Annotations :=
  { a with
    scopeChain := a.scopeChain.map (·.relocate move)
    programLocals := a.programLocals.map (·.map (·.relocate move))
    funcLocals := a.funcLocals.map (·.map (·.relocate move))
    returnSites := a.returnSites.map (·.map (·.relocate move)) }

def Fault.relocate : Fault → Fault
  | .redefined d => .redefined (d.relocate move)
  | .notAssignable d => .notAssignable (d.relocate move)
  | .notCallable d => .notCallable (d.relocate move)
  | .argumentCount d expected given => .argumentCount (d.relocate move) expected given
  | .argumentType number d expected given =>
    .argumentType number (d.relocate move) expected given
  | .noReturnValue d => .noReturnValue (d.relocate move)
  | .printedFunction d => .printedFunction (d.relocate move)
  | fault => fault

def CodeError.relocate (e : CodeError) : CodeError :=
  ⟨e.fault.relocate move, e.position.map move⟩

def Defect.relocate : Defect → Defect
  | .noNativeName d => .noNativeName (d.relocate move)
  | defect => defect

def CompileError.relocate : CompileError → CompileError
  | .code e => .code (e.relocate move)
  | .defect d => .defect (d.relocate move)
  | .render e => .render e

theorem CompileError.orPosition_relocate (e : CompileError) (p : Position) :
    (e.relocate move).orPosition (move p) = (e.orPosition p).relocate move := by
  cases e with
  | code e =>
    obtain ⟨fault, position⟩ := e
    cases position <;> rfl
  | _ => rfl

namespace Declaration

@[simp] theorem name_relocate (d : Declaration) : (d.relocate move).name = d.name := by
  cases d <;> rfl

@[simp] theorem describe_relocate (d : Declaration) :
    (d.relocate move).describe = d.describe := by
  rw [describe, describe, name_relocate]
  cases d <;> rfl

end Declaration

@[simp] theorem FuncSignature.paramTypes_relocate (s : FuncSignature) :
    (s.relocate move).paramTypes = s.paramTypes :=
  List.map_map

@[simp] theorem FuncSignature.result_relocate (s : FuncSignature) :
    (s.relocate move).result = s.result := by
  cases hreturn : s.returnType <;> simp [result, relocate, hreturn, TypeRef.relocate]

/-- What an error says, without the place it is about. -/
inductive Report where
  | code (kind : CodeErrorKind) (message : String)
  | internal (message : String) (context : List Context)
  | render (error : RenderError)
deriving DecidableEq, Repr

def CompileError.report : CompileError → Report
  | .code e => .code e.kind e.message
  | .defect d => .internal d.message d.context
  | .render e => .render e

theorem Fault.kind_relocate (fault : Fault) : (fault.relocate move).kind = fault.kind := by
  cases fault <;> rfl

theorem Fault.message_relocate (fault : Fault) :
    (fault.relocate move).message = fault.message := by
  cases fault with
  | redefined d | notAssignable d | notCallable d | argumentCount d _ _ | argumentType _ d _ _
  | noReturnValue d | printedFunction d =>
    unfold relocate message
    simp only [Declaration.describe_relocate, Declaration.name_relocate]
  | _ => rfl

theorem Defect.message_relocate (d : Defect) : (d.relocate move).message = d.message := by
  cases d with
  | noNativeName d =>
    unfold relocate message
    simp only [Declaration.describe_relocate]
  | _ => rfl

theorem CompileError.report_relocate (e : CompileError) :
    (e.relocate move).report = e.report := by
  cases e with
  | code e =>
    exact congrArg₂ Report.code (e.fault.kind_relocate move) (e.fault.message_relocate move)
  | defect d =>
    have hcontext : (d.relocate move).context = d.context := by
      cases d <;> rfl
    exact congrArg₂ Report.internal (d.message_relocate move) hcontext
  | render e => rfl

namespace Result

/-- Neither the answer nor the error holds a position. -/
def Still (r : Result α) : Prop := r.image (·.relocate move) id = r

variable {move}

theorem still_ok (a : α) : Still move (.ok a) := rfl

theorem Still.bind {r : Result α} {f : α → Result β} (hr : r.Still move)
    (hf : ∀ a, (f a).Still move) : (r >>= f).Still move := by
  cases r with
  | ok a => exact hf a
  | error e => exact congrArg Except.error (Except.error.inj hr)

theorem still_forM {f : α → Result Unit} {as : List α} (h : ∀ a, (f a).Still move) :
    (forM as f).Still move := by
  induction as with
  | nil => exact still_ok ()
  | cons a as ih => exact (h a).bind fun _ => ih

end Result

namespace Frame

theorem get?_relocate (frame : Frame) (name : String) :
    (frame.relocate move).get? name = (frame.get? name).map (·.relocate move) := by
  have hname : (fun d : Declaration => d.name == name) ∘ Declaration.relocate move =
      fun d => d.name == name := funext fun d => congrArg (· == name) (d.name_relocate move)
  rw [get?, get?, relocate, List.find?_map, hname]

theorem localVars_relocate (frame : Frame) :
    (frame.relocate move).localVars = frame.localVars.map (·.relocate move) := by
  simp only [localVars, relocate, List.filterMap_map, List.map_filterMap]
  refine List.filterMap_congr fun d _ => ?_
  cases d <;> rfl

theorem enumNames_relocate (frame : Frame) :
    (frame.relocate move).enumNames = frame.enumNames := by
  simp only [enumNames, relocate, List.filterMap_map]
  refine List.filterMap_congr fun d _ => ?_
  cases d <;> rfl

end Frame

namespace Scopes

@[simp] theorem size_relocate (s : Scopes) : (s.relocate move).size = s.size := List.length_map _

theorem frame_relocate (s : Scopes) (id : FrameId) :
    (s.relocate move).frame id = (s.frame id).image (·.relocate move) (·.relocate move) := by
  rw [frame, frame, size_relocate, relocate, List.getElem?_map]
  cases s.frames[id.index]? <;> rfl

theorem openFrame_relocate (s : Scopes) (name : String) (parent : FrameId) :
    (s.relocate move).openFrame name parent =
      Prod.map id (·.relocate move) (s.openFrame name parent) := by
  simp [openFrame, relocate, Frame.relocate, size]

theorem define_relocate (s : Scopes) (id : FrameId) (d : Declaration) :
    (s.relocate move).define id (d.relocate move) =
      (s.define id d).image (·.relocate move) (·.relocate move) := by
  rw [define_eq, define_eq, frame_relocate]
  refine Result.image_bind fun frame => ?_
  rw [Declaration.name_relocate, Frame.get?_relocate]
  cases frame.get? d.name with
  | some holder => rfl
  | none => simp [relocate, Frame.relocate, List.map_set]

theorem lookupWithin_relocate (s : Scopes) (name : String) (steps : Nat) (id : FrameId) :
    (s.relocate move).lookupWithin name steps id =
      (s.lookupWithin name steps id).image (·.relocate move) (·.map (·.relocate move)) := by
  induction steps generalizing id with
  | zero => rfl
  | succ steps ih =>
    rw [lookupWithin, lookupWithin, frame_relocate]
    refine Result.image_bind fun frame => ?_
    have hparent : (frame.relocate move).parent = frame.parent := rfl
    rw [Frame.get?_relocate, hparent]
    cases frame.get? name with
    | some d => rfl
    | none =>
      cases frame.parent with
      | none => rfl
      | some parent => exact ih parent

theorem resolve_relocate (s : Scopes) (id : FrameId) (name : String) :
    (s.relocate move).resolve id name =
      (s.resolve id name).image (·.relocate move) (·.relocate move) := by
  rw [resolve, resolve, lookup, lookup, size_relocate, lookupWithin_relocate]
  refine Result.image_bind fun found => ?_
  cases found <;> rfl

end Scopes

namespace SlotTable

variable (t : SlotTable α)

theorem get?_map (k : α → β) (path : Path) : (t.map k).get? path = (t.get? path).map k := by
  obtain ⟨entries⟩ := t
  show (entries.map (Prod.map id k)).lookup path = (entries.lookup path).map k
  induction entries with
  | nil => rfl
  | cons entry entries ih =>
    obtain ⟨other, a⟩ := entry
    show ((other, k a) :: entries.map (Prod.map id k)).lookup path = _
    rw [List.lookup_cons, List.lookup_cons, ih]
    cases path == other <;> rfl

theorem read_map (k : α → β) (slot : Slot) (path : Path) :
    (t.map k).read slot path = (t.read slot path).image (·.relocate move) k := by
  rw [read, read, get?_map]
  cases t.get? path <;> rfl

theorem write_map (k : α → β) (slot : Slot) (path : Path) (a : α) :
    (t.map k).write slot path (k a) = (t.write slot path a).image (·.relocate move) (map k) := by
  rw [write, write, get?_map]
  cases t.get? path <;> rfl

theorem still_read (slot : Slot) (path : Path) : (t.read slot path).Still move := by
  rw [read]
  cases t.get? path <;> rfl

theorem still_write (slot : Slot) (path : Path) (a : α) : (t.write slot path a).Still move := by
  rw [write]
  cases t.get? path <;> rfl

end SlotTable

namespace Annotations

variable {move} in
/-- Filling a slot that holds no positions. -/
theorem image_of_still {t : SlotTable α} {slot : Slot} {path : Path} {value : α}
    {r r' : Result Annotations} {update update' : SlotTable α → Annotations}
    (h : r = t.write slot path value >>= fun t => .ok (update t))
    (h' : r' = t.write slot path value >>= fun t => .ok (update' t))
    (hupdate : ∀ t, update' t = (update t).relocate move) :
    r' = r.image (·.relocate move) (·.relocate move) := by
  have hwrite : t.write slot path value = _ := (t.still_write move slot path value).symm
  rw [h, h']
  exact Result.bind_of_image hwrite fun t => congrArg Except.ok (hupdate t)

variable (a : Annotations) (path : Path)

theorem readScopes_relocate :
    (a.relocate move).readScopes = a.readScopes.image (·.relocate move) (·.relocate move) :=
  a.scopeChain.read_map move _ _ _

theorem readProgramLocals_relocate : (a.relocate move).readProgramLocals =
    a.readProgramLocals.image (·.relocate move) (·.map (·.relocate move)) :=
  a.programLocals.read_map move _ _ _

theorem readFuncLocals_relocate : (a.relocate move).readFuncLocals path =
    (a.readFuncLocals path).image (·.relocate move) (·.map (·.relocate move)) :=
  a.funcLocals.read_map move _ _ _

theorem writeScopes_relocate (s : Scopes) : (a.relocate move).writeScopes (s.relocate move) =
    (a.writeScopes s).image (·.relocate move) (·.relocate move) := by
  have hwrite := a.scopeChain.write_map move (·.relocate move) .scopeChain program s
  rw [writeScopes, writeScopes, relocate, hwrite]
  exact Result.image_bind fun _ => rfl

theorem writeProgramLocals_relocate (vars : List Variable) :
    (a.relocate move).writeProgramLocals (vars.map (·.relocate move)) =
      (a.writeProgramLocals vars).image (·.relocate move) (·.relocate move) := by
  have hwrite := a.programLocals.write_map move (·.map (·.relocate move))
    .programLocals program vars
  rw [writeProgramLocals, writeProgramLocals, relocate, hwrite]
  exact Result.image_bind fun _ => rfl

theorem writeFuncLocals_relocate (vars : List Variable) :
    (a.relocate move).writeFuncLocals path (vars.map (·.relocate move)) =
      (a.writeFuncLocals path vars).image (·.relocate move) (·.relocate move) := by
  have hwrite := a.funcLocals.write_map move (·.map (·.relocate move))
    .functionLocals path vars
  rw [writeFuncLocals, writeFuncLocals, relocate, hwrite]
  exact Result.image_bind fun _ => rfl

theorem writeReturnSites_relocate (sites : List ReturnSite) :
    (a.relocate move).writeReturnSites path (sites.map (·.relocate move)) =
      (a.writeReturnSites path sites).image (·.relocate move) (·.relocate move) := by
  have hwrite := a.returnSites.write_map move (·.map (·.relocate move))
    .returnSites path sites
  rw [writeReturnSites, writeReturnSites, relocate, hwrite]
  exact Result.image_bind fun _ => rfl

theorem writeType_relocate (type : String) : (a.relocate move).writeType path type =
    (a.writeType path type).image (·.relocate move) (·.relocate move) := by
  have htypes : (a.relocate move).types = a.types := rfl
  rw [writeType, writeType, htypes]
  cases a.types.get? path with
  | none => rfl
  | some t =>
    simp only
    split <;> rfl

theorem resolve_relocate (scopes : Scopes) (r : Ref) :
    (a.relocate move).resolve (scopes.relocate move) path (r.relocate move) =
      (a.resolve scopes path r).image (·.relocate move) (·.relocate move) := by
  have hframe : (a.relocate move).readRefFrame path =
      (a.readRefFrame path).image (·.relocate move) id :=
    (a.refFrames.still_read move .referenceFrame path).symm
  rw [resolve, resolve]
  exact Result.bind_of_image hframe fun frame => scopes.resolve_relocate move frame r.name

end Annotations

end SimCompiler
