import SimCompiler.Proofs.RelocatedNotes

/-!
# The analyses of a moved program

Every hook of every analysis, run on a moved node with moved notes, ends in the moved notes and with
the moved error. So does each walk, and so does the analysis as a whole: the outcome for a moved
program is the moved outcome.
-/
namespace SimCompiler

variable (move : Position → Position)

namespace Pass

variable {move}

theorem maps_get {f : σ → τ} {e : CompileError → CompileError} :
    Maps f e f (get : Pass σ σ) (get : Pass τ τ) := fun _ => rfl

theorem maps_set {f : σ → τ} {e : CompileError → CompileError} (s : σ) :
    Maps f e id (set s : Pass σ PUnit) (set (f s) : Pass τ PUnit) := fun _ => rfl

/-- A walk over a moved program, if each hook copes with moved nodes. -/
theorem maps_walk_relocate {v v' : Visitor (Work ρ)} {g : ρ → ρ}
    (henter : ∀ path node, Maps (Work.image (·.relocate move) g) (·.relocate move) id
      (v.enter path node) (v'.enter path (node.relocate move)))
    (hleave : ∀ path node, Maps (Work.image (·.relocate move) g) (·.relocate move) id
      (v.leave path node) (v'.leave path (node.relocate move))) (source : Source) :
    Maps (Work.image (·.relocate move) g) (·.relocate move) id (source.outline.walk v)
      ((source.relocate move).outline.walk v') := by
  have hevents : (source.relocate move).outline.events =
      source.outline.events.map (·.relocate move) := by
    rw [Source.outline_relocate, Outline.events_relocate]
  refine maps_walk hevents fun event _ => ?_
  obtain ⟨phase, path, node⟩ := event
  have hposition : ∀ e : CompileError, (e.relocate move).orPosition (node.relocate move).position =
      (e.orPosition node.position).relocate move := by
    intro e
    rw [Node.position_relocate, CompileError.orPosition_relocate]
  refine Maps.orPosition ?_ hposition
  cases phase with
  | enter => exact henter path node
  | leave => exact hleave path node

end Pass

def Binder.relocate (b : Binder) : Binder := { b with scopes := b.scopes.relocate move }

namespace Binder

open Pass

theorem maps_current : Maps (Work.image (·.relocate move) (·.relocate move)) (·.relocate move) id
    current current := by
  refine maps_own.bind fun b => ?_
  obtain ⟨scopes, stack, funcs⟩ := b
  cases stack with
  | nil => exact maps_defect id rfl
  | cons frame stack => exact maps_pure id frame

theorem maps_define (d : Declaration) :
    Maps (Work.image (·.relocate move) (·.relocate move)) (·.relocate move) id (define d)
      (define (d.relocate move)) := by
  rw [define_eq, define_eq]
  refine (maps_current move).bind fun frame => maps_own.bind fun b => ?_
  refine (maps_ofResult (b.scopes.define_relocate move frame d)).bind fun scopes => ?_
  exact maps_modifyOwn fun _ => rfl

theorem maps_enterFunc (path : Path) (f : Func) :
    Maps (Work.image (·.relocate move) (·.relocate move)) (·.relocate move) id (enterFunc path f)
      (enterFunc path (f.relocate move)) := by
  have hsignature (id : FuncId) : Declaration.func ⟨id, (f.relocate move).position, f.name,
      (f.relocate move).params.map (·.type), (f.relocate move).returnType⟩ =
      (Declaration.func ⟨id, f.position, f.name, f.params.map (·.type), f.returnType⟩).relocate
        move := by
    simp [Declaration.relocate, FuncSignature.relocate, Func.relocate, Variable.relocate,
      Function.comp_def]
  refine maps_own.bind fun b => ?_
  refine Maps.bind (maps_modifyOwn fun _ => rfl) fun _ => ?_
  have hdefine := maps_define move
    (.func ⟨⟨b.funcs⟩, f.position, f.name, f.params.map (·.type), f.returnType⟩)
  rw [← hsignature] at hdefine
  refine hdefine.bind fun _ => maps_own.bind fun b' => (maps_current move).bind fun parent => ?_
  simp only [Binder.relocate, Scopes.openFrame_relocate]
  refine Maps.bind (maps_modifyOwn fun _ => rfl) fun _ => ?_
  refine (maps_annotate fun a => Annotations.image_of_still rfl rfl fun _ => rfl).bind fun _ => ?_
  refine (maps_annotate fun a => Annotations.image_of_still rfl rfl fun _ => rfl).bind fun _ => ?_
  exact maps_modifyOwn fun _ => rfl

theorem maps_enter (path : Path) (node : Node) :
    Maps (Work.image (·.relocate move) (·.relocate move)) (·.relocate move) id
      (visitor.enter path node) (visitor.enter path (node.relocate move)) := by
  cases node with
  | func f => exact maps_enterFunc move path f
  | param v => exact maps_define move (.param v)
  | localVar v => exact maps_define move (.localVar v)
  | globalVar v => exact maps_define move (.globalVar v)
  | enum d => exact maps_define move (.enum ⟨d.position, d.name⟩)
  | constant c => exact maps_define move (.constant c)
  | expr e =>
    cases e with
    | ref r =>
      exact (maps_current move).bind fun frame =>
        maps_annotate fun a => Annotations.image_of_still rfl rfl fun _ => rfl
    | _ => exact maps_pure id ()
  | _ => exact maps_pure id ()

theorem maps_leave (path : Path) (node : Node) :
    Maps (Work.image (·.relocate move) (·.relocate move)) (·.relocate move) id
      (visitor.leave path node) (visitor.leave path (node.relocate move)) := by
  cases node with
  | func f =>
    show Maps _ _ _ (modifyOwn fun b : Binder => { b with stack := b.stack.tail })
      (modifyOwn fun b : Binder => { b with stack := b.stack.tail })
    exact maps_modifyOwn fun _ => rfl
  | _ => exact maps_pure id ()

end Binder

open Pass

theorem Source.bindNames_relocate (s : Source) :
    Maps (·.relocate move) (·.relocate move) id s.bindNames (s.relocate move).bindNames := by
  have hwalk := maps_walk_relocate (Binder.maps_enter move) (Binder.maps_leave move) s
  refine (maps_withOwn hwalk {}).bind fun x => maps_get.bind fun notes => ?_
  exact (maps_ofResult (notes.writeScopes_relocate move x.2.scopes)).bind fun _ => maps_set _

/-- What the root frame and the frames of functions hold is moved. -/
theorem Locals.ofFrame_relocate (notes : Annotations) (id : FrameId) :
    ofFrame (notes.relocate move) id =
      (ofFrame notes id).image (·.relocate move) (·.map (·.relocate move)) := by
  rw [ofFrame, ofFrame, notes.readScopes_relocate move]
  refine Result.image_bind fun scopes => ?_
  rw [scopes.frame_relocate move]
  refine Result.image_bind fun frame => ?_
  rw [frame.localVars_relocate move]
  rfl

theorem Source.collectLocals_relocate (s : Source) :
    Maps (·.relocate move) (·.relocate move) id s.collectLocals
      (s.relocate move).collectLocals := by
  refine maps_walking (g := id) (maps_walk_relocate (fun path node => ?_)
    (fun path node => maps_pure id ()) s) ()
  cases node with
  | source _ =>
    exact (maps_consult fun notes => Locals.ofFrame_relocate move notes _).bind fun vars =>
      maps_annotate fun notes => notes.writeProgramLocals_relocate move vars
  | func _ =>
    refine (maps_consult fun notes => (notes.funcFrames.still_read move _ path).symm).bind
      fun frame => ?_
    exact (maps_consult fun notes => Locals.ofFrame_relocate move notes frame).bind fun vars =>
      maps_annotate fun notes => notes.writeFuncLocals_relocate move path vars
  | _ => exact maps_pure id ()

theorem Source.linkReturns_relocate (s : Source) :
    Maps (·.relocate move) (·.relocate move) id s.linkReturns (s.relocate move).linkReturns := by
  -- The open functions hold the positions of their return statements.
  let opened : Returns.Open → Returns.Open := List.map (Prod.map id (List.map (·.relocate move)))
  refine maps_walking (g := opened) (maps_walk_relocate (fun path node => ?_)
    (fun path node => ?_) s) []
  · cases node with
    | func _ =>
      refine (maps_consult fun notes => (notes.funcIds.still_read move _ path).symm).bind
        fun id => ?_
      exact maps_modifyOwn fun _ => rfl
    | stmt st =>
      cases st with
      | ret position value =>
        refine maps_own.bind fun functions => ?_
        cases functions with
        | nil => exact maps_defect id rfl
        | cons entry outer =>
          refine (maps_annotate fun notes => Annotations.image_of_still rfl rfl fun _ => rfl).bind
            fun _ => maps_modifyOwn fun _ => ?_
          simp [opened, ReturnSite.relocate]
      | cond p condition block elifs otherwise =>
        cases otherwise <;> exact maps_pure id ()
      | _ => exact maps_pure id ()
    | _ => exact maps_pure id ()
  · cases node with
    | func _ =>
      refine maps_own.bind fun functions => ?_
      cases functions with
      | nil => exact maps_defect id rfl
      | cons entry outer =>
        refine Maps.bind (maps_modifyOwn fun _ => rfl) fun _ => ?_
        exact maps_annotate fun notes => notes.writeReturnSites_relocate move path entry.2
    | _ => exact maps_pure id ()

theorem Capabilities.maps_enterCall (path : Path) (callee : Ref) :
    Maps (Work.image (·.relocate move) id) (·.relocate move) id (enterCall path callee)
      (enterCall path (callee.relocate move)) := by
  refine (maps_consult fun notes => notes.readScopes_relocate move).bind fun scopes =>
    maps_own.bind fun functions => ?_
  cases functions with
  | nil => exact maps_pure id ()
  | cons c outer =>
    refine (maps_consult fun notes =>
      notes.resolve_relocate move (.callee :: path) scopes callee).bind fun d => ?_
    cases d with
    | func signature => exact maps_update _
    | _ => exact maps_pure id ()

theorem Source.collectCapabilities_relocate (s : Source) :
    Maps (·.relocate move) (·.relocate move) id s.collectCapabilities
      (s.relocate move).collectCapabilities := by
  refine maps_walking (g := id) (maps_walk_relocate (fun path node => ?_)
    (fun path node => ?_) s) []
  · cases node with
    | source _ =>
      exact (maps_consult fun notes => notes.readScopes_relocate move).bind fun _ =>
        maps_pure id ()
    | func _ => exact maps_updating _
    | stmt st =>
      cases st with
      | print p args => exact Capabilities.maps_update _
      | cond p condition block elifs otherwise =>
        cases otherwise <;> exact maps_pure id ()
      | _ => exact maps_pure id ()
    | expr e =>
      cases e with
      | json p root indices target => exact Capabilities.maps_update _
      | call p callee args => exact Capabilities.maps_enterCall move path callee
      | _ => exact maps_pure id ()
    | _ => exact maps_pure id ()
  · cases node with
    | func _ =>
      refine maps_own.bind fun functions => ?_
      cases functions with
      | nil => exact maps_defect id rfl
      | cons c outer =>
        refine (maps_updating _).bind fun _ => ?_
        exact maps_annotate fun notes => Annotations.image_of_still rfl rfl fun _ => rfl
    | _ => exact maps_pure id ()

namespace Declaration

theorem valueType_relocate (d : Declaration) :
    (d.relocate move).valueType = d.valueType.image (·.relocate move) id := by
  cases d with
  | func s => exact congrArg Except.ok (congrArg₂ TypeName.signature
      (s.paramTypes_relocate move) (s.result_relocate move))
  | _ => rfl

theorem callable?_relocate (d : Declaration) : (d.relocate move).callable? = d.callable? := by
  cases d with
  | func s => simp [relocate, callable?]
  | _ => rfl

end Declaration

theorem Annotations.exprType_relocate (notes : Annotations) (scopes : Scopes) (path : Path)
    (e : Expr) :
    (notes.relocate move).exprType (scopes.relocate move) path (e.relocate move) =
      (notes.exprType scopes path e).image (·.relocate move) id := by
  have hread : (notes.relocate move).readType path =
      (notes.readType path).image (·.relocate move) id := by
    show notes.readType path = _
    rw [readType]
    cases notes.types.get? path <;> rfl
  cases e with
  | ref r =>
    rw [Expr.relocate, exprType, exprType, notes.resolve_relocate move]
    exact Result.image_bind fun d => d.valueType_relocate move
  | unary | binary | call => simpa only [Expr.relocate, exprType] using hread
  | _ => simp only [Expr.relocate, exprType, TypeRef.relocate, Result.image_ok, id]

namespace Lattice

variable (l : Lattice)

theorem still_checkTypeRef (name : String) : (l.checkTypeRef name).Still move := by
  rw [checkTypeRef]
  split <;> rfl

theorem still_checkUnary (op operand : String) : (l.checkUnary op operand).Still move := by
  rw [checkUnary]
  split
  · split
    · rfl
    · split
      · rfl
      · split <;> rfl
  · rfl

theorem still_expectOperands (op left right target : String) :
    (l.expectOperands op left right target).Still move := by
  rw [expectOperands]
  split
  · rfl
  · split <;> rfl

theorem still_arithmeticType (op left right : String) :
    (l.arithmeticType op left right).Still move := by
  rw [arithmeticType]
  split <;> rfl

theorem still_checkBinary (op left right : String) : (l.checkBinary op left right).Still move := by
  have hoperands (target : String) := l.still_expectOperands move op left right target
  rw [checkBinary]
  cases OperatorClass.ofSymbol? op with
  | none => rfl
  | some operator =>
    cases operator with
    | comparison | power => exact (hoperands _).bind fun _ => Result.still_ok _
    | equality =>
      simp only
      split
      · exact (hoperands _).bind fun _ => Result.still_ok _
      · exact Result.still_ok _
    | arithmetic | remainder =>
      exact (hoperands _).bind fun _ => l.still_arithmeticType move op left right

theorem still_checkAssign (target value : String) : (l.checkAssign target value).Still move := by
  rw [checkAssign]
  split <;> rfl

theorem still_checkUpdate (op target value : String) :
    (l.checkUpdate op target value).Still move := by
  rw [checkUpdate]
  split
  · exact (l.still_expectOperands move op target value _).bind fun _ =>
      l.still_checkAssign move target value
  · rfl

end Lattice

def TypeContext.relocate (cx : TypeContext) : TypeContext :=
  { cx with scopes := cx.scopes.relocate move }

namespace TypeContext

variable (cx : TypeContext) (notes : Annotations) (path : Path)

theorem ofScopes_relocate (scopes : Scopes) :
    ofScopes (scopes.relocate move) =
      (ofScopes scopes).image (·.relocate move) (·.relocate move) := by
  rw [ofScopes, ofScopes, scopes.frame_relocate move]
  refine Result.image_bind fun root => ?_
  rw [root.enumNames_relocate move]
  rfl

theorem targetType_relocate (target : Ref) :
    (cx.relocate move).targetType (notes.relocate move) path (target.relocate move) =
      (cx.targetType notes path target).image (·.relocate move) (·.relocate move) := by
  rw [targetType, targetType, relocate, notes.resolve_relocate move]
  refine Result.image_bind fun d => ?_
  cases d <;> rfl

theorem checkArg_relocate (d : Declaration) (i : Nat) (param : String) (arg : Expr) :
    (cx.relocate move).checkArg (notes.relocate move) path (d.relocate move) i param
        (arg.relocate move) =
      (cx.checkArg notes path d i param arg).image (·.relocate move) id := by
  rw [checkArg, checkArg, relocate, notes.exprType_relocate move]
  refine Result.image_bind fun type => ?_
  rw [arg.position_relocate move, id]
  cases cx.lattice.isConvertible type param <;> rfl

theorem checkArgs_relocate (d : Declaration) (i : Nat) (params : List String) (args : List Expr) :
    (cx.relocate move).checkArgs (notes.relocate move) path (d.relocate move) i params
        (args.map (·.relocate move)) =
      (cx.checkArgs notes path d i params args).image (·.relocate move) id := by
  induction params generalizing i args with
  | nil => rfl
  | cons param params ih =>
    cases args with
    | nil => rfl
    | cons arg args =>
      rw [List.map_cons, checkArgs, checkArgs, cx.checkArg_relocate move]
      exact Result.image_bind fun _ => ih (i + 1) args

theorem callType_relocate (callee : Ref) (args : List Expr) :
    (cx.relocate move).callType (notes.relocate move) path (callee.relocate move)
        (args.map (·.relocate move)) =
      (cx.callType notes path callee args).image (·.relocate move) id := by
  have hresolve := notes.resolve_relocate move (.callee :: path) cx.scopes callee
  rw [callType, callType]
  refine Result.bind_of_image hresolve fun d => ?_
  rw [d.callable?_relocate move]
  cases d.callable? with
  | none => rfl
  | some signature =>
    obtain ⟨params, result⟩ := signature
    have hargs := cx.checkArgs_relocate move notes path d 0 params args
    simp only [List.length_map]
    split
    · rfl
    · rw [hargs]
      refine Result.image_bind fun _ => ?_
      cases result <;> rfl

theorem checkIndex_relocate (i : Nat) (e : Expr) :
    (cx.relocate move).checkIndex (notes.relocate move) path i (e.relocate move) =
      (cx.checkIndex notes path i e).image (·.relocate move) id := by
  rw [checkIndex, checkIndex, relocate, notes.exprType_relocate move]
  refine Result.image_bind fun type => ?_
  rw [e.position_relocate move, id]
  cases type == TypeName.str || cx.lattice.isConvertible type TypeName.int <;> rfl

theorem checkIndices_relocate (i : Nat) (es : List Expr) :
    (cx.relocate move).checkIndices (notes.relocate move) path i (es.map (·.relocate move)) =
      (cx.checkIndices notes path i es).image (·.relocate move) id := by
  induction es generalizing i with
  | nil => rfl
  | cons e es ih =>
    rw [List.map_cons, checkIndices, checkIndices, cx.checkIndex_relocate move]
    exact Result.image_bind fun _ => ih (i + 1)

theorem checkJson_relocate (root : Ref) (indices : List Expr) :
    (cx.relocate move).checkJson (notes.relocate move) path (root.relocate move)
        (indices.map (·.relocate move)) =
      (cx.checkJson notes path root indices).image (·.relocate move) id := by
  have hresolve := notes.resolve_relocate move (.root :: path) cx.scopes root
  rw [checkJson, checkJson]
  refine Result.bind_of_image hresolve fun d => ?_
  rw [d.valueType_relocate move]
  refine Result.image_bind fun type => ?_
  show (if type ≠ TypeName.json then _ else _) = _
  split
  · rfl
  · exact cx.checkIndices_relocate move notes path 0 indices

theorem checkAssign_relocate (target : Ref) (value : Expr) (declares : Bool) :
    (cx.relocate move).checkAssign (notes.relocate move) path (target.relocate move)
        (value.relocate move) declares =
      (cx.checkAssign notes path target value declares).image (·.relocate move) id := by
  have hvalue := notes.exprType_relocate move cx.scopes (.value :: path) value
  rw [checkAssign, checkAssign, cx.targetType_relocate move]
  refine Result.image_bind fun type => ?_
  show (if type.isConst && !declares then _ else _) = _
  split
  · rfl
  · refine Result.bind_of_image hvalue fun found => ?_
    exact (cx.lattice.still_checkAssign move type.name found).symm

theorem checkUpdate_relocate (target : Ref) (op : String) (value : Expr) :
    (cx.relocate move).checkUpdate (notes.relocate move) path (target.relocate move) op
        (value.relocate move) =
      (cx.checkUpdate notes path target op value).image (·.relocate move) id := by
  have hvalue := notes.exprType_relocate move cx.scopes (.value :: path) value
  rw [checkUpdate, checkUpdate, cx.targetType_relocate move]
  refine Result.image_bind fun type => ?_
  show (if type.isConst then _ else _) = _
  split
  · rfl
  · refine Result.bind_of_image hvalue fun found => ?_
    exact (cx.lattice.still_checkUpdate move op type.name found).symm

theorem checkCondition_relocate (condition : Expr) :
    (cx.relocate move).checkCondition (notes.relocate move) path (condition.relocate move) =
      (cx.checkCondition notes path condition).image (·.relocate move) id := by
  rw [checkCondition, checkCondition, relocate, notes.exprType_relocate move]
  refine Result.image_bind fun type => ?_
  rw [condition.position_relocate move, id, Lattice.checkCondition]
  split <;> rfl

theorem checkPrinted_relocate (i : Nat) (e : Expr) :
    (cx.relocate move).checkPrinted (notes.relocate move) path i (e.relocate move) =
      (cx.checkPrinted notes path i e).image (·.relocate move) id := by
  cases e with
  | ref r =>
    have hresolve := notes.resolve_relocate move (.arg i :: path) cx.scopes r
    rw [Expr.relocate, checkPrinted, checkPrinted]
    refine Result.bind_of_image hresolve fun d => ?_
    rw [d.callable?_relocate move]
    split <;> rfl
  | _ =>
    rw [Expr.relocate]
    rfl

theorem checkPrint_relocate (i : Nat) (es : List Expr) :
    (cx.relocate move).checkPrint (notes.relocate move) path i (es.map (·.relocate move)) =
      (cx.checkPrint notes path i es).image (·.relocate move) id := by
  induction es generalizing i with
  | nil => rfl
  | cons e es ih =>
    rw [List.map_cons, checkPrint, checkPrint, cx.checkPrinted_relocate move]
    exact Result.image_bind fun _ => ih (i + 1)

theorem checkReturn_relocate (f : Func) (value : Option Expr) :
    (cx.relocate move).checkReturn (notes.relocate move) path (f.relocate move)
        (value.map (·.relocate move)) =
      (cx.checkReturn notes path f value).image (·.relocate move) id := by
  obtain ⟨p, name, params, returnType, body⟩ := f
  cases returnType with
  | none => cases value <;> rfl
  | some type =>
    cases value with
    | none => rfl
    | some e =>
      have hvalue := notes.exprType_relocate move cx.scopes (.value :: path) e
      unfold checkReturn
      refine Result.bind_of_image hvalue fun found => ?_
      show (if cx.lattice.isConvertible found type.name then _ else _) = _
      split <;> rfl

/-- Checking a moved node gives the same type, or the moved error. -/
theorem checkNode_relocate (funcs : List Func) (node : Node) :
    (cx.relocate move).checkNode (notes.relocate move) path (funcs.map (·.relocate move))
        (node.relocate move) =
      (cx.checkNode notes path funcs node).image (·.relocate move) id := by
  cases node with
  | typeRef t =>
    exact Result.bind_of_image (cx.lattice.still_checkTypeRef move t.name).symm fun _ => rfl
  | expr e =>
    rw [Node.relocate]
    cases e with
    | ref r =>
      rw [Expr.relocate, checkNode, checkNode]
      exact Result.bind_of_image (notes.resolve_relocate move path cx.scopes r) fun _ => rfl
    | unary p op e =>
      rw [Expr.relocate, checkNode, checkNode]
      have hoperand := notes.exprType_relocate move cx.scopes (.operand :: path) e
      refine Result.bind_of_image hoperand fun type => ?_
      exact Result.bind_of_image (cx.lattice.still_checkUnary move op type).symm fun _ => rfl
    | binary p l op r =>
      rw [Expr.relocate, checkNode, checkNode]
      have hleft := notes.exprType_relocate move cx.scopes (.left :: path) l
      have hright := notes.exprType_relocate move cx.scopes (.right :: path) r
      refine Result.bind_of_image hleft fun left => Result.bind_of_image hright fun right => ?_
      exact Result.bind_of_image (cx.lattice.still_checkBinary move op left right).symm fun _ => rfl
    | call p callee args =>
      rw [Expr.relocate, checkNode, checkNode, Expr.relocateAll_eq_map, cx.callType_relocate move]
      exact Result.image_bind fun _ => rfl
    | json p root indices target =>
      rw [Expr.relocate, checkNode, checkNode, Expr.relocateAll_eq_map, cx.checkJson_relocate move]
      exact Result.image_bind fun _ => rfl
    | _ =>
      rw [Expr.relocate]
      rfl
  | stmt s =>
    rw [Node.relocate]
    cases s with
    | pass p =>
      rw [Stmt.relocate]
      rfl
    | assign p target value declared =>
      rw [Stmt.relocate, checkNode, checkNode, Option.isSome_map, cx.checkAssign_relocate move]
      exact Result.image_bind fun _ => rfl
    | update p target op value =>
      rw [Stmt.relocate, checkNode, checkNode, cx.checkUpdate_relocate move]
      exact Result.image_bind fun _ => rfl
    | print p args =>
      rw [Stmt.relocate, checkNode, checkNode, cx.checkPrint_relocate move]
      exact Result.image_bind fun _ => rfl
    | cond p condition block elifs otherwise =>
      cases otherwise with
      | none =>
        rw [Stmt.relocate, checkNode, checkNode, cx.checkCondition_relocate move]
        exact Result.image_bind fun _ => rfl
      | some e =>
        rw [Stmt.relocate, checkNode, checkNode, cx.checkCondition_relocate move]
        exact Result.image_bind fun _ => rfl
    | ret p value =>
      rw [Stmt.relocate]
      cases funcs with
      | nil => rfl
      | cons f outer =>
        rw [List.map_cons, checkNode, checkNode, cx.checkReturn_relocate move]
        exact Result.image_bind fun _ => rfl
  | elif e =>
    obtain ⟨p, condition, block⟩ := e
    rw [Node.relocate, Elif.relocate, checkNode, checkNode, cx.checkCondition_relocate move]
    exact Result.image_bind fun _ => rfl
  | _ => rfl

theorem maps_leave (path : Path) (node : Node) :
    Maps (Work.image (·.relocate move) (List.map (·.relocate move))) (·.relocate move) id
      (cx.visitor.leave path node)
      ((cx.relocate move).visitor.leave path (node.relocate move)) := by
  cases node with
  | func f =>
    show Maps _ _ _ (modifyOwn List.tail) (modifyOwn List.tail)
    exact maps_modifyOwn fun funcs => List.map_tail.symm
  | _ =>
    refine maps_own.bind fun funcs => ?_
    refine (maps_consult fun notes => cx.checkNode_relocate move notes path funcs _).bind
      fun type => ?_
    cases type with
    | none => exact maps_pure id ()
    | some type => exact maps_annotate fun notes => notes.writeType_relocate move path type

end TypeContext

theorem Source.checkTypes_relocate (s : Source) :
    Maps (·.relocate move) (·.relocate move) id s.checkTypes (s.relocate move).checkTypes := by
  refine maps_get.bind fun notes => ?_
  refine (maps_ofResult (notes.readScopes_relocate move)).bind fun scopes => ?_
  refine (maps_ofResult (TypeContext.ofScopes_relocate move scopes)).bind fun cx => ?_
  refine maps_walking (maps_walk_relocate (fun path node => ?_) (cx.maps_leave move) s) []
  cases node with
  | func f => exact maps_modifyOwn fun _ => rfl
  | _ => exact maps_pure id ()

theorem Source.analyze_relocate (s : Source) :
    Maps (·.relocate move) (·.relocate move) id s.analyze (s.relocate move).analyze :=
  (s.bindNames_relocate move).bind fun _ => (s.collectLocals_relocate move).bind fun _ =>
    (s.linkReturns_relocate move).bind fun _ => (s.collectCapabilities_relocate move).bind fun _ =>
      s.checkTypes_relocate move

namespace CallGraph

theorem nodeOf_relocate (notes : Annotations) (path : Path) (f : Func) :
    nodeOf (notes.relocate move) path (f.relocate move) =
      (nodeOf notes path f).image (·.relocate move) id := by
  rw [nodeOf, nodeOf]
  refine Result.bind_of_image (notes.capabilities.still_read move .capabilities path).symm
    fun c => ?_
  exact Result.bind_of_image (notes.funcIds.still_read move .functionId path).symm fun id => rfl

/-- The call graph of a moved program is the call graph of the program. -/
theorem build_relocate (s : Source) (notes : Annotations) :
    build (s.relocate move) (notes.relocate move) =
      (build s notes).image (·.relocate move) id := by
  have hnodes : (s.functions.map fun x => (x.1, x.2.relocate move)).mapM
      (fun x => nodeOf (notes.relocate move) x.1 x.2) =
      (s.functions.mapM fun x => nodeOf notes x.1 x.2).image (·.relocate move) id :=
    Result.mapM_image (fun x => nodeOf_relocate move notes x.1 x.2) _
  have hcallees (g : CallGraph) (n : CallNode) :
      (n.callees.forM fun callee => discard (g.node callee)).Still move := by
    refine Result.still_forM fun callee => ?_
    rw [node]
    cases g.nodes[callee.index]? <;> rfl
  rw [build, build, s.functions_relocate move]
  refine Result.bind_of_image hnodes fun nodes => ?_
  refine Eq.symm ?_
  show Result.Still move _
  simp only
  split
  · rfl
  · exact (Result.still_forM fun n => hcallees _ n).bind fun _ => Result.still_ok _

end CallGraph

def Session.relocate (s : Session) : Session := { s with notes := s.notes.relocate move }

/-- The outcome for a moved program is the moved outcome. -/
theorem Session.apply_relocate (s : Source) :
    Maps (·.relocate move) (·.relocate move) id (Session.apply s)
      (Session.apply (s.relocate move)) := by
  intro session
  have hrun : (s.relocate move).analyze (session.relocate move).notes = _ :=
    s.analyze_relocate move session.notes
  rw [apply, apply, hrun]
  cases s.analyze session.notes with
  | error e notes => rfl
  | ok _ notes =>
    simp only [CallGraph.build_relocate]
    cases CallGraph.build s notes <;> rfl

end SimCompiler
