import SimCompiler.Proofs.PlanRuns
import SimCompiler.Proofs.RelocatedAnalyses

/-!
# Positions decide nothing

The text of an expression depends on a position only where it accesses a schema-less value, whose
runtime errors name the place. Without such accesses a moved program is generated by the moved
requests. So of two programs that differ only in the positions of their nodes, both are accepted or
both are rejected for the same reason, and what is found out about them and generated from them
differs only in positions.
-/
namespace SimCompiler

variable (move : Position → Position)

def Request.relocate : Request → Request
  | .passStmt position => .passStmt (move position)
  | .assignmentStmt target value position => .assignmentStmt target value (move position)
  | .updateStmt target op value position => .updateStmt target op value (move position)
  | .printStmt format args position => .printStmt format args (move position)
  | .returnStmt value position => .returnStmt value (move position)
  | .ifStmt condition stmts elifs otherwise position =>
    .ifStmt condition stmts elifs otherwise (move position)
  | .elifSection condition stmts position => .elifSection condition stmts (move position)
  | .elseSection stmts position => .elseSection stmts (move position)
  | .enumDecl name constants position => .enumDecl name constants (move position)
  | .function prototype locals stmts position => .function prototype locals stmts (move position)
  | .mainFile enums prototypes decls globals locals stmts =>
    .mainFile enums prototypes decls globals locals stmts
  | .buildFile project => .buildFile project

/-- Run on a moved log, `y` does what `x` does, with moved requests. -/
abbrev Pass.MovesLog (x y : Pass RequestLog α) : Prop :=
  Maps (List.map (Request.relocate move)) (CompileError.relocate move) id x y

/-- Accesses to schema-less values. -/
def Node.isJson : Node → Bool
  | .expr (.json ..) => true
  | _ => false

def JsonFree (nodes : List (Path × Node)) : Prop := ∀ x ∈ nodes, x.2.isJson = false

instance (nodes : List (Path × Node)) : Decidable (JsonFree nodes) :=
  inferInstanceAs (Decidable (∀ x ∈ nodes, x.2.isJson = false))

@[simp] theorem jsonFree_cons (path : Path) (node : Node) (nodes : List (Path × Node)) :
    JsonFree ((path, node) :: nodes) ↔ node.isJson = false ∧ JsonFree nodes := by
  simp [JsonFree]

@[simp] theorem jsonFree_append (xs ys : List (Path × Node)) :
    JsonFree (xs ++ ys) ↔ JsonFree xs ∧ JsonFree ys := by
  simp only [JsonFree, List.forall_mem_append]

def Generator.relocate (g : Generator) : Generator :=
  ⟨g.notes.relocate move, g.scopes.relocate move, g.enums⟩

namespace Generator

variable (g : Generator)

theorem ofAnnotations_relocate (notes : Annotations) :
    ofAnnotations (notes.relocate move) =
      (ofAnnotations notes).image (·.relocate move) (·.relocate move) := by
  rw [ofAnnotations, ofAnnotations, notes.readScopes_relocate move]
  refine Result.image_bind fun scopes => ?_
  rw [scopes.frame_relocate move]
  refine Result.image_bind fun root => ?_
  rw [root.enumNames_relocate move]
  rfl

theorem typeCode_relocate (t : TypeRef) :
    (g.relocate move).typeCode (t.relocate move) =
      (g.typeCode t).image (·.relocate move) id := by
  have hname : (t.relocate move).name = t.name := rfl
  have henums : (g.relocate move).enums = g.enums := rfl
  rw [typeCode, typeCode, hname, henums]
  cases Target.primitiveType? t.name with
  | some code => rfl
  | none =>
    simp only
    split <;> rfl

theorem variableSlot_relocate (v : Variable) :
    (g.relocate move).variableSlot (v.relocate move) =
      (g.variableSlot v).image (·.relocate move) id := by
  exact Result.bind_of_image (g.typeCode_relocate move v.type) fun _ => rfl

theorem variableSlots_relocate (vars : List Variable) :
    (vars.map (·.relocate move)).mapM (g.relocate move).variableSlot =
      (vars.mapM g.variableSlot).image (·.relocate move) id :=
  Result.mapM_image (g.variableSlot_relocate move) vars

theorem paramSlot_relocate (v : Variable) :
    (g.relocate move).paramSlot (v.relocate move) =
      (g.paramSlot v).image (·.relocate move) id := by
  exact Result.bind_of_image (g.typeCode_relocate move v.type) fun _ => rfl

theorem refCode_relocate (path : Path) (r : Ref) :
    (g.relocate move).refCode path (r.relocate move) =
      (g.refCode path r).image (·.relocate move) id := by
  have hnative (d : Declaration) :
      nativeCode (d.relocate move) = (nativeCode d).image (·.relocate move) id := by
    rw [nativeCode, nativeCode, d.name_relocate move]
    cases Target.nativeName? d.name <;> rfl
  refine Result.bind_of_image (g.notes.resolve_relocate move path g.scopes r) fun d => ?_
  cases d with
  | builtinFunc f => exact hnative (.builtinFunc f)
  | builtinConst c => exact hnative (.builtinConst c)
  | _ => rfl

theorem exprCodes_relocate {es : List Expr}
    (ih : ∀ e ∈ es, ∀ path, JsonFree (e.outline path).nodes →
      (g.relocate move).exprCode path (e.relocate move) =
        (g.exprCode path e).image (·.relocate move) id)
    (path : Path) (i : Nat) (h : JsonFree (Outline.nodesAll (Expr.outlines path i es))) :
    (g.relocate move).exprCodes path i (es.map (·.relocate move)) =
      (g.exprCodes path i es).image (·.relocate move) id := by
  induction es generalizing i with
  | nil => simp [exprCodes]
  | cons e es ihes =>
    rw [Expr.outlines, Outline.nodesAll_cons, jsonFree_append] at h
    have hrest := ihes (fun e he => ih e (by simp [he])) (i + 1) h.2
    rw [List.map_cons, exprCodes, exprCodes]
    exact Result.bind_of_image (ih e (by simp) _ h.1) fun first =>
      Result.bind_of_image hrest fun rest => rfl

/-- The text of an expression without schema-less values does not tell where it stands. -/
theorem exprCode_relocate (e : Expr) : ∀ path, JsonFree (e.outline path).nodes →
    (g.relocate move).exprCode path (e.relocate move) =
      (g.exprCode path e).image (·.relocate move) id := by
  induction e using Expr.induction with
  | bool | int | float | str =>
    intro path h
    simp only [Expr.relocate, exprCode, Result.image_ok, id]
  | ref r =>
    intro path h
    rw [Expr.relocate, exprCode, exprCode]
    exact g.refCode_relocate move path r
  | unary p op e ih =>
    intro path h
    simp only [Expr.outline, Outline.nodes_mk, jsonFree_cons, Outline.nodesAll_cons,
      jsonFree_append] at h
    rw [Expr.relocate, exprCode, exprCode]
    exact Result.bind_of_image (ih _ h.2.1) fun operand => rfl
  | binary p l op r ihl ihr =>
    intro path h
    simp only [Expr.outline, Outline.nodes_mk, jsonFree_cons, Outline.nodesAll_cons,
      jsonFree_append] at h
    rw [Expr.relocate, exprCode, exprCode]
    refine Result.bind_of_image (ihl _ h.2.1) fun left => ?_
    refine Result.bind_of_image (ihr _ h.2.2.1) fun right => ?_
    split <;> rfl
  | call p callee args ih =>
    intro path h
    simp only [Expr.outline, Outline.nodes_mk, jsonFree_cons, Outline.nodesAll_cons,
      jsonFree_append] at h
    rw [Expr.relocate, exprCode, exprCode, Expr.relocateAll_eq_map]
    refine Result.bind_of_image (g.exprCodes_relocate move ih path 0 h.2.2) fun codes => ?_
    exact Result.bind_of_image (g.refCode_relocate move _ callee) fun code => rfl
  | json p root indices target ih =>
    intro path h
    simp [Expr.outline, Node.isJson] at h

theorem prototype_relocate (f : Func) :
    (g.relocate move).prototype (f.relocate move) =
      (g.prototype f).image (·.relocate move) id := by
  have hparams : (f.params.map (·.relocate move)).mapM (g.relocate move).paramSlot =
      (f.params.mapM g.paramSlot).image (·.relocate move) id :=
    Result.mapM_image (g.paramSlot_relocate move) f.params
  refine Result.bind_of_image hparams fun params => ?_
  obtain ⟨p, name, params', returnType, body⟩ := f
  cases returnType with
  | none => rfl
  | some t => exact Result.bind_of_image (g.typeCode_relocate move t) fun _ => rfl

open Pass RequestLog

theorem maps_ask (request : Request) :
    MovesLog move (ask renderer request)
      (ask renderer (request.relocate move)) := by
  intro log
  show EStateM.Result.ok (placeholder (log.map _).length) (log.map _ ++ [request.relocate move]) = _
  rw [List.length_map]
  have hlog : (log ++ [request]).map (Request.relocate move) =
      log.map (Request.relocate move) ++ [request.relocate move] := List.map_append
  exact congrArg (EStateM.Result.ok _) hlog.symm

theorem maps_expr {e : Expr} {path : Path} (h : JsonFree (e.outline path).nodes) :
    MovesLog move (ofResult (g.exprCode path e))
      (ofResult ((g.relocate move).exprCode path (e.relocate move))) :=
  maps_ofResult (g.exprCode_relocate move e path h)

theorem maps_ref (path : Path) (r : Ref) :
    MovesLog move (ofResult (g.refCode path r))
      (ofResult ((g.relocate move).refCode path (r.relocate move))) :=
  maps_ofResult (g.refCode_relocate move path r)

/-- A moved statement is generated by the moved requests. -/
def Carries (s : Stmt) : Prop := ∀ path, JsonFree (s.outline path).nodes →
  MovesLog move (g.stmt renderer path s)
    ((g.relocate move).stmt renderer path (s.relocate move))

variable {g}

theorem maps_block {b : Block} (ih : ∀ s ∈ b.stmts, g.Carries move s) (path : Path)
    (h : JsonFree (b.outline path).nodes) :
    MovesLog move (g.block renderer path b)
      ((g.relocate move).block renderer path (b.relocate move)) := by
  obtain ⟨p, ss⟩ := b
  have hstmts : ∀ (ss : List Stmt) (i : Nat), (∀ s ∈ ss, g.Carries move s) →
      JsonFree (Outline.nodesAll (Stmt.outlines path i ss)) →
      MovesLog move (g.stmts renderer path i ss)
        ((g.relocate move).stmts renderer path i (ss.map (·.relocate move))) := by
    intro ss
    induction ss with
    | nil =>
      intro i ih h
      rw [List.map_nil, stmts, stmts]
      exact maps_pure id []
    | cons s ss ihss =>
      intro i ih h
      rw [Stmt.outlines, Outline.nodesAll_cons, jsonFree_append] at h
      rw [List.map_cons, stmts, stmts]
      refine (ih s (by simp) _ h.1).bind fun first => ?_
      exact (ihss (i + 1) (fun s hs => ih s (by simp [hs])) h.2).bind fun rest => maps_pure id _
  rw [Block.outline, Outline.nodes_mk, jsonFree_cons] at h
  rw [Block.relocate, block, block, Stmt.relocateAll_eq_map]
  exact hstmts ss 0 ih h.2

theorem maps_elif {e : Elif} (ih : ∀ s ∈ e.block.stmts, g.Carries move s) (path : Path)
    (h : JsonFree (e.outline path).nodes) :
    MovesLog move (g.elif renderer path e)
      ((g.relocate move).elif renderer path (e.relocate move)) := by
  obtain ⟨p, condition, b⟩ := e
  simp only [Elif.outline, Outline.nodes_mk, jsonFree_cons, Outline.nodesAll_cons,
    jsonFree_append] at h
  rw [Elif.relocate, elif, elif]
  refine (g.maps_expr move h.2.1).bind fun condition => ?_
  exact (maps_block move ih _ h.2.2.1).bind fun stmts => maps_ask move _

theorem maps_elifs {es : List Elif} (ih : ∀ e ∈ es, ∀ s ∈ e.block.stmts, g.Carries move s)
    (path : Path) (i : Nat) (h : JsonFree (Outline.nodesAll (Elif.outlines path i es))) :
    MovesLog move (g.elifs renderer path i es)
      ((g.relocate move).elifs renderer path i (es.map (·.relocate move))) := by
  induction es generalizing i with
  | nil =>
    rw [List.map_nil, elifs, elifs]
    exact maps_pure id []
  | cons e es ihes =>
    rw [Elif.outlines, Outline.nodesAll_cons, jsonFree_append] at h
    rw [List.map_cons, elifs, elifs]
    refine (maps_elif move (ih e (by simp)) _ h.1).bind fun first => ?_
    exact (ihes (fun e he => ih e (by simp [he])) (i + 1) h.2).bind fun rest => maps_pure id _

theorem maps_else {e : Else} (ih : ∀ s ∈ e.block.stmts, g.Carries move s) (path : Path)
    (h : JsonFree (e.outline path).nodes) :
    MovesLog move (g.elseSection renderer path e)
      ((g.relocate move).elseSection renderer path (e.relocate move)) := by
  obtain ⟨p, b⟩ := e
  simp only [Else.outline, Outline.nodes_mk, jsonFree_cons, Outline.nodesAll_cons,
    jsonFree_append] at h
  rw [Else.relocate, elseSection, elseSection]
  exact (maps_block move ih _ h.2.1).bind fun stmts => maps_ask move _

variable (g)

theorem carries_stmt (s : Stmt) : g.Carries move s := by
  induction s using Stmt.induction with
  | pass p =>
    intro path h
    rw [Stmt.relocate, stmt, stmt]
    exact maps_ask move (.passStmt p)
  | assign p target value declared =>
    intro path h
    simp only [Stmt.outline, Outline.nodes_mk, jsonFree_cons, Outline.nodesAll_append,
      Outline.nodesAll_cons, jsonFree_append] at h
    rw [Stmt.relocate, stmt, stmt]
    refine (g.maps_ref move _ target).bind fun target => ?_
    exact (g.maps_expr move h.2.2.2.1).bind fun value => maps_ask move _
  | update p target op value =>
    intro path h
    simp only [Stmt.outline, Outline.nodes_mk, jsonFree_cons, Outline.nodesAll_cons,
      jsonFree_append] at h
    rw [Stmt.relocate, stmt, stmt]
    refine (g.maps_ref move _ target).bind fun target => ?_
    exact (g.maps_expr move h.2.2.1).bind fun value => maps_ask move _
  | print p args =>
    intro path h
    rw [Stmt.outline, Outline.nodes_mk, jsonFree_cons] at h
    have hargs := g.exprCodes_relocate move (fun e _ => g.exprCode_relocate move e) path 0 h.2
    rw [Stmt.relocate, stmt, stmt]
    exact (maps_ofResult hargs).bind fun args => maps_ask move _
  | cond p condition block elifs otherwise ihblock ihelifs ihelse =>
    intro path h
    cases otherwise with
    | none =>
      simp only [Stmt.outline, Outline.nodes_mk, jsonFree_cons, Outline.nodesAll_cons,
        jsonFree_append] at h
      rw [Stmt.relocate, stmt, stmt, Elif.relocateAll_eq_map]
      refine (g.maps_expr move h.2.1).bind fun condition => ?_
      refine (maps_block move ihblock _ h.2.2.1).bind fun stmts => ?_
      exact (maps_elifs move ihelifs path 0 h.2.2.2).bind fun elifs => maps_ask move _
    | some e =>
      simp only [Stmt.outline, Outline.nodes_mk, jsonFree_cons, Outline.nodesAll_cons,
        Outline.nodesAll_append, jsonFree_append] at h
      rw [Stmt.relocate, stmt, stmt, Elif.relocateAll_eq_map]
      refine (g.maps_expr move h.2.1).bind fun condition => ?_
      refine (maps_block move ihblock _ h.2.2.1).bind fun stmts => ?_
      refine (maps_elifs move ihelifs path 0 h.2.2.2.1).bind fun elifs => ?_
      exact (maps_else move (ihelse e rfl) _ h.2.2.2.2.1).bind fun otherwise => maps_ask move _
  | ret p value =>
    intro path h
    cases value with
    | none =>
      rw [Stmt.relocate, Option.map_none, stmt, stmt]
      exact maps_ask move (.returnStmt none p)
    | some value =>
      simp only [Stmt.outline, Outline.nodes_mk, jsonFree_cons, Option.map_some,
        Option.toList_some, Outline.nodesAll_cons, jsonFree_append] at h
      rw [Stmt.relocate, Option.map_some, stmt, stmt]
      exact (g.maps_expr move h.2.1).bind fun value => maps_ask move _

theorem maps_func (path : Path) (f : Func) (h : JsonFree (f.outline path).nodes) :
    MovesLog move (g.func renderer path f)
      ((g.relocate move).func renderer path (f.relocate move)) := by
  have hbody : JsonFree (f.body.outline (.body :: path)).nodes := by
    simp only [Func.outline, Outline.nodes_mk, jsonFree_cons, Outline.nodesAll_append,
      Outline.nodesAll_cons, jsonFree_append] at h
    exact h.2.2.1
  rw [func, func]
  refine (maps_ofResult (g.prototype_relocate move f)).bind fun prototype => ?_
  refine (maps_ofResult (g.notes.readFuncLocals_relocate move path)).bind fun vars => ?_
  refine (maps_ofResult (g.variableSlots_relocate move vars)).bind fun locals => ?_
  refine (maps_block move (fun s _ => g.carries_stmt move s) _ hbody).bind fun stmts => ?_
  exact maps_ask move (.function prototype locals stmts f.position)

theorem maps_items (items : List Item) (i : Nat) (done : Sections)
    (h : JsonFree (Outline.nodesAll (Outline.numbered .item Item.outline [] i items))) :
    MovesLog move (g.items renderer i done items)
      ((g.relocate move).items renderer i done (items.map (·.relocate move))) := by
  induction items generalizing i done with
  | nil => exact maps_pure id done
  | cons item items ih =>
    rw [Outline.numbered, Outline.nodesAll_cons, jsonFree_append] at h
    rw [List.map_cons]
    cases item with
    | globalVar v =>
      rw [Item.relocate, Generator.items, Generator.items]
      exact (maps_ofResult (g.variableSlot_relocate move v)).bind fun slot => ih (i + 1) _ h.2
    | enum d =>
      have hconstants : (d.relocate move).constants.map (Target.mangle ·.name) =
          d.constants.map (Target.mangle ·.name) := List.map_map
      have hask : MovesLog move (enumDecl renderer d)
          (enumDecl renderer (d.relocate move)) := by
        rw [enumDecl, enumDecl, hconstants]
        exact maps_ask move (.enumDecl (Target.mangle d.name) _ d.position)
      rw [Item.relocate, Generator.items, Generator.items]
      exact hask.bind fun text => ih (i + 1) _ h.2
    | func f =>
      rw [Item.relocate, Generator.items, Generator.items]
      exact (g.maps_func move [.item i] f h.1).bind fun text => ih (i + 1) _ h.2
    | stmt s =>
      rw [Item.relocate, Generator.items, Generator.items]
      exact (g.carries_stmt move s [.item i] h.1).bind fun text => ih (i + 1) _ h.2

theorem maps_program (source : Source) (h : JsonFree source.outline.nodes) :
    MovesLog move (g.program renderer source)
      ((g.relocate move).program renderer (source.relocate move)) := by
  have hprototypes : ((source.functions.map fun x => (x.1, x.2.relocate move)).mapM fun x =>
      (g.relocate move).prototype x.2) =
      (source.functions.mapM fun x => g.prototype x.2).image (·.relocate move) id :=
    Result.mapM_image (j := fun x : Path × Func => (x.1, x.2.relocate move))
      (fun x => g.prototype_relocate move x.2) _
  rw [Source.outline, Outline.nodes_mk, jsonFree_cons] at h
  rw [program, program, source.functions_relocate move]
  refine (maps_ofResult hprototypes).bind fun prototypes => ?_
  refine (g.maps_items move source.items 0 {} h.2).bind fun sections => ?_
  refine (maps_ofResult (g.notes.readProgramLocals_relocate move)).bind fun vars => ?_
  refine (maps_ofResult (g.variableSlots_relocate move vars)).bind fun locals => ?_
  exact maps_ask move (.mainFile sections.enums prototypes sections.decls sections.globals locals
    sections.stmts)

end Generator

open Pass

/-- A moved program without schema-less values is generated by the moved requests. -/
theorem Source.generate_relocate (source : Source) (notes : Annotations) (name : String)
    (h : JsonFree source.outline.nodes) :
    MovesLog move (source.generate notes RequestLog.renderer name)
      ((source.relocate move).generate (notes.relocate move) RequestLog.renderer name) := by
  refine (maps_ofResult (Generator.ofAnnotations_relocate move notes)).bind fun g => ?_
  refine (g.maps_program move source h).bind fun mainFile => ?_
  exact (Generator.maps_ask move (.buildFile name)).bind fun buildFile => maps_pure id _

/-- Makes all positions the same. -/
def Position.forget : Position → Position := fun _ => default

/-- Errors that differ only in positions say the same. -/
theorem CompileError.report_eq {e e' : CompileError} (h : e.relocate move = e'.relocate move) :
    e.report = e'.report := by
  rw [← report_relocate move e, h, report_relocate]

/-- Of two programs that differ only in the positions of their nodes, both are rejected, with errors
of the same class, kind and message, or both are accepted. If they are accepted, then the numbers
and frames of functions, the frames of references, the owners of return statements, the calls, the
types and the call graph are the same, and all else differs only in positions. If besides they
access no schema-less values, then both are generated to the same project or fail with the same
error, by requests that differ only in positions. -/
theorem Source.positions_decide_nothing (source source' : Source) (name : String)
    (h : source.relocate Position.forget = source'.relocate Position.forget) :
    (∃ e t e' t', Session.apply source {} = .error e t ∧ Session.apply source' {} = .error e' t' ∧
      e.report = e'.report) ∨
    ∃ session session', Session.apply source {} = .ok () session ∧
      Session.apply source' {} = .ok () session' ∧
      session.notes.funcIds = session'.notes.funcIds ∧
      session.notes.funcFrames = session'.notes.funcFrames ∧
      session.notes.refFrames = session'.notes.refFrames ∧
      session.notes.returnOwners = session'.notes.returnOwners ∧
      session.notes.capabilities = session'.notes.capabilities ∧
      session.notes.types = session'.notes.types ∧
      session.callGraph = session'.callGraph ∧
      session.notes.relocate Position.forget = session'.notes.relocate Position.forget ∧
      (JsonFree source.outline.nodes → JsonFree source'.outline.nodes →
        (∃ e log e' log',
          source.generate session.notes RequestLog.renderer name [] = .error e log ∧
          source'.generate session'.notes RequestLog.renderer name [] = .error e' log' ∧
          e.report = e'.report ∧
          log.map (·.relocate Position.forget) = log'.map (·.relocate Position.forget)) ∨
        ∃ project log log',
          source.generate session.notes RequestLog.renderer name [] = .ok project log ∧
          source'.generate session'.notes RequestLog.renderer name [] = .ok project log' ∧
          log.map (·.relocate Position.forget) = log'.map (·.relocate Position.forget)) := by
  have happly := Session.apply_relocate Position.forget source
  have happly' := Session.apply_relocate Position.forget source'
  rw [← h] at happly'
  rcases happly.alike happly' (s := {}) (t := {}) rfl with
    ⟨e, t, e', t', hrun, hrun', herror, -⟩ | ⟨⟨⟩, session, ⟨⟩, session', hrun, hrun', -, hend⟩
  · exact .inl ⟨e, t, e', t', hrun, hrun', CompileError.report_eq _ herror⟩
  have hnotes : session.notes.relocate Position.forget = session'.notes.relocate Position.forget :=
    congrArg Session.notes hend
  refine .inr ⟨session, session', hrun, hrun', (congrArg Annotations.funcIds hnotes :),
    (congrArg Annotations.funcFrames hnotes :), (congrArg Annotations.refFrames hnotes :),
    (congrArg Annotations.returnOwners hnotes :), (congrArg Annotations.capabilities hnotes :),
    (congrArg Annotations.types hnotes :), (congrArg Session.callGraph hend :), hnotes, ?_⟩
  intro hfree hfree'
  have hgenerate := source.generate_relocate Position.forget session.notes name hfree
  have hgenerate' := source'.generate_relocate Position.forget session'.notes name hfree'
  rw [← h, ← hnotes] at hgenerate'
  rcases hgenerate.alike hgenerate' (s := []) (t := []) rfl with
    ⟨e, log, e', log', hlog, hlog', herror, hend⟩ |
    ⟨project, log, project', log', hlog, hlog', hproject, hend⟩
  · exact .inl ⟨e, log, e', log', hlog, hlog', CompileError.report_eq _ herror, hend⟩
  · cases hproject
    exact .inr ⟨project, log, log', hlog, hlog', hend⟩

/-- The same text on several lines of one file, and all in one place of another file. -/
theorem Source.positions_decide_nothing_other_file :
    let program (line : UInt32 → Position) : Source :=
      let float (n : UInt32) : TypeRef := ⟨line n, "float", false⟩
      let product : Expr := .binary (line 4) (.ref ⟨line 4, "a"⟩) "*" (.int (line 4) 2)
      let body : Block := ⟨line 3, [.ret (line 4) (some product)]⟩
      let f : Func := ⟨line 3, "f", [⟨line 3, "a", float 3⟩], some (float 3), body⟩
      let call : Expr := .call (line 2) ⟨line 2, "f"⟩ [.int (line 2) 1]
      let assign : Stmt := .assign (line 2) ⟨line 2, "b"⟩ call (some ⟨line 2, "b", float 2⟩)
      ⟨line 1, [.stmt assign, .func f]⟩
    let source := program fun n => ⟨"main", n, 1⟩
    let source' := program fun _ => ⟨"other", 7, 7⟩
    source.relocate Position.forget = source'.relocate Position.forget ∧
      JsonFree source.outline.nodes ∧ JsonFree source'.outline.nodes ∧
      ∃ session session' project log log', Session.apply source {} = .ok () session ∧
        Session.apply source' {} = .ok () session' ∧
        session.notes.types = session'.notes.types ∧
        source.generate session.notes RequestLog.renderer "main" [] = .ok project log ∧
        source'.generate session'.notes RequestLog.renderer "main" [] = .ok project log' ∧
        log.map (·.relocate Position.forget) = log'.map (·.relocate Position.forget) := by
  intro program source source'
  have hsame : source.relocate Position.forget = source'.relocate Position.forget := rfl
  have hfree : JsonFree source.outline.nodes := by decide +kernel
  have hfree' : JsonFree source'.outline.nodes := by decide +kernel
  refine ⟨hsame, hfree, hfree', ?_⟩
  have hanswer : (source.compile RequestLog.renderer "main").answer [] =
      .ok (RequestLog.placeholder 3) := by decide +kernel
  obtain ⟨log, hcompile⟩ := Pass.answer_eq_ok_iff.mp hanswer
  obtain ⟨session, project, hsession, hgenerate, -⟩ := generate_of_compile hcompile
  rcases source.positions_decide_nothing source' "main" hsame with
    ⟨e, t, e', t', hrun, -⟩ | ⟨s, session', hrun, hrun', -, -, -, -, -, htypes, -, -, hlogs⟩
  · rw [hsession] at hrun
    cases hrun
  · rw [hsession] at hrun
    cases hrun
    rcases hlogs hfree hfree' with ⟨e, log, e', log', hlog, -⟩ | ⟨p, l, log', hlog, hlog', hend⟩
    · rw [hgenerate] at hlog
      cases hlog
    · rw [hgenerate] at hlog
      cases hlog
      exact ⟨session, session', project, log, log', hsession, hrun', htypes, hgenerate, hlog', hend⟩

end SimCompiler
