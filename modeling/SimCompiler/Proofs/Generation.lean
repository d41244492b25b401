import SimCompiler.Proofs.Analyses
import SimCompiler.Proofs.Conversion
import SimCompiler.Proofs.ExprCode

/-!
# Generating accepted programs

Every look-up that generation makes was made by an analysis before it: names are bound, types are
known, local variables are written down. So an accepted program can be generated, with two
exceptions that the type check lets through: printing the name of an enumeration, and indexing into
something of type `json` that is not a built-in constant.
-/
namespace SimCompiler

/-- The engine refuses no request. -/
def Renderer.Answers (engine : Renderer σ) : Prop :=
  ∀ request s, ∃ text s', engine.render request s = .ok text s'

theorem RequestLog.answers : renderer.Answers := fun request log =>
  ⟨placeholder log.length, log ++ [request], rfl⟩

namespace TypeScope

variable {c : TypeScope} {func : Option Func}

theorem operandOf_eq_ok {e : Expr} {operand : Operand} (h : c.operandOf e = .ok operand) :
    c.typeOf e = .ok operand.type := by
  obtain ⟨type, htype, hoperand⟩ := Result.bind_eq_ok_iff.mp h
  cases hoperand
  exact htype

theorem targetType_eq_ok {target : Ref} {type : TypeRef} (h : c.targetType target = .ok type) :
    ∃ d, c.resolve target = .ok d ∧ ∀ t, d ≠ .enum t := by
  obtain ⟨d, hd, htype⟩ := Result.bind_eq_ok_iff.mp h
  refine ⟨d, hd, ?_⟩
  rintro t rfl
  simp [Result.fault] at htype

theorem conditionRule_typed {operand : Operand} (h : c.conditionRule operand = .ok ()) :
    operand.type ≠ none := by
  obtain ⟨t, ht, -⟩ := Result.bind_eq_ok_iff.mp h
  simp [Operand.value_eq_ok_iff.mp ht]

theorem returnRule_typed {operand : Operand} (h : c.returnRule func (some operand) = .ok ()) :
    operand.type ≠ none := by
  cases func with
  | none => simp [returnRule, Result.defect] at h
  | some f =>
    cases hreturn : f.returnType with
    | none => simp [returnRule, hreturn, Result.fault] at h
    | some type =>
      simp only [returnRule, hreturn] at h
      obtain ⟨t, ht, -⟩ := Result.bind_eq_ok_iff.mp h
      simp [Operand.value_eq_ok_iff.mp ht]

/-- An assignment needs a variable and a value. -/
theorem checkStmt_assign {p : Position} {target : Ref} {value : Expr} {declared : Option Variable}
    (h : c.checkStmt func (.assign p target value declared) = .ok ()) :
    declared.forM c.checkVariable = .ok () ∧ (∃ d, c.resolve target = .ok d ∧ ∀ t, d ≠ .enum t) ∧
      ∃ type, c.typeOf value = .ok type ∧ type ≠ none := by
  simp only [checkStmt, Result.bind_eq_ok_iff, Result.orPosition_eq_ok_iff] at h
  obtain ⟨⟨⟩, hdeclared, _, -, operand, hoperand, hrule⟩ := h
  obtain ⟨type, htarget, hrule⟩ := Result.bind_eq_ok_iff.mp hrule
  refine ⟨hdeclared, targetType_eq_ok htarget, operand.type, operandOf_eq_ok hoperand, ?_⟩
  -- A value without a type is a defect, unless assigning to a constant has failed before that.
  intro hnone
  rw [Operand.value_of_none hnone] at hrule
  split at hrule <;> simp [Result.fault, Result.defect] at hrule

theorem checkStmt_update {p : Position} {target : Ref} {op : String} {value : Expr}
    (h : c.checkStmt func (.update p target op value) = .ok ()) :
    (∃ d, c.resolve target = .ok d ∧ ∀ t, d ≠ .enum t) ∧
      ∃ type, c.typeOf value = .ok type ∧ type ≠ none := by
  simp only [checkStmt, Result.bind_eq_ok_iff, Result.orPosition_eq_ok_iff] at h
  obtain ⟨_, -, operand, hoperand, hrule⟩ := h
  obtain ⟨type, htarget, hrule⟩ := Result.bind_eq_ok_iff.mp hrule
  refine ⟨targetType_eq_ok htarget, operand.type, operandOf_eq_ok hoperand, ?_⟩
  intro hnone
  rw [Operand.value_of_none hnone] at hrule
  split at hrule <;> simp [Result.fault, Result.defect] at hrule

theorem checkStmt_print {p : Position} {args : List Expr}
    (h : c.checkStmt func (.print p args) = .ok ()) :
    ∃ operands, c.operandsOf args = .ok operands := by
  simp only [checkStmt, Result.bind_eq_ok_iff] at h
  obtain ⟨operands, hoperands, -⟩ := h
  exact ⟨operands, hoperands⟩

theorem checkStmt_ret {p : Position} {value : Expr}
    (h : c.checkStmt func (.ret p (some value)) = .ok ()) :
    ∃ type, c.typeOf value = .ok type ∧ type ≠ none := by
  simp only [checkStmt, Result.bind_eq_ok_iff, Result.orPosition_eq_ok_iff] at h
  obtain ⟨operand, hoperand, hrule⟩ := h
  exact ⟨operand.type, operandOf_eq_ok hoperand, returnRule_typed hrule⟩

theorem checkBlock_eq_ok_iff {b : Block} :
    c.checkBlock func b = .ok () ↔ ∀ s ∈ b.stmts, c.checkStmt func s = .ok () := by
  obtain ⟨p, stmts⟩ := b
  rw [checkBlock]
  induction stmts with
  | nil => simp [checkStmts]
  | cons s ss ih =>
    rw [checkStmts, Result.seq_eq_ok_iff, List.forall_mem_cons, ih]

theorem checkElif_eq_ok {e : Elif} (h : c.checkElif func e = .ok ()) :
    (∃ type, c.typeOf e.condition = .ok type ∧ type ≠ none) ∧
      c.checkBlock func e.block = .ok () := by
  obtain ⟨p, condition, block⟩ := e
  simp only [checkElif, Result.bind_eq_ok_iff, Result.orPosition_eq_ok_iff] at h
  obtain ⟨operand, hoperand, ⟨⟩, hblock, hrule⟩ := h
  exact ⟨⟨operand.type, operandOf_eq_ok hoperand, conditionRule_typed hrule⟩, hblock⟩

theorem checkElifs_eq_ok_iff {es : List Elif} :
    c.checkElifs func es = .ok () ↔ ∀ e ∈ es, c.checkElif func e = .ok () := by
  induction es with
  | nil => simp [checkElifs]
  | cons e es ih =>
    rw [checkElifs, Result.seq_eq_ok_iff, List.forall_mem_cons, ih]

theorem checkElse_eq (e : Else) : c.checkElse func e = c.checkBlock func e.block := by
  obtain ⟨p, block⟩ := e
  rw [checkElse]

theorem checkStmt_cond {p : Position} {condition : Expr} {block : Block} {elifs : List Elif}
    {otherwise : Option Else}
    (h : c.checkStmt func (.cond p condition block elifs otherwise) = .ok ()) :
    (∃ type, c.typeOf condition = .ok type ∧ type ≠ none) ∧ c.checkBlock func block = .ok () ∧
      (∀ e ∈ elifs, c.checkElif func e = .ok ()) ∧
      ∀ e, otherwise = some e → c.checkBlock func e.block = .ok () := by
  cases otherwise with
  | none =>
    simp only [checkStmt, Result.bind_eq_ok_iff, Result.orPosition_eq_ok_iff] at h
    obtain ⟨operand, hoperand, ⟨⟩, hblock, ⟨⟩, helifs, hrule⟩ := h
    refine ⟨⟨operand.type, operandOf_eq_ok hoperand, conditionRule_typed hrule⟩, hblock, ?_, ?_⟩
    · exact checkElifs_eq_ok_iff.mp helifs
    · simp
  | some e =>
    simp only [checkStmt, Result.bind_eq_ok_iff, Result.orPosition_eq_ok_iff] at h
    obtain ⟨operand, hoperand, ⟨⟩, hblock, ⟨⟩, helifs, ⟨⟩, helse, hrule⟩ := h
    refine ⟨⟨operand.type, operandOf_eq_ok hoperand, conditionRule_typed hrule⟩, hblock, ?_, ?_⟩
    · exact checkElifs_eq_ok_iff.mp helifs
    · rintro _ ⟨⟩
      rwa [← checkElse_eq]

theorem checkBlock_locals {b : Block}
    (ih : ∀ s ∈ b.stmts, c.checkStmt func s = .ok () → ∀ v ∈ s.locals, c.checkVariable v = .ok ())
    (h : c.checkBlock func b = .ok ()) : ∀ v ∈ b.locals, c.checkVariable v = .ok () := by
  intro v hv
  obtain ⟨p, stmts⟩ := b
  rw [Block.locals, Stmt.allLocals_eq_flatMap] at hv
  obtain ⟨s, hs, hv⟩ := List.mem_flatMap.mp hv
  exact ih s hs (checkBlock_eq_ok_iff.mp h s hs) v hv

/-- The types of all variables that a checked statement declares are known. -/
theorem checkStmt_locals (s : Stmt) :
    c.checkStmt func s = .ok () → ∀ v ∈ s.locals, c.checkVariable v = .ok () := by
  induction s using Stmt.induction with
  | pass p | update p target op value | print p args | ret p value => simp [Stmt.locals]
  | assign p target value declared =>
    intro h v hv
    obtain ⟨hdeclared, -⟩ := checkStmt_assign h
    cases declared with
    | none => simp [Stmt.locals] at hv
    | some v' =>
      obtain rfl : v = v' := by simpa [Stmt.locals] using hv
      exact hdeclared
  | cond p condition block elifs otherwise ihb ihelifs ihelse =>
    intro h
    obtain ⟨-, hblock, helifs, helse⟩ := checkStmt_cond h
    have hfirst := checkBlock_locals ihb hblock
    have hmiddle : ∀ v ∈ Elif.allLocals elifs, c.checkVariable v = .ok () := by
      intro v hv
      rw [Elif.allLocals_eq_flatMap] at hv
      obtain ⟨⟨p', condition', b⟩, he, hv⟩ := List.mem_flatMap.mp hv
      exact checkBlock_locals (ihelifs _ he) (checkElif_eq_ok (helifs _ he)).2 v hv
    cases otherwise with
    | none =>
      rw [Stmt.locals, List.forall_mem_append]
      exact ⟨hfirst, hmiddle⟩
    | some e =>
      have hlast := checkBlock_locals (ihelse e rfl) (helse e rfl)
      obtain ⟨p', b⟩ := e
      rw [Stmt.locals, List.forall_mem_append, List.forall_mem_append]
      exact ⟨hfirst, hmiddle, hlast⟩

end TypeScope

namespace Generator

theorem settles_ask {engine : Renderer σ} (hengine : engine.Answers) (request : Request) :
    (ask engine request).Settles True := by
  refine ⟨fun _ s => ?_, fun hn => absurd trivial hn⟩
  obtain ⟨text, s', htext⟩ := hengine request s
  exact ⟨text, s', by rw [ask, htext]⟩

variable {g : Generator} {S : Setting} {c : TypeScope} {engine : Renderer σ} {func : Option Func}

theorem settles_stmts {path : Path} {ss : List Stmt}
    (ih : ∀ s ∈ ss, ∀ path, S.Describes c (s.outline path).nodes →
      (g.stmt engine path s).Settles (c.HaveCode (s.outline path).nodes)) (i : Nat)
    (hnodes : S.Describes c (Outline.nodesAll (Stmt.outlines path i ss))) :
    (g.stmts engine path i ss).Settles
      (c.HaveCode (Outline.nodesAll (Stmt.outlines path i ss))) := by
  induction ss generalizing i with
  | nil =>
    rw [stmts]
    exact Pass.settles_pure (by simp [Stmt.outlines]) _
  | cons s ss ihss =>
    rw [Stmt.outlines, Outline.nodesAll_cons] at hnodes ⊢
    have hfirst := ih s (by simp) _ hnodes.left
    have hrest := ihss (fun s hs => ih s (by simp [hs])) (i + 1) hnodes.right
    rw [stmts, TypeScope.haveCode_append]
    exact hfirst.bind fun _ => hrest.then fun _ => Pass.settles_pure trivial _

theorem settles_block {path : Path} {b : Block}
    (ih : ∀ s ∈ b.stmts, ∀ path, S.Describes c (s.outline path).nodes →
      (g.stmt engine path s).Settles (c.HaveCode (s.outline path).nodes))
    (hnodes : S.Describes c (b.outline path).nodes) :
    (g.block engine path b).Settles (c.HaveCode (b.outline path).nodes) := by
  obtain ⟨p, ss⟩ := b
  rw [Block.outline] at hnodes ⊢
  rw [block]
  refine (settles_stmts ih 0 hnodes.children).congr ?_
  simp [Node.HasCode]

theorem settles_elifs {path : Path} {es : List Elif}
    (ih : ∀ e ∈ es, ∀ path, S.Describes c (e.outline path).nodes →
      (g.elif engine path e).Settles (c.HaveCode (e.outline path).nodes)) (i : Nat)
    (hnodes : S.Describes c (Outline.nodesAll (Elif.outlines path i es))) :
    (g.elifs engine path i es).Settles
      (c.HaveCode (Outline.nodesAll (Elif.outlines path i es))) := by
  induction es generalizing i with
  | nil =>
    rw [elifs]
    exact Pass.settles_pure (by simp [Elif.outlines]) _
  | cons e es ihes =>
    rw [Elif.outlines, Outline.nodesAll_cons] at hnodes ⊢
    have hfirst := ih e (by simp) _ hnodes.left
    have hrest := ihes (fun e he => ih e (by simp [he])) (i + 1) hnodes.right
    rw [elifs, TypeScope.haveCode_append]
    exact hfirst.bind fun _ => hrest.then fun _ => Pass.settles_pure trivial _

/-- Printing needs the types of the arguments, which the type check does not ask for. -/
theorem allTyped_iff {args : List Expr} {operands : List Operand}
    (h : c.operandsOf args = .ok operands) :
    Operand.AllTyped operands ↔ ∀ r t, .ref r ∈ args → c.resolve r ≠ .ok (.enum t) := by
  induction args generalizing operands with
  | nil =>
    rw [TypeScope.operandsOf] at h
    cases h
    simp
  | cons e es ih =>
    simp only [TypeScope.operandsOf, Result.bind_eq_ok_iff, Result.pure_eq_ok] at h
    obtain ⟨type, htype, rest, hrest, hcons⟩ := h
    cases hcons
    have hfirst : type ≠ none ↔ ∀ r t, e = .ref r → c.resolve r ≠ .ok (.enum t) := by
      constructor
      · rintro hsome r t rfl hr
        rw [TypeScope.typeOf, TypeScope.checkRef, hr] at htype
        cases htype
        exact hsome rfl
      · rintro hnoEnum rfl
        obtain ⟨r, t, he, hr⟩ := TypeScope.typeOf_eq_none htype
        exact hnoEnum r t he hr
    rw [Operand.allTyped_cons, hfirst, ih hrest]
    simp only [List.mem_cons]
    constructor
    · rintro ⟨he, hes⟩ r t (hr | hr)
      · exact he r t hr.symm
      · exact hes r t hr
    · exact fun hall => ⟨fun r t hr => hall r t (.inl hr.symm), fun r t hr => hall r t (.inr hr)⟩

/-- A checked expression that has a type. -/
theorem Ready.settles_value (h : g.Ready S c) {path : Path} {e : Expr}
    (hnodes : S.Describes c (e.outline path).nodes)
    (htype : ∃ type, c.typeOf e = .ok type ∧ type ≠ none) :
    (Pass.ofResult (g.exprCode path e) : Pass σ String).Settles
      (c.HaveCode (e.outline path).nodes) := by
  obtain ⟨type, htype, hsome⟩ := htype
  refine (Pass.settles_ofResult (h.exprCode e path type hnodes htype)).congr ?_
  simp [hsome]

/-- The name of a variable. -/
theorem Ready.settles_target (h : g.Ready S c) {path : Path} {r : Ref}
    (hnodes : S.Describes c (r.outline path).nodes)
    (hvar : ∃ d, c.resolve r = .ok d ∧ ∀ t, d ≠ .enum t) :
    (Pass.ofResult (g.refCode path r) : Pass σ String).Settles True := by
  obtain ⟨d, hd, hname⟩ := hvar
  exact (Pass.settles_ofResult (h.refCode hnodes hd)).congr (by simp [hname])

/-- A checked statement can be rendered exactly if all nodes in it have a text. -/
theorem Ready.settles_stmt (h : g.Ready S c) (hengine : engine.Answers) (s : Stmt) :
    ∀ path, S.Describes c (s.outline path).nodes → c.checkStmt func s = .ok () →
      (g.stmt engine path s).Settles (c.HaveCode (s.outline path).nodes) := by
  induction s using Stmt.induction with
  | pass p =>
    intro path hnodes hcheck
    rw [stmt]
    exact (settles_ask hengine _).congr (by simp [Stmt.outline, Node.HasCode])
  | assign p target value declared =>
    intro path hnodes hcheck
    obtain ⟨-, htarget, hvalue⟩ := TypeScope.checkStmt_assign hcheck
    rw [Stmt.outline] at hnodes ⊢
    have hchildren := hnodes.children
    simp only [Outline.nodesAll_append, Outline.nodesAll_cons] at hchildren
    rw [stmt]
    refine ((h.settles_target hchildren.right.left htarget).bind fun _ =>
      (h.settles_value hchildren.right.right.left hvalue).then fun _ =>
        settles_ask hengine _).congr ?_
    cases declared <;> simp [Variable.outline, Node.HasCode]
  | update p target op value =>
    intro path hnodes hcheck
    obtain ⟨htarget, hvalue⟩ := TypeScope.checkStmt_update hcheck
    rw [Stmt.outline] at hnodes ⊢
    have hchildren := hnodes.children
    simp only [Outline.nodesAll_cons] at hchildren
    rw [stmt]
    refine ((h.settles_target hchildren.left htarget).bind fun _ =>
      (h.settles_value hchildren.right.left hvalue).then fun _ => settles_ask hengine _).congr ?_
    simp [Node.HasCode]
  | print p args =>
    intro path hnodes hcheck
    obtain ⟨operands, hoperands⟩ := TypeScope.checkStmt_print hcheck
    rw [Stmt.outline] at hnodes ⊢
    have hargs := exprCodes_settles (fun e _ => h.exprCode e) 0 hnodes.children hoperands
    rw [stmt]
    refine ((Pass.settles_ofResult hargs).then fun _ => settles_ask hengine _).congr ?_
    -- Nothing has asked for the types of the arguments yet; what is left is the condition itself.
    rw [allTyped_iff hoperands, Outline.nodes_mk, TypeScope.haveCode_cons]
    rfl
  | ret p value =>
    intro path hnodes hcheck
    rw [Stmt.outline] at hnodes ⊢
    have hchildren := hnodes.children
    cases value with
    | none =>
      rw [stmt]
      exact (settles_ask hengine _).congr (by simp [Node.HasCode])
    | some e =>
      simp only [Option.map_some, Option.toList_some, Outline.nodesAll_cons] at hchildren
      rw [stmt]
      refine ((h.settles_value hchildren.left (TypeScope.checkStmt_ret hcheck)).then fun _ =>
        settles_ask hengine _).congr ?_
      simp [Node.HasCode]
  | cond p condition block elifs otherwise ihb ihelifs ihelse =>
    intro path hnodes hcheck
    obtain ⟨hcondition, hblock, helifs, helse⟩ := TypeScope.checkStmt_cond hcheck
    have hbranch : ∀ b : Block, (∀ s ∈ b.stmts, ∀ path, S.Describes c (s.outline path).nodes →
        c.checkStmt func s = .ok () →
        (g.stmt engine path s).Settles (c.HaveCode (s.outline path).nodes)) →
        c.checkBlock func b = .ok () → ∀ path, S.Describes c (b.outline path).nodes →
        (g.block engine path b).Settles (c.HaveCode (b.outline path).nodes) := by
      intro b ih hb path
      exact settles_block fun s hs path hs' =>
        ih s hs path hs' (TypeScope.checkBlock_eq_ok_iff.mp hb s hs)
    have helif : ∀ e ∈ elifs, ∀ path, S.Describes c (e.outline path).nodes →
        (g.elif engine path e).Settles (c.HaveCode (e.outline path).nodes) := by
      intro e he path hnodes
      have ih := ihelifs e he
      obtain ⟨htype, hb⟩ := TypeScope.checkElif_eq_ok (helifs e he)
      obtain ⟨p, condition, b⟩ := e
      rw [Elif.outline] at hnodes ⊢
      have hchildren := hnodes.children
      simp only [Outline.nodesAll_cons] at hchildren
      rw [elif]
      refine ((h.settles_value hchildren.left htype).bind fun _ =>
        (hbranch b ih hb _ hchildren.right.left).then fun _ => settles_ask hengine _).congr ?_
      simp [Node.HasCode]
    cases otherwise with
    | none =>
      rw [Stmt.outline] at hnodes ⊢
      have hchildren := hnodes.children
      simp only [Outline.nodesAll_cons] at hchildren
      rw [stmt]
      refine ((h.settles_value hchildren.left hcondition).bind fun _ =>
        (hbranch block ihb hblock _ hchildren.right.left).bind fun _ =>
          (settles_elifs helif 0 hchildren.right.right).then fun _ =>
            settles_ask hengine _).congr ?_
      simp [Node.HasCode]
    | some e =>
      have ih := ihelse e rfl
      have hb := helse e rfl
      obtain ⟨p', b⟩ := e
      rw [Stmt.outline, Else.outline] at hnodes ⊢
      have hchildren := hnodes.children
      simp only [Outline.nodesAll_cons, Outline.nodesAll_append] at hchildren
      have hotherwise := hchildren.right.right.right.left.children
      rw [Outline.nodesAll_cons] at hotherwise
      rw [stmt, elseSection]
      refine ((h.settles_value hchildren.left hcondition).bind fun _ =>
        (hbranch block ihb hblock _ hchildren.right.left).bind fun _ =>
          (settles_elifs helif 0 hchildren.right.right.left).bind fun _ =>
            ((hbranch b ih hb _ hotherwise.left).then fun _ => settles_ask hengine _).then fun _ =>
              settles_ask hengine _).congr ?_
      simp [Node.HasCode]

theorem Ready.variableSlot (h : g.Ready S c) {v : Variable} (hv : c.checkVariable v = .ok ()) :
    ∃ slot, g.variableSlot v = .ok slot := by
  obtain ⟨code, hcode⟩ := h.types v.type (TypeScope.checkTypeRef_eq_ok_iff.mp hv)
  exact ⟨_, by rw [Generator.variableSlot, hcode]; rfl⟩

theorem Ready.prototype (h : g.Ready S c) {f : Func} (hf : c.checkFunc f = .ok ()) :
    ∃ prototype, g.prototype f = .ok prototype := by
  obtain ⟨⟨⟩, hparams, hf⟩ := Result.bind_eq_ok_iff.mp hf
  obtain ⟨⟨⟩, hreturn, -⟩ := Result.bind_eq_ok_iff.mp hf
  obtain ⟨slots, hslots⟩ : ∃ slots, f.params.mapM g.paramSlot = .ok slots := by
    refine Result.mapM_ok fun v hv => ?_
    have hcheck := Result.forM_eq_ok_iff.mp hparams v hv
    obtain ⟨code, hcode⟩ := h.types v.type (TypeScope.checkTypeRef_eq_ok_iff.mp hcheck)
    exact ⟨_, by rw [paramSlot, hcode]; rfl⟩
  rw [Generator.prototype, hslots, Result.ok_bind]
  cases htype : f.returnType with
  | none => exact ⟨_, rfl⟩
  | some type =>
    rw [htype] at hreturn
    obtain ⟨code, hcode⟩ := h.types type (TypeScope.checkTypeRef_eq_ok_iff.mp hreturn)
    exact ⟨_, by simp only [hcode]; rfl⟩

theorem haveCode_params (path : Path) (i : Nat) (vs : List Variable) :
    c.HaveCode (Outline.nodesAll
      (Outline.numbered .param (Variable.outline .param) path i vs)) := by
  induction vs generalizing i with
  | nil => simp [Outline.numbered]
  | cons v vs ih => simp [Outline.numbered, Variable.outline, Node.HasCode, ih]

/-- A checked function whose local variables are written down. -/
theorem Ready.settles_func (h : g.Ready S c) (hengine : engine.Answers) {path : Path} {f : Func}
    (hnodes : S.Describes c (f.outline path).nodes) (hcheck : c.checkFunc f = .ok ())
    (hlocals : g.notes.readFuncLocals path = .ok f.body.locals) :
    (g.func engine path f).Settles (c.HaveCode (f.outline path).nodes) := by
  obtain ⟨prototype, hprototype⟩ := h.prototype hcheck
  obtain ⟨⟨⟩, -, hcheck⟩ := Result.bind_eq_ok_iff.mp hcheck
  obtain ⟨⟨⟩, -, hbody⟩ := Result.bind_eq_ok_iff.mp hcheck
  have hstmts := TypeScope.checkBlock_eq_ok_iff.mp hbody
  obtain ⟨slots, hslots⟩ : ∃ slots, f.body.locals.mapM g.variableSlot = .ok slots := by
    have hvars := TypeScope.checkBlock_locals (fun s _ => TypeScope.checkStmt_locals s) hbody
    exact Result.mapM_ok fun v hv => h.variableSlot (hvars v hv)
  rw [Func.outline] at hnodes ⊢
  have hchildren := hnodes.children
  simp only [Outline.nodesAll_append, Outline.nodesAll_cons] at hchildren
  have hblock : (g.block engine (.body :: path) f.body).Settles
      (c.HaveCode (f.body.outline (.body :: path)).nodes) :=
    settles_block (fun s hs path hs' => h.settles_stmt hengine s path hs' (hstmts s hs))
      hchildren.right.left
  rw [Generator.func, hprototype, Pass.ofResult_ok_bind, hlocals, Pass.ofResult_ok_bind, hslots,
    Pass.ofResult_ok_bind]
  refine (hblock.then fun _ => settles_ask hengine _).congr ?_
  cases f.returnType <;> simp [haveCode_params, Node.HasCode]

end Generator

namespace Lattice

/-- Every standard type has a spelling in the target language. -/
theorem primitiveType?_of_standard {name : String} (h : standard.contains name = true) :
    ∃ code, Target.primitiveType? name = some code := by
  have hall : ∀ n ∈ standard.names, (Target.primitiveType? n).isSome = true := by decide
  exact Option.isSome_iff_exists.mp (hall name (by simpa [contains] using h))

end Lattice

namespace Source

variable {s : Source} {notes : Annotations} {engine : Renderer σ}

/-- The generator of an accepted program. -/
def generator (s : Source) (notes : Annotations) : Generator :=
  ⟨notes, s.walked.scopes, s.enumNames⟩

theorem isBuiltin_declarations {d : Declaration} (hd : d ∈ s.declarations) :
    d.isBuiltin = false := by
  rw [declarations, ← inFrame_root_sitesFrom] at hd
  obtain ⟨site, hsite, rfl⟩ := List.mem_map.mp hd
  obtain ⟨p, hp⟩ := exists_position (List.mem_of_mem_filter hsite)
  simp [Declaration.isBuiltin, hp]

/-- A program declares no built-ins. -/
theorem mem_builtins {item : Item} {d : Declaration} (hd : d ∈ s.inScope item)
    (hbuiltin : d.isBuiltin = true) : d ∈ Declaration.builtins := by
  rcases List.mem_append.mp hd with hown | houter
  · cases item with
    | func f =>
      rcases List.mem_append.mp hown with hparam | hlocal
      · obtain ⟨v, -, rfl⟩ := List.mem_map.mp hparam
        cases hbuiltin
      · obtain ⟨v, -, rfl⟩ := List.mem_map.mp hlocal
        cases hbuiltin
    | _ => simp [Item.ownDeclarations] at hown
  · rcases List.mem_append.mp houter with hd | hd
    · exact hd
    · rw [isBuiltin_declarations hd] at hbuiltin
      cases hbuiltin

theorem Accepted.ready (h : s.Accepted notes) (item : Item) :
    (s.generator notes).Ready s.setting (s.typeScope item) := by
  refine ⟨rfl, h.sound, ?_, ?_⟩
  · intro d hd hbuiltin
    have hall : ∀ d ∈ Declaration.builtins, (Target.nativeName? d.name).isSome = true := by decide
    obtain ⟨code, hcode⟩ := Option.isSome_iff_exists.mp (hall d (mem_builtins hd hbuiltin))
    exact ⟨code, by rw [Generator.nativeCode, hcode]⟩
  · intro t ht
    rw [Generator.typeCode]
    cases hcode : Target.primitiveType? t.name with
    | some code => exact ⟨code, rfl⟩
    | none =>
      have hmem : t.name ∈ s.enumNames := by
        rcases (Lattice.contains_foldl_addType _ _ _).mp ht with hname | hname
        · exact hname
        · obtain ⟨code, hsome⟩ := Lattice.primitiveType?_of_standard hname
          cases hcode.symm.trans hsome
      exact ⟨_, if_pos (by simpa [generator] using hmem)⟩

/-- A name is resolved as the scope of its item says. -/
theorem Accepted.resolve_eq (h : s.Accepted notes) {i : Nat} {item : Item}
    (hi : s.items[i]? = some item) {path : Path} {r : Ref}
    (hr : (path, .ref r) ∈ (item.outline [.item i]).nodes) :
    notes.resolve s.walked.scopes path r = (s.typeScope item).resolve r :=
  Setting.resolve_of_mem h.sound (s.describes_item hi) hr

theorem haveCode_constants (c : TypeScope) (path : Path) (i : Nat) (cs : List EnumConstant) :
    c.HaveCode (Outline.nodesAll
      (Outline.numbered .constant (fun p k => Outline.leaf p (.constant k)) path i cs)) := by
  induction cs generalizing i with
  | nil => simp [Outline.numbered]
  | cons k cs ih => simp [Outline.numbered, Node.HasCode, ih]

/-- The items of an accepted program, from number `i` on. -/
theorem Accepted.settles_items (h : s.Accepted notes) (hengine : engine.Answers)
    (items : List Item) (i : Nat) (done : Generator.Sections)
    (hitems : ∀ x ∈ items.zipIdx i, s.items[x.2]? = some x.1) :
    ((s.generator notes).items engine i done items).Settles
      (∀ x ∈ items.zipIdx i, (s.typeScope x.1).HaveCode (x.1.outline [.item x.2]).nodes) := by
  induction items generalizing i done with
  | nil =>
    rw [Generator.items]
    exact Pass.settles_pure (by simp) done
  | cons item items ih =>
    rw [List.zipIdx_cons, List.forall_mem_cons] at hitems ⊢
    obtain ⟨hi, hrest⟩ := hitems
    have hready := h.ready item
    have hcheck := h.checkItem (List.mem_of_getElem? hi)
    cases item with
    | globalVar v =>
      obtain ⟨slot, hslot⟩ := hready.variableSlot hcheck
      rw [Generator.items, hslot, Pass.ofResult_ok_bind]
      refine (ih (i + 1) _ hrest).congr ?_
      simp [Item.outline, Variable.outline, Node.HasCode]
    | enum d =>
      rw [Generator.items, Generator.enumDecl]
      refine ((Generator.settles_ask hengine _).bind fun _ => ih (i + 1) _ hrest).congr ?_
      simp [Item.outline, EnumDecl.outline, Node.HasCode, haveCode_constants]
    | func f =>
      rw [Generator.items]
      refine Pass.Settles.bind ?_ fun _ => ih (i + 1) _ hrest
      exact hready.settles_func hengine (s.describes_item hi) hcheck
        (h.funcLocals ([.item i], f) (mem_functions_iff.mpr ⟨i, hi, rfl⟩))
    | stmt st =>
      rw [Generator.items]
      refine Pass.Settles.bind ?_ fun _ => ih (i + 1) _ hrest
      exact hready.settles_stmt hengine st _ (s.describes_item hi) hcheck

theorem Accepted.checkVariable (h : s.Accepted notes) {v : Variable} (hv : v ∈ s.locals) :
    ∃ item, (s.typeScope item).checkVariable v = .ok () := by
  obtain ⟨item, hitem, hv⟩ := List.mem_flatMap.mp hv
  have hcheck := h.checkItem hitem
  cases item with
  | stmt st => exact ⟨.stmt st, TypeScope.checkStmt_locals st hcheck v hv⟩
  | _ => simp at hv

theorem Accepted.ofAnnotations (h : s.Accepted notes) :
    Generator.ofAnnotations notes = .ok (s.generator notes) := by
  rw [Generator.ofAnnotations, h.scopes, Result.ok_bind, frame_root_walked, Result.ok_bind,
    enumNames_root]
  rfl

/-- An accepted program can be generated exactly if all its nodes have a text. -/
theorem Accepted.settles_generate (h : s.Accepted notes) (hengine : engine.Answers)
    (name : String) :
    (s.generate notes engine name).Settles (∀ i item, s.items[i]? = some item →
      (s.typeScope item).HaveCode (item.outline [.item i]).nodes) := by
  obtain ⟨prototypes, hprototypes⟩ : ∃ prototypes,
      (s.functions.mapM fun x => (s.generator notes).prototype x.2) = .ok prototypes := by
    refine Result.mapM_ok fun x hx => ?_
    obtain ⟨i, hi, -⟩ := mem_functions_iff.mp hx
    exact (h.ready (.func x.2)).prototype (h.checkItem (List.mem_of_getElem? hi))
  obtain ⟨slots, hslots⟩ : ∃ slots,
      s.locals.mapM (s.generator notes).variableSlot = .ok slots := by
    refine Result.mapM_ok fun v hv => ?_
    obtain ⟨item, hcheck⟩ := h.checkVariable hv
    exact (h.ready item).variableSlot hcheck
  have hlocals : (s.generator notes).notes.readProgramLocals = .ok s.locals := h.programLocals
  have hitems := h.settles_items hengine s.items 0 {} fun x hx =>
    List.mem_zipIdx_iff_getElem?.mp hx
  rw [generate, h.ofAnnotations, Pass.ofResult_ok_bind, Generator.project, Generator.program]
  change ((Pass.ofResult (s.functions.mapM fun x => (s.generator notes).prototype x.2) >>= _) >>=
    _).Settles _
  rw [hprototypes, Pass.ofResult_ok_bind, hlocals]
  simp only [Pass.ofResult_ok_bind, hslots]
  refine ((hitems.then fun _ => Generator.settles_ask hengine _).then fun _ =>
    (Generator.settles_ask hengine _).then fun _ => Pass.settles_pure trivial _).congr ?_
  constructor
  · exact fun hall i item hi => hall (item, i) (List.mem_zipIdx_iff_getElem?.mpr hi)
  · exact fun hall x hx => hall x.2 x.1 (List.mem_zipIdx_iff_getElem?.mp hx)

/-- An accepted program can be generated exactly if it prints no name of an enumeration and takes
schema-less values from built-in constants only. -/
theorem accepted_generates_iff (source : Source) (session : Session) (name : String)
    (h : Session.apply source {} = .ok () session) :
    (∃ project log, source.generate session.notes RequestLog.renderer name [] = .ok project log) ↔
      ∀ i item, source.items[i]? = some item → ∀ path node,
        (path, node) ∈ (item.outline [.item i]).nodes →
        (∀ p args r t, node = .stmt (.print p args) → .ref r ∈ args →
          (source.typeScope item).resolve r ≠ .ok (.enum t)) ∧
        (∀ p root indices target, node = .expr (.json p root indices target) →
          ∃ k, (source.typeScope item).resolve root = .ok (.builtinConst k)) := by
  have hsettles := (accepted_of_apply h).settles_generate RequestLog.answers name
  simp only [← Node.hasCode_iff]
  constructor
  · rintro ⟨project, log, hrun⟩
    by_contra hcode
    obtain ⟨d, log', hdefect⟩ := hsettles.defect (fun hall => hcode fun i item hi path node hmem =>
      hall i item hi (path, node) hmem) []
    cases hrun.symm.trans hdefect
  · intro hcode
    exact hsettles.ok (fun i item hi x hx => hcode i item hi x.1 x.2 hx) []

/-- The name of an enumeration can be printed as far as the type check goes. -/
theorem accepted_generates_iff_printed_enum :
    let line (n : UInt32) : Position := ⟨"main", n, 1⟩
    let cell : EnumDecl := ⟨line 1, "Cell", [⟨line 1, "Dead", "Cell"⟩]⟩
    let print : Stmt := .print (line 2) [.ref ⟨line 2, "Cell"⟩]
    let source : Source := ⟨line 1, [.enum cell, .stmt print]⟩
    ∃ session, Session.apply source {} = .ok () session ∧
      ¬ ∃ project log,
        source.generate session.notes RequestLog.renderer "main" [] = .ok project log := by
  intro line cell print source
  have hanswer : (Session.apply source).answer {} = .ok () := by decide +kernel
  obtain ⟨session, hsession⟩ := Pass.answer_eq_ok_iff.mp hanswer
  refine ⟨session, hsession, fun hok => ?_⟩
  have hall := (source.accepted_generates_iff session "main" hsession).mp hok
  have hresolve : (source.typeScope (.stmt print)).resolve ⟨line 2, "Cell"⟩ =
      .ok (.enum ⟨line 1, "Cell"⟩) := by decide +kernel
  exact (hall 1 (.stmt print) rfl [.item 1] (.stmt print)
    (by simp [Item.outline, print, Stmt.outline])).1 _ _ _ _ rfl (by simp) hresolve

end Source

end SimCompiler
