import SimCompiler.Emit.Generator
import SimCompiler.Proofs.TypingRefinement

/-!
# The text of checked expressions

An expression that the type check lets through has a target text, with two exceptions. The name of
an enumeration has none, and neither has an index into something of type `json` that is not a
built-in constant. The names and types that the text is made of were looked up by the check, so no
other look-up can fail.
-/
namespace SimCompiler

namespace Operand

theorem value_eq_ok_iff {o : Operand} {t : String} : o.value = .ok t ↔ o.type = some t := by
  rw [value]
  cases o.type <;> simp [Result.defect]

theorem value_of_none {o : Operand} (h : o.type = none) :
    o.value = Result.defect (.enumAsValue "declaration") := by
  rw [value, h]

/-- No operand is the name of an enumeration. -/
def AllTyped (operands : List Operand) : Prop := ∀ o ∈ operands, o.type ≠ none

@[simp] theorem allTyped_nil : AllTyped [] := by simp [AllTyped]

@[simp] theorem allTyped_cons (o : Operand) (os : List Operand) :
    AllTyped (o :: os) ↔ o.type ≠ none ∧ AllTyped os := by
  simp [AllTyped]

end Operand

/-- The node has a target text of its own, once its children have theirs: the name of an enumeration
cannot be printed, and of the schema-less values only built-in constants have a text. -/
def Node.HasCode (c : TypeScope) : Node → Prop
  | .stmt (.print _ args) => ∀ r t, .ref r ∈ args → c.resolve r ≠ .ok (.enum t)
  | .expr (.json _ root _ _) => ∃ k, c.resolve root = .ok (.builtinConst k)
  | _ => True

theorem Node.hasCode_iff {c : TypeScope} {node : Node} : node.HasCode c ↔
    (∀ p args r t, node = .stmt (.print p args) → .ref r ∈ args → c.resolve r ≠ .ok (.enum t)) ∧
    (∀ p root indices target, node = .expr (.json p root indices target) →
      ∃ k, c.resolve root = .ok (.builtinConst k)) := by
  constructor
  · intro h
    constructor
    · rintro p args r t rfl
      exact h r t
    · rintro p root indices target rfl
      exact h
  · rintro ⟨hprint, hjson⟩
    cases node with
    | stmt s =>
      cases s with
      | print p args => exact fun r t => hprint p args r t rfl
      | _ => trivial
    | expr e =>
      cases e with
      | json p root indices target => exact hjson p root indices target rfl
      | _ => trivial
    | _ => trivial

namespace TypeScope

variable (c : TypeScope)

def HaveCode (nodes : List (Path × Node)) : Prop := ∀ x ∈ nodes, x.2.HasCode c

variable {c}

@[simp] theorem haveCode_nil : c.HaveCode [] := by simp [HaveCode]

@[simp] theorem haveCode_cons (path : Path) (node : Node) (nodes : List (Path × Node)) :
    c.HaveCode ((path, node) :: nodes) ↔ node.HasCode c ∧ c.HaveCode nodes := by
  simp [HaveCode]

@[simp] theorem haveCode_append (xs ys : List (Path × Node)) :
    c.HaveCode (xs ++ ys) ↔ c.HaveCode xs ∧ c.HaveCode ys := by
  simp only [HaveCode, List.mem_append, or_imp, forall_and]

@[simp] theorem haveCode_ref (path : Path) (r : Ref) : c.HaveCode (r.outline path).nodes := by
  simp [Ref.outline, Node.HasCode]

@[simp] theorem haveCode_typeRef (path : Path) (t : TypeRef) :
    c.HaveCode (t.outline path).nodes := by
  simp [TypeRef.outline, Node.HasCode]

theorem checkTypeRef_eq_ok_iff {t : TypeRef} :
    c.checkTypeRef t = .ok () ↔ c.lattice.contains t.name = true := by
  rw [checkTypeRef, Result.orPosition_eq_ok_iff, Lattice.checkTypeRef]
  split <;> simp_all [Result.fault]

theorem typeOf_unary {p : Position} {op : String} {e : Expr} {type : Option String}
    (h : c.typeOf (.unary p op e) = .ok type) :
    ∃ t, c.typeOf e = .ok (some t) ∧ type ≠ none := by
  simp only [typeOf, Result.bind_eq_ok_iff, Result.orPosition_eq_ok_iff, Result.pure_eq_ok,
    Operand.value_eq_ok_iff] at h
  obtain ⟨_, he, t, rfl, u, -, hu⟩ := h
  cases hu
  exact ⟨t, he, by simp⟩

theorem typeOf_binary {p : Position} {op : String} {l r : Expr} {type : Option String}
    (h : c.typeOf (.binary p l op r) = .ok type) :
    ∃ t u, c.typeOf l = .ok (some t) ∧ c.typeOf r = .ok (some u) ∧ type ≠ none := by
  simp only [typeOf, Result.bind_eq_ok_iff, Result.orPosition_eq_ok_iff, Result.pure_eq_ok,
    Operand.value_eq_ok_iff] at h
  obtain ⟨_, hl, _, hr, t, rfl, u, rfl, v, -, hv⟩ := h
  cases hv
  exact ⟨t, u, hl, hr, by simp⟩

/-- Every argument that was compared with a parameter has a type. -/
theorem argsRule_typed {d : Declaration} {i : Nat} {params : List String} {args : List Operand}
    (h : c.argsRule d i params args = .ok ()) (hlength : params.length = args.length) :
    Operand.AllTyped args := by
  induction args generalizing i params with
  | nil => exact Operand.allTyped_nil
  | cons arg args ih =>
    cases params with
    | nil => simp at hlength
    | cons param params =>
      simp only [argsRule, argRule, Result.bind_eq_ok_iff, Operand.value_eq_ok_iff] at h
      obtain ⟨-, ⟨t, ht, -⟩, hrest⟩ := h
      rw [Operand.allTyped_cons]
      exact ⟨by simp [ht], ih hrest (by simpa using hlength)⟩

theorem typeOf_call {p : Position} {callee : Ref} {args : List Expr} {type : Option String}
    (h : c.typeOf (.call p callee args) = .ok type) :
    ∃ d operands, c.resolve callee = .ok d ∧ d.callable? ≠ none ∧
      c.operandsOf args = .ok operands ∧ Operand.AllTyped operands ∧ type ≠ none := by
  simp only [typeOf, checkRef, Result.bind_eq_ok_iff, Result.orPosition_eq_ok_iff,
    Result.pure_eq_ok] at h
  obtain ⟨d, hd, operands, hoperands, t, hcall, ht⟩ := h
  cases ht
  rw [callRule, hd, Result.ok_bind] at hcall
  cases hcallable : d.callable? with
  | none => simp [hcallable, Result.fault] at hcall
  | some signature =>
    obtain ⟨params, result⟩ := signature
    simp only [hcallable] at hcall
    by_cases hlength : params.length = operands.length
    · rw [if_neg (not_not_intro hlength)] at hcall
      obtain ⟨⟨⟩, hargs, -⟩ := Result.bind_eq_ok_iff.mp hcall
      exact ⟨d, operands, hd, by simp [hcallable], hoperands, argsRule_typed hargs hlength, by simp⟩
    · rw [if_pos hlength] at hcall
      simp [Result.fault] at hcall

theorem typeOf_json {p : Position} {root : Ref} {indices : List Expr} {target : TypeRef}
    {type : Option String} (h : c.typeOf (.json p root indices target) = .ok type) :
    ∃ d operands, c.resolve root = .ok d ∧ c.operandsOf indices = .ok operands ∧
      Operand.AllTyped operands ∧ c.lattice.contains target.name = true ∧ type ≠ none := by
  simp only [typeOf, checkRef, Result.bind_eq_ok_iff, Result.orPosition_eq_ok_iff,
    Result.pure_eq_ok] at h
  obtain ⟨d, hd, operands, hoperands, ⟨⟩, htarget, ⟨⟩, hrule, htype⟩ := h
  cases htype
  refine ⟨d, operands, hd, hoperands, ?_, checkTypeRef_eq_ok_iff.mp htarget, by simp⟩
  rw [jsonRule, hd, Result.ok_bind, Result.bind_eq_ok_iff] at hrule
  obtain ⟨rootType, -, hrule⟩ := hrule
  by_cases hjson : rootType = TypeName.json
  swap
  · rw [if_pos hjson] at hrule
    simp [Result.fault] at hrule
  rw [if_neg (not_not_intro hjson)] at hrule
  intro o ho
  have hindex := Result.forM_eq_ok_iff.mp hrule o ho
  simp only [indexRule, Result.bind_eq_ok_iff, Operand.value_eq_ok_iff] at hindex
  obtain ⟨t, ht, -⟩ := hindex
  simp [ht]

end TypeScope

namespace Generator

/-- The generator knows the names and types that `c` knows, and a spelling for each of them. -/
structure Ready (g : Generator) (S : Setting) (c : TypeScope) : Prop where
  scopes : g.scopes = S.cx.scopes
  sound : S.Sound g.notes
  natives : ∀ d ∈ c.inScope, d.isBuiltin = true → ∃ code, nativeCode d = .ok code
  types : ∀ t : TypeRef, c.lattice.contains t.name = true → ∃ code, g.typeCode t = .ok code

variable {g : Generator} {S : Setting} {c : TypeScope}

theorem exprCodes_settles {path : Path} {es : List Expr}
    (ih : ∀ e ∈ es, ∀ path type, S.Describes c (e.outline path).nodes → c.typeOf e = .ok type →
      Result.Settles (type ≠ none ∧ c.HaveCode (e.outline path).nodes) (g.exprCode path e))
    (i : Nat) {operands : List Operand}
    (hnodes : S.Describes c (Outline.nodesAll (Expr.outlines path i es)))
    (hoperands : c.operandsOf es = .ok operands) :
    Result.Settles (Operand.AllTyped operands ∧
      c.HaveCode (Outline.nodesAll (Expr.outlines path i es))) (g.exprCodes path i es) := by
  induction es generalizing i operands with
  | nil =>
    rw [TypeScope.operandsOf] at hoperands
    cases hoperands
    rw [Generator.exprCodes]
    exact Result.settles_ok (by simp [Expr.outlines]) _
  | cons e es ihes =>
    simp only [TypeScope.operandsOf, Result.bind_eq_ok_iff, Result.pure_eq_ok] at hoperands
    obtain ⟨type, htype, rest, hrest, hcons⟩ := hoperands
    cases hcons
    rw [Expr.outlines, Outline.nodesAll_cons] at hnodes ⊢
    have hfirst := ih e (by simp) _ type hnodes.left htype
    have htail := ihes (fun e he => ih e (by simp [he])) (i + 1) hnodes.right hrest
    rw [Generator.exprCodes]
    refine (hfirst.bind fun code _ => htail.map _).congr ?_
    rw [Operand.allTyped_cons, TypeScope.haveCode_append]
    tauto

namespace Ready

variable (h : g.Ready S c)
include h

theorem native {r : Ref} {d : Declaration} (hd : c.resolve r = .ok d)
    (hbuiltin : d.isBuiltin = true) : ∃ code, nativeCode d = .ok code :=
  h.natives d (Declaration.mem_of_resolveIn hd) hbuiltin

theorem resolve {path : Path} {r : Ref} (hnodes : S.Describes c (r.outline path).nodes) :
    g.notes.resolve g.scopes path r = c.resolve r := by
  rw [h.scopes, Setting.resolve_eq h.sound hnodes]

/-- Any name but that of an enumeration has a text. -/
theorem refCode {path : Path} {r : Ref} (hnodes : S.Describes c (r.outline path).nodes)
    {d : Declaration} (hd : c.resolve r = .ok d) :
    Result.Settles (∀ t, d ≠ .enum t) (g.refCode path r) := by
  rw [Generator.refCode, h.resolve hnodes, hd, Result.ok_bind]
  cases d with
  | builtinFunc f =>
    obtain ⟨code, hcode⟩ := h.native hd rfl
    simp only [hcode]
    exact Result.settles_ok (by simp) code
  | builtinConst k =>
    obtain ⟨code, hcode⟩ := h.native hd rfl
    simp only [hcode]
    exact Result.settles_ok (by simp) code
  | enum t => exact Result.settles_defect (by simp) _
  | _ => exact Result.settles_ok (by simp) _

theorem jsonRootCode {path : Path} {r : Ref} (hnodes : S.Describes c (r.outline path).nodes)
    {d : Declaration} (hd : c.resolve r = .ok d) :
    Result.Settles (∃ k, c.resolve r = .ok (.builtinConst k)) (g.jsonRootCode path r) := by
  rw [Generator.jsonRootCode, h.resolve hnodes, hd, Result.ok_bind]
  cases d with
  | builtinConst k =>
    obtain ⟨code, hcode⟩ := h.native hd rfl
    simp only [hcode]
    exact Result.settles_ok ⟨k, rfl⟩ code
  | _ => exact Result.settles_defect (by simp) _

/-- A checked expression has a text exactly if it has a type and all nodes in it have theirs. -/
theorem exprCode (e : Expr) : ∀ path type, S.Describes c (e.outline path).nodes →
    c.typeOf e = .ok type →
    Result.Settles (type ≠ none ∧ c.HaveCode (e.outline path).nodes) (g.exprCode path e) := by
  induction e using Expr.induction with
  | bool p b | int p n | float p x | str p s =>
    intro path type hnodes htype
    rw [TypeScope.typeOf] at htype
    cases htype
    rw [Generator.exprCode]
    exact Result.settles_ok (by simp [Expr.outline, Node.HasCode]) _
  | ref r =>
    intro path type hnodes htype
    simp only [TypeScope.typeOf, TypeScope.checkRef, Result.bind_eq_ok_iff,
      Result.orPosition_eq_ok_iff, Result.pure_eq_ok] at htype
    obtain ⟨d, hd, hvalue⟩ := htype
    cases hvalue
    rw [Expr.outline] at hnodes ⊢
    rw [Generator.exprCode]
    refine (h.refCode hnodes hd).congr ?_
    cases d <;> simp [Declaration.valueType, Except.toOption, Result.defect]
  | unary p op e ih =>
    intro path type hnodes htype
    obtain ⟨t, he, htype⟩ := TypeScope.typeOf_unary htype
    rw [Expr.outline] at hnodes ⊢
    have hchild := hnodes.children
    rw [Outline.nodesAll_cons] at hchild
    rw [Generator.exprCode]
    refine ((ih _ _ hchild.left he).map _).congr ?_
    simp [htype, Node.HasCode]
  | binary p l op r ihl ihr =>
    intro path type hnodes htype
    obtain ⟨t, u, hl, hr, htype⟩ := TypeScope.typeOf_binary htype
    rw [Expr.outline] at hnodes ⊢
    have hchildren := hnodes.children
    simp only [Outline.nodesAll_cons] at hchildren
    rw [Generator.exprCode]
    refine ((ihl _ _ hchildren.left hl).bind fun left _ =>
      (ihr _ _ hchildren.right.left hr).bind fun right _ =>
        (?_ : Result.Settles True _)).congr ?_
    · split <;> exact Result.settles_ok trivial _
    · simp [htype, Node.HasCode]
  | call p callee args ih =>
    intro path type hnodes htype
    obtain ⟨d, operands, hd, hcallable, hoperands, htyped, htype⟩ := TypeScope.typeOf_call htype
    rw [Expr.outline] at hnodes ⊢
    have hchildren := hnodes.children
    rw [Outline.nodesAll_cons] at hchildren
    -- What can be called is a function, so the name has a text.
    have hname : ∀ t, d ≠ .enum t := by
      rintro t rfl
      exact hcallable rfl
    rw [Generator.exprCode]
    refine ((exprCodes_settles ih 0 hchildren.right hoperands).bind fun codes _ =>
      (h.refCode hchildren.left hd).map _).congr ?_
    simp [htyped, htype, hname, Node.HasCode]
  | json p root indices target ih =>
    intro path type hnodes htype
    obtain ⟨d, operands, hd, hoperands, htyped, htarget, htype⟩ := TypeScope.typeOf_json htype
    rw [Expr.outline] at hnodes ⊢
    have hchildren := hnodes.children
    rw [Outline.nodesAll_append, Outline.nodesAll_cons] at hchildren
    obtain ⟨code, hcode⟩ := h.types target htarget
    rw [Generator.exprCode]
    refine ((h.jsonRootCode hchildren.left.left hd).bind fun rootCode _ =>
      (exprCodes_settles ih 0 hchildren.left.right hoperands).bind fun codes _ =>
        (?_ : Result.Settles True _)).congr ?_
    · rw [hcode]
      exact Result.settles_ok trivial _
    · simp [htyped, htype, Node.HasCode]

end Ready

end Generator

end SimCompiler
