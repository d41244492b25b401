import SimCompiler.Proofs.Constants

/-!
# Where the name of a function may stand

The type of a function is the text of its signature, and it goes through the same comparisons as
the types of values. A signature begins with a parenthesis, so it is none of the standard types and
converts to nothing but itself: whatever asks for a number or for `json` refuses a function. What
only compares two types does not. Functions of one signature can be compared with each other, and
if an enumeration has the text of a signature for a name, functions of that signature pass for its
values.
-/
namespace SimCompiler

/-- A function as a value has the text of its signature as its type. -/
theorem Declaration.valueType_of_callable? {d : Declaration} {params : List String}
    {result : Option String} (h : d.callable? = some (params, result)) :
    d.valueType = .ok (TypeName.signature params result) := by
  cases d with
  | builtinFunc f =>
    cases h
    rfl
  | func signature =>
    cases h
    rfl
  | _ => cases h

theorem TypeName.head?_signature (params : List String) (result : Option String) :
    (signature params result).toList.head? = some '(' := by
  simp [signature]

theorem OperatorClass.equality_symbols {op : String} (h : ofSymbol? op = some .equality) :
    op = "==" ∨ op = "!=" := by
  unfold ofSymbol? at h
  split at h <;> simp_all

namespace Lattice

/-- A type that is none of the standard types, nor `json`, and converts to no other type. -/
structure Foreign (l : Lattice) (type : String) : Prop where
  new : standard.contains type = false
  notJson : type ≠ TypeName.json
  alone : ∀ t, l.isConvertible type t = true → t = type

namespace Foreign

variable {l : Lattice} {type : String} (h : l.Foreign type)
include h

theorem isConvertible_standard {t : String} (ht : standard.contains t = true) :
    l.isConvertible type t = false := by
  by_contra hconvertible
  obtain rfl := h.alone t (by simpa using hconvertible)
  rw [h.new] at ht
  cases ht

theorem isConvertible_float : l.isConvertible type TypeName.float = false :=
  h.isConvertible_standard (by decide)

theorem isConvertible_int : l.isConvertible type TypeName.int = false :=
  h.isConvertible_standard (by decide)

theorem checkUnary {op t : String} : l.checkUnary op type ≠ .ok t := by
  intro hcheck
  rw [Lattice.checkUnary, h.isConvertible_float] at hcheck
  split at hcheck <;> cases hcheck

/-- No rule that expects numbers takes the type on either side. -/
theorem expectOperands {op left right target : String} (htarget : standard.contains target = true)
    (hside : left = type ∨ right = type) : l.expectOperands op left right target ≠ .ok () := by
  have hnot := h.isConvertible_standard htarget
  intro hcheck
  rw [Lattice.expectOperands] at hcheck
  obtain rfl | rfl := hside
  · rw [hnot] at hcheck
    cases hcheck
  · rw [hnot] at hcheck
    split at hcheck <;> cases hcheck

/-- Only a test for equality takes the type, and then on both sides. -/
theorem checkBinary {op left right t : String} (hside : left = type ∨ right = type)
    (hcheck : l.checkBinary op left right = .ok t) :
    OperatorClass.ofSymbol? op = some .equality ∧ left = right := by
  have hfloat : l.expectOperands op left right TypeName.float ≠ .ok () :=
    h.expectOperands (by decide) hside
  have hint : l.expectOperands op left right TypeName.int ≠ .ok () :=
    h.expectOperands (by decide) hside
  rw [Lattice.checkBinary] at hcheck
  split at hcheck
  · exact absurd (Result.seq_eq_ok_iff.mp hcheck).1 hfloat
  · next hop =>
    refine ⟨hop, ?_⟩
    by_contra hne
    rw [if_pos hne] at hcheck
    exact hfloat (Result.seq_eq_ok_iff.mp hcheck).1
  · exact absurd (Result.seq_eq_ok_iff.mp hcheck).1 hfloat
  · exact absurd (Result.seq_eq_ok_iff.mp hcheck).1 hint
  · exact absurd (Result.seq_eq_ok_iff.mp hcheck).1 hfloat
  · cases hcheck

theorem checkAssign {target : String} (hcheck : l.checkAssign target type = .ok ()) :
    target = type := by
  rw [Lattice.checkAssign] at hcheck
  split at hcheck
  · next hconvertible => exact h.alone target hconvertible
  · cases hcheck

theorem checkUpdate {op target : String} : l.checkUpdate op target type ≠ .ok () := by
  intro hcheck
  rw [Lattice.checkUpdate] at hcheck
  split at hcheck
  · exact h.expectOperands (by decide) (.inr rfl) (Result.seq_eq_ok_iff.mp hcheck).1
  · cases hcheck

theorem checkCondition : l.checkCondition type ≠ .ok () := by
  rw [Lattice.checkCondition, h.isConvertible_float]
  intro hcheck
  cases hcheck

end Foreign

end Lattice

theorem Source.foreign_signature (s : Source) (params : List String) (result : Option String) :
    s.lattice.Foreign (TypeName.signature params result) := by
  have hhead := TypeName.head?_signature params result
  have hnew : Lattice.standard.contains (TypeName.signature params result) = false := by
    have hstandard : ∀ name ∈ Lattice.standard.names, name.toList.head? ≠ some '(' := by decide
    rw [Lattice.contains, List.contains_eq_mem, decide_eq_false_iff_not]
    exact fun hmem => hstandard _ hmem hhead
  have hisolated : s.lattice.Isolated (TypeName.signature params result) := by
    rw [Lattice.isolated_iff s.closed_lattice, Source.lattice, Lattice.edges_foldl_addType,
      Lattice.standard_edges_iff, hnew]
    intro hstandard
    cases hstandard
  refine ⟨hnew, ?_, fun t => (hisolated t).1⟩
  intro hjson
  rw [hjson] at hhead
  revert hhead
  decide

namespace TypeScope

variable {c : TypeScope} {func : Option Func}

theorem typeOf_ref_eq_ok_iff {r : Ref} {type : Option String} :
    c.typeOf (.ref r) = .ok type ↔ ∃ d, c.resolve r = .ok d ∧ d.valueType.toOption = type := by
  simp only [typeOf, checkRef, Result.bind_eq_ok_iff, Result.orPosition_eq_ok_iff,
    Result.pure_eq_ok, Except.ok.injEq]

theorem typeOf_of_callable? {r : Ref} {d : Declaration} (hd : c.resolve r = .ok d)
    {params : List String} {result : Option String}
    (hcallable : d.callable? = some (params, result)) :
    c.typeOf (.ref r) = .ok (some (TypeName.signature params result)) := by
  rw [typeOf_ref_eq_ok_iff]
  exact ⟨d, hd, by rw [Declaration.valueType_of_callable? hcallable]; rfl⟩

theorem value_of_operandOf {e : Expr} {operand : Operand} (h : c.operandOf e = .ok operand)
    {type : String} (htype : c.typeOf e = .ok (some type)) : operand.value = .ok type := by
  rw [Operand.value_eq_ok_iff]
  exact Except.ok.inj ((operandOf_eq_ok h).symm.trans htype)

/-- The operands stand in the order of the expressions. -/
theorem getElem?_operandsOf {es : List Expr} {operands : List Operand}
    (h : c.operandsOf es = .ok operands) {i : Nat} {e : Expr} (he : es[i]? = some e)
    {type : Option String} (htype : c.typeOf e = .ok type) :
    operands[i]? = some ⟨e.position, type⟩ := by
  induction es generalizing operands i with
  | nil => simp at he
  | cons e' es ih =>
    simp only [operandsOf, Result.bind_eq_ok_iff, Result.pure_eq_ok] at h
    obtain ⟨type', htype', rest, hrest, hcons⟩ := h
    cases hcons
    cases i with
    | zero =>
      obtain rfl : e' = e := by simpa using he
      obtain rfl : type' = type := Except.ok.inj (htype'.symm.trans htype)
      rfl
    | succ i => exact ih hrest (by simpa using he)

/-- An argument converts to the parameter in the same place. -/
theorem argsRule_isConvertible {d : Declaration} {n : Nat} {params : List String}
    {args : List Operand} (h : c.argsRule d n params args = .ok ())
    (hlength : params.length = args.length) {i : Nat} {arg : Operand} (harg : args[i]? = some arg)
    {type : String} (htype : arg.type = some type) :
    ∃ param ∈ params, c.lattice.isConvertible type param = true := by
  induction args generalizing n params i with
  | nil => simp at harg
  | cons arg' args ih =>
    cases params with
    | nil => simp at hlength
    | cons param params =>
      simp only [argsRule, argRule, Result.bind_eq_ok_iff, Operand.value_eq_ok_iff] at h
      obtain ⟨⟨⟩, ⟨t, ht, hrule⟩, hrest⟩ := h
      cases i with
      | zero =>
        obtain rfl : arg' = arg := by simpa using harg
        obtain rfl : t = type := Option.some.inj (ht.symm.trans htype)
        refine ⟨param, by simp, ?_⟩
        by_contra hnot
        rw [if_neg hnot] at hrule
        cases hrule
      | succ i =>
        obtain ⟨param', hmem, hconvertible⟩ :=
          ih hrest (by simpa using hlength) (by simpa using harg)
        exact ⟨param', by simp [hmem], hconvertible⟩

/-- Only variables can be assigned to. -/
theorem targetType_eq_ok_iff {target : Ref} {type : TypeRef} :
    c.targetType target = .ok type ↔ ∃ d v, c.resolve target = .ok d ∧ v.type = type ∧
      (d = .localVar v ∨ d = .param v ∨ d = .globalVar v) := by
  rw [targetType, Result.bind_eq_ok_iff]
  constructor
  · rintro ⟨d, hd, htype⟩
    cases d with
    | localVar v | param v | globalVar v =>
      cases htype
      exact ⟨_, v, hd, rfl, by simp⟩
    | _ => cases htype
  · rintro ⟨d, v, hd, rfl, rfl | rfl | rfl⟩ <;> exact ⟨_, hd, rfl⟩

section Foreign

variable {type : String} (h : c.lattice.Foreign type) {e : Expr}
  (he : c.typeOf e = .ok (some type))
include h he

theorem unary_foreign {p : Position} {op : String} {t : Option String} :
    c.typeOf (.unary p op e) ≠ .ok t := by
  intro htype
  simp only [typeOf, Result.bind_eq_ok_iff, Result.orPosition_eq_ok_iff, Result.pure_eq_ok,
    Operand.value_eq_ok_iff] at htype
  obtain ⟨_, he', u, rfl, v, hcheck, -⟩ := htype
  rw [he] at he'
  cases he'
  exact h.checkUnary hcheck

omit he in
/-- If one operand has the type, so has the other. -/
theorem binary_foreign {p : Position} {op : String} {left right : Expr} {t : Option String}
    (hside : c.typeOf left = .ok (some type) ∨ c.typeOf right = .ok (some type))
    (htype : c.typeOf (.binary p left op right) = .ok t) :
    OperatorClass.ofSymbol? op = some .equality ∧ c.typeOf left = .ok (some type) ∧
      c.typeOf right = .ok (some type) := by
  simp only [typeOf, Result.bind_eq_ok_iff, Result.orPosition_eq_ok_iff, Result.pure_eq_ok,
    Operand.value_eq_ok_iff] at htype
  obtain ⟨_, hleft, _, hright, u, rfl, v, rfl, w, hcheck, -⟩ := htype
  have hside : u = type ∨ v = type := by simpa [hleft, hright] using hside
  obtain ⟨hop, rfl⟩ := h.checkBinary hside hcheck
  obtain rfl : u = type := or_self_iff.mp hside
  exact ⟨hop, hleft, hright⟩

/-- As an argument the expression needs a parameter of its own type. -/
theorem arg_foreign {p : Position} {f : Ref} {args : List Expr} {t : Option String}
    (htype : c.typeOf (.call p f args) = .ok t) {i : Nat} (hi : args[i]? = some e) :
    ∃ d params result, c.resolve f = .ok d ∧ d.callable? = some (params, result) ∧
      type ∈ params := by
  simp only [typeOf, Result.bind_eq_ok_iff, Result.orPosition_eq_ok_iff, Result.pure_eq_ok]
    at htype
  obtain ⟨-, -, operands, hoperands, _, hcall, -⟩ := htype
  have hoperand := getElem?_operandsOf hoperands hi he
  obtain ⟨d, hd, hcall⟩ := Result.bind_eq_ok_iff.mp hcall
  cases hcallable : d.callable? with
  | none => simp [hcallable, Result.fault] at hcall
  | some signature =>
    obtain ⟨params, result⟩ := signature
    simp only [hcallable] at hcall
    by_cases hlength : params.length = operands.length
    · rw [if_neg (not_not_intro hlength)] at hcall
      obtain ⟨⟨⟩, hargs, -⟩ := Result.bind_eq_ok_iff.mp hcall
      obtain ⟨param, hparam, hconvertible⟩ :=
        argsRule_isConvertible hargs hlength hoperand rfl
      obtain rfl := h.alone param hconvertible
      exact ⟨d, params, result, hd, hcallable, hparam⟩
    · rw [if_pos hlength] at hcall
      cases hcall

/-- Neither what is indexed nor an index has the type. -/
theorem json_foreign {p : Position} {root : Ref} {indices : List Expr} {target : TypeRef}
    {t : Option String} (htype : c.typeOf (.json p root indices target) = .ok t) :
    e ≠ .ref root ∧ e ∉ indices := by
  simp only [typeOf, Result.bind_eq_ok_iff, Result.orPosition_eq_ok_iff, Result.pure_eq_ok]
    at htype
  obtain ⟨-, -, operands, hoperands, -, -, ⟨⟩, hrule, -⟩ := htype
  simp only [jsonRule, Result.bind_eq_ok_iff] at hrule
  obtain ⟨d, hd, rootType, hvalue, hrule⟩ := hrule
  by_cases hjson : rootType = TypeName.json
  swap
  · rw [if_pos hjson] at hrule
    cases hrule
  rw [if_neg (not_not_intro hjson)] at hrule
  constructor
  · rintro rfl
    obtain ⟨d', hd', htype⟩ := typeOf_ref_eq_ok_iff.mp he
    obtain rfl : d = d' := Except.ok.inj (hd.symm.trans hd')
    rw [hvalue] at htype
    exact h.notJson ((Option.some.inj htype).symm.trans hjson)
  · intro hmem
    obtain ⟨i, hi⟩ := List.mem_iff_getElem?.mp hmem
    have hoperand := getElem?_operandsOf hoperands hi he
    have hindex := Result.forM_eq_ok_iff.mp hrule _ (List.mem_of_getElem? hoperand)
    simp only [indexRule, Result.bind_eq_ok_iff, Operand.value_eq_ok_iff] at hindex
    obtain ⟨u, hu, hindex⟩ := hindex
    cases hu
    have hstr : type ≠ TypeName.str := by
      rintro rfl
      exact absurd h.new (by decide)
    rw [h.isConvertible_int, if_neg (by simpa using hstr)] at hindex
    cases hindex

theorem assign_foreign {p : Position} {target : Ref} {declared : Option Variable}
    (hcheck : c.checkStmt func (.assign p target e declared) = .ok ()) :
    ∃ t, c.targetType target = .ok t ∧ t.name = type := by
  simp only [checkStmt, Result.bind_eq_ok_iff, Result.orPosition_eq_ok_iff] at hcheck
  obtain ⟨⟨⟩, -, _, -, operand, hoperand, hrule⟩ := hcheck
  obtain ⟨t, ht, hrule⟩ := Result.bind_eq_ok_iff.mp hrule
  refine ⟨t, ht, ?_⟩
  rw [value_of_operandOf hoperand he] at hrule
  split at hrule
  · cases hrule
  · exact h.checkAssign hrule

theorem update_foreign {p : Position} {target : Ref} {op : String} :
    c.checkStmt func (.update p target op e) ≠ .ok () := by
  intro hcheck
  simp only [checkStmt, Result.bind_eq_ok_iff, Result.orPosition_eq_ok_iff] at hcheck
  obtain ⟨_, -, operand, hoperand, hrule⟩ := hcheck
  obtain ⟨t, -, hrule⟩ := Result.bind_eq_ok_iff.mp hrule
  rw [value_of_operandOf hoperand he] at hrule
  split at hrule
  · cases hrule
  · exact h.checkUpdate hrule

theorem conditionRule_foreign {operand : Operand} (hoperand : c.operandOf e = .ok operand) :
    c.conditionRule operand ≠ .ok () := by
  intro hrule
  rw [conditionRule, value_of_operandOf hoperand he, Result.ok_bind,
    Result.orPosition_eq_ok_iff] at hrule
  exact h.checkCondition hrule

theorem cond_foreign {p : Position} {block : Block} {elifs : List Elif} {otherwise : Option Else} :
    c.checkStmt func (.cond p e block elifs otherwise) ≠ .ok () := by
  intro hcheck
  cases otherwise with
  | none =>
    simp only [checkStmt, Result.bind_eq_ok_iff, Result.orPosition_eq_ok_iff] at hcheck
    obtain ⟨operand, hoperand, -, -, -, -, hrule⟩ := hcheck
    exact conditionRule_foreign h he hoperand hrule
  | some last =>
    simp only [checkStmt, Result.bind_eq_ok_iff, Result.orPosition_eq_ok_iff] at hcheck
    obtain ⟨operand, hoperand, -, -, -, -, -, -, hrule⟩ := hcheck
    exact conditionRule_foreign h he hoperand hrule

theorem elif_foreign {p : Position} {block : Block} :
    c.checkElif func ⟨p, e, block⟩ ≠ .ok () := by
  intro hcheck
  simp only [checkElif, Result.bind_eq_ok_iff, Result.orPosition_eq_ok_iff] at hcheck
  obtain ⟨operand, hoperand, -, -, hrule⟩ := hcheck
  exact conditionRule_foreign h he hoperand hrule

theorem ret_foreign {p : Position} (hcheck : c.checkStmt func (.ret p (some e)) = .ok ()) :
    ∃ f t, func = some f ∧ f.returnType = some t ∧ t.name = type := by
  simp only [checkStmt, Result.bind_eq_ok_iff, Result.orPosition_eq_ok_iff] at hcheck
  obtain ⟨operand, hoperand, hrule⟩ := hcheck
  cases func with
  | none => cases hrule
  | some f =>
    cases hreturn : f.returnType with
    | none =>
      simp only [returnRule, hreturn] at hrule
      cases hrule
    | some t =>
      refine ⟨f, t, rfl, hreturn, ?_⟩
      simp only [returnRule, hreturn, value_of_operandOf hoperand he, Result.ok_bind] at hrule
      by_contra hne
      rw [if_neg fun hconvertible => hne (h.alone _ hconvertible)] at hrule
      cases hrule

end Foreign

/-- Neither an assignment nor an update writes to a function. -/
theorem target_of_checkStmt {st : Stmt} (h : c.checkStmt func st = .ok ()) {target : Ref}
    (htarget : st.target? = some target) {d : Declaration} (hd : c.resolve target = .ok d) :
    d.callable? = none := by
  have htype : ∃ type, c.targetType target = .ok type := by
    cases st with
    | assign p target' value declared =>
      cases htarget
      simp only [checkStmt, Result.bind_eq_ok_iff, Result.orPosition_eq_ok_iff] at h
      obtain ⟨_, -, _, -, operand, -, hrule⟩ := h
      obtain ⟨type, htype, -⟩ := Result.bind_eq_ok_iff.mp hrule
      exact ⟨type, htype⟩
    | update p target' op value =>
      cases htarget
      simp only [checkStmt, Result.bind_eq_ok_iff, Result.orPosition_eq_ok_iff] at h
      obtain ⟨_, -, operand, -, hrule⟩ := h
      obtain ⟨type, htype, -⟩ := Result.bind_eq_ok_iff.mp hrule
      exact ⟨type, htype⟩
    | _ => cases htarget
  obtain ⟨type, htype⟩ := htype
  obtain ⟨d', v, hd', -, hv⟩ := targetType_eq_ok_iff.mp htype
  obtain rfl : d = d' := Except.ok.inj (hd.symm.trans hd')
  obtain rfl | rfl | rfl := hv <;> rfl

/-- No direct argument of a print statement is the name of a function. -/
theorem printed_of_checkStmt {p : Position} {args : List Expr}
    (h : c.checkStmt func (.print p args) = .ok ()) {r : Ref} (hr : .ref r ∈ args)
    {d : Declaration} (hd : c.resolve r = .ok d) : d.callable? = none := by
  simp only [checkStmt, Result.bind_eq_ok_iff, Result.orPosition_eq_ok_iff] at h
  obtain ⟨-, -, hrules⟩ := h
  have hrule := Result.forM_eq_ok_iff.mp hrules _ hr
  rw [printedRule, hd, Result.ok_bind] at hrule
  by_contra hsome
  rw [if_pos (Option.isSome_iff_ne_none.mpr hsome)] at hrule
  cases hrule

end TypeScope

/-- The variables that an item declares, in whatever frame. -/
def Item.variables : Item → List Variable
  | .globalVar v => [v]
  | .enum _ => []
  | .func f => f.params ++ f.body.locals
  | .stmt s => s.locals

theorem Item.mem_variables {item : Item} {funcs : Nat} {d : Declaration}
    (hd : d ∈ item.declarations funcs) {v : Variable}
    (hv : d = .localVar v ∨ d = .param v ∨ d = .globalVar v) : v ∈ item.variables := by
  cases item with
  | globalVar w =>
    obtain rfl : d = .globalVar w := by simpa [Item.declarations] using hd
    simpa [Item.variables, eq_comm] using hv
  | enum e =>
    obtain rfl | rfl | rfl := hv <;> simp [Item.declarations] at hd
  | func f =>
    obtain rfl | rfl | rfl := hv <;> simp [Item.declarations] at hd
  | stmt st =>
    obtain ⟨w, hw, rfl⟩ := List.mem_map.mp hd
    obtain rfl : w = v := by simpa using hv
    exact hw

theorem TypeScope.checkVariable_of_mem {c : TypeScope} {item : Item}
    (h : c.checkItem item = .ok ()) {v : Variable} (hv : v ∈ item.variables) :
    c.checkVariable v = .ok () := by
  cases item with
  | globalVar w =>
    obtain rfl : v = w := by simpa [Item.variables] using hv
    exact h
  | enum d => simp [Item.variables] at hv
  | func f =>
    obtain ⟨hparams, hrest⟩ := Result.seq_eq_ok_iff.mp h
    obtain ⟨-, hbody⟩ := Result.seq_eq_ok_iff.mp hrest
    rcases List.mem_append.mp hv with hparam | hlocal
    · exact Result.forM_eq_ok_iff.mp hparams v hparam
    · exact checkBlock_locals (fun st _ => checkStmt_locals st) hbody v hlocal
  | stmt st => exact checkStmt_locals st h v hv

namespace Source

/-- Where the name of a function of type `type` may stand in a program whose expressions have the
types `typeAt`. -/
inductive FunctionPlace (s : Source) (typeAt : Path → Expr → Result String) (type : String) :
    Path → Prop
  /-- As what is called. -/
  | callee {q : Path} {p : Position} {f : Ref} {args : List Expr}
      (node : (q, .expr (.call p f args)) ∈ s.outline.nodes) :
      FunctionPlace s typeAt type (.callee :: q)
  /-- Before `==` or `!=`, if the other operand has the same type. -/
  | left {q : Path} {p : Position} {op : String} {l r : Expr}
      (node : (q, .expr (.binary p l op r)) ∈ s.outline.nodes) (equality : op = "==" ∨ op = "!=")
      (other : typeAt (.right :: q) r = .ok type) : FunctionPlace s typeAt type (.left :: q)
  | right {q : Path} {p : Position} {op : String} {l r : Expr}
      (node : (q, .expr (.binary p l op r)) ∈ s.outline.nodes) (equality : op = "==" ∨ op = "!=")
      (other : typeAt (.left :: q) l = .ok type) : FunctionPlace s typeAt type (.right :: q)
  /-- As an assigned value, if an enumeration has the name `type`. -/
  | assigned {q : Path} {p : Position} {target : Ref} {value : Expr} {declared : Option Variable}
      (node : (q, .stmt (.assign p target value declared)) ∈ s.outline.nodes)
      (enum : ∃ d, .enum d ∈ s.items ∧ d.name = type) : FunctionPlace s typeAt type (.value :: q)
  /-- As a returned value, if an enumeration has the name `type`. -/
  | returned {q : Path} {p : Position} {value : Expr}
      (node : (q, .stmt (.ret p (some value))) ∈ s.outline.nodes)
      (enum : ∃ d, .enum d ∈ s.items ∧ d.name = type) : FunctionPlace s typeAt type (.value :: q)
  /-- As an argument, if an enumeration has the name `type`. -/
  | passed {q : Path} {p : Position} {f : Ref} {args : List Expr} {i : Nat}
      (node : (q, .expr (.call p f args)) ∈ s.outline.nodes)
      (enum : ∃ d, .enum d ∈ s.items ∧ d.name = type) : FunctionPlace s typeAt type (.arg i :: q)

variable {s : Source} {notes : Annotations}

/-- A parameter of what can be called has a type of the program. -/
theorem contains_param (htyped : s.typeCheck = .ok ()) {item : Item} {d : Declaration}
    (hd : d ∈ s.inScope item) {params : List String} {result : Option String}
    (hcallable : d.callable? = some (params, result)) {param : String} (hparam : param ∈ params) :
    s.lattice.contains param = true := by
  cases d with
  | builtinFunc f =>
    have hall : ∀ d ∈ Declaration.builtins, ∀ c, d.callable? = some c →
        ∀ param ∈ c.1, param = TypeName.float := by decide
    obtain rfl := hall _ (mem_builtins hd rfl) _ hcallable param hparam
    exact s.hasStandard_lattice _ (by decide)
  | func signature =>
    obtain ⟨f, hsignature, hfunc⟩ := exists_checked_func htyped hd
    obtain ⟨hparams, -⟩ := Result.seq_eq_ok_iff.mp hfunc
    obtain rfl : (f.signature signature.id).paramTypes = params := by
      rw [hsignature] at hcallable
      exact congrArg Prod.fst (Option.some.inj hcallable)
    obtain ⟨v, hv, rfl⟩ : ∃ v ∈ f.params, v.type.name = param := by
      simpa [FuncSignature.paramTypes, Func.signature] using hparam
    exact TypeScope.checkTypeRef_eq_ok_iff.mp (Result.forM_eq_ok_iff.mp hparams v hv)
  | _ => cases hcallable

/-- A variable that is in scope has a type of the program. -/
theorem contains_variable (htyped : s.typeCheck = .ok ()) {item : Item} (hitem : item ∈ s.items)
    {d : Declaration} (hd : d ∈ s.inScope item) {v : Variable}
    (hv : d = .localVar v ∨ d = .param v ∨ d = .globalVar v) :
    s.lattice.contains v.type.name = true := by
  have hchecked : ∀ item ∈ s.items, v ∈ item.variables → s.lattice.contains v.type.name = true :=
    fun item hitem hvariable => TypeScope.checkTypeRef_eq_ok_iff.mp
      (TypeScope.checkVariable_of_mem (Result.forM_eq_ok_iff.mp htyped item hitem) hvariable)
  rcases List.mem_append.mp hd with hown | houter
  · cases item with
    | func f =>
      obtain ⟨w, hw, hd⟩ := Func.exists_variable hown
      obtain rfl : w = v := by obtain rfl | rfl := hd <;> simpa using hv
      exact hchecked _ hitem hw
    | _ => simp [Item.ownDeclarations] at hown
  rcases List.mem_append.mp houter with hbuiltin | hdeclared
  · obtain rfl | rfl | rfl := hv <;> simp [Declaration.builtins] at hbuiltin
  · obtain ⟨j, item', hj, hmem⟩ := exists_item_of_mem hdeclared
    apply hchecked item' (List.mem_of_getElem? hj)
    exact Item.mem_variables hmem hv

/-- What a function answers has a type of the program. -/
theorem contains_returnType (htyped : s.typeCheck = .ok ()) {item : Item} (hitem : item ∈ s.items)
    {f : Func} (hf : item.func? = some f) {t : TypeRef} (hreturn : f.returnType = some t) :
    s.lattice.contains t.name = true := by
  cases item with
  | func g =>
    cases hf
    have hitem := Result.forM_eq_ok_iff.mp htyped _ hitem
    obtain ⟨-, hrest⟩ := Result.seq_eq_ok_iff.mp hitem
    obtain ⟨hchecked, -⟩ := Result.seq_eq_ok_iff.mp hrest
    rw [hreturn] at hchecked
    exact TypeScope.checkTypeRef_eq_ok_iff.mp hchecked
  | _ => cases hf

namespace Accepted

variable (h : s.Accepted notes) {j : Nat} {item : Item} (hj : s.items[j]? = some item)
include h hj

theorem exists_typeOf {path : Path} {e : Expr}
    (he : (path, .expr e) ∈ (item.outline [.item j]).nodes) :
    ∃ type, (s.typeScope item).typeOf e = .ok type := by
  obtain ⟨type, htyping⟩ := h.filled.typed path e (mem_nodes_of_item hj he)
  exact ⟨type, ((s.describes_item hj).types path e he _).mp htyping⟩

theorem exprType_eq {path : Path} {e : Expr}
    (he : (path, .expr e) ∈ (item.outline [.item j]).nodes) {type : String}
    (htype : (s.typeScope item).typeOf e = .ok (some type)) :
    notes.exprType s.walked.scopes path e = .ok type := by
  have hfilled := h.filled.sub fun x hx => mem_nodes_of_item hj hx
  exact Setting.exprType_of_mem h.sound (s.describes_item hj) hfilled he htype

variable {d : Declaration} {params : List String} {result : Option String}
  (hcallable : d.callable? = some (params, result)) {r : Ref}
  (hd : (s.typeScope item).resolve r = .ok d) {q : Path} {child : Outline}
include hcallable hd

omit h hj hcallable hd in
/-- A type of the program that is the text of a signature is an enumeration. -/
theorem exists_enum (params : List String) (result : Option String)
    (hcontains : s.lattice.contains (TypeName.signature params result) = true) :
    ∃ d, .enum d ∈ s.items ∧ d.name = TypeName.signature params result := by
  rcases contains_lattice_iff.mp hcontains with henum | hstandard
  · exact henum
  · rw [(s.foreign_signature params result).new] at hstandard
    cases hstandard

theorem functionPlace_of_expr {e : Expr} (he : (q, .expr e) ∈ (item.outline [.item j]).nodes)
    (hchild : child ∈ (e.outline q).children) (hr : child.node = .ref r) :
    s.FunctionPlace (notes.exprType s.walked.scopes) (TypeName.signature params result)
      child.path := by
  have hforeign : (s.typeScope item).lattice.Foreign (TypeName.signature params result) :=
    s.foreign_signature params result
  have hfunction := TypeScope.typeOf_of_callable? hd hcallable
  have hnode := mem_nodes_of_item hj he
  obtain ⟨t, htype⟩ := h.exists_typeOf hj he
  cases e with
  | bool | int | float | str => simp [Expr.outline, Outline.leaf] at hchild
  | ref r' => simp [Expr.outline, Ref.outline, Outline.leaf] at hchild
  | unary p op operand =>
    obtain rfl : child = operand.outline (.operand :: q) := by simpa [Expr.outline] using hchild
    obtain rfl : operand = .ref r := by simpa using hr
    exact absurd htype (TypeScope.unary_foreign hforeign hfunction)
  | binary p left op right =>
    have hoperands : left.outline (.left :: q) ∈ ((Node.expr (.binary p left op right)).outline
          q).children ∧
        right.outline (.right :: q) ∈ ((Node.expr (.binary p left op right)).outline
          q).children := by
      simp [Node.outline, Expr.outline]
    have hfaithful := faithful_item item [.item j]
    have hchildren : child = left.outline (.left :: q) ∨ child = right.outline (.right :: q) := by
      simpa [Expr.outline] using hchild
    obtain rfl | rfl := hchildren
    · obtain rfl : left = .ref r := by simpa using hr
      obtain ⟨hop, -, hother⟩ := TypeScope.binary_foreign hforeign (.inl hfunction) htype
      have hmem := hfaithful.mem_nodes_child he hoperands.2
      rw [Expr.path_outline, Expr.node_outline] at hmem
      rw [Expr.path_outline]
      exact .left hnode (OperatorClass.equality_symbols hop) (h.exprType_eq hj hmem hother)
    · obtain rfl : right = .ref r := by simpa using hr
      obtain ⟨hop, hother, -⟩ := TypeScope.binary_foreign hforeign (.inr hfunction) htype
      have hmem := hfaithful.mem_nodes_child he hoperands.1
      rw [Expr.path_outline, Expr.node_outline] at hmem
      rw [Expr.path_outline]
      exact .right hnode (OperatorClass.equality_symbols hop) (h.exprType_eq hj hmem hother)
  | call p f args =>
    rw [Expr.outline, List.mem_cons, Expr.mem_outlines] at hchild
    obtain rfl | ⟨i, arg, harg, rfl⟩ := hchild
    · exact .callee hnode
    · obtain rfl : arg = .ref r := by simpa using hr
      obtain ⟨callee, params', result', hcallee, hcalled, hparam⟩ :=
        TypeScope.arg_foreign hforeign hfunction htype harg
      have hcontains :=
        contains_param h.typed (Declaration.mem_of_resolveIn hcallee) hcalled hparam
      rw [Expr.path_outline]
      exact .passed hnode (exists_enum params result hcontains)
  | json p root indices target =>
    obtain ⟨hroot, hindices⟩ := TypeScope.json_foreign hforeign hfunction htype
    rw [Expr.outline, List.mem_append, List.mem_cons, Expr.mem_outlines, List.mem_singleton]
      at hchild
    obtain (rfl | ⟨i, index, hindex, rfl⟩) | rfl := hchild
    · obtain rfl : root = r := by simpa [Ref.outline, Outline.leaf] using hr
      exact absurd rfl hroot
    · obtain rfl : index = .ref r := by simpa using hr
      exact absurd (List.mem_of_getElem? hindex) hindices
    · simp [TypeRef.outline, Outline.leaf] at hr

theorem functionPlace_of_stmt {st : Stmt} (hst : (q, .stmt st) ∈ (item.outline [.item j]).nodes)
    (hchild : child ∈ (st.outline q).children) (hr : child.node = .ref r) :
    s.FunctionPlace (notes.exprType s.walked.scopes) (TypeName.signature params result)
      child.path := by
  have hforeign : (s.typeScope item).lattice.Foreign (TypeName.signature params result) :=
    s.foreign_signature params result
  have hfunction := TypeScope.typeOf_of_callable? hd hcallable
  have hitem := List.mem_of_getElem? hj
  have hnode := mem_nodes_of_item hj hst
  have hcheck := checkStmt_of_mem h.typed hj hst
  -- Only variables are written to.
  have htarget : ∀ target, st.target? = some target → target ≠ r := by
    rintro _ htarget rfl
    rw [TypeScope.target_of_checkStmt hcheck htarget hd] at hcallable
    cases hcallable
  cases st with
  | pass p => simp [Stmt.outline, Outline.leaf] at hchild
  | assign p target value declared =>
    rw [Stmt.outline, List.mem_append, List.mem_cons, List.mem_singleton] at hchild
    obtain hdeclared | rfl | rfl := hchild
    · obtain ⟨v, -, rfl⟩ : ∃ v, declared = some v ∧
          v.outline .localVar (.declared :: q) = child := by simpa using hdeclared
      simp [Variable.outline] at hr
    · obtain rfl : target = r := by simpa [Ref.outline, Outline.leaf] using hr
      exact absurd rfl (htarget target rfl)
    · obtain rfl : value = .ref r := by simpa using hr
      obtain ⟨t, htype, hname⟩ := TypeScope.assign_foreign hforeign hfunction hcheck
      obtain ⟨d', v, hd', rfl, hv⟩ := TypeScope.targetType_eq_ok_iff.mp htype
      have hcontains := contains_variable h.typed hitem (Declaration.mem_of_resolveIn hd') hv
      rw [Expr.path_outline]
      exact .assigned hnode (exists_enum params result (hname ▸ hcontains))
  | update p target op value =>
    rw [Stmt.outline, List.mem_cons, List.mem_singleton] at hchild
    obtain rfl | rfl := hchild
    · obtain rfl : target = r := by simpa [Ref.outline, Outline.leaf] using hr
      exact absurd rfl (htarget target rfl)
    · obtain rfl : value = .ref r := by simpa using hr
      exact absurd hcheck (TypeScope.update_foreign hforeign hfunction)
  | print p args =>
    rw [Stmt.outline, Expr.mem_outlines] at hchild
    obtain ⟨i, arg, harg, rfl⟩ := hchild
    obtain rfl : arg = .ref r := by simpa using hr
    rw [TypeScope.printed_of_checkStmt hcheck (List.mem_of_getElem? harg) hd] at hcallable
    cases hcallable
  | cond p condition block elifs otherwise =>
    obtain rfl : condition = .ref r := by
      have hmem : child.node ∈ (Node.stmt (.cond p condition block elifs otherwise)).children :=
        Node.mem_children hchild
      rw [hr] at hmem
      cases otherwise <;> simpa [Node.children, eq_comm] using hmem
    exact absurd hcheck (TypeScope.cond_foreign hforeign hfunction)
  | ret p value =>
    cases value with
    | none => simp [Stmt.outline] at hchild
    | some value =>
      obtain rfl : child = value.outline (.value :: q) := by simpa [Stmt.outline] using hchild
      obtain rfl : value = .ref r := by simpa using hr
      obtain ⟨f, t, hf, hreturn, hname⟩ := TypeScope.ret_foreign hforeign hfunction hcheck
      have hcontains := contains_returnType h.typed hitem hf hreturn
      rw [Expr.path_outline]
      exact .returned hnode (exists_enum params result (hname ▸ hcontains))

omit hcallable hd in
/-- The name of a function stands in one of the places for functions. -/
theorem functionPlace (hcallable : d.callable? = some (params, result)) {path : Path}
    (hmem : (path, .ref r) ∈ (item.outline [.item j]).nodes)
    (hd : notes.resolve s.walked.scopes path r = .ok d) :
    s.FunctionPlace (notes.exprType s.walked.scopes) (TypeName.signature params result) path := by
  rw [h.resolve_eq hj hmem] at hd
  rcases (faithful_item item [.item j]).exists_parent hmem with
    hroot | ⟨q, parent, child, hparent, hchild, rfl, hr⟩
  · rw [Item.node_outline] at hroot
    cases item <;> cases hroot
  cases parent with
  | expr e => exact h.functionPlace_of_expr hj hcallable hd hparent hchild hr
  | stmt st => exact h.functionPlace_of_stmt hj hcallable hd hparent hchild hr
  | elif e =>
    obtain ⟨p, condition, block⟩ := e
    have hchecked := checked_of_mem h.typed hj hparent
    have hmem := Node.mem_children hchild
    obtain rfl : condition = .ref r := by
      rw [hr] at hmem
      simpa [Node.children, eq_comm] using hmem
    exact absurd hchecked (TypeScope.elif_foreign (s.foreign_signature params result)
      (TypeScope.typeOf_of_callable? hd hcallable))
  | source s' =>
    have hchild := Node.mem_children hchild
    rw [hr] at hchild
    obtain ⟨item', -, hitem'⟩ := List.mem_map.mp hchild
    cases item' <;> cases hitem'
  | _ =>
    have hchild := Node.mem_children hchild
    rw [hr] at hchild
    simp [Node.children] at hchild

end Accepted

/-- In an accepted program the name of a function is called or compared with something of its own
type, unless an enumeration has the text of its signature for a name: then it also passes for a
value of the enumeration and can be assigned, returned and handed over. -/
theorem apply_places_functions (source : Source) (session : Session)
    (h : Session.apply source {} = .ok () session) :
    ∃ scopes, session.notes.readScopes = .ok scopes ∧
      ∀ path r d params result, (path, .ref r) ∈ source.outline.nodes →
        session.notes.resolve scopes path r = .ok d → d.callable? = some (params, result) →
        source.FunctionPlace (session.notes.exprType scopes) (TypeName.signature params result)
          path := by
  have haccepted := accepted_of_apply h
  refine ⟨source.walked.scopes, haccepted.scopes, ?_⟩
  intro path r d params result hmem hd hcallable
  rcases mem_nodes hmem with hsource | ⟨j, item, hj, hitem⟩
  · cases hsource
  · exact haccepted.functionPlace hj hcallable hitem hd

/-- A function is assigned to a variable of an enumeration, and two functions are compared. -/
theorem apply_places_functions_as_values :
    let line (n : UInt32) : Position := ⟨"main", n, 1⟩
    let name := "(float) -> float"
    let sin (n : UInt32) : Ref := ⟨line n, "sin"⟩
    let v : Variable := ⟨line 2, "f", ⟨line 2, name, false⟩⟩
    let compared : Expr := .binary (line 3) (.ref (sin 3)) "==" (.ref ⟨line 3, "cos"⟩)
    let source : Source := ⟨line 1, [.enum ⟨line 1, name, [⟨line 1, "Any", name⟩]⟩,
      .stmt (.assign (line 2) ⟨line 2, "f"⟩ (.ref (sin 2)) (some v)),
      .stmt (.print (line 3) [compared])]⟩
    ∃ session scopes, Session.apply source {} = .ok () session ∧
      session.notes.readScopes = .ok scopes ∧
      ∀ x ∈ [([.value, .item 1], sin 2), ([.left, .arg 0, .item 2], sin 3)],
        (x.1, .ref x.2) ∈ source.outline.nodes ∧ ∃ d, session.notes.resolve scopes x.1 x.2 = .ok d ∧
          d.callable? = some (["float"], some "float") ∧
          source.FunctionPlace (session.notes.exprType scopes) name x.1 := by
  intro line name sin v compared source
  have hanswer : (Session.apply source).answer {} = .ok () := by decide +kernel
  obtain ⟨session, hrun⟩ := Pass.answer_eq_ok_iff.mp hanswer
  obtain ⟨scopes, hscopes, hplaces⟩ := source.apply_places_functions session hrun
  have haccepted := accepted_of_apply hrun
  obtain rfl : source.walked.scopes = scopes :=
    Except.ok.inj (haccepted.scopes.symm.trans hscopes)
  refine ⟨session, _, hrun, hscopes, ?_⟩
  have hresolve : ∀ item ∈ source.items, ∀ n, (source.typeScope item).resolve (sin n) =
      .ok (.builtinFunc (BuiltinFunc.ofArity 1 "sin")) := by
    have hnamed : ∀ item ∈ source.items, Declaration.resolveIn (source.inScope item) "sin" =
        .ok (.builtinFunc (BuiltinFunc.ofArity 1 "sin")) := by decide +kernel
    exact fun item hitem n => hnamed item hitem
  have hplace : ∀ (path : Path) (n : UInt32) (j : Nat) (item : Item),
      source.items[j]? = some item → (path, .ref (sin n)) ∈ (item.outline [.item j]).nodes →
      (path, .ref (sin n)) ∈ source.outline.nodes ∧
        ∃ d, session.notes.resolve source.walked.scopes path (sin n) = .ok d ∧
          d.callable? = some (["float"], some "float") ∧
          source.FunctionPlace (session.notes.exprType source.walked.scopes) name path := by
    intro path n j item hj hmem
    have hnode := mem_nodes_of_item hj hmem
    have hd := hresolve item (List.mem_of_getElem? hj) n
    rw [← haccepted.resolve_eq hj hmem] at hd
    exact ⟨hnode, _, hd, rfl, hplaces path (sin n) _ _ _ hnode hd rfl⟩
  intro x hx
  rcases List.mem_cons.mp hx with rfl | hx
  · exact hplace _ 2 1 _ rfl (by simp [Item.outline, Stmt.outline, Expr.outline, Ref.outline])
  · obtain rfl := List.mem_singleton.mp hx
    apply hplace _ 3 2 _ rfl
    simp [Item.outline, Stmt.outline, Expr.outline, Expr.outlines, Ref.outline, compared]

end Source

end SimCompiler
