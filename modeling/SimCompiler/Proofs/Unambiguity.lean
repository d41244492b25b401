import SimCompiler.Proofs.ExprGrammar
import SimCompiler.Proofs.Repetition
import SimCompiler.Proofs.TreeText

/-!
# Expression texts are unambiguous

The expressions of an accepted program whose names are identifiers are spelled by the grammar: the
check leaves only the operators that the grammar knows, and each name has a spelling. So two of them
with the same text are alike.
-/
namespace SimCompiler

open Target

/-- The names that stand in the node itself. -/
def Node.names : Node → List String
  | .globalVar v | .param v | .localVar v => [v.name]
  | .enum d => [d.name]
  | .constant c => [c.name, c.enumName]
  | .func f => [f.name]
  | .typeRef t => [t.name]
  | .expr (.ref r) => [r.name]
  | _ => []

namespace TypeScope

variable {c : TypeScope}

theorem sign_of_typeOf {p : Position} {op : String} {e : Expr} {type : Option String}
    (h : c.typeOf (.unary p op e) = .ok type) : op = "-" ∨ op = "not" := by
  simp only [typeOf, Result.bind_eq_ok_iff, Result.orPosition_eq_ok_iff] at h
  obtain ⟨_, -, _, -, _, hcheck, -⟩ := h
  rw [Lattice.checkUnary] at hcheck
  split at hcheck
  case isTrue hop => simpa using hop
  case isFalse => cases hcheck

theorem symbol_of_typeOf {p : Position} {op : String} {l r : Expr} {type : Option String}
    (h : c.typeOf (.binary p l op r) = .ok type) : OperatorClass.ofSymbol? op ≠ none := by
  simp only [typeOf, Result.bind_eq_ok_iff, Result.orPosition_eq_ok_iff] at h
  obtain ⟨_, -, _, -, _, -, _, -, _, hcheck, -⟩ := h
  intro hnone
  rw [Lattice.checkBinary, hnone] at hcheck
  cases hcheck

end TypeScope

theorem Generator.isWord_typeCode {g : Generator} {t : TypeRef} {type : String}
    (h : g.typeCode t = .ok type) (hname : isIdentifier t.name = true) : IsWord type := by
  have hprimitive : ∀ {name code}, primitiveType? name = some code → IsWord code := by
    intro name code h
    unfold primitiveType? at h
    split at h <;> cases h <;> exact ⟨by decide, by decide⟩
  rw [typeCode] at h
  split at h
  case h_1 code hcode =>
    cases h
    exact hprimitive hcode
  case h_2 =>
    split at h
    case isTrue =>
      cases h
      exact isWord_mangle hname
    case isFalse => cases h

theorem Generator.spelledAll {g : Generator} {path : Path} {es : List Expr} {i : Nat}
    {texts : List String}
    (h : ∀ (k : Nat) (e : Expr) (text : String), es[k]? = some e →
      g.exprCode (.arg (i + k) :: path) e = .ok text → ∃ rule, g.Spelled rule e text)
    (htexts : g.exprCodes path i es = .ok texts) : g.SpelledAll es texts := by
  induction es generalizing i texts with
  | nil =>
    rw [exprCodes] at htexts
    cases htexts
    exact .nil
  | cons e es ih =>
    simp only [exprCodes, Result.bind_eq_ok_iff, Result.pure_eq_ok] at htexts
    obtain ⟨text, htext, rest, hrest, hcons⟩ := htexts
    cases hcons
    obtain ⟨rule, hspelled⟩ := h 0 e text rfl htext
    refine .cons hspelled (ih (fun k e text hk => ?_) hrest)
    rw [Nat.add_assoc, Nat.add_comm 1 k]
    exact h (k + 1) e text hk

namespace Source

variable {s : Source} {notes : Annotations}

/-- All names in the program are identifiers. -/
def HasIdentifiers (s : Source) : Prop :=
  ∀ x ∈ s.outline.nodes, ∀ name ∈ x.2.names, isIdentifier name = true

/-- A constant in scope is one that an enumeration of the program lists. -/
theorem exists_constant_node {item : Item} {c : EnumConstant}
    (h : .constant c ∈ s.inScope item) : ∃ path, (path, .constant c) ∈ s.outline.nodes := by
  rcases List.mem_append.mp h with hown | houter
  · cases item with
    | func f => obtain ⟨v, -, hv | hv⟩ := Func.exists_variable hown <;> cases hv
    | _ => cases hown
  · rcases List.mem_append.mp houter with hbuiltin | hdeclared
    · have hbuiltins : ∀ d ∈ Declaration.builtins, d.isBuiltin = true := by decide
      cases hbuiltins _ hbuiltin
    · obtain ⟨j, item, hj, hd⟩ := exists_item_of_mem hdeclared
      cases item with
      | enum e =>
        obtain ⟨c', hc, heq⟩ := List.mem_map.mp ((List.mem_cons.mp hd).resolve_left nofun)
        cases heq
        obtain ⟨path, hchild⟩ := Outline.exists_mem_numbered .constant
          (fun p c => Outline.leaf p (.constant c)) [.item j] hc
        have hmem := Outline.child_mem_nodes (o := e.outline [.item j]) hchild
        exact ⟨path, mem_nodes_of_item hj hmem⟩
      | globalVar v => cases List.mem_singleton.mp hd
      | func f => cases List.mem_singleton.mp hd
      | stmt st =>
        obtain ⟨v, -, heq⟩ := List.mem_map.mp hd
        cases heq

theorem Accepted.typeOf (h : s.Accepted notes) {path : Path} {e : Expr}
    (he : (path, .expr e) ∈ s.outline.nodes) :
    ∃ (c : TypeScope) (type : Option String), c.typeOf e = .ok type := by
  rcases mem_nodes he with heq | ⟨j, item, hj, hmem⟩
  · cases heq
  · obtain ⟨type, htyping⟩ := h.filled.typed path e he
    exact ⟨_, type, ((s.describes_item hj).types path e hmem _).mp htyping⟩

theorem Accepted.spells (h : s.Accepted notes) (hnames : s.HasIdentifiers) {path : Path} {r : Ref}
    (hr : (path, .ref r) ∈ s.outline.nodes) {text : String}
    (htext : (s.generator notes).refCode path r = .ok text) : Spells r.name text := by
  obtain ⟨j, item, d, -, -, hd, hscope, hname, -⟩ := h.resolves_in hr
  have hcode : d.code = .ok text := (Generator.refCode_eq hd hname).symm.trans htext
  have hidentifier : isIdentifier r.name = true := hnames _ hr _ (by simp [Node.names])
  cases d with
  | builtinFunc f =>
    rw [← hname]
    exact .native (nativeName_of_nativeCode hcode)
  | builtinConst c =>
    rw [← hname]
    exact .native (nativeName_of_nativeCode hcode)
  | enum t => cases hcode
  | constant c =>
    obtain ⟨place, hc⟩ := exists_constant_node hscope
    cases hcode
    rw [show c.name = r.name from hname]
    exact .constant (hnames _ hc _ (by simp [Node.names])) hidentifier
  | localVar v | param v | globalVar v | func f =>
    cases hcode
    rw [hname]
    exact .own hidentifier

/-- The expression stands in the program at `path`, and no double is in it. -/
structure PlainAt (s : Source) (path : Path) (e : Expr) : Prop where
  mem : (path, .expr e) ∈ s.outline.nodes
  floatFree : (e.outline path).FloatFree

theorem PlainAt.child {path place : Path} {e part : Expr} (h : s.PlainAt path e)
    (hchild : part.outline place ∈ (e.outline path).children) : s.PlainAt place part := by
  refine ⟨?_, h.floatFree.child hchild⟩
  simpa using s.faithful_outline.mem_nodes_child h.mem hchild

/-- The texts of the arguments or indices of an expression are spelled if the text of each is. -/
theorem PlainAt.spelledAll {g : Generator} {path : Path} {e : Expr} (h : s.PlainAt path e)
    {es : List Expr} (hes : ∀ o ∈ Expr.outlines path 0 es, o ∈ (e.outline path).children)
    (hspelled : ∀ e ∈ es, ∀ path text, s.PlainAt path e → g.exprCode path e = .ok text →
      ∃ rule, g.Spelled rule e text)
    {texts : List String} (htexts : g.exprCodes path 0 es = .ok texts) : g.SpelledAll es texts := by
  refine Generator.spelledAll (fun k e text hk => ?_) htexts
  rw [Nat.zero_add]
  exact hspelled e (List.mem_of_getElem? hk) _ text
    (h.child (hes _ (Expr.outline_mem_outlines hk path)))

/-- Every text of an expression without doubles is built by a rule of the grammar. -/
theorem Accepted.spelled (h : s.Accepted notes) (hnames : s.HasIdentifiers) (e : Expr) :
    ∀ path text, s.PlainAt path e → (s.generator notes).exprCode path e = .ok text →
      ∃ rule, (s.generator notes).Spelled rule e text := by
  induction e using Expr.induction with
  | bool p b =>
    intro path text _ htext
    rw [Generator.exprCode] at htext
    cases htext
    exact ⟨_, .truth p b⟩
  | int p n =>
    intro path text _ htext
    rw [Generator.exprCode] at htext
    cases htext
    exact ⟨_, .number p n⟩
  | float p x =>
    intro path text hplain _
    have hroot := hplain.floatFree _ (Outline.root_mem_nodes _)
    rw [Expr.node_outline] at hroot
    cases hroot
  | str p s =>
    intro path text _ htext
    rw [Generator.exprCode] at htext
    cases htext
    exact ⟨_, .quoted p s⟩
  | ref r =>
    intro path text hplain htext
    rw [Generator.exprCode] at htext
    exact ⟨_, .name (h.spells hnames hplain.mem htext)⟩
  | unary p op e ih =>
    intro path text hplain htext
    obtain ⟨c, type, htype⟩ := h.typeOf hplain.mem
    simp only [Generator.exprCode, Result.bind_eq_ok_iff, Result.pure_eq_ok] at htext
    obtain ⟨operand, hoperand, heq⟩ := htext
    cases heq
    obtain ⟨rule, hspelled⟩ := ih _ operand (hplain.child (by simp [Expr.outline])) hoperand
    exact ⟨_, .signed p (TypeScope.sign_of_typeOf htype) hspelled⟩
  | binary p l op r ihl ihr =>
    intro path text hplain htext
    obtain ⟨c, type, htype⟩ := h.typeOf hplain.mem
    simp only [Generator.exprCode, Result.bind_eq_ok_iff] at htext
    obtain ⟨left, hleft, right, hright, heq⟩ := htext
    obtain ⟨rule, hl⟩ := ihl _ left (hplain.child (by simp [Expr.outline])) hleft
    obtain ⟨rule', hr⟩ := ihr _ right (hplain.child (by simp [Expr.outline])) hright
    split at heq
    case isTrue hpower =>
      obtain rfl := eq_of_beq hpower
      cases heq
      exact ⟨_, .power p hl hr⟩
    case isFalse =>
      cases heq
      exact ⟨_, .paired p (TypeScope.symbol_of_typeOf htype) hl hr⟩
  | call p f args ih =>
    intro path text hplain htext
    simp only [Generator.exprCode, Result.bind_eq_ok_iff, Result.pure_eq_ok] at htext
    obtain ⟨texts, htexts, callee, hcallee, heq⟩ := htext
    cases heq
    have hf : s.PlainAt (.callee :: path) (.ref f) := hplain.child (by simp [Expr.outline])
    have hargs := hplain.spelledAll (by simp +contextual [Expr.outline]) ih htexts
    exact ⟨_, .applied p (h.spells hnames hf.mem hcallee) hargs⟩
  | json p r indices t ih =>
    intro path text hplain htext
    simp only [Generator.exprCode, Result.bind_eq_ok_iff, Result.pure_eq_ok] at htext
    obtain ⟨root, hroot, texts, htexts, type, htype, heq⟩ := htext
    cases heq
    have hr : s.PlainAt (.root :: path) (.ref r) := hplain.child (by simp [Expr.outline])
    have htarget : t.outline (.typeRef :: path) ∈
        ((Expr.json p r indices t).outline path).children := by simp [Expr.outline]
    have ht : isIdentifier t.name = true :=
      hnames _ (s.faithful_outline.mem_nodes_child hplain.mem htarget) t.name
        (List.mem_singleton_self _)
    have hword := Generator.isWord_typeCode htype ht
    have hindices := hplain.spelledAll (by simp +contextual [Expr.outline]) ih htexts
    exact ⟨_, .access p (h.spells hnames hr.mem (Generator.refCode_of_jsonRootCode hroot)) hindices
      htype hword⟩

/-- In an accepted program whose names are identifiers, two expressions without doubles that are
written as the same text are alike. -/
theorem exprCode_unambiguous (source : Source) (session : Session) (hnames : source.HasIdentifiers)
    (happly : Session.apply source {} = .ok () session) :
    ∃ g, Generator.ofAnnotations session.notes = .ok g ∧
      ∀ path path' e e' text, source.PlainAt path e → source.PlainAt path' e' →
        g.exprCode path e = .ok text → g.exprCode path' e' = .ok text → g.Alike e e' := by
  have haccepted := accepted_of_apply happly
  refine ⟨source.generator session.notes, haccepted.ofAnnotations, ?_⟩
  intro path path' e e' text he he' htext htext'
  obtain ⟨rule, hspelled⟩ := haccepted.spelled hnames e path text he htext
  obtain ⟨rule', hspelled'⟩ := haccepted.spelled hnames e' path' text he' htext'
  exact hspelled.alike hspelled'

/-- Two accesses that ask for one type by different names, with indices in different places, have
the same text. -/
theorem exprCode_unambiguous_same_type :
    let line (n : UInt32) : Position := ⟨"main", n, 1⟩
    let index (n : UInt32) : Expr := .binary (line n) (.int (line n) 1) "-" (.int (line n) (-2))
    let access (n : UInt32) (type : String) : Expr :=
      .json (line 1) ⟨line n, "CONFIG"⟩ [.str (line n) "a\"]", index n] ⟨line n, type, false⟩
    let print (n : UInt32) (type : String) : Item := .stmt (.print (line n) [access n type])
    let source : Source := ⟨line 1, [print 2 "uint", print 3 "u64"]⟩
    let text := Generator.jsonAccessCode "CONFIG[\"a\\\"]\"][( (1) - (-2) )]" "std::uint64_t"
      (line 1)
    ∃ session g, source.HasIdentifiers ∧ Session.apply source {} = .ok () session ∧
      Generator.ofAnnotations session.notes = .ok g ∧
      source.PlainAt [.arg 0, .item 0] (access 2 "uint") ∧
      source.PlainAt [.arg 0, .item 1] (access 3 "u64") ∧
      g.exprCode [.arg 0, .item 0] (access 2 "uint") = .ok text ∧
      g.exprCode [.arg 0, .item 1] (access 3 "u64") = .ok text ∧
      g.Alike (access 2 "uint") (access 3 "u64") := by
  intro line index access print source text
  have hnames : source.HasIdentifiers := by
    unfold HasIdentifiers
    decide +kernel
  have hfree : source.FloatFree := by decide +kernel
  have hplain : ∀ path e, (path, .expr e) ∈ source.outline.nodes → source.PlainAt path e :=
    fun path e he => ⟨he, fun x hx => hfree x (source.faithful_outline.nodes_subset _ he hx)⟩
  have hanswer : (Session.apply source).answer {} = .ok () := by decide +kernel
  obtain ⟨session, hsession⟩ := Pass.answer_eq_ok_iff.mp hanswer
  have hfinal : (Session.apply source).final {} = session := by rw [Pass.final, hsession]
  have hfirst : (source.generator ((Session.apply source).final {}).notes).exprCode
      [.arg 0, .item 0] (access 2 "uint") = .ok text := by decide +kernel
  have hsecond : (source.generator ((Session.apply source).final {}).notes).exprCode
      [.arg 0, .item 1] (access 3 "u64") = .ok text := by decide +kernel
  obtain ⟨g, hg, halike⟩ := source.exprCode_unambiguous session hnames hsession
  obtain rfl : source.generator session.notes = g :=
    Except.ok.inj ((accepted_of_apply hsession).ofAnnotations.symm.trans hg)
  rw [hfinal] at hfirst hsecond
  have hmem : source.PlainAt [.arg 0, .item 0] (access 2 "uint") :=
    hplain _ _ (List.mem_of_getElem? (i := 2) rfl)
  have hmem' : source.PlainAt [.arg 0, .item 1] (access 3 "u64") :=
    hplain _ _ (List.mem_of_getElem? (i := 10) rfl)
  exact ⟨session, _, hnames, hsession, hg, hmem, hmem', hfirst, hsecond,
    halike _ _ _ _ _ hmem hmem' hfirst hsecond⟩

end Source

end SimCompiler
