import SimCompiler.Command.Run
import SimCompiler.Proofs.NestingLimit
import SimCompiler.Proofs.Subtrees

/-!
# Reading back programs

The text of a program is a document of the schema of programs, and decoding that document gives the
program. So a program without doubles can be written and read again, unless it is nested too deeply
to be read at all.
-/
namespace SimCompiler

open Json Schema

/-! ### Decoding -/

namespace Position

@[simp] theorem ofJson?_toJson (p : Position) : ofJson? p.toJson = some p := by
  simp [toJson, ofJson?]

end Position

@[simp] theorem TypeRef.ofJson?_toJson (t : TypeRef) : ofJson? t.toJson = some t := by
  simp [toJson, ofJson?]

@[simp] theorem Variable.ofJson?_toJson (v : Variable) : ofJson? v.toJson = some v := by
  simp [toJson, ofJson?]

@[simp] theorem EnumConstant.ofJson?_toJson (c : EnumConstant) : ofJson? c.toJson = some c := by
  simp [toJson, ofJson?]

theorem mapM_ofJson? {encode : α → Json} {decode : Json → Option α} (xs : List α)
    (h : ∀ x ∈ xs, decode (encode x) = some x) : (xs.map encode).mapM decode = some xs := by
  induction xs with
  | nil => rfl
  | cons x xs ih =>
    rw [List.forall_mem_cons] at h
    simp [List.mapM_cons, h.1, ih h.2]

@[simp] theorem EnumDecl.ofJson?_toJson (d : EnumDecl) : ofJson? d.toJson = some d := by
  rw [toJson, ofList, ofJson?, mapM_ofJson? d.constants fun c _ => c.ofJson?_toJson]
  simp

@[simp] theorem Ref.ofJson?_toJson (r : Ref) : ofJson? r.toJson = some r := by
  simp [toJson, ofJson?]

/-- What may be absent is decoded if nothing is written as `null`. -/
theorem toOption?_ofOption {encode : α → Json} {decode : Json → Option α} (o : Option α)
    (h : ∀ a, o = some a → decode (encode a) = some a ∧ ∃ members, encode a = .obj members) :
    Json.toOption? decode (ofOption encode o) = some o := by
  cases o with
  | none => rfl
  | some a =>
    obtain ⟨hdecode, members, hencode⟩ := h a rfl
    rw [hencode] at hdecode
    rw [ofOption, hencode, toOption?, hdecode]
    · rfl
    · rintro ⟨⟩

namespace Expr

theorem toJsons_eq_map (es : List Expr) : toJsons es = es.map toJson := by
  induction es with
  | nil => rfl
  | cons e es ih => rw [toJsons, ih, List.map_cons]

theorem ofJsons?_toJsons (es : List Expr) (h : ∀ e ∈ es, ofJson? e.toJson = some e) :
    ofJsons? (toJsons es) = some es := by
  induction es with
  | nil => rfl
  | cons e es ih =>
    rw [List.forall_mem_cons] at h
    simp [toJsons, ofJsons?, h.1, ih h.2]

@[simp] theorem ofJson?_toJson (e : Expr) : ofJson? e.toJson = some e := by
  induction e using Expr.induction with
  | bool p b | float p x | str p s => simp [toJson, literal, ofJson?]
  | int p n => simp [toJson, literal, ofJson?]
  | ref r => simp [toJson, ofJson?]
  | unary p op e ih => simp [toJson, ofJson?, ih]
  | binary p l op r ihl ihr => simp [toJson, ofJson?, ihl, ihr]
  | call p f args ih => simp [toJson, ofJson?, ofJsons?_toJsons args ih]
  | json p r indices t ih => simp [toJson, ofJson?, ofJsons?_toJsons indices ih]

end Expr

theorem Expr.exists_members (e : Expr) : ∃ members, e.toJson = .obj members := by
  cases e <;> exact ⟨_, rfl⟩

theorem Stmt.toJsons_eq_map (ss : List Stmt) : toJsons ss = ss.map toJson := by
  induction ss with
  | nil => rfl
  | cons s ss ih => rw [toJsons, ih, List.map_cons]

theorem Elif.toJsons_eq_map (es : List Elif) : toJsons es = es.map toJson := by
  induction es with
  | nil => rfl
  | cons e es ih => rw [toJsons, ih, List.map_cons]

theorem Stmt.ofJsons?_toJsons (ss : List Stmt) (h : ∀ s ∈ ss, ofJson? s.toJson = some s) :
    ofJsons? (toJsons ss) = some ss := by
  induction ss with
  | nil => rfl
  | cons s ss ih =>
    rw [List.forall_mem_cons] at h
    simp [toJsons, ofJsons?, h.1, ih h.2]

theorem Block.ofJson?_toJson (b : Block) (h : ∀ s ∈ b.stmts, Stmt.ofJson? s.toJson = some s) :
    ofJson? b.toJson = some b := by
  obtain ⟨p, stmts⟩ := b
  simp [toJson, ofJson?, Stmt.ofJsons?_toJsons stmts h]

theorem Elif.ofJsons?_toJsons (es : List Elif)
    (h : ∀ e ∈ es, ∀ s ∈ e.block.stmts, Stmt.ofJson? s.toJson = some s) :
    ofJsons? (toJsons es) = some es := by
  induction es with
  | nil => rfl
  | cons e es ih =>
    obtain ⟨p, condition, block⟩ := e
    rw [List.forall_mem_cons] at h
    simp [toJsons, ofJsons?, toJson, ofJson?, block.ofJson?_toJson h.1, ih h.2]

theorem Else.ofJson?_toJson (e : Else)
    (h : ∀ s ∈ e.block.stmts, Stmt.ofJson? s.toJson = some s) : ofJson? e.toJson = some e := by
  obtain ⟨p, block⟩ := e
  simp [toJson, ofJson?, block.ofJson?_toJson h]

theorem Stmt.ofJson?_toJson (s : Stmt) : ofJson? s.toJson = some s := by
  induction s using Stmt.induction with
  | pass p => simp [toJson, ofJson?]
  | assign p r e declared =>
    have hdeclared := toOption?_ofOption declared fun v _ => ⟨v.ofJson?_toJson, _, rfl⟩
    simp [toJson, ofJson?, hdeclared]
  | update p r op e => simp [toJson, ofJson?]
  | print p args =>
    have hargs := Expr.ofJsons?_toJsons args fun e _ => e.ofJson?_toJson
    rw [Expr.toJsons_eq_map] at hargs
    simp [toJson, ofJson?, ofList, hargs]
  | cond p c b elifs otherwise ihb ihelifs ihelse =>
    have hblock := b.ofJson?_toJson ihb
    have helifs := Elif.ofJsons?_toJsons elifs ihelifs
    cases otherwise with
    | none => simp [toJson, ofJson?, hblock, helifs]
    | some last =>
      have hlast := last.ofJson?_toJson (ihelse last rfl)
      obtain ⟨p', block⟩ := last
      rw [Else.toJson] at hlast
      simp [toJson, ofJson?, Else.toJson, hblock, helifs, hlast]
  | ret p value =>
    have hvalue := toOption?_ofOption value fun e _ => ⟨e.ofJson?_toJson, e.exists_members⟩
    simp [toJson, ofJson?, hvalue]

theorem Func.ofJson?_toJson (f : Func) : ofJson? f.toJson = some f := by
  have hparams := mapM_ofJson? f.params fun v _ => v.ofJson?_toJson
  have hreturn := toOption?_ofOption f.returnType fun t _ => ⟨t.ofJson?_toJson, _, rfl⟩
  have hbody := f.body.ofJson?_toJson fun s _ => s.ofJson?_toJson
  rw [toJson, ofList, ofJson?, hparams, hreturn, hbody]
  simp

theorem Item.ofJson?_toJson (item : Item) : ofJson? item.toJson = some item := by
  cases item with
  | globalVar v => simp [toJson, ofJson?]
  | enum d => simp [toJson, ofJson?]
  | func f => simp [toJson, ofJson?, f.ofJson?_toJson]
  | stmt s => simp [toJson, ofJson?, s.ofJson?_toJson]

theorem Source.ofJson?_toJson (s : Source) : ofJson? s.toJson = some s := by
  rw [toJson, ofList, ofJson?, mapM_ofJson? s.items fun item _ => item.ofJson?_toJson]
  simp

/-! ### Doubles -/

def Node.isFloat : Node → Bool
  | .expr (.float ..) => true
  | _ => false

/-- There is no double among the nodes. -/
def Outline.FloatFree (o : Outline) : Prop := ∀ x ∈ o.nodes, x.2.isFloat = false

/-- The program has no literal that is a double. -/
def Source.FloatFree (s : Source) : Prop := s.outline.FloatFree

instance (s : Source) : Decidable s.FloatFree :=
  inferInstanceAs (Decidable (∀ x ∈ s.outline.nodes, x.2.isFloat = false))

theorem Outline.FloatFree.child {o child : Outline} (h : o.FloatFree)
    (hchild : child ∈ o.children) : child.FloatFree := by
  intro x hx
  obtain ⟨path, node, children⟩ := o
  apply h
  rw [Outline.nodes_mk, Outline.nodesAll_eq_flatMap]
  exact List.mem_cons_of_mem _ (List.mem_flatMap.mpr ⟨child, hchild, hx⟩)

/-! ### The schema -/

namespace DocumentKind

theorem distinct_schema : schema.Distinct := by
  intro kind name fields hshape
  cases kind <;> cases hshape <;> decide

theorem fits_text (s : String) : schema.FitsField text (.str s) := .scalar trivial

theorem fits_truth (b : Bool) : schema.FitsField (.scalar .truth) (.bool b) := .scalar trivial

theorem fits_position (p : Position) : schema.Fits .position p.toJson := by
  have hrange : ∀ n : UInt32, Scalar.u32.Holds (.int n.toNat) := fun n =>
    ⟨Int.natCast_nonneg _, by exact_mod_cast n.toNat_lt⟩
  exact .record rfl (.cons (.scalar trivial) (.cons (.scalar (hrange p.line))
    (.cons (.scalar (hrange p.column)) .nil)))

/-- A record of a place and further fields. -/
theorem fits_located {kind : DocumentKind} {name : String}
    {fields : List (String × Json.Field DocumentKind)}
    (hshape : schema kind = located name fields) (p : Position) {members : List (String × Json)}
    (h : schema.FitsAll fields members) :
    schema.Fits kind (.obj (("position", p.toJson) :: members)) :=
  .record hshape (.cons (.node (fits_position p)) h)

theorem fits_typeRef (t : TypeRef) : schema.Fits .typeRef t.toJson :=
  fits_located rfl t.position (.cons (fits_text _) (.cons (fits_truth _) .nil))

theorem fits_variable {kind : DocumentKind} {name : String}
    (hshape : schema kind = variableShape name) (v : Variable) : schema.Fits kind v.toJson :=
  fits_located hshape v.position (.cons (fits_text _) (.cons (.node (fits_typeRef v.type)) .nil))

theorem fits_constant (c : EnumConstant) : schema.Fits .constant c.toJson :=
  fits_located rfl c.position (.cons (fits_text _) (.cons (fits_text _) .nil))

theorem fits_map {kind : DocumentKind} {encode : α → Json} {xs : List α}
    (h : ∀ x ∈ xs, schema.Fits kind (encode x)) :
    schema.FitsField (.list kind) (.arr (xs.map encode)) :=
  .list (List.forall_mem_map.mpr h)

theorem fits_option {kind : DocumentKind} {encode : α → Json} {o : Option α}
    (h : ∀ a, o = some a → schema.Fits kind (encode a)) :
    schema.FitsField (.optional kind) (ofOption encode o) := by
  cases o with
  | none => exact .absent kind
  | some a => exact .present (h a rfl)

theorem fits_enum (d : EnumDecl) : schema.Fits .enum d.toJson :=
  fits_located rfl d.position
    (.cons (fits_text _) (.cons (fits_map fun c _ => fits_constant c) .nil))

theorem fits_ref (r : Ref) : schema.Fits .ref r.toJson :=
  fits_located rfl r.position (.cons (fits_text _) .nil)

theorem fits_expr (e : Expr) :
    ∀ path, (e.outline path).FloatFree → schema.Fits .expr e.toJson := by
  induction e using Expr.induction with
  | bool p b =>
    intro path _
    exact .choice rfl rfl (fits_located rfl p (.cons (fits_truth b) .nil))
  | int p n =>
    intro path _
    have hrange : Scalar.i64.Holds (.int n.toInt) := ⟨n.le_toInt, n.toInt_lt⟩
    exact .choice rfl rfl (fits_located rfl p (.cons (.scalar hrange) .nil))
  | float p x =>
    intro path h
    have hroot := h _ (Outline.root_mem_nodes _)
    rw [Expr.node_outline] at hroot
    cases hroot
  | str p s =>
    intro path _
    exact .choice rfl rfl (fits_located rfl p (.cons (fits_text s) .nil))
  | ref r =>
    intro path _
    exact .choice rfl rfl (fits_ref r)
  | unary p op e ih =>
    intro path h
    have he := ih (.operand :: path) (h.child (by simp [Expr.outline]))
    exact .choice rfl rfl (fits_located rfl p (.cons (fits_text op) (.cons (.node he) .nil)))
  | binary p l op r ihl ihr =>
    intro path h
    have hl := ihl (.left :: path) (h.child (by simp [Expr.outline]))
    have hr := ihr (.right :: path) (h.child (by simp [Expr.outline]))
    exact .choice rfl rfl (fits_located rfl p
      (.cons (.node hl) (.cons (fits_text op) (.cons (.node hr) .nil))))
  | call p f args ih =>
    intro path h
    have hargs : ∀ e ∈ args, schema.Fits .expr e.toJson := by
      intro e he
      obtain ⟨path', hmem⟩ := Expr.exists_outline_mem he path
      exact ih e he path' (h.child (by simp [Expr.outline, hmem]))
    rw [Expr.toJson, Expr.toJsons_eq_map]
    exact .choice rfl rfl (fits_located rfl p
      (.cons (.node (fits_ref f)) (.cons (fits_map hargs) .nil)))
  | json p r indices t ih =>
    intro path h
    have hindices : ∀ e ∈ indices, schema.Fits .expr e.toJson := by
      intro e he
      obtain ⟨path', hmem⟩ := Expr.exists_outline_mem he path
      exact ih e he path' (h.child (by simp [Expr.outline, hmem]))
    rw [Expr.toJson, Expr.toJsons_eq_map]
    exact .choice rfl rfl (fits_located rfl p (.cons (.node (fits_ref r))
      (.cons (fits_map hindices) (.cons (.node (fits_typeRef t)) .nil))))

theorem fits_block {b : Block} {path : Path} (h : (b.outline path).FloatFree)
    (hstmts : ∀ s ∈ b.stmts, ∀ path, (s.outline path).FloatFree → schema.Fits .stmt s.toJson) :
    schema.Fits .block b.toJson := by
  obtain ⟨p, stmts⟩ := b
  have hall : ∀ s ∈ stmts, schema.Fits .stmt s.toJson := by
    intro s hs
    obtain ⟨path', hmem⟩ := Outline.exists_mem_numbered .stmt Stmt.outline path hs
    rw [← Stmt.outlines_eq_numbered] at hmem
    exact hstmts s hs path' (h.child (by rwa [Block.outline]))
  rw [Block.toJson, Stmt.toJsons_eq_map]
  exact fits_located rfl p (.cons (fits_map hall) .nil)

theorem fits_elif {e : Elif} {path : Path} (h : (e.outline path).FloatFree)
    (hstmts : ∀ s ∈ e.block.stmts, ∀ path, (s.outline path).FloatFree →
      schema.Fits .stmt s.toJson) : schema.Fits .elif e.toJson := by
  obtain ⟨p, condition, block⟩ := e
  have hcondition := fits_expr condition (.condition :: path) (h.child (by simp [Elif.outline]))
  have hblock : (block.outline (.block :: path)).FloatFree := h.child (by simp [Elif.outline])
  rw [Elif.toJson]
  exact fits_located rfl p
    (.cons (.node hcondition) (.cons (.node (fits_block hblock hstmts)) .nil))

theorem fits_else {e : Else} {path : Path} (h : (e.outline path).FloatFree)
    (hstmts : ∀ s ∈ e.block.stmts, ∀ path, (s.outline path).FloatFree →
      schema.Fits .stmt s.toJson) : schema.Fits .otherwise e.toJson := by
  obtain ⟨p, block⟩ := e
  have hblock : (block.outline (.block :: path)).FloatFree := h.child (by simp [Else.outline])
  rw [Else.toJson]
  exact fits_located rfl p (.cons (.node (fits_block hblock hstmts)) .nil)

theorem fits_stmt (s : Stmt) :
    ∀ path, (s.outline path).FloatFree → schema.Fits .stmt s.toJson := by
  induction s using Stmt.induction with
  | pass p =>
    intro path _
    rw [Stmt.toJson]
    exact .choice rfl rfl (fits_located rfl p .nil)
  | assign p r e declared =>
    intro path h
    have he := fits_expr e (.value :: path) (h.child (by simp [Stmt.outline]))
    have hdeclared : ∀ v, declared = some v → schema.Fits .localVar v.toJson :=
      fun v _ => fits_variable rfl v
    rw [Stmt.toJson]
    exact .choice rfl rfl (fits_located rfl p
      (.cons (.node (fits_ref r)) (.cons (.node he) (.cons (fits_option hdeclared) .nil))))
  | update p r op e =>
    intro path h
    have he := fits_expr e (.value :: path) (h.child (by simp [Stmt.outline]))
    rw [Stmt.toJson]
    exact .choice rfl rfl (fits_located rfl p
      (.cons (.node (fits_ref r)) (.cons (fits_text op) (.cons (.node he) .nil))))
  | print p args =>
    intro path h
    have hargs : ∀ e ∈ args, schema.Fits .expr e.toJson := by
      intro e he
      obtain ⟨path', hmem⟩ := Expr.exists_outline_mem he path
      exact fits_expr e path' (h.child (by rwa [Stmt.outline]))
    rw [Stmt.toJson]
    exact .choice rfl rfl (fits_located rfl p (.cons (fits_map hargs) .nil))
  | cond p c b elifs otherwise ihb ihelifs ihelse =>
    intro path h
    have hchildren : ∀ o, o ∈ c.outline (.condition :: path) :: b.outline (.block :: path) ::
        Elif.outlines path 0 elifs → o.FloatFree := by
      intro o ho
      cases otherwise with
      | none => exact h.child (by rwa [Stmt.outline])
      | some last =>
        refine h.child ?_
        rw [Stmt.outline]
        exact List.mem_append_left [_] ho
    have hcondition := fits_expr c (.condition :: path) (hchildren _ (by simp))
    have hblock := fits_block (hchildren (b.outline (.block :: path)) (by simp)) ihb
    have helifs : ∀ e ∈ elifs, schema.Fits .elif e.toJson := by
      intro e he
      obtain ⟨path', hmem⟩ := Outline.exists_mem_numbered .elif Elif.outline path he
      rw [← Elif.outlines_eq_numbered] at hmem
      exact fits_elif (hchildren (e.outline path') (by simp [hmem])) (ihelifs e he)
    have hall (last : Json) (hlast : schema.FitsField (.optional .otherwise) last) :
        schema.Fits .stmt (.obj [("If", .obj [("position", p.toJson), ("condition", c.toJson),
          ("block", b.toJson), ("elifs", .arr (elifs.map Elif.toJson)),
          ("else_section", last)])]) :=
      .choice rfl rfl (fits_located rfl p (.cons (.node hcondition) (.cons (.node hblock)
        (.cons (fits_map helifs) (.cons hlast .nil)))))
    cases otherwise with
    | none =>
      rw [Stmt.toJson, Elif.toJsons_eq_map]
      exact hall .null (.absent _)
    | some last =>
      have hlast : (last.outline (.otherwise :: path)).FloatFree :=
        h.child (by simp [Stmt.outline])
      rw [Stmt.toJson, Elif.toJsons_eq_map]
      exact hall last.toJson (.present (fits_else hlast (ihelse last rfl)))
  | ret p value =>
    intro path h
    have hvalue : ∀ e, value = some e → schema.Fits .expr e.toJson := by
      rintro e rfl
      exact fits_expr e (.value :: path) (h.child (by simp [Stmt.outline]))
    rw [Stmt.toJson]
    exact .choice rfl rfl (fits_located rfl p (.cons (fits_option hvalue) .nil))

theorem fits_func {f : Func} {path : Path} (h : (f.outline path).FloatFree) :
    schema.Fits .func f.toJson := by
  have hbody : (f.body.outline (.body :: path)).FloatFree := h.child (by simp [Func.outline])
  have hparams : ∀ v ∈ f.params, schema.Fits .param v.toJson := fun v _ => fits_variable rfl v
  have hreturn : ∀ t, f.returnType = some t → schema.Fits .typeRef t.toJson :=
    fun t _ => fits_typeRef t
  exact fits_located rfl f.position (.cons (fits_text _) (.cons (fits_map hparams)
    (.cons (fits_option hreturn) (.cons (.node (fits_block hbody fun s _ => fits_stmt s)) .nil))))

theorem fits_item {item : Item} {path : Path} (h : (item.outline path).FloatFree) :
    schema.Fits .item item.toJson := by
  cases item with
  | globalVar v => exact .choice rfl rfl (fits_variable rfl v)
  | enum d => exact .choice rfl rfl (fits_enum d)
  | func f => exact .choice rfl rfl (fits_func h)
  | stmt s => exact .choice rfl rfl (fits_stmt s path h)

/-- A program without doubles is written as the schema says. -/
theorem fits_source {s : Source} (h : s.FloatFree) : schema.Fits .source s.toJson := by
  have hitems : ∀ item ∈ s.items, schema.Fits .item item.toJson := by
    intro item hitem
    obtain ⟨path, hmem⟩ := Outline.exists_mem_numbered .item Item.outline [] hitem
    exact fits_item (Outline.FloatFree.child h hmem)
  exact fits_located rfl s.position (.cons (fits_map hitems) .nil)

end DocumentKind

namespace Source

/-- A program without doubles that is not nested too deeply is read back from its text, so that
writing it again gives the same text. What was found out about the program is not part of the
text: whatever it was, nothing is known about the program that is read back, and compiling the text
is compiling the program afresh. A program that is nested too deeply is refused for that reason. -/
theorem read_write (s : Source) (hfloats : s.FloatFree) :
    (s.toJson.nesting < Json.depthLimit →
      read s.write = .ok s ∧ (read s.write).map write = .ok s.write ∧
        ∀ session : Session, Program.read (Program.write ⟨s, session⟩) = .ok ⟨s, {}⟩ ∧
          (Program.read (Program.write ⟨s, session⟩)).map Program.write =
            .ok (Program.write ⟨s, session⟩) ∧
          ∀ o : Options, o.compileText (Program.write ⟨s, session⟩) = o.compile ⟨s, {}⟩) ∧
    (Json.depthLimit ≤ s.toJson.nesting →
      ∃ line column, read s.write = .error ⟨.grammar .nestedTooDeep, line, column⟩) := by
  have hfits := DocumentKind.fits_source hfloats
  constructor
  · intro hnesting
    have hdocument : DocumentKind.schema.read Json.depthLimit .source s.write = .ok s.toJson :=
      read_compact DocumentKind.distinct_schema hfits hnesting
    have hread : read s.write = .ok s := by
      simp only [read, hdocument, bind, Except.bind, s.ofJson?_toJson]
      rfl
    refine ⟨hread, by rw [hread]; rfl, fun session => ?_⟩
    have hprogram : Program.read (Program.write ⟨s, session⟩) = .ok ⟨s, {}⟩ := by
      rw [Program.read, Program.write, hread]
      rfl
    refine ⟨hprogram, by rw [hprogram]; rfl, fun o => ?_⟩
    rw [Options.compileText, Program.parse, hprogram]
    rfl
  · intro hnesting
    obtain ⟨line, column, hdocument⟩ :=
      read_compact_deep DocumentKind.distinct_schema hfits hnesting
    refine ⟨line, column, ?_⟩
    rw [read, write, hdocument]
    rfl

/-- All kinds of items and statements, with texts that have to be escaped and the least and the
greatest numbers, after the analyses have found out something about them; and an expression with
too many operators. -/
theorem read_write_escapes :
    let p : Position := ⟨"a \"b\"\\\n\u0001é𝄞", 0, 4294967295⟩
    let int : TypeRef := ⟨p, "int", true⟩
    let x : Ref := ⟨p, ""⟩
    let text : Expr := .str p "\t/\u007f\u2028"
    let least : Expr := .unary p "-" (.int p (-9223372036854775808))
    let assign : Stmt := .assign p x (.json p x [text, least] int) (some ⟨p, "x", int⟩)
    let branch : Stmt := .cond p (.bool p false) ⟨p, [assign, .ret p (some text)]⟩
      [⟨p, .binary p (.ref x) "<" (.call p x []), ⟨p, []⟩⟩] (some ⟨p, ⟨p, [.pass p, .ret p none]⟩⟩)
    let s : Source := ⟨p, [.globalVar ⟨p, "g", int⟩, .enum ⟨p, "E", [⟨p, "A", "E"⟩]⟩,
      .func ⟨p, "f", [⟨p, "x", int⟩], some int, ⟨p, [branch]⟩⟩,
      .func ⟨p, "g", [], none, ⟨p, [.update p x "+=" text]⟩⟩,
      .stmt (.assign p x least none), .stmt (.print p [])]⟩
    let deep : Expr := (List.range 60).foldl (fun e _ => .unary p "-" e) text
    let s' : Source := ⟨p, [.stmt (.print p [deep])]⟩
    let session : Session := match Session.apply s {} with
      | .ok _ found | .error _ found => found
    read s.write = .ok s ∧ session.notes ≠ {} ∧
      Program.read (Program.write ⟨s, session⟩) = .ok ⟨s, {}⟩ ∧
      ∃ line column, read s'.write = .error ⟨.grammar .nestedTooDeep, line, column⟩ := by
  intro p int x text least assign branch s deep s' session
  have hread := (read_write s (by decide +kernel)).1 (by decide +kernel)
  exact ⟨hread.1, by decide +kernel, (hread.2.2 session).1,
    (read_write s' (by decide +kernel)).2 (by decide +kernel)⟩

end Source

end SimCompiler
