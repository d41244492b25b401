import SimCompiler.Proofs.Calls
import SimCompiler.Proofs.Conversion
import SimCompiler.Proofs.Generation
import SimCompiler.Proofs.SourceOrder

/-!
# Completely annotated programs

Taken together, the analyses do what four functions without annotations say, one after another. If
they succeed, every slot of every node is filled, and the types that were recorded are types of the
program: a call has the return type that its callee was declared with, and that one was checked
where the function stands.
-/
namespace SimCompiler

namespace Source

/-- What decides about a program: its names do not clash, no return statement stands outside of a
function, the callees inside functions are defined, and the types fit. -/
def verdict (s : Source) : Result Unit := do
  Site.enroll [] s.sites
  s.checkReturns
  s.checkCalls
  s.typeCheck

/-- The annotations of a program before its types are checked. -/
def untypedNotes (s : Source) : Annotations :=
  s.capabilityNotes (returnNotes s.localNotes s.functions) s.functions

/-- Only operators and calls have a slot for their type. -/
def TypesSlotted (s : Source) (notes : Annotations) : Prop :=
  ∀ path t, notes.types.get? path = some t →
    ∃ e, (path, .expr e) ∈ s.outline.nodes ∧ e.hasSlot = true

end Source

/-- Writing a type fills one slot. -/
theorem Annotations.get?_writeType {a b : Annotations} {path : Path} {type : String}
    (h : a.writeType path type = .ok b) {p : Path} {t : String} (ht : b.types.get? p = some t) :
    p = path ∨ a.types.get? p = some t := by
  rw [writeType] at h
  cases hget : a.types.get? path with
  | some before =>
    rw [hget] at h
    by_cases hsame : (before == type) = true
    · simp only [hsame, if_true, Except.ok.injEq] at h
      exact .inr (h ▸ ht)
    · simp [hsame, Result.defect] at h
  | none =>
    simp only [hget, Except.ok.injEq] at h
    subst h
    rw [SlotTable.get?_insert] at ht
    by_cases hp : p = path
    · exact .inl hp
    · exact .inr (by rwa [if_neg hp] at ht)

theorem TypeContext.checkNode_eq_some {cx : TypeContext} {notes : Annotations} {path : Path}
    {funcs : List Func} {node : Node} {t : String}
    (h : cx.checkNode notes path funcs node = .ok (some t)) :
    ∃ e, node = .expr e ∧ e.hasSlot = true := by
  cases node with
  | expr e =>
    refine ⟨e, rfl, ?_⟩
    cases e <;> first | rfl | simp [checkNode, Result.bind_eq_ok_iff] at h
  | stmt st =>
    cases st with
    | ret p value => cases funcs <;> simp [checkNode, Result.bind_eq_ok_iff, Result.defect] at h
    | _ => simp [checkNode, Result.bind_eq_ok_iff] at h
  | _ => simp [checkNode, Result.bind_eq_ok_iff] at h

namespace Source

theorem checkTypes_keeps_slotted (s : Source) : s.checkTypes.Keeps s.TypesSlotted := by
  refine (Pass.keeps_get _).bind fun notes => (Pass.keeps_ofResult _ _).bind fun scopes =>
    (Pass.keeps_ofResult _ _).bind fun cx => ?_
  have hown : ∀ f : List Func → List Func, (Pass.modifyOwn f).Keeps
      fun w => s.TypesSlotted w.notes := Pass.keeps_modifyOwn s.TypesSlotted
  apply Pass.walking_keeps
  · intro path node _
    cases node with
    | func f => exact hown _
    | _ => exact Pass.keeps_pure _ ()
  · intro path node hmem
    by_cases hfunc : ∃ f, node = .func f
    · obtain ⟨f, rfl⟩ := hfunc
      exact hown _
    intro w a w' hw hrun
    rw [Setting.leave_run cx (fun f hf => hfunc ⟨f, hf⟩)] at hrun
    cases hcheck : cx.checkNode w.notes path w.own node with
    | error e => simp [hcheck] at hrun
    | ok type? =>
      cases type? with
      | none =>
        simp only [hcheck, EStateM.Result.ok.injEq] at hrun
        obtain rfl := hrun.2
        exact hw
      | some type =>
        obtain ⟨e, rfl, hslot⟩ := TypeContext.checkNode_eq_some hcheck
        cases hwrite : w.notes.writeType path type with
        | error e => simp [hcheck, hwrite] at hrun
        | ok notes =>
          simp only [hcheck, hwrite, EStateM.Result.ok.injEq] at hrun
          obtain rfl := hrun.2
          intro p t ht
          rcases Annotations.get?_writeType hwrite ht with rfl | hbefore
          · exact ⟨e, hmem, hslot⟩
          · exact hw p t hbefore

/-- What the annotations of a program hold once its types have been checked. -/
structure Annotated (s : Source) (notes : Annotations) : Prop where
  grown : s.untypedNotes.Extends notes
  sound : s.setting.Sound notes
  filled : s.setting.Filled notes s.outline.nodes
  slotted : s.TypesSlotted notes

theorem checkTypes_annotates (s : Source) :
    s.checkTypes.Follows s.untypedNotes s.typeCheck fun _ => s.Annotated := by
  have hscopes : s.untypedNotes.scopeChain = s.boundNotes.scopeChain := rfl
  have hsound : s.setting.Sound s.untypedNotes := ⟨rfl, s.sound_boundNotes.types⟩
  have hempty : s.TypesSlotted s.untypedNotes := by
    intro path t ht
    cases ht
  refine ((s.checkTypes_follows hscopes hsound).keeps s.checkTypes_keeps_slotted hempty).mono ?_
  rintro - notes - ⟨⟨hgrown, hsound', hfilled⟩, hslotted⟩
  exact ⟨hgrown, hsound', hfilled, hslotted⟩

theorem analyze_follows (s : Source) :
    s.analyze.Follows {} s.verdict fun _ => s.Annotated := by
  rw [analyze, verdict]
  refine s.bindNames_follows.bind ?_
  rintro - _ - rfl
  refine Pass.follows_bind_of_ok s.collectLocals_run ?_
  have hids : s.localNotes.funcIds = s.boundNotes.funcIds := rfl
  refine (s.linkReturns_follows hids rfl rfl).bind ?_
  rintro - _ - rfl
  have hscopes : (returnNotes s.localNotes s.functions).scopeChain = s.boundNotes.scopeChain := rfl
  refine (s.collectCapabilities_follows hscopes rfl rfl).bind ?_
  rintro - _ - rfl
  exact s.checkTypes_annotates

namespace Annotated

variable {s : Source} {notes : Annotations}

theorem readScopes (h : s.Annotated notes) : notes.readScopes = .ok s.walked.scopes := by
  rw [h.grown.rest]
  rfl

theorem readProgramLocals (h : s.Annotated notes) : notes.readProgramLocals = .ok s.locals := by
  rw [h.grown.rest]
  rfl

theorem readFuncId (h : s.Annotated notes) {k : Nat} {x : Path × Func}
    (hk : s.functions[k]? = some x) : notes.readFuncId x.1 = .ok ⟨k⟩ := by
  rw [← funcs_walked] at hk
  have hget := Walked.get?_numbered s.nodup_funcs_walked hk FuncId.mk
  rw [h.grown.rest]
  exact SlotTable.read_eq_ok hget _

theorem readFuncFrame (h : s.Annotated notes) {k : Nat} {x : Path × Func}
    (hk : s.functions[k]? = some x) : notes.readFuncFrame x.1 = .ok ⟨k + 1⟩ := by
  rw [← funcs_walked] at hk
  have hget := Walked.get?_numbered s.nodup_funcs_walked hk fun k => FrameId.mk (k + 1)
  rw [h.grown.rest]
  exact SlotTable.read_eq_ok hget _

theorem readFuncLocals (h : s.Annotated notes) {x : Path × Func} (hx : x ∈ s.functions) :
    notes.readFuncLocals x.1 = .ok x.2.body.locals := by
  rw [h.grown.rest]
  exact SlotTable.read_eq_ok (s.get?_funcLocals hx) _

theorem readReturnSites (h : s.Annotated notes) {x : Path × Func} (hx : x ∈ s.functions) :
    notes.readReturnSites x.1 = .ok (returnSites (x.2.inner x.1)) := by
  have hget := s.get?_functions (fun x => returnSites (x.2.inner x.1)) hx
  rw [h.grown.rest]
  exact SlotTable.read_eq_ok hget _

theorem readCapabilities (h : s.Annotated notes) {x : Path × Func} (hx : x ∈ s.functions) :
    notes.readCapabilities x.1 = .ok (s.capabilitiesOf x) := by
  have hget := s.get?_functions s.capabilitiesOf hx
  rw [h.grown.rest]
  exact SlotTable.read_eq_ok hget _

theorem readRefFrame (h : s.Annotated notes) {j : Nat} {item : Item}
    (hj : s.items[j]? = some item) {path : Path} {r : Ref}
    (hr : (path, .ref r) ∈ (item.outline [.item j]).nodes) :
    notes.readRefFrame path = .ok (Walked.itemFrame (funcsIn (s.items.take j)).length item) := by
  rw [h.grown.rest]
  exact SlotTable.read_eq_ok (s.refFrames_boundNotes hj hr) _

theorem readReturnOwner (h : s.Annotated notes) {k : Nat} {x : Path × Func}
    (hk : s.functions[k]? = some x) {path : Path} {position : Position} {value : Option Expr}
    (hret : (path, .stmt (.ret position value)) ∈ x.2.bodyNodes x.1) :
    notes.readReturnOwner path = .ok ⟨k⟩ := by
  rw [h.grown.rest]
  exact SlotTable.read_eq_ok (s.get?_returnOwners s.localNotes hk hret) _

end Annotated

theorem apply_follows (s : Source) :
    (Session.apply s).Follows {} s.verdict fun _ session =>
      s.Annotated session.notes ∧ session.callGraph = some s.callGraph := by
  have hanalyze := s.analyze_follows
  cases hverdict : s.verdict with
  | error e =>
    rw [hverdict] at hanalyze
    obtain ⟨notes, hrun⟩ := hanalyze
    exact ⟨⟨notes, none⟩, by rw [Session.apply, hrun]⟩
  | ok u =>
    rw [hverdict] at hanalyze
    obtain ⟨notes, hrun, hnotes⟩ := hanalyze
    have hbuild := s.build_eq_ok (fun k x hk => hnotes.readFuncId hk)
      fun x hx => hnotes.readCapabilities hx
    refine ⟨⟨notes, some s.callGraph⟩, ?_, hnotes, rfl⟩
    simp only [Session.apply, hrun, hbuild]

end Source

namespace Lattice

variable {l : Lattice}

/-- The standard types are among those of the lattice. -/
def HasStandard (l : Lattice) : Prop :=
  ∀ name, standard.contains name = true → l.contains name = true

theorem contains_checkUnary (hl : l.HasStandard) {op operand type : String}
    (h : l.checkUnary op operand = .ok type) : l.contains type = true := by
  apply hl
  rw [checkUnary] at h
  split at h
  swap
  · cases h
  split at h
  · cases h
  split at h
  · cases h
    decide
  split at h <;> cases h <;> decide

theorem contains_checkBinary (hclosed : l.Closed) (hl : l.HasStandard)
    {op left right type : String} (h : l.checkBinary op left right = .ok type) :
    l.contains type = true := by
  have hbool : l.contains TypeName.bool = true := hl _ (by decide)
  have hfloat : l.contains TypeName.float = true := hl _ (by decide)
  have hlub : l.arithmeticType op left right = .ok type → l.contains type = true := by
    intro h
    rw [arithmeticType] at h
    cases hfound : l.lub? left right with
    | none => simp [hfound, Result.defect] at h
    | some t =>
      rw [hfound] at h
      cases h
      exact contains_of_lub? hclosed hfound
  rw [checkBinary] at h
  split at h
  · obtain ⟨-, ht⟩ := Result.seq_eq_ok_iff.mp h
    cases ht
    exact hbool
  · split at h
    · obtain ⟨-, ht⟩ := Result.seq_eq_ok_iff.mp h
      cases ht
      exact hbool
    · cases h
      exact hbool
  · exact hlub (Result.seq_eq_ok_iff.mp h).2
  · exact hlub (Result.seq_eq_ok_iff.mp h).2
  · obtain ⟨-, ht⟩ := Result.seq_eq_ok_iff.mp h
    cases ht
    exact hfloat
  · cases h

end Lattice

/-- A call has the return type of what is called. -/
theorem TypeScope.callRule_eq_ok {c : TypeScope} {callee : Ref} {args : List Operand}
    {type : String} (h : c.callRule callee args = .ok type) :
    ∃ d params, c.resolve callee = .ok d ∧ d.callable? = some (params, some type) := by
  obtain ⟨d, hd, hcall⟩ := Result.bind_eq_ok_iff.mp h
  cases hcallable : d.callable? with
  | none => simp [hcallable, Result.fault] at hcall
  | some signature =>
    obtain ⟨params, result⟩ := signature
    simp only [hcallable] at hcall
    by_cases hlength : params.length = args.length
    · rw [if_neg (not_not_intro hlength)] at hcall
      obtain ⟨-, hresult⟩ := Result.seq_eq_ok_iff.mp hcall
      cases result with
      | none => cases hresult
      | some t =>
        cases hresult
        exact ⟨d, params, hd, hcallable⟩
    · rw [if_pos hlength] at hcall
      cases hcall

namespace Source

variable {s : Source}

theorem hasStandard_lattice (s : Source) : s.lattice.HasStandard := fun _ h =>
  contains_lattice_iff.mpr (.inr h)

/-- What a program declares as a function is one of its functions, and that one was checked. -/
theorem exists_checked_func (htyped : s.typeCheck = .ok ()) {item : Item}
    {signature : FuncSignature} (hd : .func signature ∈ s.inScope item) :
    ∃ f, signature = f.signature signature.id ∧ (s.typeScope (.func f)).checkFunc f = .ok () := by
  obtain ⟨⟨path, f⟩, hx, hsignature⟩ := s.getElem?_functions hd
  obtain ⟨j, hj, -⟩ := mem_functions_iff.mp (List.mem_of_getElem? hx)
  exact ⟨f, hsignature, Result.forM_eq_ok_iff.mp htyped _ (List.mem_of_getElem? hj)⟩

/-- The return type of what can be called is a type of the program. -/
theorem contains_result (htyped : s.typeCheck = .ok ()) {item : Item} {d : Declaration}
    (hd : d ∈ s.inScope item) {params : List String} {type : String}
    (hcallable : d.callable? = some (params, some type)) : s.lattice.contains type = true := by
  cases d with
  | builtinFunc f =>
    have hall : ∀ d ∈ Declaration.builtins, ∀ c, d.callable? = some c →
        c.2 = some TypeName.float := by decide
    have hfloat := hall _ (mem_builtins hd rfl) _ hcallable
    obtain rfl : type = TypeName.float := by simpa using hfloat
    exact s.hasStandard_lattice _ (by decide)
  | func signature =>
    obtain ⟨f, hsignature, hfunc⟩ := exists_checked_func htyped hd
    obtain ⟨-, hrest⟩ := Result.seq_eq_ok_iff.mp hfunc
    obtain ⟨hreturn, -⟩ := Result.seq_eq_ok_iff.mp hrest
    have hresult : f.returnType.map (·.name) = some type := by
      rw [hsignature] at hcallable
      exact congrArg Prod.snd (Option.some.inj hcallable)
    obtain ⟨t, ht, rfl⟩ := Option.map_eq_some_iff.mp hresult
    rw [ht] at hreturn
    exact TypeScope.checkTypeRef_eq_ok_iff.mp hreturn
  | _ => simp [Declaration.callable?] at hcallable

theorem contains_typeOf (htyped : s.typeCheck = .ok ()) {item : Item} {e : Expr}
    (hslot : e.hasSlot = true) {type : String}
    (htype : (s.typeScope item).typeOf e = .ok (some type)) : s.lattice.contains type = true := by
  cases e with
  | unary p op e =>
    simp only [TypeScope.typeOf, Result.bind_eq_ok_iff, Result.orPosition_eq_ok_iff,
      Result.pure_eq_ok, Except.ok.injEq, Option.some.injEq] at htype
    obtain ⟨_, -, _, -, _, hcheck, rfl⟩ := htype
    exact Lattice.contains_checkUnary s.hasStandard_lattice hcheck
  | binary p l op r =>
    simp only [TypeScope.typeOf, Result.bind_eq_ok_iff, Result.orPosition_eq_ok_iff,
      Result.pure_eq_ok, Except.ok.injEq, Option.some.injEq] at htype
    obtain ⟨_, -, _, -, _, -, _, -, _, hcheck, rfl⟩ := htype
    exact Lattice.contains_checkBinary s.closed_lattice s.hasStandard_lattice hcheck
  | call p callee args =>
    simp only [TypeScope.typeOf, Result.bind_eq_ok_iff, Result.orPosition_eq_ok_iff,
      Result.pure_eq_ok, Except.ok.injEq, Option.some.injEq] at htype
    obtain ⟨_, -, _, -, _, hcall, rfl⟩ := htype
    obtain ⟨d, params, hd, hcallable⟩ := TypeScope.callRule_eq_ok hcall
    exact contains_result htyped (Declaration.mem_of_resolveIn hd) hcallable
  | _ => simp [Expr.hasSlot] at hslot

end Source

/-- The slots of the node at `path` are filled. -/
def Node.Complete (notes : Annotations) (path : Path) : Node → Prop
  | .source _ =>
    (∃ scopes, notes.readScopes = .ok scopes) ∧ ∃ vars, notes.readProgramLocals = .ok vars
  | .func _ =>
    (∃ id, notes.readFuncId path = .ok id) ∧ (∃ frame, notes.readFuncFrame path = .ok frame) ∧
      (∃ vars, notes.readFuncLocals path = .ok vars) ∧
      (∃ sites, notes.readReturnSites path = .ok sites) ∧
      ∃ c, notes.readCapabilities path = .ok c
  | .expr (.ref _) => ∃ frame, notes.readRefFrame path = .ok frame
  | .expr (.unary ..) | .expr (.binary ..) | .expr (.call ..) =>
    ∃ type, notes.readType path = .ok type
  | .stmt (.ret ..) => ∃ id, notes.readReturnOwner path = .ok id
  | _ => True

namespace Source

variable {s : Source}

theorem verdict_eq_ok_iff : s.verdict = .ok () ↔ s.ClashFree ∧ s.checkReturns = .ok () ∧
    s.checkCalls = .ok () ∧ s.typeCheck = .ok () := by
  rw [verdict, Result.seq_eq_ok_iff, Result.seq_eq_ok_iff, Result.seq_eq_ok_iff,
    enroll_sites_eq_ok_iff]

theorem verdict_of_apply {session : Session} (h : Session.apply s {} = .ok () session) :
    s.verdict = .ok () := by
  rw [← s.apply_follows.answer_eq]
  exact Pass.answer_eq_ok_iff.mpr ⟨session, h⟩

theorem annotated_of_apply {session : Session} (h : Session.apply s {} = .ok () session) :
    s.Annotated session.notes :=
  (s.apply_follows.of_ok h).1

theorem mem_functions_of_mem_nodes {path : Path} {f : Func}
    (h : (path, .func f) ∈ s.outline.nodes) : (path, f) ∈ s.functions := by
  have hframe : (path, Node.func f) ∈ s.outline.nodes.filter (·.2.hasFrame) :=
    List.mem_filter.mpr ⟨h, rfl⟩
  rw [filter_hasFrame_nodes] at hframe
  simpa using hframe

theorem Annotated.complete {notes : Annotations} (h : s.Annotated notes)
    (hreturns : s.checkReturns = .ok ()) {path : Path} {node : Node}
    (hmem : (path, node) ∈ s.outline.nodes) : node.Complete notes path := by
  cases node with
  | source _ => exact ⟨⟨_, h.readScopes⟩, _, h.readProgramLocals⟩
  | func f =>
    have hx := mem_functions_of_mem_nodes hmem
    obtain ⟨k, hk⟩ := List.mem_iff_getElem?.mp hx
    exact ⟨⟨_, h.readFuncId hk⟩, ⟨_, h.readFuncFrame hk⟩, ⟨_, h.readFuncLocals hx⟩,
      ⟨_, h.readReturnSites hx⟩, _, h.readCapabilities hx⟩
  | stmt st =>
    cases st with
    | ret p value =>
      obtain ⟨x, hx, hret⟩ := exists_function_of_ret hreturns hmem
      obtain ⟨k, hk⟩ := List.mem_iff_getElem?.mp hx
      exact ⟨_, h.readReturnOwner hk hret⟩
    | _ => trivial
  | expr e =>
    have htype : e.hasSlot = true → ∃ type, notes.readType path = .ok type := by
      intro hslot
      obtain ⟨type, ht⟩ := h.filled.slots path e hmem hslot
      exact ⟨type, by rw [Annotations.readType, ht]⟩
    cases e with
    | ref r =>
      rcases mem_nodes hmem with heq | ⟨j, item, hj, hitem⟩
      · simp at heq
      · exact ⟨_, h.readRefFrame hj hitem⟩
    | unary | binary | call => exact htype rfl
    | _ => trivial
  | _ => trivial

/-- Once the analyses have succeeded, every slot of every node of the program is filled. Every type
that was recorded is one of the types that the program has: the standard ones and its
enumerations. -/
theorem apply_annotates_completely (source : Source) (session : Session)
    (h : Session.apply source {} = .ok () session) :
    (∀ path node, (path, node) ∈ source.outline.nodes → node.Complete session.notes path) ∧
    ∃ scopes cx, session.notes.readScopes = .ok scopes ∧ TypeContext.ofScopes scopes = .ok cx ∧
      (∀ path type, session.notes.types.get? path = some type →
        cx.lattice.contains type = true) ∧
      ∀ type, cx.lattice.contains type = true ↔
        Lattice.standard.contains type = true ∨ ∃ d, .enum d ∈ source.items ∧ d.name = type := by
  obtain ⟨-, hreturns, -, htyped⟩ := verdict_eq_ok_iff.mp (verdict_of_apply h)
  have hnotes := annotated_of_apply h
  refine ⟨fun path node hmem => hnotes.complete hreturns hmem, source.walked.scopes,
    ⟨source.walked.scopes, source.lattice⟩, hnotes.readScopes, source.ofScopes_walked, ?_, ?_⟩
  · intro path type hget
    obtain ⟨e, hmem, hslot⟩ := hnotes.slotted path type hget
    obtain ⟨j, item, e', hj, hmem', htype⟩ := hnotes.sound.types path type hget
    have hnode := List.inj_on_of_nodup_map source.nodup_paths hmem (mem_nodes_of_item hj hmem') rfl
    cases hnode
    exact contains_typeOf htyped hslot htype
  · intro type
    exact contains_lattice_iff.trans or_comm

/-- A function that calls itself, and whose return type is an enumeration. -/
theorem apply_annotates_completely_recursion :
    let line (n : UInt32) : Position := ⟨"main", n, 1⟩
    let cell (n : UInt32) : TypeRef := ⟨line n, "Cell", false⟩
    let call : Expr := .call (line 3) ⟨line 3, "f"⟩ [.ref ⟨line 3, "a"⟩]
    let f : Func := ⟨line 2, "f", [⟨line 2, "a", cell 2⟩], some (cell 2),
      ⟨line 3, [.ret (line 3) (some call)]⟩⟩
    let source : Source := ⟨line 1, [.enum ⟨line 1, "Cell", [⟨line 1, "Dead", "Cell"⟩]⟩, .func f]⟩
    ∃ session, Session.apply source {} = .ok () session ∧
      (∃ id, session.notes.readReturnOwner [.stmt 0, .body, .item 1] = .ok id) ∧
      (∃ frame, session.notes.readRefFrame [.callee, .value, .stmt 0, .body, .item 1] = .ok frame) ∧
      (∃ type, session.notes.readType [.value, .stmt 0, .body, .item 1] = .ok type) ∧
      ∀ path type, session.notes.types.get? path = some type →
        Lattice.standard.contains type = true ∨ type = "Cell" := by
  intro line cell call f source
  have hanswer : (Session.apply source).answer {} = .ok () := by decide +kernel
  obtain ⟨session, hrun⟩ := Pass.answer_eq_ok_iff.mp hanswer
  obtain ⟨hcomplete, scopes, cx, -, -, htypes, hlattice⟩ :=
    source.apply_annotates_completely session hrun
  refine ⟨session, hrun, ?_, ?_, ?_, ?_⟩
  · exact hcomplete _ (.stmt (.ret (line 3) (some call))) (by
      simp [source, f, outline, Outline.numbered, Item.outline, Func.outline, Block.outline,
        Stmt.outlines, Stmt.outline])
  · exact hcomplete _ (.ref ⟨line 3, "f"⟩) (by
      simp [source, f, call, outline, Outline.numbered, Item.outline, Func.outline, Block.outline,
        Stmt.outlines, Stmt.outline, Expr.outline, Expr.outlines, Ref.outline])
  · exact hcomplete _ (.expr call) (by
      simp [source, f, call, outline, Outline.numbered, Item.outline, Func.outline, Block.outline,
        Stmt.outlines, Stmt.outline, Expr.outline])
  · intro path type hget
    rcases (hlattice type).mp (htypes path type hget) with hstandard | ⟨d, hd, rfl⟩
    · exact .inl hstandard
    · obtain hd | hd : Item.enum d = .enum _ ∨ Item.enum d = .func f := by simpa [source] using hd
      · cases hd
        exact .inr rfl
      · cases hd

end Source

end SimCompiler
