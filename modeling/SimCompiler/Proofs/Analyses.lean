import SimCompiler.Analysis.Session
import SimCompiler.Proofs.TypingRefinement

/-!
# What the analyses leave behind

Between name binding and type checking, one analysis writes down the local variables of the program
and of its functions, and two more add to slots that nothing else reads. So an accepted program
passes the recursive type check, its references are bound as lexical scope says, and its local
variables are those of its statements.
-/
namespace SimCompiler

namespace Annotations

/-- The annotations without those about returns and capabilities. -/
def core (a : Annotations) : Annotations :=
  { a with returnSites := {}, capabilities := {}, returnOwners := {} }

theorem core_writeReturnOwner {a b : Annotations} {path : Path} {id : FuncId}
    (h : a.writeReturnOwner path id = .ok b) : b.core = a.core := by
  obtain ⟨t, -, hb⟩ := Result.bind_eq_ok_iff.mp h
  cases hb
  rfl

theorem core_writeReturnSites {a b : Annotations} {path : Path} {sites : List ReturnSite}
    (h : a.writeReturnSites path sites = .ok b) : b.core = a.core := by
  obtain ⟨t, -, hb⟩ := Result.bind_eq_ok_iff.mp h
  cases hb
  rfl

theorem core_writeCapabilities {a b : Annotations} {path : Path} {c : Capabilities}
    (h : a.writeCapabilities path c = .ok b) : b.core = a.core := by
  obtain ⟨t, -, hb⟩ := Result.bind_eq_ok_iff.mp h
  cases hb
  rfl

end Annotations

/-- An analysis keeps what its hooks keep. -/
theorem Pass.walking_keeps {v : Visitor (Work ρ)} {own : ρ} {q : Annotations → Prop}
    {source : Source}
    (henter : ∀ path node, (path, node) ∈ source.outline.nodes →
      (v.enter path node).Keeps fun w => q w.notes)
    (hleave : ∀ path node, (path, node) ∈ source.outline.nodes →
      (v.leave path node).Keeps fun w => q w.notes) :
    (Pass.walking v own source).Keeps q := by
  intro notes u notes' hnotes h
  rw [Pass.run_walking] at h
  cases hrun : source.outline.walk v ⟨notes, own⟩ with
  | error e w => simp [hrun] at h
  | ok a w =>
    rw [hrun] at h
    cases h
    have hwalk := Outline.keeps_walk source.outline fun x hx =>
      Outline.keeps_handle (henter x.1 x.2 hx) (hleave x.1 x.2 hx)
    exact hwalk ⟨notes, own⟩ a w hnotes hrun

theorem Source.linkReturns_keeps_core (s : Source) (core : Annotations) :
    s.linkReturns.Keeps fun a => a.core = core := by
  have hown : ∀ f : Returns.Open → Returns.Open, (Pass.modifyOwn f).Keeps
      fun w => w.notes.core = core := Pass.keeps_modifyOwn fun a => a.core = core
  apply Pass.walking_keeps
  · intro path node _
    cases node with
    | func f => exact (Pass.keeps_consult _ _).bind fun id => hown _
    | stmt st =>
      cases st with
      | ret p value =>
        refine (Pass.keeps_own _).bind fun opened => ?_
        match opened with
        | [] => exact Pass.keeps_defect _ _
        | (id, sites) :: outer =>
          refine (Pass.keeps_annotate (fun a => a.core = core) fun a b ha hb => ?_).bind
            fun _ => hown _
          exact (Annotations.core_writeReturnOwner hb).trans ha
      | _ => exact Pass.keeps_pure _ ()
    | _ => exact Pass.keeps_pure _ ()
  · intro path node _
    cases node with
    | func f =>
      refine (Pass.keeps_own _).bind fun opened => ?_
      match opened with
      | [] => exact Pass.keeps_defect _ _
      | (id, sites) :: outer =>
        refine (hown _).bind fun _ =>
          Pass.keeps_annotate (fun a => a.core = core) fun a b ha hb => ?_
        exact (Annotations.core_writeReturnSites hb).trans ha
    | _ => exact Pass.keeps_pure _ ()

theorem Source.collectCapabilities_keeps_core (s : Source) (core : Annotations) :
    s.collectCapabilities.Keeps fun a => a.core = core := by
  have hown : ∀ f : Capabilities.Open → Capabilities.Open, (Pass.modifyOwn f).Keeps
      fun w => w.notes.core = core := Pass.keeps_modifyOwn fun a => a.core = core
  have hupdate : ∀ f, (Capabilities.update f).Keeps fun w => w.notes.core = core := fun f => hown _
  apply Pass.walking_keeps
  · intro path node _
    cases node with
    | source s => exact (Pass.keeps_consult _ _).bind fun _ => Pass.keeps_pure _ ()
    | func f => exact hown _
    | stmt st =>
      cases st with
      | print p args => exact hupdate _
      | _ => exact Pass.keeps_pure _ ()
    | expr e =>
      cases e with
      | json p r indices t => exact hupdate _
      | call p callee args =>
        refine (Pass.keeps_consult _ _).bind fun scopes => (Pass.keeps_own _).bind fun opened => ?_
        split
        · exact Pass.keeps_pure _ ()
        · refine (Pass.keeps_consult _ _).bind fun d => ?_
          cases d with
          | func signature => exact hupdate _
          | _ => exact Pass.keeps_pure _ ()
      | _ => exact Pass.keeps_pure _ ()
    | _ => exact Pass.keeps_pure _ ()
  · intro path node _
    cases node with
    | func f =>
      refine (Pass.keeps_own _).bind fun opened => ?_
      match opened with
      | [] => exact Pass.keeps_defect _ _
      | c :: outer =>
        refine (hown _).bind fun _ =>
          Pass.keeps_annotate (fun a => a.core = core) fun a b ha hb => ?_
        exact (Annotations.core_writeCapabilities hb).trans ha
    | _ => exact Pass.keeps_pure _ ()

/-- Elements for which there is nothing to do can be left out. -/
theorem Pass.forM_eq_forM_filter {f : α → Pass σ Unit} (p : α → Bool) (xs : List α)
    (h : ∀ x ∈ xs, p x = false → f x = pure ()) : forM xs f = forM (xs.filter p) f := by
  induction xs with
  | nil => rfl
  | cons x xs ih =>
    have hrest := ih fun y hy => h y (by simp [hy])
    cases hx : p x with
    | true => rw [List.filter_cons_of_pos hx, List.forM_cons, List.forM_cons, hrest]
    | false =>
      rw [List.filter_cons_of_neg (by simp [hx]), List.forM_cons, h x (by simp) hx, hrest]
      exact pure_bind _ _

theorem filter_hasFrame_of_flat {xs : List (Path × Node)} (h : ∀ x ∈ xs, x.2.hasFrame = false) :
    xs.filter (·.2.hasFrame) = [] := by
  rw [List.filter_eq_nil_iff]
  intro x hx
  rw [h x hx]
  exact Bool.false_ne_true

theorem filter_hasFrame_item (item : Item) (path : Path) :
    (item.outline path).nodes.filter (·.2.hasFrame) =
      (item.func?.map fun f => (path, Node.func f)).toList := by
  cases hitem : item.func? with
  | none => exact filter_hasFrame_of_flat (flat_item item path hitem)
  | some f =>
    obtain rfl := Item.func?_eq_some_iff.mp hitem
    rw [Item.outline, f.nodes_outline, List.filter_cons_of_pos rfl,
      filter_hasFrame_of_flat (f.flat_inner path)]
    rfl

theorem Walked.filter_hasFrame_enterAll (w : Walked) (i : Nat) (items : List Item) :
    (w.enterAll i items).funcs.map (fun x => (x.1, Node.func x.2)) =
      w.funcs.map (fun x => (x.1, Node.func x.2)) ++
        (Outline.nodesAll (Outline.numbered .item Item.outline [] i items)).filter
          (·.2.hasFrame) := by
  induction items generalizing w i with
  | nil => simp [enterAll, Outline.numbered]
  | cons item items ih =>
    rw [enterAll, ih, Outline.numbered, Outline.nodesAll_cons, List.filter_append,
      filter_hasFrame_item, enter, List.map_append, List.append_assoc]
    cases item.func? <;> rfl

namespace Source

theorem mem_functions_iff {s : Source} {x : Path × Func} :
    x ∈ s.functions ↔ ∃ i, s.items[i]? = some (.func x.2) ∧ x.1 = [.item i] := by
  rw [functions, List.mem_filterMap]
  constructor
  · rintro ⟨⟨item, i⟩, hitem, hfunc⟩
    cases item <;> simp only [Option.some.injEq, reduceCtorEq] at hfunc
    subst hfunc
    exact ⟨i, List.mem_zipIdx_iff_getElem?.mp hitem, rfl⟩
  · rintro ⟨i, hi, hpath⟩
    exact ⟨(.func x.2, i), List.mem_zipIdx_iff_getElem?.mpr hi, by simp [← hpath]⟩

theorem flatMap_functions (s : Source) (g : Path × Func → List α) :
    s.functions.flatMap g =
      s.items.zipIdx.flatMap fun x => x.1.func?.toList.flatMap fun f => g ([.item x.2], f) := by
  rw [functions, List.filterMap_eq_flatMap_toList, List.flatMap_assoc]
  refine List.flatMap_congr fun x _ => ?_
  obtain ⟨item, i⟩ := x
  cases item <;> rfl

/-- The frames of a program belong to the program itself and to its functions. -/
theorem filter_hasFrame_nodes (s : Source) : s.outline.nodes.filter (·.2.hasFrame) =
    ([], .source s) :: s.functions.map fun x => (x.1, .func x.2) := by
  have hitems := Walked.filter_hasFrame_enterAll {} 0 s.items
  rw [outline, Outline.nodes_mk, List.filter_cons_of_pos rfl, ← funcs_walked, walked, hitems]
  rfl

/-- The variables that the statements outside of functions declare. -/
def locals (s : Source) : List Variable :=
  s.items.flatMap fun
    | .stmt st => st.locals
    | _ => []

/-- The annotations once the local variables of the program and of the functions `done` have been
written down. -/
def localNotesOf (s : Source) (done : List (Path × Func)) : Annotations :=
  { s.boundNotes with
    programLocals := SlotTable.insert {} Annotations.program s.locals
    funcLocals := ⟨(done.map fun x => (x.1, x.2.body.locals)).reverse⟩ }

def localNotes (s : Source) : Annotations := s.localNotesOf s.functions

theorem localVars_root (s : Source) :
    (Frame.mk "<root>" none s.outerScope).localVars = s.locals := by
  have hitems : ∀ funcs items, (Frame.mk "<root>" none (declarationsFrom funcs items)).localVars =
      (Source.mk s.position items).locals := by
    intro funcs items
    induction items generalizing funcs with
    | nil => rfl
    | cons item items ih =>
      have hfirst : (Frame.mk "<root>" none (item.declarations funcs)).localVars =
          (Source.mk s.position [item]).locals := by
        cases item <;> simp [Frame.localVars, Item.declarations, locals, List.filterMap_map]
      have hrest := ih (funcs + item.funcCount)
      simp only [Frame.localVars, locals, List.flatMap_cons, List.flatMap_nil,
        List.append_nil] at hfirst hrest ⊢
      rw [declarationsFrom, List.filterMap_append, hfirst, hrest]
  exact hitems 0 s.items

theorem localVars_func (f : Func) (name : String) (parent : Option FrameId) :
    (Frame.mk name parent f.declarations).localVars = f.body.locals := by
  simp [Frame.localVars, Func.declarations, List.filterMap_map]

theorem visit_source (s : Source) :
    Locals.visitor.visit ([], .source s) ⟨s.boundNotes, ()⟩ =
      .ok () ⟨s.localNotesOf [], ()⟩ := by
  have hscopes : s.boundNotes.readScopes = .ok s.walked.scopes := rfl
  have hframe : Locals.ofFrame s.boundNotes Scopes.root = .ok s.locals := by
    rw [Locals.ofFrame, hscopes, Result.ok_bind, frame_root_walked, Result.ok_bind, localVars_root]
    rfl
  have hwrite : s.boundNotes.writeProgramLocals s.locals = .ok (s.localNotesOf []) := rfl
  simp [Visitor.visit, Visitor.handle, Locals.visitor, Node.isLiteral, hframe, hwrite]

theorem ofFrame_func (s : Source) {k : Nat} {x : Path × Func} (hk : s.functions[k]? = some x) :
    Locals.ofFrame s.boundNotes ⟨k + 1⟩ = .ok x.2.body.locals := by
  rw [← funcs_walked] at hk
  have hfunc : (funcsIn s.items)[k]? = some x.2 := by
    rw [← map_snd_funcs_walked, List.getElem?_map, hk]
    rfl
  have hframe : s.walked.scopes.frame ⟨k + 1⟩ = .ok (s.walked.funcFrame k x) := by
    simp [Scopes.frame, Walked.scopes, hk]
  have hscopes : s.boundNotes.readScopes = .ok s.walked.scopes := rfl
  rw [Locals.ofFrame, hscopes, Result.ok_bind, hframe, Result.ok_bind, Walked.funcFrame,
    s.held_func_walked hfunc, localVars_func]
  rfl

theorem visit_func (s : Source) {done todo : List (Path × Func)} {x : Path × Func}
    (hfuncs : s.functions = done ++ x :: todo) :
    Locals.visitor.visit (x.1, .func x.2) ⟨s.localNotesOf done, ()⟩ =
      .ok () ⟨s.localNotesOf (done ++ [x]), ()⟩ := by
  have hk : s.functions[done.length]? = some x := by simp [hfuncs]
  have hvars : Locals.ofFrame (s.localNotesOf done) ⟨done.length + 1⟩ = .ok x.2.body.locals :=
    s.ofFrame_func hk
  have hnodup := s.nodup_funcs_walked
  -- The number of functions before `x` is its number, so its frame is the next one.
  have hframe : (s.localNotesOf done).readFuncFrame x.1 = .ok ⟨done.length + 1⟩ := by
    rw [← funcs_walked] at hk
    exact SlotTable.read_eq_ok (Walked.get?_numbered hnodup hk fun k => FrameId.mk (k + 1)) _
  have hfree : (s.localNotesOf done).funcLocals.get? x.1 = none := by
    rw [funcs_walked, hfuncs, List.map_append, List.nodup_append] at hnodup
    apply SlotTable.get?_eq_none
    rw [localNotesOf, List.map_reverse, List.mem_reverse, List.map_map]
    intro hmem
    exact hnodup.2.2 x.1 hmem x.1 (by simp) rfl
  have hwrite : (s.localNotesOf done).writeFuncLocals x.1 x.2.body.locals =
      .ok (s.localNotesOf (done ++ [x])) := by
    have htable := (SlotTable.write_eq_ok_iff _ _ .functionLocals x.1 x.2.body.locals).mpr
      ⟨hfree, rfl⟩
    rw [Annotations.writeFuncLocals, htable]
    simp [localNotesOf, SlotTable.insert]
  simp [Visitor.visit, Visitor.handle, Locals.visitor, Node.isLiteral, hframe, hvars, hwrite]

theorem collectLocals_run (s : Source) :
    s.collectLocals s.boundNotes = .ok () s.localNotes := by
  have hfuncs : ∀ todo done, s.functions = done ++ todo →
      forM (todo.map fun x => (x.1, Node.func x.2)) Locals.visitor.visit
        ⟨s.localNotesOf done, ()⟩ = .ok () ⟨s.localNotes, ()⟩ := by
    intro todo
    induction todo with
    | nil =>
      intro done hdone
      rw [localNotes, hdone, List.append_nil]
      rfl
    | cons x todo ih =>
      intro done hdone
      rw [List.map_cons, List.forM_cons, Pass.run_bind, s.visit_func hdone]
      exact ih (done ++ [x]) (by simp [hdone])
  have hidle : ∀ x ∈ s.outline.nodes, x.2.hasFrame = false →
      Locals.visitor.visit x = pure () := by
    rintro ⟨path, node⟩ - hflat
    cases node with
    | source s => simp [Node.hasFrame] at hflat
    | func f => simp [Node.hasFrame] at hflat
    | expr e => cases e <;> rfl
    | _ => rfl
  have hwalk : s.outline.walk Locals.visitor ⟨s.boundNotes, ()⟩ = .ok () ⟨s.localNotes, ()⟩ := by
    rw [Outline.walk_eq_forM_nodes _ _ fun x _ => rfl,
      Pass.forM_eq_forM_filter (·.2.hasFrame) _ hidle, filter_hasFrame_nodes, List.forM_cons,
      Pass.run_bind, visit_source]
    exact hfuncs s.functions [] rfl
  rw [collectLocals, Pass.run_walking, hwalk]

/-- What the annotations say about a program that was accepted. -/
structure Accepted (s : Source) (notes : Annotations) : Prop where
  clashFree : s.ClashFree
  typed : s.typeCheck = .ok ()
  scopes : notes.readScopes = .ok s.walked.scopes
  sound : s.setting.Sound notes
  filled : s.setting.Filled notes s.outline.nodes
  programLocals : notes.readProgramLocals = .ok s.locals
  funcLocals : ∀ x ∈ s.functions, notes.readFuncLocals x.1 = .ok x.2.body.locals

theorem Accepted.checkItem {s : Source} {notes : Annotations} (h : s.Accepted notes) {item : Item}
    (hitem : item ∈ s.items) :
    (s.typeScope item).checkItem item = .ok () :=
  Result.forM_eq_ok_iff.mp h.typed item hitem

/-- A table with one entry for each function. -/
theorem get?_functions (s : Source) (g : Path × Func → α) {x : Path × Func}
    (hx : x ∈ s.functions) :
    (SlotTable.mk (s.functions.map fun x => (x.1, g x)).reverse).get? x.1 = some (g x) := by
  apply SlotTable.get?_of_mem
  · rw [List.map_reverse, List.nodup_reverse, List.map_map]
    have hnodup := s.nodup_funcs_walked
    rwa [funcs_walked] at hnodup
  · rw [List.mem_reverse]
    exact List.mem_map_of_mem hx

theorem get?_funcLocals (s : Source) {x : Path × Func} (hx : x ∈ s.functions) :
    s.localNotes.funcLocals.get? x.1 = some x.2.body.locals :=
  s.get?_functions (·.2.body.locals) hx

theorem accepted_of_apply {s : Source} {session : Session}
    (h : Session.apply s {} = .ok () session) : s.Accepted session.notes := by
  have hanalyze : s.analyze {} = .ok () session.notes := by
    rw [Session.apply] at h
    split at h
    · simp at h
    · split at h
      · simp at h
      · cases h
        assumption
  obtain ⟨⟨⟩, notes₁, hbind, h⟩ := Pass.bind_eq_ok_iff.mp hanalyze
  obtain ⟨hclash, rfl⟩ := (s.bindNames_eq_ok_iff notes₁).mp hbind
  obtain ⟨⟨⟩, notes₂, hlocals, h⟩ := Pass.bind_eq_ok_iff.mp h
  rw [collectLocals_run] at hlocals
  cases hlocals
  obtain ⟨⟨⟩, notes₃, hreturns, h⟩ := Pass.bind_eq_ok_iff.mp h
  obtain ⟨⟨⟩, notes₄, hcapabilities, hcheck⟩ := Pass.bind_eq_ok_iff.mp h
  -- The next two analyses write nothing that the type check or the generator reads.
  have hcore₃ := s.linkReturns_keeps_core _ _ _ _ rfl hreturns
  have hcore := s.collectCapabilities_keeps_core _ _ _ _ hcore₃ hcapabilities
  have hscopes : notes₄.scopeChain = s.boundNotes.scopeChain := congrArg (·.scopeChain) hcore
  have hsound : s.setting.Sound notes₄ := by
    have hrefs : notes₄.refFrames = s.boundNotes.refFrames := congrArg (·.refFrames) hcore
    have htypes : notes₄.types = s.boundNotes.types := congrArg (·.types) hcore
    exact ⟨hrefs, by rw [htypes]; exact s.sound_boundNotes.types⟩
  have hfollows := s.checkTypes_follows hscopes hsound
  obtain ⟨hgrown, hsound', hfilled⟩ := hfollows.of_ok hcheck
  refine ⟨hclash, ?_, ?_, hsound', hfilled, ?_, ?_⟩
  · rw [← hfollows.answer_eq]
    exact Pass.answer_eq_ok_iff.mpr ⟨_, hcheck⟩
  · rw [hgrown.rest, Annotations.readScopes, hscopes]
    rfl
  · have hprogram : notes₄.programLocals = s.localNotes.programLocals :=
      congrArg (·.programLocals) hcore
    rw [hgrown.rest, Annotations.readProgramLocals, hprogram]
    rfl
  · intro x hx
    have hfuncs : notes₄.funcLocals = s.localNotes.funcLocals := congrArg (·.funcLocals) hcore
    rw [hgrown.rest, Annotations.readFuncLocals, hfuncs]
    exact SlotTable.read_eq_ok (s.get?_funcLocals hx) _

end Source

end SimCompiler
