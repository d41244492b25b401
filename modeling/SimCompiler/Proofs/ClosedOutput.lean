import SimCompiler.Proofs.Outcomes
import SimCompiler.Proofs.Slots

/-!
# Generated programs are closed

Every reference of a generated program is the name of one slot that the program declares, or a
spelling of the target language, and it means what the reference of the source meant. In particular
no function declares a name that a reference in it uses for something outside of the function.
-/
namespace SimCompiler

/-- Letters, digits and underscores, the first of which is no digit. -/
def isIdentifier (name : String) : Bool :=
  match name.toList with
  | [] => false
  | c :: cs => (c.isAlpha || c == '_') && cs.all fun c => c.isAlphanum || c == '_'

theorem not_mem_of_isIdentifier {name : String} (h : isIdentifier name = true) :
    ':' ∉ name.toList := by
  rw [isIdentifier] at h
  cases hname : name.toList with
  | nil => simp
  | cons c cs =>
    rw [hname, Bool.and_eq_true, List.all_eq_true] at h
    intro hmem
    rcases List.mem_cons.mp hmem with rfl | hmem
    · exact absurd h.1 (by decide)
    · exact absurd (h.2 ':' hmem) (by decide)

theorem Target.mangle_injective : Function.Injective Target.mangle := by
  intro a b h
  rwa [mangle, mangle, String.append_right_inj] at h

/-- Where no key occurs twice, the entries with the key of an entry are that entry. -/
theorem filter_key_eq_singleton {entries : List (String × α)} (h : (entries.map Prod.fst).Nodup)
    {key : String} {a : α} (hmem : (key, a) ∈ entries) :
    entries.filter (·.1 == key) = [(key, a)] := by
  induction entries with
  | nil => cases hmem
  | cons e entries ih =>
    rw [List.map_cons, List.nodup_cons] at h
    rcases List.mem_cons.mp hmem with rfl | hmem
    · rw [List.filter_cons_of_pos (by simp), List.cons_eq_cons]
      refine ⟨rfl, List.filter_eq_nil_iff.mpr fun e he heq => h.1 ?_⟩
      exact List.mem_map.mpr ⟨e, he, eq_of_beq heq⟩
    · rw [List.filter_cons_of_neg ?_, ih h.2 hmem]
      exact fun heq => h.1 (List.mem_map.mpr ⟨_, hmem, (eq_of_beq heq).symm⟩)

/-- Among `slots`, one and only one is called `text`, and it has the type of the variable. -/
def Generator.OneSlot (g : Generator) (v : Variable) (text : String)
    (slots : List (String × String)) : Prop :=
  ∃ code, g.typeCode v.type = .ok code ∧ slots.filter (·.1 == text) = [(text, code)]

namespace Generator

variable {g : Generator} {vs : List Variable} {entries : List (String × String)}
  (h : vs.mapM g.entry = .ok entries)
include h

theorem map_fst_entries : entries.map Prod.fst = (vs.map (·.name)).map Target.mangle := by
  have hkeys : vs.mapM (fun v => (.ok (Target.mangle v.name) : Result String)) =
      .ok (entries.map Prod.fst) := by
    refine Result.mapM_map (fun v entry hentry => ?_) h
    obtain ⟨code, -, hentry⟩ := Result.bind_eq_ok_iff.mp hentry
    cases hentry
    rfl
  rw [List.map_map]
  exact (Except.ok.inj ((List.mapM_pure).symm.trans hkeys)).symm

/-- Variables with distinct names have one slot each. -/
theorem oneSlot_of_mem (hnodup : (vs.map (·.name)).Nodup) {v : Variable} (hv : v ∈ vs) :
    g.OneSlot v (Target.mangle v.name) entries := by
  obtain ⟨k, hk⟩ := List.mem_iff_getElem?.mp hv
  obtain ⟨entry, hentry, hslot⟩ := Result.getElem?_of_mapM h hk
  obtain ⟨code, hcode, hslot⟩ := Result.bind_eq_ok_iff.mp hslot
  cases hslot
  refine ⟨code, hcode, filter_key_eq_singleton ?_ (List.mem_of_getElem? hentry)⟩
  rw [map_fst_entries h]
  exact hnodup.map Target.mangle_injective

end Generator

/-- The text of a reference that resolves to the declaration. -/
def Declaration.code : Declaration → Result String
  | .builtinFunc f => Generator.nativeCode (.builtinFunc f)
  | .builtinConst c => Generator.nativeCode (.builtinConst c)
  | .constant c => .ok (Target.mangle c.enumName ++ "::" ++ Target.mangle c.name)
  | .enum _ => Result.defect (.enumAsValue "node")
  | d => .ok (Target.mangle d.name)

theorem Generator.refCode_eq {g : Generator} {path : Path} {r : Ref} {d : Declaration}
    (h : g.notes.resolve g.scopes path r = .ok d) (hname : d.name = r.name) :
    g.refCode path r = d.code := by
  rw [refCode, h, Result.ok_bind]
  cases d <;> first | rfl | rw [← hname]; rfl

namespace Declaration

/-- A look-up that goes on in `ys` has found nothing in `xs`. -/
theorem resolveIn_append {xs ys : List Declaration} {name : String} {d : Declaration}
    (h : resolveIn (xs ++ ys) name = .ok d) :
    d.name = name ∧ (d ∈ xs ∨ d ∈ ys ∧ ∀ x ∈ xs, x.name ≠ name) := by
  rw [resolveIn] at h
  cases hfind : (xs ++ ys).find? (·.name == name) with
  | none => simp [hfind, Result.fault] at h
  | some d' =>
    rw [hfind] at h
    cases h
    refine ⟨by simpa using List.find?_some hfind, ?_⟩
    rw [List.find?_append, Option.or_eq_some_iff] at hfind
    rcases hfind with hfind | ⟨hnone, hfind⟩
    · exact .inl (List.mem_of_find?_eq_some hfind)
    · refine .inr ⟨List.mem_of_find?_eq_some hfind, fun x hx heq => ?_⟩
      simpa [heq] using List.find?_eq_none.mp hnone x hx

/-- What has another name also has another text than a variable that is called `name`. -/
theorem code_ne_mangle {d : Declaration} (hd : d.isBuiltin = true → d ∈ builtins)
    {text name : String} (h : d.code = .ok text) (hname : isIdentifier name = true)
    (hne : d.name ≠ name) : text ≠ Target.mangle name := by
  have hbuiltin : ∀ d ∈ builtins,
      (Target.nativeName? d.name).all (fun text => text.toList.head? != some '_') = true := by
    decide
  have hnative : ∀ d : Declaration, d ∈ builtins → Generator.nativeCode d = .ok text →
      text ≠ Target.mangle name := by
    rintro d hd h rfl
    have hhead := hbuiltin d hd
    rw [Generator.nativeCode] at h
    cases hcode : Target.nativeName? d.name with
    | none => simp [hcode, Result.defect] at h
    | some code =>
      rw [hcode] at h hhead
      cases h
      simp [Target.mangle] at hhead
  cases d with
  | builtinFunc f => exact hnative _ (hd rfl) h
  | builtinConst c => exact hnative _ (hd rfl) h
  | enum t => cases h
  | constant c =>
    -- Only the text of a constant contains a colon.
    cases h
    intro heq
    have hmem : ':' ∈ (Target.mangle name).toList := by
      rw [← heq]
      simp
    rw [Target.mangle, String.toList_append, List.mem_append] at hmem
    rcases hmem with hmem | hmem
    · simp at hmem
    · exact not_mem_of_isIdentifier hname hmem
  | localVar v | param v | globalVar v | func f =>
    cases h
    exact Target.mangle_injective.ne hne

end Declaration

namespace Func

variable {f : Func}

theorem map_name_declarations :
    f.declarations.map (·.name) = (f.params ++ f.body.locals).map (·.name) := by
  simp [declarations, Function.comp_def, Declaration.name]

end Func

namespace Source

variable {s : Source}

theorem ClashFree.nodup_globals (h : s.ClashFree) : ((globalsIn s.items).map (·.name)).Nodup := by
  refine List.Nodup.sublist ?_ h.distinct
  rw [globalsIn, List.filterMap_eq_flatMap_toList, List.map_flatMap]
  refine sublist_declarationsFrom (fun n item => ?_) 0 _
  cases item <;> simp [Item.declarations, Declaration.name]

theorem ClashFree.nodup_locals (h : s.ClashFree) : (s.locals.map (·.name)).Nodup := by
  refine List.Nodup.sublist ?_ h.distinct
  rw [locals, List.map_flatMap]
  refine sublist_declarationsFrom (fun n item => ?_) 0 _
  cases item <;> simp [Item.declarations, Function.comp_def, Declaration.name]

theorem ClashFree.nodup_enums (h : s.ClashFree) : ((enumsIn s.items).map (·.name)).Nodup := by
  refine List.Nodup.sublist ?_ h.distinct
  rw [enumsIn, List.filterMap_eq_flatMap_toList, List.map_flatMap]
  refine sublist_declarationsFrom (fun n item => ?_) 0 _
  cases item <;> simp [Item.declarations, Declaration.name]

theorem ClashFree.nodup_func (h : s.ClashFree) {f : Func} (hf : .func f ∈ s.items) :
    ((f.params ++ f.body.locals).map (·.name)).Nodup := by
  rw [← Func.map_name_declarations]
  exact h.distinctOwn f hf

end Source

/-- How the log declares what a name stands for outside of functions: `text` is the name of one slot
of the main file with the right type, or that of the prototype with the right number, or it names a
constant that one enumeration lists, or it is a spelling of the target language. -/
def RequestLog.Declares (log : RequestLog) (main : MainSlots) (g : Generator) (text : String) :
    Declaration → Prop
  | .localVar v => g.OneSlot v text main.locals
  | .globalVar v => g.OneSlot v text main.globals
  | .func signature => ∃ prototype, main.prototypes[signature.id.index]? = some prototype ∧
      prototype.name = text
  | .constant c => text = Target.mangle c.enumName ++ "::" ++ Target.mangle c.name ∧
      ∃ constants, (log.filterMap Request.enum?).filter (·.1 == Target.mangle c.enumName) =
        [(Target.mangle c.enumName, constants)] ∧ Target.mangle c.name ∈ constants
  | .builtinFunc f => Target.nativeName? f.name = some text
  | .builtinConst c => Target.nativeName? c.name = some text
  | .param _ | .enum _ => False

namespace Source

variable {s : Source}

/-- Declared names are identifiers, and each constant has the name of its enumeration. -/
structure WellNamed (s : Source) : Prop where
  identifiers : ∀ x ∈ headings s.outline.nodes, isIdentifier x.1 = true
  constants : ∀ d c, .enum d ∈ s.items → c ∈ d.constants → c.enumName = d.name

theorem WellNamed.isIdentifier_own (h : s.WellNamed) {i : Nat} {f : Func}
    (hi : s.items[i]? = some (.func f)) {d : Declaration} (hd : d ∈ f.declarations) :
    isIdentifier d.name = true := by
  rw [← declaredBy_func f [.item i], declaredBy, List.mem_filterMap] at hd
  obtain ⟨⟨path, node⟩, hnode, hd⟩ := hd
  have hmem : (path, node) ∈ s.outline.nodes := by
    refine mem_nodes_of_item hi ?_
    rw [Item.outline, f.nodes_outline]
    exact List.mem_cons_of_mem _ hnode
  refine h.identifiers (d.name, node.position) (List.mem_filterMap.mpr ⟨_, hmem, ?_⟩)
  cases node <;> cases hd <;> rfl

variable {g : Generator} {log : RequestLog} {main : MainSlots}

theorem nativeName_of_nativeCode {d : Declaration} {text : String}
    (h : Generator.nativeCode d = .ok text) : Target.nativeName? d.name = some text := by
  rw [Generator.nativeCode] at h
  split at h
  · cases h
    assumption
  · cases h

/-- What is declared outside of functions is declared by the log. -/
theorem Logged.declares (h : s.Logged g log main) (hclash : s.ClashFree) (hnames : s.WellNamed)
    {d : Declaration} (hd : d ∈ s.outerScope) {text : String} (htext : d.code = .ok text) :
    log.Declares main g text d := by
  rcases List.mem_append.mp hd with hd | hd
  · rcases List.mem_append.mp hd with hd | hd
    · obtain ⟨f, -, rfl⟩ := List.mem_map.mp hd
      exact nativeName_of_nativeCode htext
    · obtain ⟨c, -, rfl⟩ := List.mem_map.mp hd
      exact nativeName_of_nativeCode htext
  obtain ⟨j, item, hj, hd⟩ := exists_item_of_mem hd
  have hitem := List.mem_of_getElem? hj
  cases item with
  | globalVar v =>
    obtain rfl := List.mem_singleton.mp hd
    cases htext
    refine Generator.oneSlot_of_mem h.globals hclash.nodup_globals ?_
    exact List.mem_filterMap.mpr ⟨_, hitem, rfl⟩
  | enum e =>
    rcases List.mem_cons.mp hd with rfl | hd
    · cases htext
    · obtain ⟨c, hc, rfl⟩ := List.mem_map.mp hd
      cases htext
      refine ⟨rfl, e.constants.map (Target.mangle ·.name), ?_, List.mem_map_of_mem hc⟩
      rw [h.enums, hnames.constants e c hitem hc]
      refine filter_key_eq_singleton ?_ (List.mem_map.mpr ⟨e, ?_, rfl⟩)
      · rw [List.map_map]
        change ((enumsIn s.items).map (Target.mangle ∘ (·.name))).Nodup
        rw [← List.map_map]
        exact hclash.nodup_enums.map Target.mangle_injective
      · exact List.mem_filterMap.mpr ⟨_, hitem, rfl⟩
  | func f =>
    obtain rfl := List.mem_singleton.mp hd
    cases htext
    have hk := getElem?_funcsIn hj
    rw [← map_snd_funcs_walked, funcs_walked, List.getElem?_map, Option.map_eq_some_iff] at hk
    obtain ⟨x, hx, rfl⟩ := hk
    obtain ⟨prototype, hprototype, hspec⟩ := Result.getElem?_of_mapM h.prototypes hx
    refine ⟨prototype, ?_, (Generator.slots_of_prototype hspec).1⟩
    rwa [Func.signature, Nat.zero_add]
  | stmt st =>
    obtain ⟨v, hv, rfl⟩ := List.mem_map.mp hd
    cases htext
    refine Generator.oneSlot_of_mem h.locals hclash.nodup_locals ?_
    exact List.mem_flatMap.mpr ⟨_, hitem, hv⟩

/-- The function with number `k` is `f`, and `x` is one of its nodes. -/
def Encloses (s : Source) (k : Nat) (f : Func) (x : Path × Node) : Prop :=
  ∃ path, s.functions[k]? = some (path, f) ∧ x ∈ (f.outline path).nodes

/-- The functions around a node of an item are that item. -/
theorem Encloses.item_eq {k j : Nat} {f : Func} {item : Item} {x : Path × Node}
    (h : s.Encloses k f x) (hj : s.items[j]? = some item)
    (hx : x ∈ (item.outline [.item j]).nodes) : item = .func f := by
  obtain ⟨_, hk, hmem⟩ := h
  obtain ⟨i, hi, rfl⟩ := mem_functions_iff.mp (List.mem_of_getElem? hk)
  exact (eq_of_mem_nodes hj hx hi hmem).1

theorem encloses_of_item {j : Nat} {f : Func} {x : Path × Node} (hj : s.items[j]? = some (.func f))
    (hx : x ∈ (f.outline [.item j]).nodes) : ∃ k, s.Encloses k f x := by
  have hmem : ([.item j], f) ∈ s.functions := mem_functions_iff.mpr ⟨j, hj, rfl⟩
  obtain ⟨k, hk⟩ := List.mem_iff_getElem?.mp hmem
  exact ⟨k, _, hk, hx⟩

/-- A reference finds its name in the item around it, or else outside of all items. -/
theorem Accepted.resolves_in {notes : Annotations} (h : s.Accepted notes) {path : Path} {r : Ref}
    (hr : (path, .ref r) ∈ s.outline.nodes) : ∃ (j : Nat) (item : Item) (d : Declaration),
      s.items[j]? = some item ∧ (path, .ref r) ∈ (item.outline [.item j]).nodes ∧
      notes.resolve s.walked.scopes path r = .ok d ∧ d ∈ s.inScope item ∧ d.name = r.name ∧
      (d ∈ item.ownDeclarations ∨
        d ∈ s.outerScope ∧ ∀ x ∈ item.ownDeclarations, x.name ≠ r.name) := by
  rcases mem_nodes hr with heq | ⟨j, item, hj, hmem⟩
  · cases heq
  · obtain ⟨d, hd⟩ := h.resolves hj hmem
    obtain ⟨hname, hplace⟩ := Declaration.resolveIn_append hd
    exact ⟨j, item, d, hj, hmem, (h.resolve_eq hj hmem).trans hd, Declaration.mem_of_resolveIn hd,
      hname, hplace⟩

/-- The slots of a function are those of its parameters and local variables. -/
theorem Accepted.entries_of_funcSlots {notes : Annotations} (h : s.Accepted notes)
    {x : Path × Func} (hx : x ∈ s.functions) {name : String} {slots : List (String × String)}
    (hslots : (s.generator notes).funcSlots x.1 x.2 = .ok (name, slots)) :
    name = Target.mangle x.2.name ∧
      (x.2.params ++ x.2.body.locals).mapM (s.generator notes).entry = .ok slots := by
  rw [Generator.funcSlots, generator, h.funcLocals _ hx, Result.ok_bind] at hslots
  obtain ⟨_, hentries, hslots⟩ := Result.bind_eq_ok_iff.mp hslots
  cases hslots
  exact ⟨rfl, hentries⟩

theorem Logged.functionSlots {notes : Annotations} (haccepted : s.Accepted notes)
    (h : s.Logged (s.generator notes) log main) {k : Nat} {path : Path} {f : Func}
    (hk : s.functions[k]? = some (path, f)) : ∃ slots,
      (log.filterMap Request.function?)[k]? = some (Target.mangle f.name, slots) ∧
      (f.params ++ f.body.locals).mapM (s.generator notes).entry = .ok slots := by
  obtain ⟨⟨name, slots⟩, hslots, hfunc⟩ := Result.getElem?_of_mapM h.functions hk
  obtain ⟨rfl, hentries⟩ := haccepted.entries_of_funcSlots (List.mem_of_getElem? hk) hfunc
  exact ⟨slots, hslots, hentries⟩

/-- Every reference of a generated program names what it resolved to: if the function around it
declares that, one parameter or local variable in the function's request; else what the log declares
outside of functions, and then no parameter or local variable around it has that name. -/
theorem generate_closed (source : Source) (session : Session) (name : String) (project : Project)
    (log : RequestLog) (hnames : source.WellNamed)
    (happly : Session.apply source {} = .ok () session)
    (hgenerate : source.generate session.notes RequestLog.renderer name [] = .ok project log) :
    ∃ g main, Generator.ofAnnotations session.notes = .ok g ∧
      log.filterMap Request.main? = [main] ∧
      ∀ path r, (path, .ref r) ∈ source.outline.nodes → ∃ d text,
        session.notes.resolve g.scopes path r = .ok d ∧ g.refCode path r = .ok text ∧
        (∀ parent p indices target, path = .root :: parent →
          (parent, .expr (.json p r indices target)) ∈ source.outline.nodes →
          g.jsonRootCode path r = .ok text) ∧
        (∀ k f, source.Encloses k f (path, .ref r) → ∃ slots,
          (log.filterMap Request.function?)[k]? = some (Target.mangle f.name, slots) ∧
          (d ∈ f.declarations → ∃ v, (d = .param v ∨ d = .localVar v) ∧ g.OneSlot v text slots) ∧
          (d ∉ f.declarations → ∀ slot ∈ slots, slot.1 ≠ text)) ∧
        ((∀ k f, source.Encloses k f (path, .ref r) → d ∉ f.declarations) →
          log.Declares main g text d) := by
  have haccepted := accepted_of_apply happly
  obtain ⟨main, hlogged⟩ := haccepted.logged hgenerate
  refine ⟨source.generator session.notes, main, haccepted.ofAnnotations, hlogged.mainFile, ?_⟩
  intro path r hr
  obtain ⟨j, item, d, hj, hitem, hd, hscope, hname, hplace⟩ := haccepted.resolves_in hr
  obtain ⟨text, htext⟩ := hlogged.lowers _ hr
  have hcode : d.code = .ok text := (Generator.refCode_eq hd hname).symm.trans htext
  refine ⟨d, text, hd, htext, ?_, ?_, ?_⟩
  · rintro parent p indices target rfl hparent
    obtain ⟨text', hjson⟩ := hlogged.lowers _ hparent
    rw [hjson, ← htext, Generator.refCode_of_jsonRootCode hjson]
  · intro k f hencloses
    obtain rfl := hencloses.item_eq hj hitem
    obtain ⟨_, hk, -⟩ := hencloses
    obtain ⟨slots, hslots, hentries⟩ := Logged.functionSlots haccepted hlogged hk
    refine ⟨slots, hslots, ?_, ?_⟩
    · intro hown
      obtain ⟨v, hv, hd⟩ := Func.exists_variable hown
      have hfunc := haccepted.clashFree.nodup_func (List.mem_of_getElem? hj)
      obtain rfl : Target.mangle v.name = text := by
        rcases hd with rfl | rfl <;> exact Except.ok.inj hcode
      exact ⟨v, hd, Generator.oneSlot_of_mem hentries hfunc hv⟩
    · intro hoff slot hslot
      obtain ⟨-, hfree⟩ := hplace.resolve_left hoff
      have hkey : slot.1 ∈ slots.map Prod.fst := List.mem_map_of_mem hslot
      rw [Generator.map_fst_entries hentries, ← Func.map_name_declarations, List.map_map,
        List.mem_map] at hkey
      obtain ⟨own, hown, hkey⟩ := hkey
      rw [← hkey]
      refine (Declaration.code_ne_mangle (mem_builtins hscope) hcode
        (hnames.isIdentifier_own hj hown) ?_).symm
      rw [hname]
      exact (hfree own hown).symm
  · intro houtside
    refine hlogged.declares haccepted.clashFree hnames ?_ hcode
    rcases hplace with hown | ⟨houter, -⟩
    · cases item with
      | func f =>
        obtain ⟨k, hencloses⟩ := encloses_of_item hj hitem
        exact absurd hown (houtside k f hencloses)
      | _ => cases hown
    · exact houter

/-- Where a parameter has the name of a global variable, the function's request declares it once. -/
theorem generate_closed_hidden_global :
    let line (n : UInt32) : Position := ⟨"main", n, 1⟩
    let a (n : UInt32) (type : String) : Variable := ⟨line n, "a", ⟨line n, type, false⟩⟩
    let cell : EnumDecl := ⟨line 1, "Cell", [⟨line 1, "Dead", "Cell"⟩]⟩
    let body : Block := ⟨line 3, [.ret (line 4) (some (.ref ⟨line 4, "a"⟩))]⟩
    let f : Func := ⟨line 3, "f", [a 3 "float"], some ⟨line 3, "float", false⟩, body⟩
    let call : Expr := .call (line 5) ⟨line 5, "f"⟩ [.ref ⟨line 5, "a"⟩]
    let print : Stmt := .print (line 5) [call, .ref ⟨line 5, "Dead"⟩]
    let source : Source :=
      ⟨line 1, [.enum cell, .globalVar (a 2 "int"), .func f, .stmt print]⟩
    ∃ session project log slots, source.WellNamed ∧ Session.apply source {} = .ok () session ∧
      source.generate session.notes RequestLog.renderer "main" [] = .ok project log ∧
      (log.filterMap Request.function?)[0]? = some ("_f", slots) ∧
      slots.filter (·.1 == "_a") = [("_a", "double")] := by
  intro line a cell body f call print source
  have hnames : source.WellNamed := by
    refine ⟨by decide +kernel, fun d c hd hc => ?_⟩
    obtain rfl : d = cell := by simpa [source] using hd
    obtain rfl : c = ⟨line 1, "Dead", "Cell"⟩ := by simpa [cell] using hc
    rfl
  have hanswer : (source.compile RequestLog.renderer "main").answer [] =
      .ok (RequestLog.placeholder 4) := by decide +kernel
  obtain ⟨log, hcompile⟩ := Pass.answer_eq_ok_iff.mp hanswer
  obtain ⟨session, project, hsession, hgenerate, -⟩ := generate_of_compile hcompile
  have haccepted := accepted_of_apply hsession
  obtain ⟨g, main, hg, -, hrefs⟩ :=
    source.generate_closed session "main" project log hnames hsession hgenerate
  obtain rfl : source.generator session.notes = g :=
    Except.ok.inj (haccepted.ofAnnotations.symm.trans hg)
  have hmem : ([.value, .stmt 0, .body, .item 2], Node.ref ⟨line 4, "a"⟩) ∈
      (f.outline [.item 2]).nodes := by
    simp [f, body, Func.outline, Outline.numbered, Variable.outline, Block.outline, Stmt.outlines,
      Stmt.outline, Expr.outline, Ref.outline, TypeRef.outline]
  have hitem : source.items[2]? = some (.func f) := rfl
  have hresolve := haccepted.resolve_eq hitem hmem
  obtain ⟨d, text, hd, htext, -, hfunc, -⟩ := hrefs _ _ (mem_nodes_of_item hitem hmem)
  obtain rfl : .param (a 3 "float") = d := Except.ok.inj (hresolve.symm.trans hd)
  rw [Generator.refCode_eq hd rfl] at htext
  cases htext
  obtain ⟨slots, hslots, hown, -⟩ := hfunc 0 f ⟨[.item 2], rfl, hmem⟩
  obtain ⟨v, hv, code, hcode, hslot⟩ := hown (by simp [f, Func.declarations])
  obtain rfl : a 3 "float" = v := by simpa using hv
  cases hcode
  exact ⟨session, project, log, slots, hnames, hsession, hgenerate, hslots, hslot⟩

end Source

end SimCompiler
