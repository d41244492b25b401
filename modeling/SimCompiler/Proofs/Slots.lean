import SimCompiler.Proofs.Generation
import SimCompiler.Proofs.Lowering

/-!
# The slots of a request log

What a generated program declares, read off its log: the parameters and local variables of each
function, the constants of each enumeration, and the prototypes, global variables and local
variables of the main file. Each of these parts is put together from another part of the analysed
program.
-/
namespace SimCompiler

namespace Result

/-- If each answer of `f` can be turned into one of `f'`, then so can a list of answers. -/
theorem mapM_map {f : α → Result β} {f' : α → Result γ} {k : β → γ}
    (hf : ∀ a b, f a = .ok b → f' a = .ok (k b)) {as : List α} {bs : List β}
    (h : as.mapM f = .ok bs) : as.mapM f' = .ok (bs.map k) := by
  induction as generalizing bs with
  | nil =>
    cases h
    rfl
  | cons a as ih =>
    rw [List.mapM_cons] at h
    obtain ⟨b, hb, h⟩ := bind_eq_ok_iff.mp h
    obtain ⟨rest, hrest, h⟩ := bind_eq_ok_iff.mp h
    cases h
    rw [List.mapM_cons, hf a b hb, ok_bind, ih hrest]
    rfl

theorem getElem?_of_mapM {f : α → Result β} {as : List α} {bs : List β} (h : as.mapM f = .ok bs)
    {k : Nat} {a : α} (hk : as[k]? = some a) : ∃ b, bs[k]? = some b ∧ f a = .ok b := by
  induction as generalizing bs k with
  | nil => simp at hk
  | cons first as ih =>
    rw [List.mapM_cons] at h
    obtain ⟨b, hb, h⟩ := bind_eq_ok_iff.mp h
    obtain ⟨rest, hrest, h⟩ := bind_eq_ok_iff.mp h
    cases h
    cases k with
    | zero =>
      cases hk
      exact ⟨b, rfl, hb⟩
    | succ k => exact ih hrest hk

end Result

/-- The name and the type of a slot. -/
def VariableSlot.entry (v : VariableSlot) : String × String := (v.name, v.type)

@[inherit_doc VariableSlot.entry]
def ParamSlot.entry (p : ParamSlot) : String × String := (p.name, p.type)

/-- What the main file declares. -/
structure MainSlots where
  prototypes : List Prototype
  globals : List (String × String)
  locals : List (String × String)

namespace Request

/-- The requests that a statement is made of. They declare nothing. -/
def isStmt : Request → Bool
  | .enumDecl .. | .function .. | .mainFile .. | .buildFile .. => false
  | _ => true

/-- The name of the function that the request defines, and its parameters and local variables. -/
def function? : Request → Option (String × List (String × String))
  | .function prototype locals _ _ =>
    some (prototype.name, prototype.params.map (·.entry) ++ locals.map (·.entry))
  | _ => none

/-- The name of the enumeration that the request defines, and its constants. -/
def enum? : Request → Option (String × List String)
  | .enumDecl name constants _ => some (name, constants)
  | _ => none

def main? : Request → Option MainSlots
  | .mainFile _ prototypes _ globals locals _ =>
    some ⟨prototypes, globals.map (·.entry), locals.map (·.entry)⟩
  | _ => none

/-- `v` neither looks into texts of other requests nor at the requests of statements. -/
structure View (v : Request → Option α) : Prop where
  bare : ∀ r, v r.bare = v r
  stmt : ∀ r, r.isStmt = true → v r = none

theorem view_function : View function? :=
  ⟨fun r => by cases r <;> rfl, fun r hr => by cases r <;> first | rfl | cases hr⟩

theorem view_enum : View enum? :=
  ⟨fun r => by cases r <;> rfl, fun r hr => by cases r <;> first | rfl | cases hr⟩

theorem view_main : View main? :=
  ⟨fun r => by cases r <;> rfl, fun r hr => by cases r <;> first | rfl | cases hr⟩

end Request

/-- What `v` sees of the heads of a plan. -/
def Plan.seen (v : Request → Option α) (heads : List (Result Request)) : List α :=
  heads.filterMap fun h => h.toOption.bind v

namespace Plan

variable {v : Request → Option α}

@[simp] theorem seen_nil : seen v [] = [] := rfl

@[simp] theorem seen_append (hs hs' : List (Result Request)) :
    seen v (hs ++ hs') = seen v hs ++ seen v hs' := by
  simp [seen]

@[simp] theorem seen_singleton (r : Request) : seen v [.ok r] = (v r).toList := by
  cases h : v r <;> simp [seen, Except.toOption, h]

/-- What `v` sees of a plan is what it sees of the requests that the plan makes. -/
theorem seen_of_grows (hv : ∀ r : Request, v r.bare = v r) {log : RequestLog}
    {heads : List (Result Request)} {texts : List String} {new : List Request}
    (h : RequestLog.Grows log heads texts new) : new.filterMap v = seen v heads := by
  rw [h.heads, seen, List.filterMap_map]
  exact List.filterMap_congr fun r _ => (hv r).symm

/-- The plan makes requests of statements only. -/
def Silent (p : Plan) : Prop := ∀ h ∈ p.heads, ∀ r, h = .ok r → r.isStmt = true

theorem Silent.seen (hv : Request.View v) {p : Plan} (h : p.Silent) : Plan.seen v p.heads = [] := by
  refine List.filterMap_eq_nil_iff.mpr fun head hhead => ?_
  cases head with
  | error e => rfl
  | ok r => exact hv.stmt r (h _ hhead r rfl)

theorem silent_node {parts : List Plan} {form : Result (Form parts.length)}
    (hparts : ∀ p ∈ parts, p.Silent) (hform : ∀ f, form = .ok f → f.head.isStmt = true) :
    (node parts form).Silent := by
  intro h hh r hr
  rw [heads_node, List.mem_append, List.mem_flatMap, List.mem_singleton] at hh
  rcases hh with ⟨p, hp, hh⟩ | rfl
  · exact hparts p hp h hh r hr
  · cases form with
    | error e => cases hr
    | ok f =>
      cases hr
      exact hform f rfl

theorem silent_leaf {form : Result (Form 0)} (h : ∀ f, form = .ok f → f.head.isStmt = true) :
    (leaf form).Silent :=
  silent_node (by simp) h

theorem silent_after {r : Result α} {f : α → Plan} (h : ∀ a, (f a).Silent) :
    (after r f).Silent := by
  cases r with
  | ok a => exact h a
  | error e => exact silent_leaf (by simp)

end Plan

namespace Generator

variable (g : Generator)

theorem silent_block {b : Block} (ih : ∀ s ∈ b.stmts, ∀ path, (g.stmtPlan path s).Silent)
    (path : Path) : ∀ p ∈ g.blockPlans path b, p.Silent := by
  obtain ⟨p, ss⟩ := b
  have hstmts : ∀ (ss : List Stmt) (i : Nat), (∀ s ∈ ss, ∀ path, (g.stmtPlan path s).Silent) →
      ∀ p ∈ g.stmtPlans path i ss, p.Silent := by
    intro ss
    induction ss with
    | nil => simp [stmtPlans]
    | cons s ss ihss =>
      intro i ih
      rw [stmtPlans, List.forall_mem_cons]
      exact ⟨ih s (by simp) _, ihss (i + 1) fun s hs => ih s (by simp [hs])⟩
  rw [blockPlans]
  exact hstmts ss 0 ih

theorem silent_elif {e : Elif} (ih : ∀ s ∈ e.block.stmts, ∀ path, (g.stmtPlan path s).Silent)
    (path : Path) : (g.elifPlan path e).Silent := by
  obtain ⟨p, condition, b⟩ := e
  rw [elifPlan]
  refine Plan.silent_after fun code => Plan.silent_node (silent_block g ih _) ?_
  rintro f ⟨⟩
  rfl

theorem silent_elifs {es : List Elif}
    (ih : ∀ e ∈ es, ∀ s ∈ e.block.stmts, ∀ path, (g.stmtPlan path s).Silent) (path : Path)
    (i : Nat) : ∀ p ∈ g.elifPlans path i es, p.Silent := by
  induction es generalizing i with
  | nil => simp [elifPlans]
  | cons e es ihes =>
    rw [elifPlans, List.forall_mem_cons]
    exact ⟨silent_elif g (ih e (by simp)) _, ihes (fun e he => ih e (by simp [he])) (i + 1)⟩

theorem silent_else {e : Else} (ih : ∀ s ∈ e.block.stmts, ∀ path, (g.stmtPlan path s).Silent)
    (path : Path) : (g.elsePlan path e).Silent := by
  obtain ⟨p, b⟩ := e
  rw [elsePlan]
  refine Plan.silent_node (silent_block g ih _) ?_
  rintro f ⟨⟩
  rfl

theorem silent_stmt (s : Stmt) : ∀ path, (g.stmtPlan path s).Silent := by
  induction s using Stmt.induction with
  | pass p =>
    intro path
    rw [stmtPlan]
    refine Plan.silent_leaf ?_
    rintro f ⟨⟩
    rfl
  | assign p target value declared | update p target op value =>
    intro path
    rw [stmtPlan]
    refine Plan.silent_leaf fun f hf => ?_
    obtain ⟨_, -, hf⟩ := Result.bind_eq_ok_iff.mp hf
    obtain ⟨_, -, hf⟩ := Result.bind_eq_ok_iff.mp hf
    cases hf
    rfl
  | print p args =>
    intro path
    rw [stmtPlan]
    refine Plan.silent_leaf fun f hf => ?_
    obtain ⟨_, -, hf⟩ := Result.bind_eq_ok_iff.mp hf
    cases hf
    rfl
  | ret p value =>
    intro path
    cases value with
    | none =>
      rw [stmtPlan]
      refine Plan.silent_leaf ?_
      rintro f ⟨⟩
      rfl
    | some value =>
      rw [stmtPlan]
      refine Plan.silent_leaf fun f hf => ?_
      obtain ⟨_, -, hf⟩ := Result.bind_eq_ok_iff.mp hf
      cases hf
      rfl
  | cond p condition b elifs otherwise ihb ihelifs ihelse =>
    intro path
    have hblock := silent_block g ihb (.block :: path)
    have helifs := silent_elifs g ihelifs path 0
    cases otherwise with
    | none =>
      rw [stmtPlan]
      refine Plan.silent_after fun code => Plan.silent_node
        (List.forall_mem_append.mpr ⟨hblock, helifs⟩) ?_
      rintro f ⟨⟩
      rfl
    | some e =>
      have helse := silent_else g (ihelse e rfl) (.otherwise :: path)
      rw [stmtPlan]
      refine Plan.silent_after fun code => Plan.silent_node (List.forall_mem_append.mpr
        ⟨hblock, List.forall_mem_append.mpr ⟨helifs, by simpa using helse⟩⟩) ?_
      rintro f ⟨⟩
      rfl

/-- The slot of a variable, without its initial value. -/
def entry (v : Variable) : Result (String × String) := do
  return (Target.mangle v.name, ← g.typeCode v.type)

/-- The name of the function at `path` with its slots. -/
def funcSlots (path : Path) (f : Func) : Result (String × List (String × String)) := do
  let locals ← g.notes.readFuncLocals path
  return (Target.mangle f.name, ← (f.params ++ locals).mapM g.entry)

variable {g}

theorem entry_of_variableSlot {v : Variable} {slot : VariableSlot}
    (h : g.variableSlot v = .ok slot) : g.entry v = .ok slot.entry := by
  obtain ⟨code, hcode, h⟩ := Result.bind_eq_ok_iff.mp h
  cases h
  rw [entry, hcode]
  rfl

theorem entry_of_paramSlot {v : Variable} {slot : ParamSlot} (h : g.paramSlot v = .ok slot) :
    g.entry v = .ok slot.entry := by
  obtain ⟨code, hcode, h⟩ := Result.bind_eq_ok_iff.mp h
  cases h
  rw [entry, hcode]
  rfl

theorem slots_of_prototype {f : Func} {prototype : Prototype} (h : g.prototype f = .ok prototype) :
    prototype.name = Target.mangle f.name ∧
      f.params.mapM g.entry = .ok (prototype.params.map (·.entry)) := by
  obtain ⟨params, hparams, h⟩ := Result.bind_eq_ok_iff.mp h
  have hprototype : ∃ type, prototype = ⟨Target.mangle f.name, params, type⟩ := by
    cases htype : f.returnType with
    | none =>
      simp only [htype] at h
      cases h
      exact ⟨_, rfl⟩
    | some t =>
      simp only [htype] at h
      obtain ⟨type, -, h⟩ := Result.bind_eq_ok_iff.mp h
      cases h
      exact ⟨type, rfl⟩
  obtain ⟨type, rfl⟩ := hprototype
  exact ⟨rfl, Result.mapM_map (fun v slot => entry_of_paramSlot) hparams⟩

/-- A function that can be generated has one request that declares anything. -/
theorem seen_funcPlan {v : Request → Option α} (hv : Request.View v) {path : Path} {f : Func}
    (h : (g.funcPlan path f).Complete) : ∃ prototype locals,
      Plan.seen v (g.funcPlan path f).heads =
        (v (.function prototype locals [] f.position)).toList ∧
      g.funcSlots path f =
        .ok (prototype.name, prototype.params.map (·.entry) ++ locals.map (·.entry)) := by
  rw [funcPlan, Plan.complete_after] at h
  obtain ⟨⟨prototype, locals⟩, hsignature, -⟩ := h
  refine ⟨prototype, locals, ?_, ?_⟩
  · have hblock : Plan.seen v ((g.blockPlans (.body :: path) f.body).flatMap (·.heads)) = [] := by
      rw [Plan.seen, List.filterMap_flatMap, List.flatMap_eq_nil_iff]
      exact fun p hp => (silent_block g (fun s _ => silent_stmt g s) _ p hp).seen hv
    rw [funcPlan, hsignature, Plan.after, Plan.heads_node, Plan.seen_append, hblock]
    exact Plan.seen_singleton _
  · obtain ⟨_, hprototype, h⟩ := Result.bind_eq_ok_iff.mp hsignature
    obtain ⟨own, hown, h⟩ := Result.bind_eq_ok_iff.mp h
    obtain ⟨_, hlocals, h⟩ := Result.bind_eq_ok_iff.mp h
    cases h
    obtain ⟨hname, hparams⟩ := slots_of_prototype hprototype
    have hown' : own.mapM g.entry = .ok (locals.map (·.entry)) :=
      Result.mapM_map (fun v slot => entry_of_variableSlot) hlocals
    rw [funcSlots, hown, Result.ok_bind, List.mapM_append, hparams, Result.ok_bind, hown', hname]
    rfl

end Generator

namespace Source

/-- The functions among `items` with their paths, where items are numbered from `i`. -/
def functionsFrom (i : Nat) (items : List Item) : List (Path × Func) :=
  (items.zipIdx i).filterMap fun
    | (.func f, i) => some ([.item i], f)
    | _ => none

/-- The enumerations among `items`. -/
def enumsIn (items : List Item) : List EnumDecl :=
  items.filterMap fun
    | .enum d => some d
    | _ => none

end Source

/-- The name of the enumeration and of its constants in the target language. -/
def EnumDecl.slots (d : EnumDecl) : String × List String :=
  (Target.mangle d.name, d.constants.map (Target.mangle ·.name))

/-- What is declared by the items of a program that can be generated. -/
theorem Generator.seen_items {g : Generator} {items : List Item} {i : Nat}
    (h : ∀ p ∈ g.itemPlans i items, p.Complete) :
    (Source.functionsFrom i items).mapM (fun x => g.funcSlots x.1 x.2) =
        .ok (Plan.seen Request.function? ((g.itemPlans i items).flatMap (·.heads))) ∧
      Plan.seen Request.enum? ((g.itemPlans i items).flatMap (·.heads)) =
        (Source.enumsIn items).map (·.slots) ∧
      Plan.seen Request.main? ((g.itemPlans i items).flatMap (·.heads)) = [] := by
  induction items generalizing i with
  | nil => exact ⟨rfl, rfl, rfl⟩
  | cons item items ih =>
    cases item with
    | globalVar v =>
      rw [itemPlans] at h ⊢
      cases hslot : g.variableSlot v with
      | ok slot =>
        simp only [hslot] at h ⊢
        exact ih h
      | error e =>
        simp only [hslot, List.forall_mem_cons] at h
        simp [Plan.stop, Plan.complete_leaf] at h
    | enum d =>
      rw [itemPlans, List.forall_mem_cons] at h
      obtain ⟨hfunctions, henums, hmain⟩ := ih h.2
      have hheads : (enumPlan d).heads = [.ok (.enumDecl d.slots.1 d.slots.2 d.position)] := rfl
      simp only [itemPlans, List.flatMap_cons, Plan.seen_append, hheads, Plan.seen_singleton]
      exact ⟨hfunctions, congrArg (d.slots :: ·) henums, hmain⟩
    | func f =>
      rw [itemPlans, List.forall_mem_cons] at h
      obtain ⟨hfunctions, henums, hmain⟩ := ih h.2
      obtain ⟨prototype, locals, hseen, hslots⟩ := seen_funcPlan Request.view_function h.1
      obtain ⟨_, _, hnoEnum, -⟩ := seen_funcPlan Request.view_enum h.1
      obtain ⟨_, _, hnoMain, -⟩ := seen_funcPlan Request.view_main h.1
      simp only [itemPlans, List.flatMap_cons, Plan.seen_append, hseen, hnoEnum, hnoMain]
      refine ⟨?_, henums, hmain⟩
      change List.mapM _ (([.item i], f) :: Source.functionsFrom (i + 1) items) = _
      rw [List.mapM_cons, hslots, Result.ok_bind, hfunctions]
      rfl
    | stmt s =>
      rw [itemPlans, List.forall_mem_cons] at h
      obtain ⟨hfunctions, henums, hmain⟩ := ih h.2
      have hsilent := silent_stmt g s [.item i]
      simp only [itemPlans, List.flatMap_cons, Plan.seen_append,
        hsilent.seen Request.view_function, hsilent.seen Request.view_enum,
        hsilent.seen Request.view_main]
      exact ⟨hfunctions, henums, hmain⟩

namespace Source

/-- What the log of a program holds. -/
structure Logged (s : Source) (g : Generator) (log : RequestLog) (main : MainSlots) : Prop where
  mainFile : log.filterMap Request.main? = [main]
  prototypes : s.functions.mapM (fun x => g.prototype x.2) = .ok main.prototypes
  globals : (globalsIn s.items).mapM g.entry = .ok main.globals
  locals : s.locals.mapM g.entry = .ok main.locals
  functions : s.functions.mapM (fun x => g.funcSlots x.1 x.2) =
    .ok (log.filterMap Request.function?)
  enums : log.filterMap Request.enum? = (enumsIn s.items).map (·.slots)
  lowers : g.Lowers s.outline.nodes

theorem Accepted.logged {s : Source} {notes : Annotations} (h : s.Accepted notes) {name : String}
    {project : Project} {log : RequestLog}
    (hrun : s.generate notes RequestLog.renderer name [] = .ok project log) :
    ∃ main, s.Logged (s.generator notes) log main := by
  obtain ⟨g, planned, hg, hplan, rfl⟩ := generate_log hrun
  obtain rfl : s.generator notes = g := Except.ok.inj (h.ofAnnotations.symm.trans hg)
  obtain ⟨prototypes, globals, own, locals, enums, decls, stmts, texts, new, hprototypes, hglobals,
    hown, hlocals, hgrows, -, rfl⟩ := Generator.program_log hplan
  obtain rfl : s.locals = own := Except.ok.inj (h.programLocals.symm.trans hown)
  have hcomplete := Plan.complete_of_grows hgrows
  obtain ⟨hfunctions, henums, hmain⟩ := Generator.seen_items hcomplete
  rw [← Plan.seen_of_grows Request.view_function.bare hgrows] at hfunctions
  rw [← Plan.seen_of_grows Request.view_enum.bare hgrows] at henums
  rw [← Plan.seen_of_grows Request.view_main.bare hgrows] at hmain
  refine ⟨⟨prototypes, globals.map (·.entry), locals.map (·.entry)⟩,
    ?_, hprototypes, ?_, ?_, ?_, ?_, ?_⟩
  · simp [hmain, Request.main?]
  · exact Result.mapM_map (fun v slot => Generator.entry_of_variableSlot) hglobals
  · exact Result.mapM_map (fun v slot => Generator.entry_of_variableSlot) hlocals
  · rw [List.filterMap_append, List.filterMap_append]
    change _ = Except.ok (_ ++ [] ++ [])
    rw [List.append_nil, List.append_nil]
    exact hfunctions
  · simp [henums, Request.enum?]
  · rw [outline, Outline.nodes_mk, Generator.lowers_cons]
    exact ⟨trivial, Generator.lowers_items hcomplete⟩

end Source

end SimCompiler
