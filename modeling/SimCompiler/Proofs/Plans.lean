import Mathlib.Data.List.OfFn
import SimCompiler.Emit.Generator
import SimCompiler.Proofs.Paths

/-!
# Generation as a plan

What the generator asks of a template engine depends on the engine only through the texts that it
passes on. A plan says the same without an engine: it is a tree with one request for each node,
which waits for the texts of the nodes below it. Running the plan of a program with an engine is
generating the program with that engine, so what holds of every run of every plan holds of every
generated program.
-/
namespace SimCompiler

namespace Request

/-- The parameters that are texts of other requests. -/
def parts : Request → List String
  | .ifStmt _ stmts elifs otherwise _ => stmts ++ elifs ++ otherwise.toList
  | .elifSection _ stmts _ | .elseSection stmts _ | .function _ _ stmts _ => stmts
  | .mainFile enums _ decls _ _ stmts => enums ++ decls ++ stmts
  | _ => []

/-- Changes the texts of other requests and nothing else. -/
def mapParts (f : String → String) : Request → Request
  | .ifStmt condition stmts elifs otherwise position =>
    .ifStmt condition (stmts.map f) (elifs.map f) (otherwise.map f) position
  | .elifSection condition stmts position => .elifSection condition (stmts.map f) position
  | .elseSection stmts position => .elseSection (stmts.map f) position
  | .function prototype locals stmts position =>
    .function prototype locals (stmts.map f) position
  | .mainFile enums prototypes decls globals locals stmts =>
    .mainFile (enums.map f) prototypes (decls.map f) globals locals (stmts.map f)
  | request => request

/-- The request without the texts of other requests. -/
def bare : Request → Request
  | .ifStmt condition _ _ _ position => .ifStmt condition [] [] none position
  | .elifSection condition _ position => .elifSection condition [] position
  | .elseSection _ position => .elseSection [] position
  | .function prototype locals _ position => .function prototype locals [] position
  | .mainFile _ prototypes _ globals locals _ => .mainFile [] prototypes [] globals locals []
  | request => request

theorem bare_eq_self {r : Request} (h : r.parts = []) : r.bare = r := by
  cases r <;> simp_all [parts, bare]

theorem mapParts_eq_self {r : Request} (h : r.parts = []) (f : String → String) :
    r.mapParts f = r := by
  cases r <;> simp_all [parts, mapParts]

theorem mapParts_congr {r : Request} {f g : String → String}
    (h : ∀ text ∈ r.parts, f text = g text) : r.mapParts f = r.mapParts g := by
  cases r <;> simp_all [parts, mapParts]
  case ifStmt condition stmts elifs otherwise position =>
    cases otherwise <;> simp_all

theorem template_mapParts (f : String → String) (r : Request) :
    (r.mapParts f).template = r.template := by
  cases r <;> rfl

end Request

/-- A request that waits for `n` texts. It uses each of them once and does not look into them. -/
structure Form (n : Nat) where
  head : Request
  fill : List String → Request
  bare_fill : ∀ texts, (fill texts).bare = head
  parts_fill : ∀ texts, texts.length = n → (fill texts).parts.Perm texts
  mapParts_fill : ∀ f texts, (fill texts).mapParts f = fill (texts.map f)

namespace Form

/-- A request that waits for nothing. -/
def closed (r : Request) (h : r.parts = []) : Form 0 where
  head := r
  fill _ := r
  bare_fill _ := Request.bare_eq_self h
  parts_fill texts htexts := by
    rw [h, List.length_eq_zero_iff.mp htexts]
  mapParts_fill f _ := Request.mapParts_eq_self h f

variable {n : Nat}

/-- A conditional without an else branch; the first `k` texts are those of its block. -/
def cond (condition : String) (k : Nat) (position : Position) : Form n where
  head := .ifStmt condition [] [] none position
  fill texts := .ifStmt condition (texts.take k) (texts.drop k) none position
  bare_fill _ := rfl
  parts_fill texts _ := by simp [Request.parts]
  mapParts_fill f texts := by simp [Request.mapParts, List.map_take, List.map_drop]

/-- A conditional with an else branch, whose text comes last. -/
def condElse (condition : String) (k : Nat) (position : Position) : Form n where
  head := .ifStmt condition [] [] none position
  fill texts :=
    .ifStmt condition (texts.take k) (texts.drop k).dropLast (texts.drop k).getLast? position
  bare_fill _ := rfl
  parts_fill texts _ := by
    have hlast : (texts.drop k).dropLast ++ (texts.drop k).getLast?.toList = texts.drop k := by
      cases h : (texts.drop k).getLast? with
      | none => simp [List.getLast?_eq_none_iff.mp h]
      | some text => exact List.dropLast_append_getLast? text h
    rw [Request.parts, List.append_assoc, hlast, List.take_append_drop]
  mapParts_fill f texts := by
    simp only [Request.mapParts, ← List.map_take, ← List.map_drop, List.map_dropLast,
      List.getLast?_map]

def elif (condition : String) (position : Position) : Form n where
  head := .elifSection condition [] position
  fill texts := .elifSection condition texts position
  bare_fill _ := rfl
  parts_fill _ _ := .refl _
  mapParts_fill _ _ := rfl

def elseSection (position : Position) : Form n where
  head := .elseSection [] position
  fill texts := .elseSection texts position
  bare_fill _ := rfl
  parts_fill _ _ := .refl _
  mapParts_fill _ _ := rfl

def function (prototype : Prototype) (locals : List VariableSlot) (position : Position) :
    Form n where
  head := .function prototype locals [] position
  fill texts := .function prototype locals texts position
  bare_fill _ := rfl
  parts_fill _ _ := .refl _
  mapParts_fill _ _ := rfl

end Form

namespace Generator.Sections

/-- Sorts the texts of items by the kind of the item. -/
def sort : List Item → List String → Sections
  | [], texts => { stmts := texts }
  | .globalVar _ :: items, texts => sort items texts
  | _ :: _, [] => {}
  | .enum _ :: items, text :: texts =>
    { sort items texts with enums := text :: (sort items texts).enums }
  | .func _ :: items, text :: texts =>
    { sort items texts with decls := text :: (sort items texts).decls }
  | .stmt _ :: items, text :: texts =>
    { sort items texts with stmts := text :: (sort items texts).stmts }

theorem perm_sort (items : List Item) (texts : List String) :
    ((sort items texts).enums ++ (sort items texts).decls ++ (sort items texts).stmts).Perm
      texts := by
  fun_induction sort items texts with
  | case1 texts => simp
  | case2 v items texts ih => exact ih
  | case3 => simp
  | case4 d items text texts rest ih => exact ih.cons text
  | case5 f items text texts rest ih =>
    rw [List.append_assoc] at ih ⊢
    exact List.perm_middle.trans (ih.cons text)
  | case6 st items text texts rest ih => exact List.perm_middle.trans (ih.cons text)

theorem sort_map (f : String → String) (items : List Item) (texts : List String) :
    (sort items (texts.map f)).enums = (sort items texts).enums.map f ∧
      (sort items (texts.map f)).decls = (sort items texts).decls.map f ∧
      (sort items (texts.map f)).stmts = (sort items texts).stmts.map f := by
  fun_induction sort items texts with
  | case1 texts => simp [sort]
  | case2 v items texts ih => exact ih
  | case3 item items hitem => cases item <;> simp_all [sort]
  | case4 d items text texts rest ih => simp [sort, ih, rest]
  | case5 g items text texts rest ih => simp [sort, ih, rest]
  | case6 st items text texts rest ih => simp [sort, ih, rest]

end Generator.Sections

/-- The main file of a program with `items`. -/
def Form.mainFile {n : Nat} (items : List Item) (prototypes : List Prototype)
    (globals locals : List VariableSlot) : Form n where
  head := .mainFile [] prototypes [] globals locals []
  fill texts :=
    let sections := Generator.Sections.sort items texts
    .mainFile sections.enums prototypes sections.decls globals locals sections.stmts
  bare_fill _ := rfl
  parts_fill texts _ := Generator.Sections.perm_sort items texts
  mapParts_fill f texts := by
    obtain ⟨henums, hdecls, hstmts⟩ := Generator.Sections.sort_map f items texts
    simp only [Request.mapParts, henums, hdecls, hstmts]

/-- Runs passes one after another and collects what they answer. -/
def Pass.collect : List (Pass σ α) → Pass σ (List α)
  | [] => pure []
  | x :: xs => do
    let first ← x
    let rest ← collect xs
    return first :: rest

namespace Pass

theorem ofResult_bind (r : Result α) (f : α → Result β) :
    (ofResult (r >>= f) : Pass σ β) = ofResult r >>= fun a => ofResult (f a) := by
  cases r <;> rfl

theorem collect_append (xs ys : List (Pass σ α)) :
    collect (xs ++ ys) = (do
      let first ← collect xs
      let rest ← collect ys
      return first ++ rest) := by
  induction xs with
  | nil => simp [collect]
  | cons x xs ih => simp [collect, ih]

theorem length_of_collect {xs : List (Pass σ α)} {s s' : σ} {as : List α}
    (h : collect xs s = .ok as s') : as.length = xs.length := by
  induction xs generalizing s as with
  | nil =>
    cases h
    rfl
  | cons x xs ih =>
    obtain ⟨first, s₁, -, h⟩ := bind_eq_ok_iff.mp h
    obtain ⟨rest, s₂, hrest, h⟩ := bind_eq_ok_iff.mp h
    cases h
    rw [List.length_cons, ih hrest, List.length_cons]

/-- What follows a collection may count on the number of answers. -/
theorem collect_bind_congr {xs : List (Pass σ α)} {f g : List α → Pass σ β}
    (h : ∀ as, as.length = xs.length → f as = g as) : collect xs >>= f = collect xs >>= g := by
  funext s
  rw [run_bind, run_bind]
  cases hrun : collect xs s with
  | error e s' => rfl
  | ok as s' => simp only [h as (length_of_collect hrun)]

end Pass

/-- A tree of requests. The request of a node is made after those of its parts, unless the node is
where generation stops. -/
inductive Plan where
  | mk {n : Nat} (form : Result (Form n)) (parts : Fin n → Plan)

namespace Plan

def run (engine : Renderer σ) : Plan → Pass σ String
  | ⟨form, parts⟩ => do
    let texts ← Pass.collect (List.ofFn fun i => (parts i).run engine)
    let form ← Pass.ofResult form
    Generator.ask engine (form.fill texts)

/-- The requests in the order in which they are made, without the texts of their parts. -/
def heads : Plan → List (Result Request)
  | ⟨form, parts⟩ => (List.ofFn fun i => (parts i).heads).flatten ++ [form.map (·.head)]

def node (parts : List Plan) (form : Result (Form parts.length)) : Plan := ⟨form, parts.get⟩

def leaf (form : Result (Form 0)) : Plan := node [] form

/-- Generation stops here. -/
def stop (e : CompileError) : Plan := leaf (.error e)

/-- The plan that `f` makes of what is computed first. -/
def after (r : Result α) (f : α → Plan) : Plan :=
  match r with
  | .ok a => f a
  | .error e => stop e

/-- Every plan is a node with a list of parts. -/
@[elab_as_elim]
theorem induction {motive : Plan → Prop}
    (node : ∀ parts form, (∀ p ∈ parts, motive p) → motive (node parts form)) :
    ∀ p, motive p := by
  intro p
  induction p with
  | @mk n form parts ih =>
    obtain ⟨ps, hlength, hparts⟩ : ∃ ps : List Plan, ∃ h : ps.length = n,
        parts = fun i => ps.get (i.cast h.symm) :=
      ⟨List.ofFn parts, List.length_ofFn, by simp⟩
    subst hlength
    subst hparts
    refine node ps form fun p hp => ?_
    obtain ⟨i, rfl⟩ := List.mem_iff_get.mp hp
    exact ih i

theorem run_node (engine : Renderer σ) (parts : List Plan) (form : Result (Form parts.length)) :
    (node parts form).run engine = (do
      let texts ← Pass.collect (parts.map (·.run engine))
      let form ← Pass.ofResult form
      Generator.ask engine (form.fill texts)) := by
  have hparts : List.ofFn (run engine ∘ parts.get) = parts.map (run engine) := by
    rw [← List.map_ofFn, List.ofFn_get]
  rw [node, run, ← hparts]
  rfl

theorem heads_node (parts : List Plan) (form : Result (Form parts.length)) :
    (node parts form).heads = parts.flatMap (·.heads) ++ [form.map (·.head)] := by
  have hparts : List.ofFn (heads ∘ parts.get) = parts.map heads := by
    rw [← List.map_ofFn, List.ofFn_get]
  rw [List.flatMap_def, ← hparts]
  rfl

theorem run_leaf (engine : Renderer σ) (form : Result (Form 0)) :
    (leaf form).run engine = (do
      let form ← Pass.ofResult form
      Generator.ask engine (form.fill [])) := by
  rw [leaf, run_node]
  exact pure_bind _ _

theorem run_after (engine : Renderer σ) (r : Result α) (f : α → Plan) :
    (after r f).run engine = Pass.ofResult r >>= fun a => (f a).run engine := by
  cases r with
  | ok a => rfl
  | error e => exact run_leaf engine _

end Plan

namespace Generator

variable (g : Generator)

mutual

/-- The plan of the statement at `path`. -/
def stmtPlan (path : Path) : Stmt → Plan
  | .pass p => .leaf (.ok (.closed (.passStmt p) rfl))
  | .assign p target value _ => .leaf (do
    let target ← g.refCode (.target :: path) target
    let value ← g.exprCode (.value :: path) value
    return .closed (.assignmentStmt target value p) rfl)
  | .update p target op value => .leaf (do
    let target ← g.refCode (.target :: path) target
    let value ← g.exprCode (.value :: path) value
    return .closed (.updateStmt target op value p) rfl)
  | .print p args => .leaf (do
    let args ← g.exprCodes path 0 args
    return .closed (.printStmt (printFormat args.length) args p) rfl)
  | .ret p none => .leaf (.ok (.closed (.returnStmt none p) rfl))
  | .ret p (some value) => .leaf (do
    let value ← g.exprCode (.value :: path) value
    return .closed (.returnStmt (some value) p) rfl)
  | .cond p condition block elifs none =>
    .after (g.exprCode (.condition :: path) condition) fun condition =>
      .node (blockPlans (.block :: path) block ++ elifPlans path 0 elifs)
        (.ok (.cond condition (blockPlans (.block :: path) block).length p))
  | .cond p condition block elifs (some otherwise) =>
    .after (g.exprCode (.condition :: path) condition) fun condition =>
      .node (blockPlans (.block :: path) block ++
          (elifPlans path 0 elifs ++ [elsePlan (.otherwise :: path) otherwise]))
        (.ok (.condElse condition (blockPlans (.block :: path) block).length p))

def stmtPlans (path : Path) (i : Nat) : List Stmt → List Plan
  | [] => []
  | s :: ss => stmtPlan (.stmt i :: path) s :: stmtPlans path (i + 1) ss

def blockPlans (path : Path) : Block → List Plan
  | ⟨_, ss⟩ => stmtPlans path 0 ss

def elifPlan (path : Path) : Elif → Plan
  | ⟨p, condition, block⟩ =>
    .after (g.exprCode (.condition :: path) condition) fun condition =>
      .node (blockPlans (.block :: path) block) (.ok (.elif condition p))

def elifPlans (path : Path) (i : Nat) : List Elif → List Plan
  | [] => []
  | e :: es => elifPlan (.elif i :: path) e :: elifPlans path (i + 1) es

def elsePlan (path : Path) : Else → Plan
  | ⟨p, block⟩ => .node (blockPlans (.block :: path) block) (.ok (.elseSection p))

end

def funcPlan (path : Path) (f : Func) : Plan :=
  .after (do
    let prototype ← g.prototype f
    let locals ← (← g.notes.readFuncLocals path).mapM g.variableSlot
    return (prototype, locals)) fun (prototype, locals) =>
      .node (g.blockPlans (.body :: path) f.body) (.ok (.function prototype locals f.position))

def enumPlan (d : EnumDecl) : Plan :=
  .leaf (.ok (.closed
    (.enumDecl (Target.mangle d.name) (d.constants.map (Target.mangle ·.name)) d.position) rfl))

/-- The plans of items, numbered from `i`. A global variable is no request, but its type may have no
spelling. -/
def itemPlans (i : Nat) : List Item → List Plan
  | [] => []
  | .globalVar v :: items =>
    match g.variableSlot v with
    | .ok _ => itemPlans (i + 1) items
    | .error e => .stop e :: itemPlans (i + 1) items
  | .enum d :: items => enumPlan d :: itemPlans (i + 1) items
  | .func f :: items => g.funcPlan [.item i] f :: itemPlans (i + 1) items
  | .stmt s :: items => g.stmtPlan [.item i] s :: itemPlans (i + 1) items

end Generator

/-- The global variables among `items`. -/
def Source.globalsIn (items : List Item) : List Variable :=
  items.filterMap fun
    | .globalVar v => some v
    | _ => none

/-- The plan of the main file. -/
def Generator.programPlan (g : Generator) (source : Source) : Plan :=
  .after (source.functions.mapM fun x => g.prototype x.2) fun prototypes =>
    .node (g.itemPlans 0 source.items) (do
      let globals ← (Source.globalsIn source.items).mapM g.variableSlot
      let locals ← (← g.notes.readProgramLocals).mapM g.variableSlot
      return .mainFile source.items prototypes globals locals)

namespace Generator

variable (g : Generator) (engine : Renderer σ)

theorem stmts_eq_collect {ss : List Stmt}
    (ih : ∀ s ∈ ss, ∀ path, g.stmt engine path s = (g.stmtPlan path s).run engine) (path : Path)
    (i : Nat) :
    g.stmts engine path i ss = Pass.collect ((g.stmtPlans path i ss).map (·.run engine)) := by
  induction ss generalizing i with
  | nil => rw [stmts, stmtPlans]; rfl
  | cons s ss ihss =>
    rw [stmts, stmtPlans, ih s (by simp), ihss fun s hs => ih s (by simp [hs])]
    rfl

theorem block_eq_collect {b : Block}
    (ih : ∀ s ∈ b.stmts, ∀ path, g.stmt engine path s = (g.stmtPlan path s).run engine)
    (path : Path) :
    g.block engine path b = Pass.collect ((g.blockPlans path b).map (·.run engine)) := by
  obtain ⟨p, ss⟩ := b
  rw [block, blockPlans, stmts_eq_collect g engine ih]

theorem elif_eq_run {e : Elif}
    (ih : ∀ s ∈ e.block.stmts, ∀ path, g.stmt engine path s = (g.stmtPlan path s).run engine)
    (path : Path) : g.elif engine path e = (g.elifPlan path e).run engine := by
  obtain ⟨p, condition, b⟩ := e
  rw [elif, elifPlan, Plan.run_after]
  simp only [Plan.run_node, block_eq_collect g engine ih]
  rfl

theorem elifs_eq_collect {es : List Elif}
    (ih : ∀ e ∈ es, ∀ path, g.elif engine path e = (g.elifPlan path e).run engine) (path : Path)
    (i : Nat) :
    g.elifs engine path i es = Pass.collect ((g.elifPlans path i es).map (·.run engine)) := by
  induction es generalizing i with
  | nil => rw [elifs, elifPlans]; rfl
  | cons e es ihes =>
    rw [elifs, elifPlans, ih e (by simp), ihes fun e he => ih e (by simp [he])]
    rfl

theorem elseSection_eq_run {e : Else}
    (ih : ∀ s ∈ e.block.stmts, ∀ path, g.stmt engine path s = (g.stmtPlan path s).run engine)
    (path : Path) : g.elseSection engine path e = (g.elsePlan path e).run engine := by
  obtain ⟨p, b⟩ := e
  rw [elseSection, elsePlan, Plan.run_node, block_eq_collect g engine ih]
  rfl

theorem stmt_eq_run (s : Stmt) : ∀ path, g.stmt engine path s = (g.stmtPlan path s).run engine := by
  induction s using Stmt.induction with
  | pass p =>
    intro path
    rw [stmt, stmtPlan, Plan.run_leaf]
    rfl
  | assign p target value declared | update p target op value | print p args =>
    intro path
    rw [stmt, stmtPlan, Plan.run_leaf]
    simp only [Pass.ofResult_bind, bind_assoc]
    rfl
  | ret p value =>
    intro path
    cases value with
    | none =>
      rw [stmt, stmtPlan, Plan.run_leaf]
      rfl
    | some value =>
      rw [stmt, stmtPlan, Plan.run_leaf]
      simp only [Pass.ofResult_bind, bind_assoc]
      rfl
  | cond p condition b elifs otherwise ihb ihelifs ihelse =>
    intro path
    have hblock := block_eq_collect g engine ihb (.block :: path)
    have helifs := elifs_eq_collect g engine
      (fun e he => elif_eq_run g engine (ihelifs e he)) path 0
    cases otherwise with
    | none =>
      rw [stmt, stmtPlan, Plan.run_after, hblock, helifs]
      simp only [Plan.run_node, List.map_append, Pass.collect_append, bind_assoc]
      refine congrArg _ (funext fun condition => Pass.collect_bind_congr fun stmts hstmts => ?_)
      rw [List.length_map] at hstmts
      refine congrArg _ (funext fun texts => ?_)
      simp [Pass.ofResult, Form.cond, ← hstmts]
    | some e =>
      have helse := elseSection_eq_run g engine (ihelse e rfl) (.otherwise :: path)
      rw [stmt, stmtPlan, Plan.run_after, hblock, helifs, helse]
      simp only [Plan.run_node, List.map_append, Pass.collect_append, bind_assoc]
      refine congrArg _ (funext fun condition => Pass.collect_bind_congr fun stmts hstmts => ?_)
      rw [List.length_map] at hstmts
      refine congrArg _ (funext fun texts => ?_)
      simp [Pass.ofResult, Form.condElse, Pass.collect, ← hstmts]

theorem func_eq_run (path : Path) (f : Func) :
    g.func engine path f = (g.funcPlan path f).run engine := by
  rw [func, funcPlan, Plan.run_after, block_eq_collect g engine fun s _ => stmt_eq_run g engine s]
  simp only [Pass.ofResult_bind, bind_assoc, Plan.run_node]
  rfl

/-- The sections of `done`, each followed by that of `more`. -/
def Sections.append (done more : Sections) : Sections :=
  ⟨done.enums ++ more.enums, done.decls ++ more.decls, done.globals ++ more.globals,
    done.stmts ++ more.stmts⟩

theorem items_eq_collect (items : List Item) (i : Nat) (done : Sections) :
    g.items engine i done items = (do
      let texts ← Pass.collect ((g.itemPlans i items).map (·.run engine))
      let globals ← Pass.ofResult ((Source.globalsIn items).mapM g.variableSlot)
      return done.append { Sections.sort items texts with globals }) := by
  induction items generalizing i done with
  | nil =>
    rw [Generator.items]
    change pure done = pure (done.append {})
    simp [Sections.append]
  | cons item items ih =>
    cases item with
    | globalVar v =>
      rw [Generator.items, itemPlans, Source.globalsIn, List.filterMap_cons]
      cases hslot : g.variableSlot v with
      | error e =>
        simp only [List.map_cons, Pass.collect, Plan.stop, Plan.run_leaf]
        rfl
      | ok slot =>
        simp only [ih, List.mapM_cons, hslot, Result.ok_bind, Pass.ofResult_bind, bind_assoc,
          Pass.ofResult_ok_bind]
        refine congrArg _ (funext fun texts => congrArg _ (funext fun globals => ?_))
        simp [Sections.append, Sections.sort, Pass.ofResult]
    | enum d =>
      have hrun : enumDecl engine d = (enumPlan d).run engine := by
        rw [enumDecl, enumPlan, Plan.run_leaf]
        rfl
      simp only [Generator.items, itemPlans, List.map_cons, Pass.collect, hrun, ih, bind_assoc,
        pure_bind]
      refine congrArg _ (funext fun text => congrArg _ (funext fun texts => ?_))
      simp [Sections.append, Sections.sort, Source.globalsIn]
    | func f =>
      simp only [Generator.items, itemPlans, List.map_cons, Pass.collect, func_eq_run, ih,
        bind_assoc, pure_bind]
      refine congrArg _ (funext fun text => congrArg _ (funext fun texts => ?_))
      simp [Sections.append, Sections.sort, Source.globalsIn]
    | stmt s =>
      simp only [Generator.items, itemPlans, List.map_cons, Pass.collect, stmt_eq_run, ih,
        bind_assoc, pure_bind]
      refine congrArg _ (funext fun text => congrArg _ (funext fun texts => ?_))
      simp [Sections.append, Sections.sort, Source.globalsIn]

theorem program_eq_run (source : Source) :
    g.program engine source = (g.programPlan source).run engine := by
  rw [program, programPlan, Plan.run_after]
  simp only [items_eq_collect, Plan.run_node, Pass.ofResult_bind, bind_assoc, pure_bind]
  rfl

end Generator

end SimCompiler
