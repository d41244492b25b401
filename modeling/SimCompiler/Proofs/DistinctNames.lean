import Mathlib.Data.List.Perm.Basic
import SimCompiler.Proofs.ClosedOutput
import SimCompiler.Proofs.Repetition

/-!
# Generated programs define each name once

The names that a request log declares side by side all differ: those of a function, those of an
enumeration, and those that the main file puts next to each other, which come from enumerations,
prototypes, global variables and local variables. The main file has one prototype for each function
of the log, in the order in which it includes the functions.
-/
namespace SimCompiler

namespace Request

/-- The prototype of the function that the request defines. -/
def prototype? : Request → Option Prototype
  | .function prototype _ _ _ => some prototype
  | _ => none

theorem view_prototype : View prototype? :=
  ⟨fun r => by cases r <;> rfl, fun r hr => by cases r <;> first | rfl | cases hr⟩

end Request

namespace RequestLog

/-- The prototypes of the functions among `requests`, each with the number of its request, where
requests are numbered from `start`. -/
def functionsFrom (start : Nat) (requests : List Request) : List (Nat × Prototype) :=
  (requests.zipIdx start).filterMap fun x => x.1.prototype?.map (x.2, ·)

/-- The prototypes of the functions of a log, each with the number of its request. -/
def functions (log : RequestLog) : List (Nat × Prototype) := functionsFrom 0 log

@[simp] theorem functionsFrom_append (start : Nat) (requests requests' : List Request) :
    functionsFrom start (requests ++ requests') =
      functionsFrom start requests ++ functionsFrom (start + requests.length) requests' := by
  simp [functionsFrom, List.zipIdx_append, List.filterMap_append]

theorem functionsFrom_eq_nil {requests : List Request}
    (h : requests.filterMap Request.prototype? = []) (start : Nat) :
    functionsFrom start requests = [] := by
  refine List.filterMap_eq_nil_iff.mpr fun x hx => ?_
  rw [List.filterMap_eq_nil_iff.mp h x.1 (List.fst_mem_of_mem_zipIdx hx)]
  rfl

theorem functions_concat (log : RequestLog) {r : Request} (hr : r.prototype? = none) :
    functions (log ++ [r]) = functions log := by
  have hnone : functionsFrom (0 + log.length) [r] = [] := functionsFrom_eq_nil (by simp [hr]) _
  rw [functions, functionsFrom_append, hnone, List.append_nil, functions]

end RequestLog

open RequestLog in
/-- A plan that defines no function adds none to the log. -/
theorem Plan.collect_functionless {p : Plan} (hp : Plan.seen Request.prototype? p.heads = [])
    {ps : List Plan} {log log' : RequestLog} {texts : List String}
    (h : Pass.collect ((p :: ps).map (·.run renderer)) log = .ok texts log') :
    ∃ text rest new, texts = text :: rest ∧ functionsFrom log.length new = [] ∧
      Pass.collect (ps.map (·.run renderer)) (log ++ new) = .ok rest log' := by
  obtain ⟨text, log₁, hrun, h⟩ := Pass.bind_eq_ok_iff.mp h
  obtain ⟨rest, log₂, hrest, h⟩ := Pass.bind_eq_ok_iff.mp h
  cases h
  obtain ⟨new, rfl, hnew⟩ := p.addsHeads log text log₁ hrun
  refine ⟨text, rest, new, rfl, functionsFrom_eq_nil ?_ _, hrest⟩
  rw [Plan.seen_of_grows Request.view_prototype.bare hnew, hp]

namespace Generator

open RequestLog

variable {g : Generator}

/-- The last request of a function is the one that defines it. -/
theorem run_funcPlan {path : Path} {f : Func} {log log' : RequestLog} {text : String}
    (h : (g.funcPlan path f).run renderer log = .ok text log') : ∃ number prototype new,
      g.prototype f = .ok prototype ∧ log' = log ++ new ∧
      functionsFrom log.length new = [(number, prototype)] ∧ text = placeholder number := by
  rw [funcPlan, Plan.run_after] at h
  obtain ⟨⟨prototype, locals⟩, _, hresult, h⟩ := Pass.bind_eq_ok_iff.mp h
  obtain ⟨hsignature, rfl⟩ := Pass.ofResult_eq_ok_iff.mp hresult
  obtain ⟨_, hprototype, hsignature⟩ := Result.bind_eq_ok_iff.mp hsignature
  obtain ⟨_, -, hsignature⟩ := Result.bind_eq_ok_iff.mp hsignature
  obtain ⟨_, -, hsignature⟩ := Result.bind_eq_ok_iff.mp hsignature
  cases hsignature
  obtain ⟨f, texts, new, hform, -, -, hnew, rfl, rfl⟩ := Plan.node_log (fun p _ => p.addsHeads) h
  cases hform
  have hbody : functionsFrom log.length new = [] := by
    refine functionsFrom_eq_nil ?_ _
    rw [Plan.seen_of_grows Request.view_prototype.bare hnew, Plan.seen, List.filterMap_flatMap,
      List.flatMap_eq_nil_iff]
    exact fun p hp => (silent_block g (fun s _ => silent_stmt g s) _ p hp).seen
      Request.view_prototype
  refine ⟨(log ++ new).length, prototype, new ++ [.function prototype locals texts _], hprototype,
    by rw [List.append_assoc]; rfl, ?_, rfl⟩
  rw [functionsFrom_append, hbody, List.length_append]
  rfl

/-- Items add their functions to the log in source order, and the main file includes them by the
numbers of their requests. -/
theorem functions_of_collect {items : List Item} {i : Nat} {log log' : RequestLog}
    {texts : List String}
    (h : Pass.collect ((g.itemPlans i items).map (·.run renderer)) log = .ok texts log') :
    ∃ new, log' = log ++ new ∧
      (Source.functionsFrom i items).mapM (fun x => g.prototype x.2) =
        .ok ((functionsFrom log.length new).map Prod.snd) ∧
      (Sections.sort items texts).decls =
        (functionsFrom log.length new).map (placeholder ·.1) := by
  induction items generalizing i log texts with
  | nil =>
    cases h
    exact ⟨[], (List.append_nil _).symm, rfl, rfl⟩
  | cons item items ih =>
    cases item with
    | globalVar v =>
      rw [itemPlans] at h
      cases hslot : g.variableSlot v with
      | ok slot =>
        simp only [hslot] at h
        exact ih h
      | error e =>
        simp only [hslot, List.map_cons] at h
        obtain ⟨_, _, hstop, -⟩ := Pass.bind_eq_ok_iff.mp h
        rw [Plan.stop, Plan.run_leaf] at hstop
        cases hstop
    | enum d =>
      rw [itemPlans] at h
      obtain ⟨text, rest, new, rfl, hnew, hrest⟩ := Plan.collect_functionless rfl h
      obtain ⟨new', rfl, hprototypes, hdecls⟩ := ih hrest
      refine ⟨new ++ new', List.append_assoc .., ?_⟩
      rw [functionsFrom_append, hnew, List.nil_append, ← List.length_append]
      exact ⟨hprototypes, hdecls⟩
    | func f =>
      rw [itemPlans, List.map_cons] at h
      obtain ⟨text, _, hrun, h⟩ := Pass.bind_eq_ok_iff.mp h
      obtain ⟨rest, _, hrest, h⟩ := Pass.bind_eq_ok_iff.mp h
      cases h
      obtain ⟨number, prototype, new, hprototype, rfl, hnew, rfl⟩ := run_funcPlan hrun
      obtain ⟨new', rfl, hprototypes, hdecls⟩ := ih hrest
      refine ⟨new ++ new', List.append_assoc .., ?_⟩
      rw [functionsFrom_append, hnew, ← List.length_append]
      refine ⟨?_, congrArg (placeholder number :: ·) hdecls⟩
      change List.mapM _ (([.item i], f) :: Source.functionsFrom (i + 1) items) = _
      rw [List.mapM_cons, hprototype, Result.ok_bind, hprototypes]
      rfl
    | stmt s =>
      rw [itemPlans] at h
      have hsilent := (silent_stmt g s [.item i]).seen Request.view_prototype
      obtain ⟨text, rest, new, rfl, hnew, hrest⟩ := Plan.collect_functionless hsilent h
      obtain ⟨new', rfl, hprototypes, hdecls⟩ := ih hrest
      refine ⟨new ++ new', List.append_assoc .., ?_⟩
      rw [functionsFrom_append, hnew, List.nil_append, ← List.length_append]
      exact ⟨hprototypes, hdecls⟩

/-- The main file of a program has the prototypes of the functions that it includes. -/
theorem functions_of_program {source : Source} {text : String} {log : RequestLog}
    (h : (g.programPlan source).run renderer [] = .ok text log) :
    ∃ requests enums prototypes decls globals locals stmts,
      log = requests ++ [.mainFile enums prototypes decls globals locals stmts] ∧
      prototypes = log.functions.map Prod.snd ∧ decls = log.functions.map (placeholder ·.1) := by
  rw [programPlan, Plan.run_after] at h
  obtain ⟨prototypes, _, hmapM, h⟩ := Pass.bind_eq_ok_iff.mp h
  obtain ⟨hprototypes, rfl⟩ := Pass.ofResult_eq_ok_iff.mp hmapM
  obtain ⟨f, texts, requests, hform, -, hcollect, -, -, rfl⟩ :=
    Plan.node_log (fun p _ => p.addsHeads) h
  obtain ⟨globals, -, hform⟩ := Result.bind_eq_ok_iff.mp hform
  obtain ⟨own, -, hform⟩ := Result.bind_eq_ok_iff.mp hform
  obtain ⟨locals, -, hform⟩ := Result.bind_eq_ok_iff.mp hform
  cases hform
  obtain ⟨_, rfl, hmain, hdecls⟩ := functions_of_collect hcollect
  cases hprototypes.symm.trans hmain
  exact ⟨requests, _, _, _, globals, locals, _, rfl,
    congrArg (List.map Prod.snd) (functions_concat requests rfl).symm,
    hdecls.trans (congrArg (List.map _) (functions_concat requests rfl).symm)⟩

end Generator

namespace Source

variable {s : Source}

/-- Nothing that is declared outside of functions has the name of something else there. -/
theorem ClashFree.nodup_outer (h : s.ClashFree) :
    ((enumsIn s.items).map (·.name) ++ (funcsIn s.items).map (·.name) ++
      (globalsIn s.items).map (·.name) ++ s.locals.map (·.name)).Nodup := by
  -- Sorted by item and not by kind, these are some of the names of the root frame.
  have hperm (a b c d : Item → List String) :
      (s.items.flatMap a ++ s.items.flatMap b ++ s.items.flatMap c ++ s.items.flatMap d).Perm
        (s.items.flatMap fun item => a item ++ b item ++ c item ++ d item) := by
    have habc := ((List.flatMap_append_perm s.items a b).append_right (s.items.flatMap c)).trans
      (List.flatMap_append_perm s.items _ c)
    exact (habc.append_right _).trans (List.flatMap_append_perm s.items _ d)
  simp only [enumsIn, funcsIn, globalsIn, locals, List.filterMap_eq_flatMap_toList,
    List.map_flatMap]
  refine (hperm _ _ _ _).nodup_iff.mpr (List.Nodup.sublist ?_ h.distinct)
  refine sublist_declarationsFrom (fun n item => ?_) 0 _
  cases item <;>
    simp [Item.declarations, Item.func?, Func.signature, Function.comp_def, Declaration.name]

theorem ClashFree.nodup_constants (h : s.ClashFree) {d : EnumDecl} (hd : d ∈ enumsIn s.items) :
    (d.constants.map (·.name)).Nodup := by
  have hall : ((enumsIn s.items).flatMap fun d => d.constants.map (·.name)).Nodup := by
    refine List.Nodup.sublist ?_ h.distinct
    rw [enumsIn, List.filterMap_eq_flatMap_toList, List.flatMap_assoc]
    refine sublist_declarationsFrom (fun n item => ?_) 0 _
    cases item <;> simp [Item.declarations, Function.comp_def, Declaration.name]
  exact (List.nodup_flatMap.mp hall).1 d hd

variable {log : RequestLog} {main : MainSlots}

theorem Logged.nodup_function {notes : Annotations} (haccepted : s.Accepted notes)
    (h : s.Logged (s.generator notes) log main) {name : String} {slots : List (String × String)}
    (hmem : (name, slots) ∈ log.filterMap Request.function?) : (slots.map Prod.fst).Nodup := by
  obtain ⟨x, hx, hslots⟩ := (Result.mem_of_mapM h.functions).mp hmem
  obtain ⟨-, hentries⟩ := haccepted.entries_of_funcSlots hx hslots
  obtain ⟨i, hi, -⟩ := mem_functions_iff.mp hx
  rw [Generator.map_fst_entries hentries]
  exact (haccepted.clashFree.nodup_func (List.mem_of_getElem? hi)).map Target.mangle_injective

theorem Logged.nodup_enum {g : Generator} (h : s.Logged g log main) (hclash : s.ClashFree)
    {name : String} {constants : List String}
    (hmem : (name, constants) ∈ log.filterMap Request.enum?) : constants.Nodup := by
  rw [h.enums, List.mem_map] at hmem
  obtain ⟨d, hd, hslots⟩ := hmem
  cases hslots
  have hmangle : d.constants.map (Target.mangle ·.name) =
      (d.constants.map (·.name)).map Target.mangle := List.map_map.symm
  rw [hmangle]
  exact (hclash.nodup_constants hd).map Target.mangle_injective

/-- Enumerations, prototypes, global variables and local variables of a log have distinct names. -/
theorem Logged.nodup_outer {g : Generator} (h : s.Logged g log main) (hclash : s.ClashFree) :
    ((log.filterMap Request.enum?).map Prod.fst ++ main.prototypes.map (·.name) ++
      main.globals.map Prod.fst ++ main.locals.map Prod.fst).Nodup := by
  have henums : (log.filterMap Request.enum?).map Prod.fst =
      ((enumsIn s.items).map (·.name)).map Target.mangle := by
    rw [h.enums, List.map_map, List.map_map]
    rfl
  have hprototypes : main.prototypes.map (·.name) =
      ((funcsIn s.items).map (·.name)).map Target.mangle := by
    have hnames : s.functions.mapM (fun x => (.ok (Target.mangle x.2.name) : Result String)) =
        .ok (main.prototypes.map (·.name)) :=
      Result.mapM_map (fun x prototype hx =>
        congrArg _ (Generator.slots_of_prototype hx).1.symm) h.prototypes
    rw [← map_snd_funcs_walked, funcs_walked, List.map_map, List.map_map]
    exact (Except.ok.inj (List.mapM_pure.symm.trans hnames)).symm
  rw [henums, hprototypes, Generator.map_fst_entries h.globals, Generator.map_fst_entries h.locals,
    ← List.map_append, ← List.map_append, ← List.map_append]
  exact hclash.nodup_outer.map Target.mangle_injective

/-- A generated program defines nothing twice. The parameters and local variables of a function have
distinct names, and so have the constants of an enumeration. The main file is requested once, after
all its parts; the enumerations and its prototypes, global variables and local variables have
distinct names. Its prototypes are those of the functions of the log, in the order of the
functions that it includes. -/
theorem generate_defines_once (source : Source) (session : Session) (name : String)
    (project : Project) (log : RequestLog) (happly : Session.apply source {} = .ok () session)
    (hgenerate : source.generate session.notes RequestLog.renderer name [] = .ok project log) :
    (∀ prototype locals stmts position, .function prototype locals stmts position ∈ log →
      (prototype.params.map (·.name) ++ locals.map (·.name)).Nodup) ∧
    (∀ enumName constants position, .enumDecl enumName constants position ∈ log →
      constants.Nodup) ∧
    ∃ requests enums prototypes decls globals locals stmts,
      log = requests ++
        [.mainFile enums prototypes decls globals locals stmts, .buildFile name] ∧
      requests.filterMap Request.main? = [] ∧
      ((log.filterMap Request.enum?).map Prod.fst ++ prototypes.map (·.name) ++
        globals.map (·.name) ++ locals.map (·.name)).Nodup ∧
      prototypes = log.functions.map Prod.snd ∧
      decls = log.functions.map (RequestLog.placeholder ·.1) := by
  have haccepted := accepted_of_apply happly
  obtain ⟨main, hlogged⟩ := haccepted.logged hgenerate
  refine ⟨?_, ?_, ?_⟩
  · intro prototype locals stmts position hmem
    have hslots := Logged.nodup_function haccepted hlogged
      (List.mem_filterMap.mpr ⟨_, hmem, rfl⟩)
    rwa [List.map_append, List.map_map, List.map_map] at hslots
  · intro enumName constants position hmem
    exact hlogged.nodup_enum haccepted.clashFree (List.mem_filterMap.mpr ⟨_, hmem, rfl⟩)
  · obtain ⟨g, planned, -, hplan, rfl⟩ := generate_log hgenerate
    obtain ⟨requests, enums, prototypes, decls, globals, locals, stmts, rfl, hprototypes, hdecls⟩ :=
      Generator.functions_of_program hplan
    have hmain := hlogged.mainFile
    rw [List.filterMap_append, List.filterMap_append] at hmain
    change requests.filterMap Request.main? ++
      [⟨prototypes, globals.map (·.entry), locals.map (·.entry)⟩] ++ [] = [] ++ [main] at hmain
    rw [List.append_nil] at hmain
    obtain ⟨hnone, hmain⟩ := List.append_inj' hmain rfl
    cases hmain
    have houter := hlogged.nodup_outer haccepted.clashFree
    rw [List.map_map, List.map_map] at houter
    rw [RequestLog.functions_concat _ rfl]
    exact ⟨requests, enums, prototypes, decls, globals, locals, stmts, List.append_assoc .., hnone,
      houter, hprototypes, hdecls⟩

/-- Two functions and the program itself each have a local variable `b`, one of them in a nested
block, and a parameter has the name of a global variable. -/
theorem generate_defines_once_shared_names :
    let line (n : UInt32) : Position := ⟨"main", n, 1⟩
    let var (n : UInt32) (name type : String) : Variable := ⟨line n, name, ⟨line n, type, false⟩⟩
    let assign (n : UInt32) (value : Expr) : Stmt :=
      .assign (line n) ⟨line n, "b"⟩ value (some (var n "b" "float"))
    let cell : EnumDecl := ⟨line 1, "Cell", [⟨line 1, "Dead", "Cell"⟩, ⟨line 1, "Live", "Cell"⟩]⟩
    let f : Func := ⟨line 3, "f", [var 3 "a" "float"], some ⟨line 3, "float", false⟩, ⟨line 3,
      [assign 4 (.ref ⟨line 4, "a"⟩), .ret (line 5) (some (.ref ⟨line 5, "b"⟩))]⟩⟩
    let g : Func := ⟨line 6, "g", [], none, ⟨line 6,
      [.cond (line 7) (.bool (line 7) true) ⟨line 7, [assign 8 (.int (line 8) 1)]⟩ [] none]⟩⟩
    let call : Expr := .call (line 9) ⟨line 9, "f"⟩ [.ref ⟨line 9, "a"⟩]
    let source : Source :=
      ⟨line 1, [.func f, .enum cell, .globalVar (var 2 "a" "int"), .stmt (assign 9 call), .func g]⟩
    ∃ session project log enums prototypes decls globals locals stmts,
      Session.apply source {} = .ok () session ∧
      source.generate session.notes RequestLog.renderer "main" [] = .ok project log ∧
      .mainFile enums prototypes decls globals locals stmts ∈ log ∧
      prototypes.map (·.name) = ["_f", "_g"] ∧
      decls = [RequestLog.placeholder 2, RequestLog.placeholder 7] ∧
      (["_Cell"] ++ ["_f", "_g"] ++ globals.map (·.name) ++ locals.map (·.name)).Nodup := by
  intro line var assign cell f g call source
  have hanswer : (source.compile RequestLog.renderer "main").answer [] =
      .ok (RequestLog.placeholder 8) := by decide +kernel
  obtain ⟨log, hcompile⟩ := Pass.answer_eq_ok_iff.mp hanswer
  obtain ⟨session, project, hsession, hgenerate, -⟩ := generate_of_compile hcompile
  have hlog : (source.compile RequestLog.renderer "main").final [] = log := by
    rw [Pass.final, hcompile]
  have hnames : ((RequestLog.functions log).map Prod.snd).map (·.name) = ["_f", "_g"] := by
    rw [← hlog]
    decide +kernel
  have hnumbers : (RequestLog.functions log).map (RequestLog.placeholder ·.1) =
      [RequestLog.placeholder 2, RequestLog.placeholder 7] := by
    rw [← hlog]
    decide +kernel
  have henums : (log.filterMap Request.enum?).map Prod.fst = ["_Cell"] := by
    rw [← hlog]
    decide +kernel
  obtain ⟨-, -, requests, enums, prototypes, decls, globals, locals, stmts, hrequests, -, hnodup,
    hprototypes, hdecls⟩ :=
    source.generate_defines_once session "main" project log hsession hgenerate
  rw [← hprototypes] at hnames
  rw [henums, hnames] at hnodup
  have hmem : .mainFile enums prototypes decls globals locals stmts ∈ log := by
    rw [hrequests]
    simp
  exact ⟨session, project, log, enums, prototypes, decls, globals, locals, stmts, hsession,
    hgenerate, hmem, hnames, hdecls.trans hnumbers, hnodup⟩

end Source

end SimCompiler
