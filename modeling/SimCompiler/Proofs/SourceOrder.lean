import Mathlib.Data.List.Perm.Basic
import SimCompiler.Proofs.FunctionNotes

/-!
# Lists in source order

A statement stands outside of the functions or in the body of one of them, at any depth. Two
analyses list statements in the order of the source: one the variables that assignments declare, for
the program and for each function, the other the return statements, for each function. The first
reads its lists off the frames, which hold much else, the second collects them on its way and
refuses a return statement outside of the functions.
-/
namespace SimCompiler

open Outline

namespace Node

def isStmt : Node → Bool
  | .stmt _ => true
  | _ => false

/-- The variable that the node declares, if it is an assignment that declares one. -/
def declaredVar? : Node → Option Variable
  | .stmt (.assign _ _ _ declared) => declared
  | _ => none

def localVar? : Node → Option Variable
  | .localVar v => some v
  | _ => none

theorem declaredVar?_eq_none {node : Node} (h : node.isStmt = false) :
    node.declaredVar? = none := by
  cases node with
  | stmt st => cases h
  | _ => rfl

theorem returnSite?_eq_none {node : Node} (h : node.isStmt = false) :
    node.returnSite? = none := by
  cases node with
  | stmt st => cases h
  | _ => rfl

/-- The first child of an assignment that declares a variable is the variable. No other node has a
local variable right below it. -/
theorem flatMap_localVar? (node : Node) {children : List Outline}
    (h : children.map (·.node) = node.children) (f : Outline → List Variable) :
    children.flatMap (fun o => o.node.localVar?.toList ++ f o) =
      node.declaredVar?.toList ++ children.flatMap f := by
  cases hdeclared : node.declaredVar? with
  | none =>
    refine List.flatMap_congr fun o ho => ?_
    have hmem : o.node ∈ node.children := h ▸ List.mem_map_of_mem ho
    cases hchild : o.node with
    | localVar v =>
      obtain ⟨p, target, value, rfl⟩ := eq_assign_of_localVar (hchild ▸ hmem)
      cases hdeclared
    | _ => rfl
  | some v =>
    cases node with
    | stmt st =>
      cases st with
      | assign p target value declared =>
        cases hdeclared
        obtain ⟨first, rest, rfl, hfirst, hrest⟩ := List.map_eq_cons_iff.mp h
        obtain ⟨second, rest, rfl, hsecond, hrest⟩ := List.map_eq_cons_iff.mp hrest
        obtain ⟨third, rest, rfl, hthird, hrest⟩ := List.map_eq_cons_iff.mp hrest
        obtain rfl := List.map_eq_nil_iff.mp hrest
        simp [hfirst, hsecond, hthird, localVar?]
      | _ => cases hdeclared
    | _ => cases hdeclared

end Node

/-- The variables that the assignments among the nodes declare, in their order. -/
def declaredVars (nodes : List (Path × Node)) : List Variable :=
  nodes.filterMap (·.2.declaredVar?)

/-- The local variables among the nodes, in their order. -/
def localVars (nodes : List (Path × Node)) : List Variable :=
  nodes.filterMap (·.2.localVar?)

theorem Outline.localVars_nodes (o : Outline) :
    localVars o.nodes = o.node.localVar?.toList ++ localVars (nodesAll o.children) := by
  obtain ⟨path, node, children⟩ := o
  rw [nodes_mk, localVars, List.filterMap_cons]
  cases node.localVar? <;> rfl

theorem Outline.declaredVars_nodes (o : Outline) :
    declaredVars o.nodes =
      o.node.declaredVar?.toList ++ o.children.flatMap fun child => declaredVars child.nodes := by
  obtain ⟨path, node, children⟩ := o
  rw [nodes_mk, declaredVars, List.filterMap_cons, nodesAll_eq_flatMap, List.filterMap_flatMap]
  cases node.declaredVar? <;> rfl

/-- The assignments of an outline declare the local variables below its root, in the same order. -/
theorem Outline.Faithful.declaredVars_eq {o : Outline} (h : o.Faithful) :
    declaredVars o.nodes = localVars (nodesAll o.children) := by
  induction h with
  | @mk path node children hnode _ ih =>
    have hchildren : children.map (·.node) = node.children := by
      rw [← node.map_node_outline path, hnode]
    have hbelow : localVars (nodesAll children) =
        children.flatMap fun o => o.node.localVar?.toList ++ declaredVars o.nodes := by
      rw [nodesAll_eq_flatMap, localVars, List.filterMap_flatMap]
      refine List.flatMap_congr fun o ho => ?_
      rw [ih o ho]
      exact o.localVars_nodes
    rw [Outline.declaredVars_nodes, hbelow, node.flatMap_localVar? hchildren]

theorem localVars_eq_of_declaredBy {nodes : List (Path × Node)} {vars : List Variable}
    (h : declaredBy nodes = vars.map .localVar) : localVars nodes = vars := by
  have hnodes : localVars nodes = (Frame.mk "" none (declaredBy nodes)).localVars := by
    rw [Frame.localVars, declaredBy, List.filterMap_filterMap]
    refine List.filterMap_congr fun x _ => ?_
    cases x.2 <;> rfl
  simp [hnodes, h, Frame.localVars, List.filterMap_map]

/-- Of an outline that declares local variables only, the assignments declare the same variables. -/
theorem Outline.Faithful.declaredVars_eq_of_declaredBy {o : Outline} (h : o.Faithful)
    (hroot : o.node.localVar? = none) {vars : List Variable}
    (hvars : declaredBy o.nodes = vars.map .localVar) : declaredVars o.nodes = vars := by
  have hlocals := localVars_eq_of_declaredBy hvars
  rw [o.localVars_nodes, hroot] at hlocals
  exact h.declaredVars_eq.trans hlocals

/-! ### Statements outside and inside of functions -/

namespace Func

/-- The nodes in the body of the function at `path`. -/
def bodyNodes (f : Func) (path : Path) : List (Path × Node) :=
  (f.body.outline (.body :: path)).nodes

theorem declaredVars_bodyNodes (f : Func) (path : Path) :
    declaredVars (f.bodyNodes path) = f.body.locals := by
  have hfaithful := faithful_block f.body (.body :: path) fun st _ => faithful_stmt st
  refine hfaithful.declaredVars_eq_of_declaredBy ?_ ?_
  · rw [Block.node_outline]
    rfl
  · exact declaredBy_block f.body _ fun st _ => declaredBy_stmt st

/-- In front of its body a function has its parameters and types. -/
theorem inner_eq_append (f : Func) (path : Path) :
    ∃ head, f.inner path = head ++ f.bodyNodes path ∧
      ∀ x ∈ head, (∃ v, x.2 = .param v) ∨ ∃ t, x.2 = .typeRef t := by
  refine ⟨nodesAll (numbered .param (Variable.outline .param) path 0 f.params ++
    (f.returnType.map (TypeRef.outline (.returnType :: path))).toList), ?_, ?_⟩
  · rw [inner, outline, nodesAll_append, bodyNodes]
    simp
  · intro x hx
    rw [nodesAll_append, List.mem_append, nodesAll_eq_flatMap] at hx
    rcases hx with hparam | hreturn
    · obtain ⟨o, ho, hx⟩ := List.mem_flatMap.mp hparam
      obtain ⟨i, v, -, rfl⟩ := mem_numbered.mp ho
      simp only [Variable.outline, TypeRef.outline, leaf, nodes_mk, nodesAll_cons] at hx
      rcases List.mem_cons.mp hx with rfl | hx
      · exact .inl ⟨v, rfl⟩
      · obtain rfl := List.mem_singleton.mp hx
        exact .inr ⟨v.type, rfl⟩
    · cases htype : f.returnType with
      | none => simp [htype] at hreturn
      | some t =>
        obtain rfl : x = (.returnType :: path, .typeRef t) := by
          simpa [htype, TypeRef.outline, leaf] using hreturn
        exact .inr ⟨t, rfl⟩

theorem bodyNodes_subset (f : Func) (path : Path) : f.bodyNodes path ⊆ f.inner path := by
  obtain ⟨head, hinner, -⟩ := f.inner_eq_append path
  rw [hinner]
  exact List.subset_append_right _ _

theorem filter_isStmt_inner (f : Func) (path : Path) :
    (f.inner path).filter (·.2.isStmt) = (f.bodyNodes path).filter (·.2.isStmt) := by
  obtain ⟨head, hinner, hhead⟩ := f.inner_eq_append path
  have hnone : head.filter (·.2.isStmt) = [] := by
    refine List.filter_eq_nil_iff.mpr fun x hx => ?_
    rcases hhead x hx with ⟨v, hv⟩ | ⟨t, ht⟩
    · rw [hv]
      exact Bool.false_ne_true
    · rw [ht]
      exact Bool.false_ne_true
  rw [hinner, List.filter_append, hnone, List.nil_append]

end Func

/-- What is made of statements only is made of the statements among the nodes. -/
theorem filterMap_filter_isStmt {g : Node → Option α}
    (hg : ∀ node : Node, node.isStmt = false → g node = none) (nodes : List (Path × Node)) :
    (nodes.filter (·.2.isStmt)).filterMap (g ·.2) = nodes.filterMap (g ·.2) := by
  rw [List.filterMap_filter]
  refine List.filterMap_congr fun x _ => ?_
  cases hstmt : x.2.isStmt with
  | true => rfl
  | false => simp [hg x.2 hstmt]

theorem declaredVars_filter_isStmt (nodes : List (Path × Node)) :
    declaredVars (nodes.filter (·.2.isStmt)) = declaredVars nodes :=
  filterMap_filter_isStmt (fun _ => Node.declaredVar?_eq_none) nodes

theorem returnSites_filter_isStmt (nodes : List (Path × Node)) :
    returnSites (nodes.filter (·.2.isStmt)) = returnSites nodes :=
  filterMap_filter_isStmt (fun _ => Node.returnSite?_eq_none) nodes

theorem Func.returnSites_inner (f : Func) (path : Path) :
    returnSites (f.inner path) = returnSites (f.bodyNodes path) := by
  rw [← returnSites_filter_isStmt, f.filter_isStmt_inner, returnSites_filter_isStmt]

theorem returnSites_append (nodes nodes' : List (Path × Node)) :
    returnSites (nodes ++ nodes') = returnSites nodes ++ returnSites nodes' :=
  List.filterMap_append

theorem returnSites_eq_nil_iff {nodes : List (Path × Node)} :
    returnSites nodes = [] ↔
      ∀ path position value, (path, .stmt (.ret position value)) ∉ nodes := by
  rw [returnSites, List.filterMap_eq_nil_iff]
  constructor
  · intro h path position value hmem
    cases h _ hmem
  · rintro h ⟨path, node⟩ hmem
    cases node with
    | stmt st =>
      cases st with
      | ret position value => exact absurd hmem (h path position value)
      | _ => rfl
    | _ => rfl

/-- The nodes of a statement outside of functions. -/
def Item.topNodes (path : Path) : Item → List (Path × Node)
  | .stmt st => (st.outline path).nodes
  | _ => []

theorem Item.declaredVars_topNodes (st : Stmt) (path : Path) :
    declaredVars (topNodes path (.stmt st)) = st.locals := by
  refine (faithful_stmt st path).declaredVars_eq_of_declaredBy ?_ (declaredBy_stmt st path)
  rw [Stmt.node_outline]
  rfl

/-- The statements of an item are those outside of functions and those in the body of a function. -/
theorem Item.filter_isStmt_nodes (item : Item) (path : Path) :
    (item.outline path).nodes.filter (·.2.isStmt) =
      (item.topNodes path ++ item.func?.toList.flatMap (·.bodyNodes path)).filter (·.2.isStmt) := by
  cases item with
  | globalVar v => rfl
  | enum d =>
    refine List.filter_eq_nil_iff.mpr fun x hx => ?_
    rw [outline, EnumDecl.outline, nodes_mk, nodesAll_eq_flatMap] at hx
    rcases List.mem_cons.mp hx with rfl | hconstant
    · exact Bool.false_ne_true
    · obtain ⟨o, ho, hx⟩ := List.mem_flatMap.mp hconstant
      obtain ⟨i, c, -, rfl⟩ := mem_numbered.mp ho
      obtain rfl := List.mem_singleton.mp hx
      exact Bool.false_ne_true
  | func f =>
    rw [outline, f.nodes_outline, List.filter_cons_of_neg Bool.false_ne_true,
      f.filter_isStmt_inner]
    simp [topNodes, func?]
  | stmt st => simp [outline, topNodes, func?]

namespace Source

/-- The nodes of the statements outside of functions. -/
def topNodes (s : Source) : List (Path × Node) :=
  s.items.zipIdx.flatMap fun x => x.1.topNodes [.item x.2]

theorem mem_topNodes {s : Source} {x : Path × Node} : x ∈ s.topNodes ↔
    ∃ (j : Nat) (st : Stmt), s.items[j]? = some (.stmt st) ∧ x ∈ (st.outline [.item j]).nodes := by
  rw [topNodes, List.mem_flatMap]
  constructor
  · rintro ⟨⟨item, j⟩, hitem, hx⟩
    cases item with
    | stmt st => exact ⟨j, st, List.mem_zipIdx_iff_getElem?.mp hitem, hx⟩
    | _ => cases hx
  · rintro ⟨j, st, hj, hx⟩
    exact ⟨(.stmt st, j), List.mem_zipIdx_iff_getElem?.mpr hj, hx⟩

theorem declaredVars_topNodes (s : Source) : declaredVars s.topNodes = s.locals := by
  rw [topNodes, declaredVars, List.filterMap_flatMap, locals]
  conv_rhs => rw [← List.zipIdx_map_fst 0 s.items, List.flatMap_map]
  refine List.flatMap_congr fun x _ => ?_
  obtain ⟨item, i⟩ := x
  cases item with
  | stmt st => exact Item.declaredVars_topNodes st [.item i]
  | _ => rfl

/-- Every statement stands once outside of functions or in the body of a function. -/
theorem filter_isStmt_perm (s : Source) :
    ((s.topNodes ++ s.functions.flatMap fun x => x.2.bodyNodes x.1).filter (·.2.isStmt)).Perm
      (s.outline.nodes.filter (·.2.isStmt)) := by
  have hnodes : s.outline.nodes.filter (·.2.isStmt) = (s.items.zipIdx.flatMap fun x =>
      x.1.topNodes [.item x.2] ++ x.1.func?.toList.flatMap (·.bodyNodes [.item x.2])).filter
        (·.2.isStmt) := by
    rw [outline, nodes_mk, List.filter_cons_of_neg Bool.false_ne_true, nodesAll_eq_flatMap,
      numbered_eq_map, List.flatMap_map, List.filter_flatMap, List.filter_flatMap]
    exact List.flatMap_congr fun x _ => x.1.filter_isStmt_nodes [.item x.2]
  rw [hnodes, topNodes, flatMap_functions]
  exact (List.flatMap_append_perm _ _ _).filter _

theorem declaredVars_perm (s : Source) :
    (declaredVars s.topNodes ++ s.functions.flatMap fun x => declaredVars (x.2.bodyNodes x.1)).Perm
      (declaredVars s.outline.nodes) := by
  have hperm := s.filter_isStmt_perm.filterMap (·.2.declaredVar?)
  change (declaredVars _).Perm (declaredVars _) at hperm
  rwa [declaredVars_filter_isStmt, declaredVars_filter_isStmt, declaredVars,
    List.filterMap_append, List.filterMap_flatMap] at hperm

theorem mem_topNodes_or_bodyNodes {s : Source} {x : Path × Node} (hx : x ∈ s.outline.nodes)
    (hstmt : x.2.isStmt = true) :
    x ∈ s.topNodes ∨ ∃ y ∈ s.functions, x ∈ y.2.bodyNodes y.1 := by
  have hmem := s.filter_isStmt_perm.mem_iff.mpr (List.mem_filter.mpr ⟨hx, hstmt⟩)
  rw [List.mem_filter, List.mem_append, List.mem_flatMap] at hmem
  exact hmem.1

/-- The local variables of each function are those that the assignments in its body declare, in the
order of the source, and those of the program are the ones that the assignments outside of functions
declare. Each variable that is declared anywhere is in one of these lists, once. -/
theorem collectLocals_lists_declared (source : Source) (notes : Annotations)
    (h : source.bindNames {} = .ok () notes) :
    ∃ notes', source.collectLocals notes = .ok () notes' ∧
      (∀ x ∈ source.functions,
        notes'.readFuncLocals x.1 = .ok (declaredVars (x.2.bodyNodes x.1))) ∧
      notes'.readProgramLocals = .ok (declaredVars source.topNodes) ∧
      (declaredVars source.topNodes ++
        source.functions.flatMap fun x => declaredVars (x.2.bodyNodes x.1)).Perm
          (declaredVars source.outline.nodes) := by
  obtain ⟨-, rfl⟩ := (source.bindNames_eq_ok_iff notes).mp h
  refine ⟨source.localNotes, source.collectLocals_run, ?_, ?_, source.declaredVars_perm⟩
  · intro x hx
    rw [x.2.declaredVars_bodyNodes]
    exact SlotTable.read_eq_ok (source.get?_funcLocals hx) _
  · rw [source.declaredVars_topNodes]
    rfl

/-- A function and the program declare variables in all sections of a statement. The names are those
of a global variable, of a parameter and of each other. -/
theorem collectLocals_lists_declared_sections :
    let line (n : UInt32) : Position := ⟨"main", n, 1⟩
    let var (n : UInt32) (name : String) : Variable := ⟨line n, name, ⟨line n, "int", false⟩⟩
    let declare (n : UInt32) (name : String) : Stmt :=
      .assign (line n) ⟨line n, name⟩ (.int (line n) 1) (some (var n name))
    let branches (n : UInt32) (a b c : String) : Stmt :=
      .cond (line n) (.bool (line n) true) ⟨line n, [declare n a]⟩
        [⟨line n, .bool (line n) false, ⟨line n, [declare n b]⟩⟩]
        (some ⟨line n, ⟨line n, [declare n c]⟩⟩)
    let f : Func :=
      ⟨line 3, "f", [var 3 "p"], none, ⟨line 4, [branches 4 "a" "b" "c", declare 5 "g"]⟩⟩
    let source : Source := ⟨line 1, [.globalVar (var 1 "g"), .stmt (declare 2 "b"), .func f,
      .stmt (branches 6 "c" "a" "p")]⟩
    ∃ notes notes', source.bindNames {} = .ok () notes ∧
      source.collectLocals notes = .ok () notes' ∧
      notes'.readFuncLocals [.item 2] = .ok [var 4 "a", var 4 "b", var 4 "c", var 5 "g"] ∧
      notes'.readProgramLocals = .ok [var 2 "b", var 6 "c", var 6 "a", var 6 "p"] := by
  intro line var declare branches f source
  have hbind : source.bindNames {} = .ok () source.boundNotes := by
    refine (source.bindNames_eq_ok_iff _).mpr ⟨⟨by decide, by decide, ?_⟩, rfl⟩
    intro f' hf
    obtain rfl : f' = f := by simpa [source] using hf
    decide
  obtain ⟨notes', hrun, hfuncs, hprogram, -⟩ :=
    source.collectLocals_lists_declared source.boundNotes hbind
  exact ⟨_, notes', hbind, hrun, hfuncs ([.item 2], f) (by simp [source, functions]), hprogram⟩

end Source

/-! ### Return statements -/

theorem Item.checkReturns_eq (item : Item) (path : Path) :
    item.checkReturns path = if returnSites (item.topNodes path) = [] then .ok ()
      else Result.defect .returnOutsideFunction := by
  cases hitem : item.func? with
  | some f =>
    obtain rfl := Item.func?_eq_some_iff.mp hitem
    rfl
  | none =>
    have hsites : returnSites (item.outline path).nodes = returnSites (item.topNodes path) := by
      rw [← returnSites_filter_isStmt, item.filter_isStmt_nodes, returnSites_filter_isStmt, hitem]
      simp
    simp [checkReturns, hitem, hsites]

namespace Source

/-- A return statement outside of functions is a defect, and nothing else is. -/
theorem checkReturns_eq (s : Source) :
    s.checkReturns = if returnSites s.topNodes = [] then .ok ()
      else Result.defect .returnOutsideFunction := by
  rw [checkReturns, topNodes]
  induction s.items.zipIdx with
  | nil => rfl
  | cons x xs ih =>
    rw [List.forM_cons, ih, x.1.checkReturns_eq, List.flatMap_cons, returnSites_append]
    by_cases hfirst : returnSites (x.1.topNodes [.item x.2]) = []
    · rw [if_pos hfirst, hfirst, List.nil_append]
      rfl
    · rw [if_neg hfirst, if_neg (List.append_ne_nil_of_left_ne_nil hfirst _)]
      rfl

theorem checkReturns_eq_ok_iff {s : Source} :
    s.checkReturns = .ok () ↔
      ∀ path position value, (path, .stmt (.ret position value)) ∉ s.topNodes := by
  rw [← returnSites_eq_nil_iff, checkReturns_eq]
  by_cases hsites : returnSites s.topNodes = []
  · simp [hsites]
  · simp [hsites, Result.defect]

/-- In a program without stray return statements, each of them stands in the body of a function. -/
theorem exists_function_of_ret {s : Source} (h : s.checkReturns = .ok ()) {path : Path}
    {position : Position} {value : Option Expr}
    (hret : (path, .stmt (.ret position value)) ∈ s.outline.nodes) :
    ∃ x ∈ s.functions, (path, .stmt (.ret position value)) ∈ x.2.bodyNodes x.1 := by
  rcases mem_topNodes_or_bodyNodes hret rfl with htop | hbody
  · exact absurd htop (checkReturns_eq_ok_iff.mp h path position value)
  · exact hbody

/-- A return statement belongs to the function around it. -/
theorem get?_returnOwners (s : Source) (base : Annotations) {k : Nat} {x : Path × Func}
    (hk : s.functions[k]? = some x) {path : Path} {position : Position} {value : Option Expr}
    (hret : (path, .stmt (.ret position value)) ∈ x.2.bodyNodes x.1) :
    (returnNotes base s.functions).returnOwners.get? path = some ⟨k⟩ := by
  apply SlotTable.get?_of_mem
  · rw [map_fst_returnOwners, List.nodup_reverse]
    exact s.nodup_inner.sublist (.flatMap_right _ fun x _ => returnPaths_sublist _)
  · obtain ⟨hlt, rfl⟩ := List.getElem?_eq_some_iff.mp hk
    rw [returnNotes, List.mem_reverse, List.mem_flatten]
    refine ⟨_, List.mem_mapIdx.mpr ⟨k, hlt, rfl⟩, List.mem_map_of_mem ?_⟩
    exact List.mem_map.mpr ⟨_, List.mem_filter.mpr ⟨Func.bodyNodes_subset _ _ hret, rfl⟩, rfl⟩

/-- Return statements can be linked if and only if none of them stands outside of functions, at any
depth. Then each of them belongs to the function whose body it stands in, and each function lists
those in its body in the order of the source. -/
theorem linkReturns_owned_by_enclosing (source : Source) (notes : Annotations)
    (h : source.bindNames {} = .ok () notes) :
    ((∃ notes', source.linkReturns notes = .ok () notes') ↔
      ∀ path position value, (path, .stmt (.ret position value)) ∉ source.topNodes) ∧
    (∀ e notes', source.linkReturns notes = .error e notes' →
      e = .defect .returnOutsideFunction) ∧
    ∀ notes', source.linkReturns notes = .ok () notes' →
      (∀ path position value, (path, .stmt (.ret position value)) ∈ source.outline.nodes →
        ∃ x ∈ source.functions, (path, .stmt (.ret position value)) ∈ x.2.bodyNodes x.1) ∧
      ∀ x ∈ source.functions, ∃ id, notes'.readFuncId x.1 = .ok id ∧
        (∀ path position value, (path, .stmt (.ret position value)) ∈ x.2.bodyNodes x.1 →
          notes'.readReturnOwner path = .ok id) ∧
        notes'.readReturnSites x.1 = .ok (returnSites (x.2.bodyNodes x.1)) := by
  obtain ⟨-, rfl⟩ := (source.bindNames_eq_ok_iff notes).mp h
  have hfollows : source.linkReturns.Follows source.boundNotes source.checkReturns
      fun _ notes => notes = returnNotes source.boundNotes source.functions :=
    source.linkReturns_follows rfl rfl rfl
  have hanswer := hfollows.answer_eq
  refine ⟨?_, ?_, ?_⟩
  · rw [← checkReturns_eq_ok_iff, ← hanswer]
    exact Pass.answer_eq_ok_iff.symm
  · intro e notes' herror
    have hcheck := hanswer.symm.trans (Pass.answer_eq_error_iff.mpr ⟨notes', herror⟩)
    rw [checkReturns_eq] at hcheck
    split at hcheck
    · cases hcheck
    · exact (Except.error.inj hcheck).symm
  · intro notes' hlink
    have hcheck := hanswer.symm.trans (Pass.answer_eq_ok_iff.mpr ⟨notes', hlink⟩)
    obtain rfl := hfollows.of_ok hlink
    refine ⟨fun path position value => exists_function_of_ret hcheck, fun x hx => ?_⟩
    obtain ⟨k, hk⟩ := List.mem_iff_getElem?.mp hx
    refine ⟨⟨k⟩, ?_, ?_, ?_⟩
    · rw [← funcs_walked] at hk
      exact SlotTable.read_eq_ok (Walked.get?_numbered source.nodup_funcs_walked hk FuncId.mk) _
    · intro path position value hret
      exact SlotTable.read_eq_ok (source.get?_returnOwners _ hk hret) _
    · rw [← x.2.returnSites_inner]
      exact SlotTable.read_eq_ok
        (source.get?_functions (fun x => returnSites (x.2.inner x.1)) hx) _

/-- Functions with return statements in all sections. If the same sections stand outside of
functions, that is a defect. -/
theorem linkReturns_owned_by_enclosing_sections :
    let line (n : UInt32) : Position := ⟨"main", n, 1⟩
    let ret (n : UInt32) : Stmt := .ret (line n) (some (.int (line n) 1))
    let branches : Stmt := .cond (line 2) (.bool (line 2) true) ⟨line 3, [ret 3]⟩
      [⟨line 4, .bool (line 4) false, ⟨line 5, [ret 5]⟩⟩] (some ⟨line 6, ⟨line 7, [ret 7]⟩⟩)
    let f : Func := ⟨line 1, "f", [], none, ⟨line 2, [branches, .ret (line 8) none]⟩⟩
    let g : Func := ⟨line 10, "g", [], none, ⟨line 11, [ret 11]⟩⟩
    let source (st : Stmt) : Source := ⟨line 1, [.func f, .stmt st, .func g]⟩
    (∃ notes notes', (source (.pass (line 9))).bindNames {} = .ok () notes ∧
      (source (.pass (line 9))).linkReturns notes = .ok () notes' ∧
      notes'.readReturnSites [.item 0] =
        .ok [⟨line 3, true⟩, ⟨line 5, true⟩, ⟨line 7, true⟩, ⟨line 8, false⟩] ∧
      notes'.readReturnSites [.item 2] = .ok [⟨line 11, true⟩] ∧
      ∃ id, notes'.readFuncId [.item 2] = .ok id ∧
        notes'.readReturnOwner [.stmt 0, .body, .item 2] = .ok id) ∧
    ∃ notes notes', (source branches).bindNames {} = .ok () notes ∧
      (source branches).linkReturns notes = .error (.defect .returnOutsideFunction) notes' := by
  intro line ret branches f g source
  have hown : ∀ st f', .func f' ∈ (source st).items → (f'.declarations.map (·.name)).Nodup := by
    intro st f' hf
    obtain rfl | rfl : f' = f ∨ f' = g := by simpa [source] using hf
    · decide
    · decide
  constructor
  · have hbind : (source (.pass (line 9))).bindNames {} = .ok () _ :=
      ((source (.pass (line 9))).bindNames_eq_ok_iff _).mpr ⟨⟨by decide, by decide, hown _⟩, rfl⟩
    obtain ⟨hiff, -, hlinked⟩ := (source (.pass (line 9))).linkReturns_owned_by_enclosing _ hbind
    obtain ⟨notes', hrun⟩ := hiff.mpr (returnSites_eq_nil_iff.mp rfl)
    obtain ⟨-, hfuncs⟩ := hlinked notes' hrun
    obtain ⟨-, -, -, hsites⟩ := hfuncs ([.item 0], f) (by simp [source, functions])
    obtain ⟨id, hid, howner, hsites'⟩ := hfuncs ([.item 2], g) (by simp [source, functions])
    have hret : ([.stmt 0, .body, .item 2], .stmt (ret 11)) ∈ g.bodyNodes [.item 2] := by
      simp [Func.bodyNodes, g, Block.outline, Stmt.outlines, ret, Stmt.outline]
    exact ⟨_, notes', hbind, hrun, hsites, hsites', id, hid, howner _ _ _ hret⟩
  · have hbind : (source branches).bindNames {} = .ok () _ :=
      ((source branches).bindNames_eq_ok_iff _).mpr ⟨⟨by decide, by decide, hown _⟩, rfl⟩
    obtain ⟨hiff, hdefect, -⟩ := (source branches).linkReturns_owned_by_enclosing _ hbind
    cases hrun : (source branches).linkReturns (source branches).boundNotes with
    | ok u notes' =>
      have hsites := returnSites_eq_nil_iff.mpr (hiff.mp ⟨notes', hrun⟩)
      cases hsites
    | error e notes' =>
      obtain rfl := hdefect e notes' hrun
      exact ⟨_, notes', hbind, hrun⟩

end Source

end SimCompiler
