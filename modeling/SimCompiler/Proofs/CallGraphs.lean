import SimCompiler.Proofs.Reachability
import SimCompiler.Proofs.SourceOrder

/-!
# Call graphs

What is recorded about a function can be read off its body, at any depth of statements and
expressions. A call whose callee is not in scope stops the recording, and the first such call in
source order is the one that is reported. From the records a graph is built that has the functions
as nodes and their calls as edges, and in every such graph the functions within reach are those at
the end of a chain of edges.
-/
namespace SimCompiler

open Outline

theorem Result.forM_eq_error {xs : List α} {f : α → Result Unit} {e : CompileError}
    (h : forM xs f = .error e) : ∃ before x after, xs = before ++ x :: after ∧
      (∀ y ∈ before, f y = .ok ()) ∧ f x = .error e := by
  induction xs with
  | nil => cases h
  | cons x xs ih =>
    rw [List.forM_cons] at h
    cases hx : f x with
    | error e' =>
      rw [hx] at h
      cases h
      exact ⟨[], x, xs, rfl, by simp, hx⟩
    | ok u =>
      rw [hx] at h
      obtain ⟨before, y, after, rfl, hbefore, hy⟩ := ih h
      exact ⟨x :: before, y, after, rfl, List.forall_mem_cons.mpr ⟨hx, hbefore⟩, hy⟩

namespace FuncId

theorem eq_of_index_eq {a b : FuncId} (h : a.index = b.index) : a = b := by
  cases a
  cases b
  exact congrArg mk h

/-- The functions are in order, each once. -/
def Ascending (ids : List FuncId) : Prop := ids.Pairwise fun a b => a.index < b.index

theorem ascending_insert {id : FuncId} {ids : List FuncId} (h : Ascending ids) :
    Ascending (insert id ids) := by
  induction ids with
  | nil => exact List.pairwise_singleton _ _
  | cons x xs ih =>
    obtain ⟨hfirst, hrest⟩ := List.pairwise_cons.mp h
    rw [insert]
    split
    · next hlt =>
      refine List.pairwise_cons.mpr ⟨List.forall_mem_cons.mpr ⟨hlt, fun y hy => ?_⟩, h⟩
      exact Nat.lt_trans hlt (hfirst y hy)
    · next hge =>
      split
      · exact h
      · next hne =>
        refine List.pairwise_cons.mpr ⟨fun y hy => ?_, ih hrest⟩
        rcases mem_insert.mp hy with rfl | hy
        · have hindex : y.index ≠ x.index := fun heq => hne (eq_of_index_eq heq)
          omega
        · exact hfirst y hy

theorem ascending_sorted (ids : List FuncId) : Ascending (sorted ids) := by
  induction ids with
  | nil => exact List.Pairwise.nil
  | cons x xs ih => exact ascending_insert ih

end FuncId

/-! ### Calls of what is not defined -/

theorem Declaration.resolveIn_of_undefined {scope : List Declaration} {name : String}
    (h : ∀ d ∈ scope, d.name ≠ name) : resolveIn scope name = Result.fault (.undefined name) := by
  have hfind : scope.find? (·.name == name) = none :=
    List.find?_eq_none.mpr fun d hd heq => h d hd (eq_of_beq heq)
  rw [resolveIn, hfind]

namespace Node

/-- The node is a call, and nothing in `scope` has the name of its callee. -/
def CallsUndefined (scope : List Declaration) (node : Node) : Prop :=
  ∃ position callee args, node = .expr (.call position callee args) ∧
    ∀ d ∈ scope, d.name ≠ callee.name

variable {scope : List Declaration} {node : Node}

theorem CallsUndefined.checkCall_ne (h : node.CallsUndefined scope) :
    node.checkCall scope ≠ .ok () := by
  obtain ⟨position, callee, args, rfl, hundefined⟩ := h
  rw [checkCall, Declaration.resolveIn_of_undefined hundefined]
  intro hok
  cases hok

/-- Only a call of what is not defined is reported, by its name and at its position. -/
theorem exists_of_checkCall {e : CompileError} (h : node.checkCall scope = .error e) :
    ∃ position callee args, node = .expr (.call position callee args) ∧
      (∀ d ∈ scope, d.name ≠ callee.name) ∧
      e = .code ⟨.undefined callee.name, some position⟩ := by
  unfold checkCall at h
  split at h
  · next position callee args =>
    refine ⟨position, callee, args, rfl, ?_⟩
    rw [Declaration.resolveIn] at h
    cases hfind : scope.find? (·.name == callee.name) with
    | some d =>
      rw [hfind] at h
      cases h
    | none =>
      rw [hfind] at h
      cases h
      refine ⟨fun d hd heq => ?_, rfl⟩
      simpa [heq] using List.find?_eq_none.mp hfind d hd
  · cases h

end Node

theorem Func.mem_bodyNodes_of_call {f : Func} {path : Path} {x : Path × Node} {position : Position}
    {callee : Ref} {args : List Expr} (hx : x ∈ f.inner path)
    (hcall : x.2 = .expr (.call position callee args)) : x ∈ f.bodyNodes path := by
  obtain ⟨head, hinner, hhead⟩ := f.inner_eq_append path
  rw [hinner] at hx
  refine (List.mem_append.mp hx).resolve_left fun hmem => ?_
  rcases hhead x hmem with ⟨v, hv⟩ | ⟨t, ht⟩
  · cases hcall.symm.trans hv
  · cases hcall.symm.trans ht

/-- The nodes of an item with its number in the program. -/
def Item.nodesAt (x : Item × Nat) : List (Path × Node) := (x.1.outline [.item x.2]).nodes

namespace Source

variable {s : Source}

/-- The node is a call in the body of a function, and nothing that is in scope there has the name of
its callee. -/
def UndefinedCall (s : Source) (x : Path × Node) : Prop :=
  ∃ y ∈ s.functions, x ∈ y.2.bodyNodes y.1 ∧ x.2.CallsUndefined (s.inScope (.func y.2))

/-- The function around a call of what is not defined does not pass the check. -/
theorem UndefinedCall.checkCall_ne {x : Path × Node} (h : s.UndefinedCall x) {j : Nat} {item : Item}
    (hj : s.items[j]? = some item) (hx : x ∈ (item.outline [.item j]).nodes) :
    ∃ f, item = .func f ∧ x ∈ f.inner [.item j] ∧
      x.2.checkCall (s.inScope (.func f)) ≠ .ok () := by
  obtain ⟨⟨path, f⟩, hf, hbody, hundefined⟩ := h
  obtain ⟨i, hi, rfl⟩ := mem_functions_iff.mp hf
  have hmem : x ∈ (f.outline [.item i]).nodes := by
    rw [f.nodes_outline]
    exact List.mem_cons_of_mem _ (f.bodyNodes_subset _ hbody)
  obtain ⟨rfl, -⟩ := eq_of_mem_nodes hj hx hi hmem
  refine ⟨f, rfl, ?_, hundefined.checkCall_ne⟩
  rw [Item.outline, f.nodes_outline] at hx
  refine (List.mem_cons.mp hx).resolve_left ?_
  rintro rfl
  obtain ⟨_, _, _, hcall, -⟩ := hundefined
  cases hcall

theorem not_undefinedCall_of_item {j : Nat} {item : Item} (hj : s.items[j]? = some item)
    (hok : s.checkCallsIn [.item j] item = .ok ()) {x : Path × Node}
    (hx : x ∈ (item.outline [.item j]).nodes) : ¬ s.UndefinedCall x := by
  intro h
  obtain ⟨f, rfl, hinner, hne⟩ := h.checkCall_ne hj hx
  exact hne (Result.forM_eq_ok_iff.mp hok x hinner)

/-- The nodes of a program are those of its items, one after another. -/
theorem nodes_eq_flatMap (s : Source) :
    s.outline.nodes = ([], .source s) :: s.items.zipIdx.flatMap Item.nodesAt := by
  rw [outline, nodes_mk, nodesAll_eq_flatMap, numbered_eq_map, List.flatMap_map]
  rfl

theorem not_undefinedCall_of_checkCalls (h : s.checkCalls = .ok ()) (x : Path × Node) :
    ¬ s.UndefinedCall x := by
  intro hx
  obtain ⟨⟨path, f⟩, hf, hbody, -⟩ := id hx
  obtain ⟨i, hi, rfl⟩ := mem_functions_iff.mp hf
  refine not_undefinedCall_of_item hi ?_ ?_ hx
  · exact Result.forM_eq_ok_iff.mp h (.func f, i) (List.mem_zipIdx_iff_getElem?.mpr hi)
  · rw [Item.outline, f.nodes_outline]
    exact List.mem_cons_of_mem _ (f.bodyNodes_subset _ hbody)

/-- The check stops at the first call in source order of what is not defined. -/
theorem exists_of_checkCalls {e : CompileError} (h : s.checkCalls = .error e) :
    ∃ before path position callee args after,
      s.outline.nodes = before ++ (path, .expr (.call position callee args)) :: after ∧
      s.UndefinedCall (path, .expr (.call position callee args)) ∧
      (∀ x ∈ before, ¬ s.UndefinedCall x) ∧
      e = .code ⟨.undefined callee.name, some position⟩ := by
  obtain ⟨items, ⟨item, j⟩, items', hitems, hbefore, hitem⟩ := Result.forM_eq_error h
  have hj : s.items[j]? = some item :=
    List.mem_zipIdx_iff_getElem?.mp (hitems ▸ List.mem_append_cons_self)
  cases item with
  | func f =>
    obtain ⟨inner, ⟨path, node⟩, inner', hinner, hcalls, hnode⟩ := Result.forM_eq_error hitem
    obtain ⟨position, callee, args, rfl, hundefined, rfl⟩ := Node.exists_of_checkCall hnode
    have hnodes : Item.nodesAt (.func f, j) = ([.item j], .func f) :: inner ++
        (path, .expr (.call position callee args)) :: inner' := by
      change (f.outline [.item j]).nodes = _
      rw [f.nodes_outline, hinner, List.cons_append]
    have hmem : (path, .expr (.call position callee args)) ∈ f.inner [.item j] :=
      hinner ▸ List.mem_append_cons_self
    refine ⟨([], .source s) :: items.flatMap Item.nodesAt ++ ([.item j], .func f) :: inner, path,
      position, callee, args, inner' ++ items'.flatMap Item.nodesAt, ?_, ?_, ?_, rfl⟩
    · rw [nodes_eq_flatMap, hitems, List.flatMap_append, List.flatMap_cons, hnodes]
      simp only [List.cons_append, List.append_assoc]
    · exact ⟨([.item j], f), mem_functions_iff.mpr ⟨j, hj, rfl⟩,
        Func.mem_bodyNodes_of_call hmem rfl, position, callee, args, rfl, hundefined⟩
    · intro x hx hcall
      obtain ⟨-, -, -, _, _, _, hnode, -⟩ := id hcall
      simp only [List.cons_append, List.mem_cons, List.mem_append] at hx
      rcases hx with rfl | hx | rfl | hx
      · cases hnode
      · obtain ⟨⟨item, i⟩, hi, hx⟩ := List.mem_flatMap.mp hx
        have hmem : (item, i) ∈ s.items.zipIdx := hitems ▸ List.mem_append_left _ hi
        exact not_undefinedCall_of_item (List.mem_zipIdx_iff_getElem?.mp hmem)
          (hbefore _ hi) hx hcall
      · cases hnode
      · have hx' : x ∈ Item.nodesAt (.func f, j) := by
          rw [hnodes]
          exact List.mem_append_left _ (List.mem_cons_of_mem _ hx)
        obtain ⟨_, heq, -, hne⟩ := hcall.checkCall_ne hj hx'
        cases heq
        exact hne (hcalls x hx)
  | _ => cases hitem

end Source

/-! ### What functions do -/

namespace Node

theorem prints_iff {node : Node} : node.prints = true ↔ ∃ p args, node = .stmt (.print p args) := by
  constructor
  · intro h
    unfold prints at h
    split at h
    · exact ⟨_, _, rfl⟩
    · cases h
  · rintro ⟨p, args, rfl⟩
    rfl

theorem indexes_iff {node : Node} :
    node.indexes = true ↔ ∃ p root indices target, node = .expr (.json p root indices target) := by
  constructor
  · intro h
    unfold indexes at h
    split at h
    · exact ⟨_, _, _, _, rfl⟩
    · cases h
  · rintro ⟨p, root, indices, target, rfl⟩
    rfl

end Node

namespace Capabilities

variable (scope : List Declaration) (c : Capabilities)

theorem observe_append (xs ys : List (Path × Node)) :
    c.observe scope (xs ++ ys) = (c.observe scope xs).observe scope ys := by
  simp [observe, Bool.or_assoc]

/-- Parameters and types do nothing. -/
theorem observe_head {xs : List (Path × Node)}
    (h : ∀ x ∈ xs, (∃ v, x.2 = .param v) ∨ ∃ t, x.2 = .typeRef t) : c.observe scope xs = c := by
  induction xs generalizing c with
  | nil => exact observe_nil scope c
  | cons x xs ih =>
    have hfirst : c.observe scope [x] = c := by
      obtain ⟨path, node⟩ := x
      rcases h (path, node) (by simp) with ⟨v, hv⟩ | ⟨t, ht⟩
      · obtain rfl : node = .param v := hv
        simp [observe, Node.prints, Node.indexes, Node.callee?]
      · obtain rfl : node = .typeRef t := ht
        simp [observe, Node.prints, Node.indexes, Node.callee?]
    rw [observe_cons, hfirst]
    exact ih c fun y hy => h y (by simp [hy])

end Capabilities

namespace Source

/-- What a function does is done in its body. -/
theorem capabilitiesOf_eq (s : Source) (x : Path × Func) :
    s.capabilitiesOf x =
      Capabilities.observe (s.inScope (.func x.2)) {} (x.2.bodyNodes x.1) := by
  obtain ⟨head, hinner, hhead⟩ := x.2.inner_eq_append x.1
  rw [capabilitiesOf, hinner, Capabilities.observe_append, Capabilities.observe_head _ _ hhead]

theorem containsPrint_iff (s : Source) (x : Path × Func) :
    (s.capabilitiesOf x).containsPrint = true ↔
      ∃ path p args, (path, .stmt (.print p args)) ∈ x.2.bodyNodes x.1 := by
  simp only [capabilitiesOf_eq, Capabilities.observe, Bool.false_or, List.any_eq_true]
  constructor
  · rintro ⟨⟨path, node⟩, hmem, hprints⟩
    obtain ⟨p, args, rfl⟩ := Node.prints_iff.mp hprints
    exact ⟨path, p, args, hmem⟩
  · rintro ⟨path, p, args, hmem⟩
    exact ⟨_, hmem, rfl⟩

theorem containsDynamicIndex_iff (s : Source) (x : Path × Func) :
    (s.capabilitiesOf x).containsDynamicIndex = true ↔ ∃ path p root indices target,
      (path, .expr (.json p root indices target)) ∈ x.2.bodyNodes x.1 := by
  simp only [capabilitiesOf_eq, Capabilities.observe, Bool.false_or, List.any_eq_true]
  constructor
  · rintro ⟨⟨path, node⟩, hmem, hindexes⟩
    obtain ⟨p, root, indices, target, rfl⟩ := Node.indexes_iff.mp hindexes
    exact ⟨path, p, root, indices, target, hmem⟩
  · rintro ⟨path, p, root, indices, target, hmem⟩
    exact ⟨_, hmem, rfl⟩

theorem calls_capabilitiesOf (s : Source) (x : Path × Func) :
    (s.capabilitiesOf x).calls =
      (x.2.bodyNodes x.1).filterMap (·.2.callee? (s.inScope (.func x.2))) := by
  rw [capabilitiesOf_eq, Capabilities.observe, List.nil_append]

theorem readCapabilities_capabilityNotes (s : Source) {x : Path × Func} (hx : x ∈ s.functions) :
    (s.capabilityNotes s.boundNotes s.functions).readCapabilities x.1 =
      .ok (s.capabilitiesOf x) :=
  SlotTable.read_eq_ok (s.get?_functions s.capabilitiesOf hx) _

/-- From what was recorded about the functions, the call graph can be built. -/
theorem build_capabilityNotes (s : Source) :
    CallGraph.build s (s.capabilityNotes s.boundNotes s.functions) = .ok s.callGraph := by
  refine s.build_eq_ok (fun k x hk => ?_) fun x hx => s.readCapabilities_capabilityNotes hx
  rw [← funcs_walked] at hk
  exact SlotTable.read_eq_ok (Walked.get?_numbered s.nodup_funcs_walked hk FuncId.mk) _

/-- Recording what functions do fails if and only if the body of a function has a call of something
that is not in scope there, and the first such call in source order is reported. Otherwise a
function prints if there is a print statement in its body, indexes dynamically if there is an
indexed value in it, and calls what the callees in it stand for, in source order, as far as these
are functions of the program. Then the call graph can be built: its nodes are the functions in
source order, with the functions that they call as edges. -/
theorem collectCapabilities_describes_bodies (source : Source) (notes : Annotations)
    (h : source.bindNames {} = .ok () notes) :
    ((∃ e notes', source.collectCapabilities notes = .error e notes') ↔
      ∃ x, source.UndefinedCall x) ∧
    (∀ e notes', source.collectCapabilities notes = .error e notes' →
      ∃ before path position callee args after,
        source.outline.nodes = before ++ (path, .expr (.call position callee args)) :: after ∧
        source.UndefinedCall (path, .expr (.call position callee args)) ∧
        (∀ x ∈ before, ¬ source.UndefinedCall x) ∧
        e = .code ⟨.undefined callee.name, some position⟩) ∧
    ∀ notes', source.collectCapabilities notes = .ok () notes' →
      ∃ g, CallGraph.build source notes' = .ok g ∧ g.nodes.length = source.functions.length ∧
        ∀ (i : Nat) (x : Path × Func), source.functions[i]? = some x →
          ∃ c n, notes'.readCapabilities x.1 = .ok c ∧ g.nodes[i]? = some n ∧
            (c.containsPrint = true ↔
              ∃ path p args, (path, .stmt (.print p args)) ∈ x.2.bodyNodes x.1) ∧
            (c.containsDynamicIndex = true ↔ ∃ path p root indices target,
              (path, .expr (.json p root indices target)) ∈ x.2.bodyNodes x.1) ∧
            c.calls = (x.2.bodyNodes x.1).filterMap (·.2.callee? (source.inScope (.func x.2))) ∧
            n.id = ⟨i⟩ ∧ n.name = x.2.name ∧ n.containsPrint = c.containsPrint ∧
            n.containsDynamicIndex = c.containsDynamicIndex ∧
            FuncId.Ascending n.callees ∧ ∀ id, id ∈ n.callees ↔ id ∈ c.calls := by
  obtain ⟨-, rfl⟩ := (source.bindNames_eq_ok_iff notes).mp h
  have hfollows := @collectCapabilities_follows source source.boundNotes rfl rfl rfl
  have hanswer := hfollows.answer_eq
  have hfirst : ∀ e notes', source.collectCapabilities source.boundNotes = .error e notes' →
      source.checkCalls = .error e := fun e notes' herror =>
    hanswer.symm.trans (Pass.answer_eq_error_iff.mpr ⟨notes', herror⟩)
  refine ⟨⟨?_, ?_⟩, ?_, ?_⟩
  · rintro ⟨e, notes', herror⟩
    obtain ⟨_, path, position, callee, args, _, -, hcall, -⟩ :=
      exists_of_checkCalls (hfirst e notes' herror)
    exact ⟨_, hcall⟩
  · rintro ⟨x, hcall⟩
    cases hcheck : source.checkCalls with
    | ok u => exact absurd hcall (not_undefinedCall_of_checkCalls hcheck x)
    | error e => exact ⟨e, Pass.answer_eq_error_iff.mp (hanswer.trans hcheck)⟩
  · exact fun e notes' herror => exists_of_checkCalls (hfirst e notes' herror)
  · intro notes' hrun
    obtain rfl := hfollows.of_ok hrun
    refine ⟨source.callGraph, source.build_capabilityNotes, source.length_callGraph, ?_⟩
    intro i x hx
    refine ⟨source.capabilitiesOf x, source.callNode i x,
      source.readCapabilities_capabilityNotes (List.mem_of_getElem? hx), ?_,
      source.containsPrint_iff x, source.containsDynamicIndex_iff x, source.calls_capabilitiesOf x,
      rfl, rfl, rfl, rfl, FuncId.ascending_sorted _, fun id => FuncId.mem_sorted⟩
    rw [callGraph, List.getElem?_mapIdx, hx]
    rfl

/-- A call inside an index inside an argument inside a branch counts. The call of a parameter that
has the name of a function does not, nor does that of a built-in function. A name that is not in
scope is reported where it stands first. -/
theorem collectCapabilities_describes_bodies_nested :
    let line (n : UInt32) : Position := ⟨"main", n, 1⟩
    let int (n : UInt32) : TypeRef := ⟨line n, "int", false⟩
    let call (n : UInt32) (name : String) (args : List Expr) : Expr :=
      .call (line n) ⟨line n, name⟩ args
    let value : Expr := .json (line 4) ⟨line 4, "CONFIG"⟩ [call 4 "f" [.int (line 4) 1]] (int 4)
    let print : Stmt := .print (line 3) [call 4 "h" [value], call 5 "g" [], call 6 "sin" []]
    let f : Func := ⟨line 1, "f", [⟨line 1, "g", int 1⟩], none,
      ⟨line 2, [.cond (line 2) (.bool (line 2) true) ⟨line 3, [print]⟩ [] none]⟩⟩
    let func (n : UInt32) (name callee : String) : Func :=
      ⟨line n, name, [], none, ⟨line n, [.ret (line n) (some (call n callee []))]⟩⟩
    let source (callee : String) : Source :=
      ⟨line 1, [.func f, .func (func 7 "g" callee), .func (func 8 "h" callee)]⟩
    (∃ notes notes' g c n, (source "cos").bindNames {} = .ok () notes ∧
      (source "cos").collectCapabilities notes = .ok () notes' ∧
      CallGraph.build (source "cos") notes' = .ok g ∧ g.nodes[0]? = some n ∧
      notes'.readCapabilities [.item 0] = .ok c ∧ c.containsPrint = true ∧
      c.containsDynamicIndex = true ∧ c.calls = [⟨2⟩, ⟨0⟩] ∧
      ∀ id, id ∈ n.callees ↔ id ∈ [⟨2⟩, ⟨0⟩]) ∧
    ∃ notes notes', (source "x").bindNames {} = .ok () notes ∧
      (source "x").collectCapabilities notes =
        .error (.code ⟨.undefined "x", some (line 7)⟩) notes' ∧
      ∃ x, (source "x").UndefinedCall x := by
  intro line int call value print f func source
  constructor
  · obtain ⟨notes, hbind⟩ := Pass.answer_eq_ok_iff.mp
      (by decide +kernel : (source "cos").bindNames.answer {} = .ok ())
    have hanswer : ((source "cos").bindNames >>= fun _ =>
        (source "cos").collectCapabilities).answer {} = .ok () := by decide +kernel
    obtain ⟨notes', hrun⟩ := Pass.answer_eq_ok_iff.mp hanswer
    rw [Pass.run_bind, hbind] at hrun
    obtain ⟨-, -, hdone⟩ := (source "cos").collectCapabilities_describes_bodies notes hbind
    obtain ⟨g, hg, -, hnodes⟩ := hdone notes' hrun
    obtain ⟨c, n, hc, hn, hprint, hindex, hcalls, -, -, -, -, -, hcallees⟩ :=
      hnodes 0 ([.item 0], f) rfl
    have hids : c.calls = [⟨2⟩, ⟨0⟩] := hcalls.trans (by decide +kernel)
    have hprinted : ([.stmt 0, .block, .stmt 0, .body, .item 0], .stmt print) ∈
        f.bodyNodes [.item 0] := by
      simp [Func.bodyNodes, f, print, Block.outline, Stmt.outlines, Stmt.outline, Elif.outlines]
    have hvalue : ([.arg 0, .arg 0, .stmt 0, .block, .stmt 0, .body, .item 0], .expr value) ∈
        f.bodyNodes [.item 0] := by
      simp [Func.bodyNodes, f, print, call, value, Block.outline, Stmt.outlines, Stmt.outline,
        Elif.outlines, Expr.outline, Expr.outlines]
    exact ⟨notes, notes', g, c, n, hbind, hrun, hg, hn, hc, hprint.mpr ⟨_, _, _, hprinted⟩,
      hindex.mpr ⟨_, _, _, _, _, hvalue⟩, hids, hids ▸ hcallees⟩
  · obtain ⟨notes, hbind⟩ := Pass.answer_eq_ok_iff.mp
      (by decide +kernel : (source "x").bindNames.answer {} = .ok ())
    have hanswer : ((source "x").bindNames >>= fun _ =>
        (source "x").collectCapabilities).answer {} =
          .error (.code ⟨.undefined "x", some (line 7)⟩) := by decide +kernel
    obtain ⟨notes', hrun⟩ := Pass.answer_eq_error_iff.mp hanswer
    rw [Pass.run_bind, hbind] at hrun
    obtain ⟨hfails, -, -⟩ := (source "x").collectCapabilities_describes_bodies notes hbind
    exact ⟨notes, notes', hbind, hrun, hfails.mp ⟨_, _, hrun⟩⟩

end Source

/-! ### Chains of calls -/

namespace CallGraph

variable {g : CallGraph}

/-- What was checked when a graph was built: its nodes have the numbers from zero on, and every
callee has a node. -/
structure Checked (g : CallGraph) : Prop where
  numbered : g.nodes.map (·.id.index) = List.range g.nodes.length
  callees : ∀ n ∈ g.nodes, ∀ id ∈ n.callees, g.Has id

theorem mem_of_node {id : FuncId} {n : CallNode} (h : g.node id = .ok n) : n ∈ g.nodes := by
  rw [node] at h
  split at h
  · next hget =>
    cases h
    exact List.mem_of_getElem? hget
  · cases h

theorem checked_of_build {source : Source} {notes : Annotations}
    (h : build source notes = .ok g) : g.Checked := by
  obtain ⟨nodes, -, h⟩ := Result.bind_eq_ok_iff.mp h
  dsimp only at h
  split at h
  · cases h
  · next hnumbered =>
    obtain ⟨hcallees, hg⟩ := Result.seq_eq_ok_iff.mp h
    cases hg
    refine ⟨not_not.mp hnumbered, fun n hn id hid => ?_⟩
    have hnode := Result.forM_eq_ok_iff.mp (Result.forM_eq_ok_iff.mp hcallees n hn) id hid
    cases hget : node ⟨nodes.foldr CallNode.insert []⟩ id with
    | ok m => exact ⟨m, hget⟩
    | error e =>
      rw [hget] at hnode
      cases hnode

namespace Checked

variable (h : g.Checked)
include h

theorem closed : g.Closed := by
  rintro a b ⟨n, hn, hb⟩
  exact h.callees n (mem_of_node hn) b hb

/-- A node has its place among the nodes as its number. -/
theorem has_iff_exists {id : FuncId} : g.Has id ↔ ∃ n ∈ g.nodes, n.id = id := by
  have hindex : id.index < g.nodes.length ↔ id.index ∈ g.nodes.map (·.id.index) := by
    rw [h.numbered, List.mem_range]
  rw [has_iff, hindex, List.mem_map]
  exact exists_congr fun n => and_congr_right fun _ =>
    ⟨FuncId.eq_of_index_eq, fun heq => by rw [heq]⟩

end Checked

/-- Without a node there is no answer. -/
theorem callees_of_not_has {id : FuncId} (h : ¬ g.Has id) :
    g.callees id = Result.defect (.notInCallGraph id) := by
  have hnone : g.nodes[id.index]? = none :=
    List.getElem?_eq_none (Nat.le_of_not_lt fun hlt => h (has_iff.mpr hlt))
  rw [callees, node, hnone]
  rfl

theorem ascending_of_explore {pending visited result : List FuncId}
    (hvisited : FuncId.Ascending visited) (h : g.explore pending visited = .ok result) :
    FuncId.Ascending result := by
  induction pending, visited using explore.induct g with
  | case1 visited =>
    cases (g.explore_nil visited).symm.trans h
    exact hvisited
  | case2 next pending visited hseen ih =>
    rw [g.explore_of_mem hseen] at h
    exact ih hvisited h
  | case3 next pending visited hseen ids hcallees _ ih =>
    rw [g.explore_of_not_mem hseen, hcallees] at h
    exact ih (FuncId.ascending_insert hvisited) h
  | case4 next pending visited hseen e hcallees =>
    rw [g.explore_of_not_mem hseen, hcallees] at h
    cases h

/-- The functions within reach are listed in order, each once. -/
theorem ascending_of_reachable {id : FuncId} {ids : List FuncId}
    (h : g.reachable id = .ok ids) : FuncId.Ascending ids := by
  obtain ⟨direct, -, h⟩ := Result.bind_eq_ok_iff.mp h
  exact ascending_of_explore List.Pairwise.nil h

/-- In every graph that was built, a node reaches the functions at the end of a chain of one or more
calls, which are listed in order, each once, and it is recursive if such a chain leads back to it.
The search always ends with an answer. What has no node is an internal error. -/
theorem reachable_by_chains (source : Source) (notes : Annotations) (g : CallGraph)
    (h : build source notes = .ok g) (id : FuncId) :
    ((∃ n ∈ g.nodes, n.id = id) →
      (∃ ids, g.reachable id = .ok ids ∧ FuncId.Ascending ids ∧
        ∀ b, b ∈ ids ↔ Relation.TransGen g.Calls id b) ∧
      ∃ b, g.isRecursive id = .ok b ∧ (b = true ↔ Relation.TransGen g.Calls id id)) ∧
    ((∀ n ∈ g.nodes, n.id ≠ id) →
      g.reachable id = Result.defect (.notInCallGraph id) ∧
      g.isRecursive id = Result.defect (.notInCallGraph id)) := by
  have hg := checked_of_build h
  constructor
  · intro hnode
    have hid : g.Has id := hg.has_iff_exists.mpr hnode
    obtain ⟨ids, hids, hreach⟩ := reachable_eq hg.closed hid
    exact ⟨⟨ids, hids, ascending_of_reachable hids, hreach⟩, isRecursive_eq hg.closed hid⟩
  · intro hnone
    have hid : ¬ g.Has id := fun hid => by
      obtain ⟨n, hn, heq⟩ := hg.has_iff_exists.mp hid
      exact hnone n hn heq
    have hreachable : g.reachable id = Result.defect (.notInCallGraph id) := by
      rw [reachable, callees_of_not_has hid]
      rfl
    refine ⟨hreachable, ?_⟩
    rw [isRecursive, hreachable]
    rfl

/-- Two functions call each other, and a third one calls one of them. -/
theorem reachable_by_chains_mutual_recursion :
    let line (n : UInt32) : Position := ⟨"main", n, 1⟩
    let func (n : UInt32) (name callee : String) : Item := .func ⟨line n, name, [], none,
      ⟨line n, [.print (line n) [.call (line n) ⟨line n, callee⟩ []]]⟩⟩
    let source : Source :=
      ⟨line 1, [func 1 "ping" "pong", func 2 "pong" "ping", func 3 "idle" "ping"]⟩
    ∃ notes g, build source notes = .ok g ∧ g.reachable ⟨2⟩ = .ok [⟨0⟩, ⟨1⟩] ∧
      (∀ b, b ∈ [⟨0⟩, ⟨1⟩] ↔ Relation.TransGen g.Calls ⟨2⟩ b) ∧
      Relation.TransGen g.Calls ⟨0⟩ ⟨0⟩ ∧ ¬ Relation.TransGen g.Calls ⟨2⟩ ⟨2⟩ ∧
      g.isRecursive ⟨3⟩ = Result.defect (.notInCallGraph ⟨3⟩) := by
  intro line func source
  have hbuild := source.build_capabilityNotes
  have hchains := reachable_by_chains source _ _ hbuild
  obtain ⟨⟨ids, hids, -, hreach⟩, b, hb, hidle⟩ := (hchains ⟨2⟩).1 (by decide +kernel)
  obtain ⟨-, b', hb', hping⟩ := (hchains ⟨0⟩).1 (by decide +kernel)
  have hfound : source.callGraph.reachable ⟨2⟩ = .ok [⟨0⟩, ⟨1⟩] := by decide +kernel
  cases hids.symm.trans hfound
  have hfalse : source.callGraph.isRecursive ⟨2⟩ = .ok false := by decide +kernel
  have htrue : source.callGraph.isRecursive ⟨0⟩ = .ok true := by decide +kernel
  cases hb.symm.trans hfalse
  cases hb'.symm.trans htrue
  exact ⟨_, source.callGraph, hbuild, hfound, hreach, hping.mp rfl,
    fun h => Bool.false_ne_true (hidle.mpr h), ((hchains ⟨3⟩).2 (by decide +kernel)).2⟩

end CallGraph

end SimCompiler
