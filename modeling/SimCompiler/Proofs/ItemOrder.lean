import Mathlib.Data.List.Nodup
import SimCompiler.Proofs.Agreement
import SimCompiler.Proofs.Annotated
import SimCompiler.Proofs.FrameContents
import SimCompiler.Proofs.Reachability

/-!
# The order of items

A name can be used before it is declared, so a program means the same in whatever order its items
stand. Functions are numbered in source order, and an item has its place in all paths below it. So
two orders of the same items are compared without numbers and paths: the nodes inside an item are
the same wherever it stands, the declarations are the same up to the numbers of functions, and
functions correspond if they have the same name, which no two functions of an accepted program have
in common.
-/
namespace SimCompiler

/-- The nodes of an item do not depend on where it stands. -/
theorem Item.map_snd_nodes (item : Item) (path path' : Path) :
    (item.outline path).nodes.map Prod.snd = (item.outline path').nodes.map Prod.snd :=
  (faithful_item item path).map_snd_nodes (faithful_item item path') (by simp)

theorem Func.map_snd_inner (f : Func) (path path' : Path) :
    (f.inner path).map Prod.snd = (f.inner path').map Prod.snd := by
  have h := (Item.func f).map_snd_nodes path path'
  simpa [Item.outline, f.nodes_outline] using h

theorem Item.checkReturns_path (item : Item) (path path' : Path) :
    item.checkReturns path = item.checkReturns path' := by
  have hsites : returnSites (item.outline path).nodes = returnSites (item.outline path').nodes := by
    have h := congrArg (List.filterMap Node.returnSite?) (item.map_snd_nodes path path')
    rwa [List.filterMap_map, List.filterMap_map] at h
  rw [checkReturns, checkReturns, hsites]

namespace Declaration

theorem find?_eq_some_iff {ds : List Declaration} (hnodup : (ds.map (·.name)).Nodup)
    {name : String} {d : Declaration} :
    ds.find? (·.name == name) = some d ↔ d ∈ ds ∧ d.name = name := by
  constructor
  · intro h
    exact ⟨List.mem_of_find?_eq_some h, by simpa using List.find?_some h⟩
  · rintro ⟨hd, rfl⟩
    exact find?_eq_some hnodup hd

/-- Where names differ, the order does not matter to a look-up. -/
theorem find?_perm {ds ds' : List Declaration} (h : ds.Perm ds')
    (hnodup : (ds.map (·.name)).Nodup) (name : String) :
    ds.find? (·.name == name) = ds'.find? (·.name == name) := by
  have hnodup' : (ds'.map (·.name)).Nodup := (h.map _).nodup_iff.mp hnodup
  ext d
  rw [find?_eq_some_iff hnodup, find?_eq_some_iff hnodup', h.mem_iff]

theorem find?_map_plain (ds : List Declaration) (name : String) :
    (ds.map plain).find? (·.name == name) = (ds.find? (·.name == name)).map plain := by
  have hname : (fun d : Declaration => d.name == name) ∘ plain = (·.name == name) := by
    funext d
    rw [Function.comp_apply, name_plain]
  rw [List.find?_map, hname]

theorem map_name_map_plain (ds : List Declaration) :
    (ds.map plain).map (·.name) = ds.map (·.name) := by
  simp

end Declaration

theorem Item.map_plain_declarations (item : Item) (n : Nat) :
    (item.declarations n).map Declaration.plain = item.declarations 0 := by
  cases item <;> simp [Item.declarations, Declaration.plain, Func.signature]

theorem Lattice.nodup_foldl_addType {l : Lattice} (h : l.names.Nodup) (names : List String) :
    (names.foldl Lattice.addType l).names.Nodup := by
  induction names generalizing l with
  | nil => exact h
  | cons name names ih =>
    apply ih
    rw [Lattice.addType]
    split
    · exact h
    · next hnew =>
      have hnot : name ∉ l.names := by simpa [Lattice.contains] using hnew
      exact List.nodup_append.mpr ⟨h, by simp, by rintro a ha b hb rfl; simp_all⟩

namespace Node

/-- The function of the program that the node calls, as it is declared. -/
def called? (scope : List Declaration) : Node → Option FuncSignature
  | .expr (.call _ callee _) =>
    match Declaration.resolveIn scope callee.name with
    | .ok (.func signature) => some signature
    | _ => none
  | _ => none

theorem callee?_eq_map (scope : List Declaration) (node : Node) :
    node.callee? scope = (node.called? scope).map (·.id) := by
  cases node with
  | expr e =>
    cases e with
    | call p callee args =>
      rw [callee?, called?]
      cases Declaration.resolveIn scope callee.name with
      | error e => rfl
      | ok d => cases d <;> rfl
    | _ => rfl
  | _ => rfl

theorem mem_of_called? {scope : List Declaration} {node : Node} {signature : FuncSignature}
    (h : node.called? scope = some signature) : .func signature ∈ scope := by
  unfold called? at h
  split at h
  · split at h
    · next hresolve =>
      cases h
      exact Declaration.mem_of_resolveIn hresolve
    · cases h
  · cases h

end Node

namespace Source

theorem map_plain_declarations (s : Source) :
    s.declarations.map Declaration.plain = s.items.flatMap (·.declarations 0) := by
  have hitems : ∀ (items : List Item) (n : Nat),
      (declarationsFrom n items).map Declaration.plain = items.flatMap (·.declarations 0) := by
    intro items
    induction items with
    | nil => exact fun _ => rfl
    | cons item items ih =>
      intro n
      rw [declarationsFrom, List.map_append, item.map_plain_declarations, ih, List.flatMap_cons]
  exact hitems s.items 0

theorem map_name_functions (s : Source) :
    s.functions.map (·.2.name) = (funcsIn s.items).map (·.name) := by
  rw [← map_snd_funcs_walked, funcs_walked, List.map_map]
  rfl

theorem ClashFree.nodup_functions {s : Source} (h : s.ClashFree) :
    (s.functions.map (·.2.name)).Nodup := by
  rw [map_name_functions, funcsIn, List.filterMap_eq_flatMap_toList, List.map_flatMap]
  refine List.Nodup.sublist (sublist_declarationsFrom (fun n item => ?_) 0 _) h.distinct
  cases item <;> simp [Item.declarations, Item.func?, Declaration.name, Func.signature]

/-- A check that does not depend on where an item stands is one of the items alone. -/
theorem forM_zipIdx_eq_ok_iff {items : List Item} (check : Path → Item → Result Unit)
    (hcheck : ∀ item path path', check path item = check path' item) :
    (forM items.zipIdx fun x => check [.item x.2] x.1) = .ok () ↔
      ∀ item ∈ items, check [] item = .ok () := by
  rw [Result.forM_eq_ok_iff]
  constructor
  · intro h item hitem
    obtain ⟨i, hi⟩ := List.mem_iff_getElem?.mp hitem
    rw [hcheck item [] [.item i]]
    exact h (item, i) (List.mem_zipIdx_iff_getElem?.mpr hi)
  · rintro h ⟨item, i⟩ hmem
    rw [hcheck item [.item i] []]
    exact h item (List.mem_of_getElem? (List.mem_zipIdx_iff_getElem?.mp hmem))

theorem checkCallsIn_path (s : Source) (item : Item) (path path' : Path) :
    s.checkCallsIn path item = s.checkCallsIn path' item := by
  rw [checkCallsIn, checkCallsIn]
  cases item.func? with
  | none => rfl
  | some f =>
    have h := congrArg (forM · (Node.checkCall (s.inScope item))) (f.map_snd_inner path path')
    simpa only [List.forM_map] using h

section Reordered

variable {s s' : Source} (hperm : s.items.Perm s'.items)
include hperm

theorem perm_declarations :
    (s.declarations.map Declaration.plain).Perm (s'.declarations.map Declaration.plain) := by
  rw [map_plain_declarations, map_plain_declarations]
  exact hperm.flatMap_right _

theorem ClashFree.reordered (h : s.ClashFree) : s'.ClashFree := by
  have hnames : (s.declarations.map (·.name)).Perm (s'.declarations.map (·.name)) := by
    have hplain := (perm_declarations hperm).map (·.name)
    rwa [Declaration.map_name_map_plain, Declaration.map_name_map_plain] at hplain
  refine ⟨hnames.nodup_iff.mp h.distinct, fun d hd b hb => ?_, fun f hf => ?_⟩
  · obtain ⟨d', hd', hname⟩ := List.mem_map.mp (hnames.mem_iff.mpr (List.mem_map_of_mem hd))
    rw [← hname]
    exact h.noBuiltin d' hd' b hb
  · exact h.distinctOwn f (hperm.mem_iff.mpr hf)

theorem alike_lattice : s.lattice.Alike s'.lattice := by
  have hnodup : ∀ s : Source, s.lattice.names.Nodup := fun s =>
    Lattice.nodup_foldl_addType (by decide) s.enumNames
  refine ⟨by simp [lattice], (List.perm_ext_iff_of_nodup (hnodup s) (hnodup s')).mpr fun name => ?_⟩
  have hcontains : s.lattice.contains name = true ↔ s'.lattice.contains name = true := by
    rw [contains_lattice_iff, contains_lattice_iff]
    simp only [hperm.mem_iff]
  simpa [Lattice.contains] using hcontains

variable (hclash : s.ClashFree)
include hclash

/-- A name stands for the same declaration in both orders. -/
theorem agree_resolveIn (item : Item) (name : String) :
    Result.Agree (fun d d' => d.plain = d'.plain) (Declaration.resolveIn (s.inScope item) name)
      (Declaration.resolveIn (s'.inScope item) name) := by
  have hdeclared : (s.declarations.find? (·.name == name)).map Declaration.plain =
      (s'.declarations.find? (·.name == name)).map Declaration.plain := by
    rw [← Declaration.find?_map_plain, ← Declaration.find?_map_plain]
    refine Declaration.find?_perm (perm_declarations hperm) ?_ name
    rw [Declaration.map_name_map_plain]
    exact hclash.distinct
  have hscope : ((s.inScope item).find? (·.name == name)).map Declaration.plain =
      ((s'.inScope item).find? (·.name == name)).map Declaration.plain := by
    simp only [inScope, outerScope, List.find?_append, Option.map_or, hdeclared]
  rw [Declaration.resolveIn, Declaration.resolveIn]
  cases hfind : (s.inScope item).find? (·.name == name) with
  | none =>
    rw [hfind, Option.map_none, eq_comm, Option.map_eq_none_iff] at hscope
    rw [hscope]
    exact .error _ _
  | some d =>
    rw [hfind, Option.map_some, eq_comm, Option.map_eq_some_iff] at hscope
    obtain ⟨d', hfind', hplain⟩ := hscope
    rw [hfind']
    exact .ok hplain.symm

theorem alike_typeScope (item : Item) : (s.typeScope item).Alike (s'.typeScope item) :=
  ⟨fun r => agree_resolveIn hperm hclash item r.name, alike_lattice hperm⟩

theorem agree_checkCallsIn (path : Path) (item : Item) :
    Result.Agree Eq (s.checkCallsIn path item) (s'.checkCallsIn path item) := by
  rw [checkCallsIn, checkCallsIn]
  cases item.func? with
  | none => exact .refl _
  | some f =>
    refine Result.agree_forM fun x _ => ?_
    unfold Node.checkCall
    split
    · next p callee args _ =>
      exact ((agree_resolveIn hperm hclash item callee.name).bind fun _ _ _ => .refl _).orPosition
        p p
    · exact .refl _

end Reordered

/-- A program that is accepted is accepted in any order of its items. -/
theorem verdict_reordered {s s' : Source} (hperm : s.items.Perm s'.items)
    (h : s.verdict = .ok ()) : s'.verdict = .ok () := by
  obtain ⟨hclash, hreturns, hcalls, htypes⟩ := verdict_eq_ok_iff.mp h
  refine verdict_eq_ok_iff.mpr ⟨hclash.reordered hperm, ?_, ?_, ?_⟩
  · rw [checkReturns, forM_zipIdx_eq_ok_iff (fun path item => item.checkReturns path)
      Item.checkReturns_path] at hreturns ⊢
    exact fun item hitem => hreturns item (hperm.mem_iff.mpr hitem)
  · rw [checkCalls, forM_zipIdx_eq_ok_iff (checkCallsIn _) (checkCallsIn_path _)] at hcalls ⊢
    intro item hitem
    have hagree := agree_checkCallsIn hperm hclash [] item
    exact (hagree.ok_iff ()).mp (hcalls item (hperm.mem_iff.mpr hitem))
  · rw [typeCheck, Result.forM_eq_ok_iff] at htypes ⊢
    intro item hitem
    have hagree := (alike_typeScope hperm hclash item).checkItem item
    exact (hagree.ok_iff ()).mp (htypes item (hperm.mem_iff.mpr hitem))

/-- The functions that the function `x` calls as they are declared, one for each call. -/
def called (s : Source) (x : Path × Func) : List FuncSignature :=
  (x.2.inner x.1).filterMap (·.2.called? (s.inScope (.func x.2)))

theorem calls_eq_map_called (s : Source) (x : Path × Func) :
    (s.capabilitiesOf x).calls = (s.called x).map (·.id) := by
  simp only [capabilitiesOf, Capabilities.observe, List.nil_append, called, List.map_filterMap,
    Node.callee?_eq_map]

theorem getElem?_called (s : Source) {x : Path × Func} {signature : FuncSignature}
    (h : signature ∈ s.called x) :
    ∃ y, s.functions[signature.id.index]? = some y ∧ y.2.name = signature.name := by
  obtain ⟨node, -, hcalled⟩ := List.mem_filterMap.mp h
  obtain ⟨y, hy, hsignature⟩ := s.getElem?_functions (Node.mem_of_called? hcalled)
  exact ⟨y, hy, by rw [hsignature]; rfl⟩

theorem node_callGraph_eq (s : Source) {id : FuncId} {x : Path × Func}
    (h : s.functions[id.index]? = some x) :
    s.callGraph.node id = .ok (s.callNode id.index x) := by
  simp [CallGraph.node, callGraph, h]

theorem map_name_callGraph (s : Source) :
    s.callGraph.nodes.map (·.name) = s.functions.map (·.2.name) := by
  apply List.ext_getElem?
  intro k
  simp [callGraph, callNode, Function.comp_def]

theorem exists_of_mem_nodes (s : Source) {n : CallNode} (h : n ∈ s.callGraph.nodes) :
    ∃ x, s.functions[n.id.index]? = some x ∧ n = s.callNode n.id.index x := by
  obtain ⟨k, hk, rfl⟩ := List.mem_mapIdx.mp h
  exact ⟨s.functions[k], List.getElem?_eq_getElem hk, rfl⟩

theorem mem_callees_callNode (s : Source) {k : Nat} {x : Path × Func} {id : FuncId} :
    id ∈ (s.callNode k x).callees ↔ ∃ signature ∈ s.called x, signature.id = id := by
  rw [callNode, FuncId.mem_sorted, calls_eq_map_called, List.mem_map]

theorem calls_callGraph_iff (s : Source) {a b : FuncId} : s.callGraph.Calls a b ↔
    ∃ x, s.functions[a.index]? = some x ∧ ∃ signature ∈ s.called x, signature.id = b := by
  constructor
  · rintro ⟨n, hn, hb⟩
    have hlt := CallGraph.has_iff.mp ⟨n, hn⟩
    rw [length_callGraph] at hlt
    have hx : s.functions[a.index]? = some s.functions[a.index] := List.getElem?_eq_getElem hlt
    cases hn.symm.trans (s.node_callGraph_eq hx)
    exact ⟨_, hx, s.mem_callees_callNode.mp hb⟩
  · rintro ⟨x, hx, hb⟩
    exact ⟨_, s.node_callGraph_eq hx, s.mem_callees_callNode.mpr hb⟩

theorem closed_callGraph (s : Source) : s.callGraph.Closed := by
  intro a b h
  obtain ⟨x, -, signature, hsignature, rfl⟩ := s.calls_callGraph_iff.mp h
  obtain ⟨y, hy, -⟩ := s.getElem?_called hsignature
  exact ⟨_, s.node_callGraph_eq hy⟩

end Source

namespace CallGraph

/-- The names of the functions that the node calls. -/
def calleeNames (g : CallGraph) (n : CallNode) : Result (List String) :=
  n.callees.mapM fun id => do return (← g.node id).name

/-- The node `n` of `g` says the same about a function as the node `n'` of `g'`, the numbers of
functions apart. -/
structure Alike (g g' : CallGraph) (n n' : CallNode) : Prop where
  containsPrint : n.containsPrint = n'.containsPrint
  containsDynamicIndex : n.containsDynamicIndex = n'.containsDynamicIndex
  calleeNames : ∃ names names', g.calleeNames n = .ok names ∧ g'.calleeNames n' = .ok names' ∧
    ∀ name, name ∈ names ↔ name ∈ names'
  isRecursive : ∃ b, g.isRecursive n.id = .ok b ∧ g'.isRecursive n'.id = .ok b

end CallGraph

namespace Source

theorem calleeNames_callGraph (s : Source) (k : Nat) (x : Path × Func) :
    ∃ names, s.callGraph.calleeNames (s.callNode k x) = .ok names ∧
      ∀ name, name ∈ names ↔ name ∈ (s.called x).map (·.name) := by
  have hname : ∀ signature ∈ s.called x,
      (do return (← s.callGraph.node signature.id).name) = Except.ok signature.name := by
    intro signature hsignature
    obtain ⟨y, hy, hyname⟩ := s.getElem?_called hsignature
    rw [s.node_callGraph_eq hy, ← hyname]
    rfl
  obtain ⟨names, hnames⟩ : ∃ names, s.callGraph.calleeNames (s.callNode k x) = .ok names := by
    refine Result.mapM_ok fun id hid => ?_
    obtain ⟨signature, hsignature, rfl⟩ := s.mem_callees_callNode.mp hid
    exact ⟨_, hname signature hsignature⟩
  refine ⟨names, hnames, fun name => ?_⟩
  rw [Result.mem_of_mapM hnames, List.mem_map]
  constructor
  · rintro ⟨id, hid, heq⟩
    obtain ⟨signature, hsignature, rfl⟩ := s.mem_callees_callNode.mp hid
    exact ⟨signature, hsignature, Except.ok.inj ((hname signature hsignature).symm.trans heq)⟩
  · rintro ⟨signature, hsignature, rfl⟩
    exact ⟨_, s.mem_callees_callNode.mpr ⟨signature, hsignature, rfl⟩, hname signature hsignature⟩

/-- A function prints and indexes the same wherever it stands. -/
theorem flags_capabilitiesOf (s s' : Source) {x x' : Path × Func} (h : x.2 = x'.2) :
    (s.capabilitiesOf x).containsPrint = (s'.capabilitiesOf x').containsPrint ∧
      (s.capabilitiesOf x).containsDynamicIndex =
        (s'.capabilitiesOf x').containsDynamicIndex := by
  obtain ⟨path, f⟩ := x
  obtain ⟨path', f'⟩ := x'
  obtain rfl : f = f' := h
  have hnodes := f.map_snd_inner path path'
  have hprints := congrArg (List.any · Node.prints) hnodes
  have hindexes := congrArg (List.any · Node.indexes) hnodes
  simp only [List.any_map] at hprints hindexes
  exact ⟨hprints, hindexes⟩

/-- Functions with the numbers `a` and `a'` have the same name. -/
def Namesakes (s s' : Source) (a a' : FuncId) : Prop :=
  ∃ x x', s.functions[a.index]? = some x ∧ s'.functions[a'.index]? = some x' ∧
    x.2.name = x'.2.name

namespace Namesakes

variable {s s' : Source} {a a' b' : FuncId}

theorem symm (h : Namesakes s s' a a') : Namesakes s' s a' a := by
  obtain ⟨x, x', hx, hx', hname⟩ := h
  exact ⟨x', x, hx', hx, hname.symm⟩

theorem has (h : Namesakes s s' a a') : s.callGraph.Has a := by
  obtain ⟨x, -, hx, -⟩ := h
  exact ⟨_, s.node_callGraph_eq hx⟩

theorem eq (hclash : s'.ClashFree) (ha : Namesakes s s' a a') (hb : Namesakes s s' a b') :
    a' = b' := by
  obtain ⟨x, x', hx, hx', hname⟩ := ha
  obtain ⟨y, y', hy, hy', hname'⟩ := hb
  cases hx.symm.trans hy
  have hsame : (s'.functions.map (·.2.name))[a'.index]? =
      (s'.functions.map (·.2.name))[b'.index]? := by
    rw [List.getElem?_map, List.getElem?_map, hx', hy', Option.map_some, Option.map_some, ← hname,
      hname']
  have hlt : a'.index < (s'.functions.map (·.2.name)).length := by
    rw [List.length_map]
    exact (List.getElem?_eq_some_iff.mp hx').1
  obtain ⟨i⟩ := a'
  obtain ⟨j⟩ := b'
  exact congrArg FuncId.mk ((List.getElem?_inj hlt hclash.nodup_functions).mp hsame)

end Namesakes

section Reordered

variable {s s' : Source} (hperm : s.items.Perm s'.items) (hclash : s.ClashFree)
include hperm hclash

theorem map_name_called? (item : Item) (node : Node) :
    (node.called? (s.inScope item)).map (·.name) =
      (node.called? (s'.inScope item)).map (·.name) := by
  cases node with
  | expr e =>
    cases e with
    | call p callee args =>
      have hagree := agree_resolveIn hperm hclash item callee.name
      rw [Node.called?, Node.called?]
      generalize Declaration.resolveIn (s.inScope item) callee.name = found at hagree ⊢
      generalize Declaration.resolveIn (s'.inScope item) callee.name = found' at hagree ⊢
      cases hagree with
      | error e e' => rfl
      | @ok d d' hplain =>
        rcases Declaration.eq_or_func_of_plain hplain with rfl | ⟨f, f', rfl, rfl⟩
        · rfl
        · have hname := congrArg Declaration.name hplain
          exact congrArg some hname
    | _ => rfl
  | _ => rfl

/-- A function calls functions with the same names in both orders. -/
theorem map_name_called {x x' : Path × Func} (h : x.2 = x'.2) :
    (s.called x).map (·.name) = (s'.called x').map (·.name) := by
  obtain ⟨path, f⟩ := x
  obtain ⟨path', f'⟩ := x'
  obtain rfl : f = f' := h
  have hnodes := congrArg
    (List.filterMap fun node => (node.called? (s.inScope (.func f))).map (·.name))
    (f.map_snd_inner path path')
  rw [List.filterMap_map, List.filterMap_map] at hnodes
  rw [called, called, List.map_filterMap, List.map_filterMap]
  exact hnodes.trans (List.filterMap_congr fun x _ => map_name_called? hperm hclash (.func f) x.2)

theorem eq_of_name_eq {x x' : Path × Func} (hx : x ∈ s.functions) (hx' : x' ∈ s'.functions)
    (hname : x.2.name = x'.2.name) : x.2 = x'.2 := by
  obtain ⟨j, hj, -⟩ := mem_functions_iff.mp hx'
  obtain ⟨i, hi⟩ := List.mem_iff_getElem?.mp (hperm.mem_iff.mpr (List.mem_of_getElem? hj))
  have hmem : ([.item i], x'.2) ∈ s.functions := mem_functions_iff.mpr ⟨i, hi, rfl⟩
  have heq := List.inj_on_of_nodup_map hclash.nodup_functions hx hmem hname
  rw [heq]

/-- Namesakes call namesakes. -/
theorem exists_call {a a' b : FuncId} (ha : Namesakes s s' a a') (h : s.callGraph.Calls a b) :
    ∃ b', Namesakes s s' b b' ∧ s'.callGraph.Calls a' b' := by
  obtain ⟨x, x', hx, hx', hname⟩ := ha
  obtain ⟨y, hy, signature, hsignature, rfl⟩ := s.calls_callGraph_iff.mp h
  cases hx.symm.trans hy
  have hfunc := eq_of_name_eq hperm hclash (List.mem_of_getElem? hx) (List.mem_of_getElem? hx')
    hname
  have hmem : signature.name ∈ (s'.called x').map (·.name) := by
    rw [← map_name_called hperm hclash hfunc]
    exact List.mem_map_of_mem hsignature
  obtain ⟨signature', hsignature', hsame⟩ := List.mem_map.mp hmem
  obtain ⟨y, hy, hyname⟩ := s.getElem?_called hsignature
  obtain ⟨y', hy', hyname'⟩ := s'.getElem?_called hsignature'
  refine ⟨signature'.id, ⟨y, y', hy, hy', by rw [hyname, hyname', hsame]⟩, ?_⟩
  exact s'.calls_callGraph_iff.mpr ⟨x', hx', signature', hsignature', rfl⟩

/-- A chain of calls that leads back to a function has a counterpart. -/
theorem transGen_namesake {a a' : FuncId} (ha : Namesakes s s' a a')
    (h : Relation.TransGen s.callGraph.Calls a a) :
    Relation.TransGen s'.callGraph.Calls a' a' := by
  obtain ⟨b', hb', hreach⟩ := CallGraph.exists_transGen (r := Namesakes s s')
    (fun _ _ _ => exists_call hperm hclash) ha h
  rwa [← ha.eq (hclash.reordered hperm) hb'] at hreach

theorem isRecursive_namesake {a a' : FuncId} (ha : Namesakes s s' a a') :
    ∃ b, s.callGraph.isRecursive a = .ok b ∧ s'.callGraph.isRecursive a' = .ok b := by
  obtain ⟨b, hb, hiff⟩ := CallGraph.isRecursive_eq s.closed_callGraph ha.has
  obtain ⟨b', hb', hiff'⟩ := CallGraph.isRecursive_eq s'.closed_callGraph ha.symm.has
  have hsame : b = b' := by
    rw [Bool.eq_iff_iff, hiff, hiff']
    exact ⟨transGen_namesake hperm hclash ha,
      transGen_namesake hperm.symm (hclash.reordered hperm) ha.symm⟩
  exact ⟨b, hb, hsame ▸ hb'⟩

theorem alike_callGraph {n n' : CallNode} (hn : n ∈ s.callGraph.nodes)
    (hn' : n' ∈ s'.callGraph.nodes) (hname : n.name = n'.name) :
    s.callGraph.Alike s'.callGraph n n' := by
  obtain ⟨x, hx, hnode⟩ := s.exists_of_mem_nodes hn
  obtain ⟨x', hx', hnode'⟩ := s'.exists_of_mem_nodes hn'
  have hfunc : x.2 = x'.2 := by
    apply eq_of_name_eq hperm hclash (List.mem_of_getElem? hx) (List.mem_of_getElem? hx')
    rwa [hnode, hnode'] at hname
  have hsame : Namesakes s s' n.id n'.id := ⟨x, x', hx, hx', by rw [hfunc]⟩
  obtain ⟨hprint, hindex⟩ := flags_capabilitiesOf s s' hfunc
  obtain ⟨names, hnames, hmem⟩ := s.calleeNames_callGraph n.id.index x
  obtain ⟨names', hnames', hmem'⟩ := s'.calleeNames_callGraph n'.id.index x'
  rw [← hnode] at hnames
  rw [← hnode'] at hnames'
  refine ⟨?_, ?_, ⟨names, names', hnames, hnames', fun name => ?_⟩,
    isRecursive_namesake hperm hclash hsame⟩
  · rw [hnode, hnode']
    exact hprint
  · rw [hnode, hnode']
    exact hindex
  · rw [hmem, hmem', map_name_called hperm hclash hfunc]

end Reordered

/-- The slot of an operator or a call holds its type. -/
theorem Annotated.readType_eq {s : Source} {notes : Annotations} (h : s.Annotated notes) {j : Nat}
    {item : Item} (hj : s.items[j]? = some item) {path : Path} {e : Expr}
    (hmem : (path, .expr e) ∈ (item.outline [.item j]).nodes) (hslot : e.hasSlot = true) :
    ∃ type, notes.readType path = .ok type ∧ (s.typeScope item).typeOf e = .ok (some type) := by
  obtain ⟨type, hget⟩ := h.filled.slots path e (mem_nodes_of_item hj hmem) hslot
  refine ⟨type, by rw [Annotations.readType, hget], ?_⟩
  exact ((s.describes_item hj).types path e hmem _).mp (h.sound.types path type hget)

section Applied

variable {s s' : Source} (hperm : s.items.Perm s'.items) {session session' : Session}
  (hrun : Session.apply s {} = .ok () session)
include hperm hrun

theorem exists_apply_reordered : ∃ session', Session.apply s' {} = .ok () session' := by
  have hverdict := verdict_reordered hperm (verdict_of_apply hrun)
  rw [← s'.apply_follows.answer_eq] at hverdict
  exact Pass.answer_eq_ok_iff.mp hverdict

/-- An operator or a call of an item has the same type wherever the item stands. -/
theorem readType_reordered (hrun' : Session.apply s' {} = .ok () session') {i j : Nat} {item : Item}
    (hi : s.items[i]? = some item) (hj : s'.items[j]? = some item) {k : Nat} {path : Path}
    {e : Expr} (hk : (item.outline [.item i]).nodes[k]? = some (path, .expr e))
    (hslot : e.hasSlot = true) :
    ∃ path' type, (item.outline [.item j]).nodes[k]? = some (path', .expr e) ∧
      session.notes.readType path = .ok type ∧ session'.notes.readType path' = .ok type := by
  have hclash := (verdict_eq_ok_iff.mp (verdict_of_apply hrun)).1
  have hnodes := congrArg (·[k]?) (item.map_snd_nodes [.item i] [.item j])
  simp only [List.getElem?_map, hk, Option.map_some] at hnodes
  obtain ⟨⟨path', node⟩, hk', hnode⟩ := Option.map_eq_some_iff.mp hnodes.symm
  obtain rfl : node = .expr e := hnode
  obtain ⟨type, hread, htype⟩ :=
    (annotated_of_apply hrun).readType_eq hi (List.mem_of_getElem? hk) hslot
  obtain ⟨type', hread', htype'⟩ :=
    (annotated_of_apply hrun').readType_eq hj (List.mem_of_getElem? hk') hslot
  have hsame := (((alike_typeScope hperm hclash item).typeOf e).ok_iff (some type)).mp htype
  cases htype'.symm.trans hsame
  exact ⟨path', type, hk', hread, hread'⟩

end Applied

/-- The order of the items of a program does not matter to the analyses. They accept it in both
orders or in none. Then an operator or a call of an item, node number `k` of the item wherever that
stands, has the same type in both. The functions have the same names, each name once, and the call
graphs say the same about functions with the same name. -/
theorem apply_reordered (s s' : Source) (hperm : s.items.Perm s'.items) :
    ((∃ session, Session.apply s {} = .ok () session) ↔
      ∃ session', Session.apply s' {} = .ok () session') ∧
    ∀ session session', Session.apply s {} = .ok () session →
      Session.apply s' {} = .ok () session' →
      (∀ (i j : Nat) (item : Item), s.items[i]? = some item → s'.items[j]? = some item →
        ∀ (k : Nat) (path : Path) (e : Expr),
          (item.outline [.item i]).nodes[k]? = some (path, .expr e) → e.hasSlot = true →
          ∃ path' type, (item.outline [.item j]).nodes[k]? = some (path', .expr e) ∧
            session.notes.readType path = .ok type ∧
            session'.notes.readType path' = .ok type) ∧
      ∃ g g', session.callGraph = some g ∧ session'.callGraph = some g' ∧
        (g.nodes.map (·.name)).Nodup ∧ (g.nodes.map (·.name)).Perm (g'.nodes.map (·.name)) ∧
        ∀ n ∈ g.nodes, ∀ n' ∈ g'.nodes, n.name = n'.name → g.Alike g' n n' := by
  constructor
  · constructor
    · rintro ⟨session, hrun⟩
      exact exists_apply_reordered hperm hrun
    · rintro ⟨session', hrun'⟩
      exact exists_apply_reordered hperm.symm hrun'
  · intro session session' hrun hrun'
    have hclash := (verdict_eq_ok_iff.mp (verdict_of_apply hrun)).1
    refine ⟨fun i j item hi hj k path e hk hslot =>
      readType_reordered hperm hrun hrun' hi hj hk hslot, s.callGraph, s'.callGraph,
      (s.apply_follows.of_ok hrun).2, (s'.apply_follows.of_ok hrun').2, ?_, ?_, ?_⟩
    · rw [map_name_callGraph]
      exact hclash.nodup_functions
    · rw [map_name_callGraph, map_name_callGraph, map_name_functions, map_name_functions]
      exact (hperm.filterMap Item.func?).map _
    · intro n hn n' hn' hname
      exact alike_callGraph hperm hclash hn hn' hname

/-- Two functions that call each other, before what calls one of them and after it. -/
theorem apply_reordered_mutual_recursion :
    let line (n : UInt32) : Position := ⟨"main", n, 1⟩
    let cell (n : UInt32) : TypeRef := ⟨line n, "Cell", false⟩
    let call (n : UInt32) (name arg : String) : Expr :=
      .call (line n) ⟨line n, name⟩ [.ref ⟨line n, arg⟩]
    let func (n : UInt32) (name callee : String) : Func :=
      ⟨line n, name, [⟨line n, "a", cell n⟩], some (cell n),
        ⟨line n, [.ret (line n) (some (call n callee "a"))]⟩⟩
    let assign : Stmt :=
      .assign (line 4) ⟨line 4, "c"⟩ (call 4 "f" "Dead") (some ⟨line 4, "c", cell 4⟩)
    let items : List Item := [.enum ⟨line 1, "Cell", [⟨line 1, "Dead", "Cell"⟩]⟩,
      .func (func 2 "f" "g"), .func (func 3 "g" "f"), .stmt assign]
    ∃ session session', Session.apply ⟨line 1, items⟩ {} = .ok () session ∧
      Session.apply ⟨line 1, items.reverse⟩ {} = .ok () session' ∧
      (∃ type, session.notes.readType [.value, .item 3] = .ok type ∧
        session'.notes.readType [.value, .item 0] = .ok type) ∧
      ∃ g', session'.callGraph = some g' ∧
        ∃ n' ∈ g'.nodes, n'.name = "f" ∧ g'.isRecursive n'.id = .ok true := by
  intro line cell call func assign items
  obtain ⟨haccepts, hsame⟩ := apply_reordered ⟨line 1, items⟩ ⟨line 1, items.reverse⟩
    (List.reverse_perm items).symm
  have hanswer : (Session.apply ⟨line 1, items⟩).answer {} = .ok () := by decide +kernel
  obtain ⟨session, hrun⟩ := Pass.answer_eq_ok_iff.mp hanswer
  obtain ⟨session', hrun'⟩ := haccepts.mp ⟨session, hrun⟩
  obtain ⟨htypes, g, g', hg, hg', -, hnames, halike⟩ := hsame session session' hrun hrun'
  refine ⟨session, session', hrun, hrun', ?_, g', hg', ?_⟩
  · obtain ⟨path', type, hnode, hread, hread'⟩ := htypes 3 0 (.stmt assign) rfl rfl 4
      [.value, .item 3] (call 4 "f" "Dead") (by
        simp [assign, call, Item.outline, Stmt.outline, Variable.outline, TypeRef.outline,
          Ref.outline, Expr.outline, Outline.leaf]) rfl
    obtain rfl : [.value, .item 0] = path' := by
      simpa [assign, call, Item.outline, Stmt.outline, Variable.outline, TypeRef.outline,
          Ref.outline, Expr.outline, Outline.leaf] using hnode
    exact ⟨type, hread, hread'⟩
  · obtain rfl : Source.callGraph ⟨line 1, items⟩ = g :=
      Option.some.inj (((apply_follows _).of_ok hrun).2.symm.trans hg)
    obtain ⟨n, hn, hname, hrec⟩ : ∃ n ∈ (Source.callGraph ⟨line 1, items⟩).nodes, n.name = "f" ∧
        (Source.callGraph ⟨line 1, items⟩).isRecursive n.id = .ok true := by decide +kernel
    obtain ⟨n', hn', hname'⟩ := List.mem_map.mp (hnames.mem_iff.mp (List.mem_map_of_mem hn))
    obtain ⟨b, hb, hb'⟩ := (halike n hn n' hn' hname'.symm).isRecursive
    cases hrec.symm.trans hb
    exact ⟨n', hn', hname'.trans hname, hb'⟩

end Source

end SimCompiler
