import SimCompiler.Proofs.FunctionNotes

/-!
# Calls

What a function does is read off its nodes: whether there is a print statement or an indexed value
among them, and which functions the callees stand for. The call graph has one node for each function
of the program, in source order, and every callee is one of them.
-/
namespace SimCompiler

namespace Node

def prints : Node → Bool
  | .stmt (.print ..) => true
  | _ => false

def indexes : Node → Bool
  | .expr (.json ..) => true
  | _ => false

/-- The function of the program that the node calls, if it is a call of one. -/
def callee? (scope : List Declaration) : Node → Option FuncId
  | .expr (.call _ callee _) =>
    match Declaration.resolveIn scope callee.name with
    | .ok (.func signature) => some signature.id
    | _ => none
  | _ => none

/-- The callee of a call is defined. -/
def checkCall (scope : List Declaration) : Node → Result Unit
  | .expr (.call position callee _) =>
    Result.orPosition (do let _ ← Declaration.resolveIn scope callee.name) position
  | _ => .ok ()

end Node

namespace Capabilities

/-- What is known after the nodes have been seen as well. -/
def observe (scope : List Declaration) (c : Capabilities) (nodes : List (Path × Node)) :
    Capabilities where
  containsPrint := c.containsPrint || nodes.any (·.2.prints)
  containsDynamicIndex := c.containsDynamicIndex || nodes.any (·.2.indexes)
  calls := c.calls ++ nodes.filterMap (·.2.callee? scope)

theorem observe_nil (scope : List Declaration) (c : Capabilities) : c.observe scope [] = c := by
  simp [observe]

theorem observe_cons (scope : List Declaration) (c : Capabilities) (x : Path × Node)
    (xs : List (Path × Node)) :
    c.observe scope (x :: xs) = (c.observe scope [x]).observe scope xs := by
  cases h : x.2.callee? scope <;> simp [observe, h, Bool.or_assoc]

/-- The callee of every call among the nodes stands for what `scope` says. -/
def Resolves (notes : Annotations) (scopes : Scopes) (scope : List Declaration)
    (nodes : List (Path × Node)) : Prop :=
  ∀ path position callee args, (path, .expr (.call position callee args)) ∈ nodes →
    notes.resolve scopes (.callee :: path) callee = Declaration.resolveIn scope callee.name

variable {notes : Annotations} {scopes : Scopes} {scope : List Declaration}

theorem visit_call (hscopes : notes.readScopes = .ok scopes) {path : Path} {position : Position}
    {callee : Ref} {args : List Expr}
    (hcallee : notes.resolve scopes (.callee :: path) callee =
      Declaration.resolveIn scope callee.name) (c : Capabilities) :
    (visitor.visit (path, .expr (.call position callee args))).Follows ⟨notes, [c]⟩
      ((Node.expr (.call position callee args)).checkCall scope)
      fun _ w => w = ⟨notes, [c.observe scope [(path, .expr (.call position callee args))]]⟩ := by
  have hvisit : visitor.visit (path, .expr (.call position callee args)) =
      (enterCall path callee).orPosition position := rfl
  rw [hvisit]
  refine Pass.Follows.orPosition ?_ position
  cases hd : Declaration.resolveIn scope callee.name with
  | error e =>
    refine ⟨⟨notes, [c]⟩, ?_⟩
    simp [enterCall, hscopes, hcallee, hd]
  | ok d =>
    refine ⟨_, ?_, rfl⟩
    cases d <;>
      simp [enterCall, hscopes, hcallee, hd, update, observe, Node.callee?, Node.prints,
        Node.indexes]

/-- One node inside a function. -/
theorem visit_node (hscopes : notes.readScopes = .ok scopes) {x : Path × Node}
    (hflat : x.2.hasFrame = false) (hcalls : Resolves notes scopes scope [x]) (c : Capabilities) :
    (visitor.visit x).Follows ⟨notes, [c]⟩ (x.2.checkCall scope)
      fun _ w => w = ⟨notes, [c.observe scope [x]]⟩ := by
  obtain ⟨path, node⟩ := x
  have hidle : visitor.visit (path, node) = pure () → node.checkCall scope = .ok () →
      c.observe scope [(path, node)] = c → (visitor.visit (path, node)).Follows ⟨notes, [c]⟩
        (node.checkCall scope) fun _ w => w = ⟨notes, [c.observe scope [(path, node)]]⟩ := by
    intro hvisit hcheck hobserve
    rw [hvisit, hcheck, hobserve]
    exact Pass.follows_pure rfl
  have hsilent : node.prints = false → node.indexes = false → node.callee? scope = none →
      c.observe scope [(path, node)] = c := by
    intro hprints hindexes hcallee
    simp [observe, hprints, hindexes, hcallee]
  cases node with
  | source s => simp [Node.hasFrame] at hflat
  | func f => simp [Node.hasFrame] at hflat
  | stmt st =>
    cases st with
    | print p args =>
      refine Pass.follows_of_ok rfl ?_ rfl
      simp [Visitor.visit, Visitor.handle, visitor, Node.isLiteral, update, observe, Node.prints,
        Node.indexes, Node.callee?]
    | _ => exact hidle rfl rfl (hsilent rfl rfl rfl)
  | expr e =>
    cases e with
    | call p callee args => exact visit_call hscopes (hcalls path p callee args (by simp)) c
    | json p root indices target =>
      refine Pass.follows_of_ok rfl ?_ rfl
      simp [Visitor.visit, Visitor.handle, visitor, Node.isLiteral, update, observe, Node.prints,
        Node.indexes, Node.callee?]
    | _ => exact hidle rfl rfl (hsilent rfl rfl rfl)
  | _ => exact hidle rfl rfl (hsilent rfl rfl rfl)

theorem visit_nodes (hscopes : notes.readScopes = .ok scopes) (xs : List (Path × Node))
    (hflat : ∀ x ∈ xs, x.2.hasFrame = false) (hcalls : Resolves notes scopes scope xs)
    (c : Capabilities) :
    (forM xs visitor.visit).Follows ⟨notes, [c]⟩ (forM xs fun x => x.2.checkCall scope)
      fun _ w => w = ⟨notes, [c.observe scope xs]⟩ := by
  induction xs generalizing c with
  | nil => exact Pass.follows_pure (by rw [observe_nil])
  | cons x xs ih =>
    rw [List.forM_cons, List.forM_cons, observe_cons]
    refine (visit_node hscopes (hflat x (by simp)) ?_ c).bind ?_
    · intro path p callee args hmem
      exact hcalls path p callee args (List.mem_cons.mpr (.inl (List.mem_singleton.mp hmem)))
    · rintro - _ - rfl
      refine ih (fun y hy => hflat y (by simp [hy])) ?_ _
      exact fun path p callee args hmem => hcalls path p callee args (by simp [hmem])

/-- Outside of functions nothing is recorded. -/
theorem visit_outside (hscopes : notes.readScopes = .ok scopes) (xs : List (Path × Node))
    (hflat : ∀ x ∈ xs, x.2.hasFrame = false) :
    forM xs visitor.visit ⟨notes, []⟩ = .ok () ⟨notes, []⟩ := by
  induction xs with
  | nil => rfl
  | cons x xs ih =>
    obtain ⟨path, node⟩ := x
    have hnode := hflat (path, node) (by simp)
    have hvisit : visitor.visit (path, node) ⟨notes, []⟩ = .ok () ⟨notes, []⟩ := by
      cases node with
      | source s => simp [Node.hasFrame] at hnode
      | func f => simp [Node.hasFrame] at hnode
      | stmt st => cases st <;> rfl
      | expr e =>
        cases e with
        | call p callee args =>
          simp [Visitor.visit, Visitor.handle, visitor, Node.isLiteral, enterCall, hscopes]
        | _ => rfl
      | _ => rfl
    rw [List.forM_cons, Pass.run_bind, hvisit]
    exact ih fun y hy => hflat y (by simp [hy])

theorem leave_eq_pure (path : Path) {node : Node} (h : node.hasFrame = false) :
    visitor.leave path node = pure () := by
  cases node <;> first | rfl | simp [Node.hasFrame] at h

end Capabilities

namespace Source

/-- The callees of the calls inside a function are defined. -/
def checkCallsIn (s : Source) (path : Path) (item : Item) : Result Unit :=
  match item.func? with
  | some f => forM (f.inner path) fun x => x.2.checkCall (s.inScope item)
  | none => .ok ()

/-- The callees of all calls inside functions are defined. -/
def checkCalls (s : Source) : Result Unit :=
  forM s.items.zipIdx fun x => s.checkCallsIn [.item x.2] x.1

/-- What the function does. -/
def capabilitiesOf (s : Source) (x : Path × Func) : Capabilities :=
  Capabilities.observe (s.inScope (.func x.2)) {} (x.2.inner x.1)

/-- `base` with what the functions `done` do. -/
def capabilityNotes (s : Source) (base : Annotations) (done : List (Path × Func)) : Annotations :=
  { base with capabilities := ⟨(done.map fun x => (x.1, s.capabilitiesOf x)).reverse⟩ }

theorem resolves_inner (s : Source) {notes : Annotations}
    (hrefs : notes.refFrames = s.boundNotes.refFrames) {x : Path × Func} (hx : x ∈ s.functions) :
    Capabilities.Resolves notes s.walked.scopes (s.inScope (.func x.2)) (x.2.inner x.1) := by
  obtain ⟨path, f⟩ := x
  obtain ⟨i, hi, rfl⟩ := mem_functions_iff.mp hx
  intro path position callee args hmem
  have hnode : (path, .expr (.call position callee args)) ∈ (f.outline [.item i]).nodes := by
    rw [f.nodes_outline]
    exact List.mem_cons_of_mem _ hmem
  have hchild : callee.outline (.callee :: path) ∈
      ((Node.expr (.call position callee args)).outline path).children := by
    rw [Node.outline, Expr.outline]
    exact List.mem_cons_self
  have hcallee : (.callee :: path, .ref callee) ∈ (f.outline [.item i]).nodes :=
    (faithful_item (.func f) [.item i]).mem_nodes_child hnode hchild
  rw [← s.resolve_boundNotes hi hcallee, Annotations.resolve, Annotations.resolve,
    Annotations.readRefFrame, Annotations.readRefFrame, hrefs]

theorem walk_func_capabilities (s : Source) {base : Annotations}
    (hscopes : base.scopeChain = s.boundNotes.scopeChain)
    (hrefs : base.refFrames = s.boundNotes.refFrames) {done todo : List (Path × Func)}
    {x : Path × Func} (hfuncs : s.functions = done ++ x :: todo) :
    ((x.2.outline x.1).walk Capabilities.visitor).Follows ⟨s.capabilityNotes base done, []⟩
      (s.checkCallsIn x.1 (.func x.2))
      fun _ w => w = ⟨s.capabilityNotes base (done ++ [x]), []⟩ := by
  have hread : (s.capabilityNotes base done).readScopes = .ok s.walked.scopes := by
    change base.scopeChain.read _ _ = _
    rw [hscopes]
    rfl
  have hcalls : Capabilities.Resolves (s.capabilityNotes base done) s.walked.scopes
      (s.inScope (.func x.2)) (x.2.inner x.1) := s.resolves_inner hrefs (by simp [hfuncs])
  have henter : Capabilities.visitor.visit (x.1, .func x.2) ⟨s.capabilityNotes base done, []⟩ =
      .ok () ⟨s.capabilityNotes base done, [{}]⟩ := rfl
  have hfree : (s.capabilityNotes base done).capabilities.get? x.1 = none := by
    have hpaths := s.nodup_funcs_walked
    rw [funcs_walked, hfuncs, List.map_append, List.nodup_append] at hpaths
    apply SlotTable.get?_eq_none
    rw [capabilityNotes, List.map_reverse, List.mem_reverse, List.map_map]
    intro hmem
    exact hpaths.2.2 x.1 hmem x.1 (by simp) rfl
  have hwrite : (s.capabilityNotes base done).writeCapabilities x.1 (s.capabilitiesOf x) =
      .ok (s.capabilityNotes base (done ++ [x])) := by
    have htable := (SlotTable.write_eq_ok_iff _ _ .capabilities x.1
      (s.capabilitiesOf x)).mpr ⟨hfree, rfl⟩
    rw [Annotations.writeCapabilities, htable]
    simp [capabilityNotes, SlotTable.insert]
  rw [x.2.walk_outline fun path node => Capabilities.leave_eq_pure path]
  refine Pass.follows_bind_of_ok henter ?_
  refine (Capabilities.visit_nodes hread _ (x.2.flat_inner x.1) hcalls {}).then_ok ?_
  rintro - _ rfl
  refine ⟨_, ?_, rfl⟩
  rw [capabilitiesOf] at hwrite
  simp [Visitor.handle, Capabilities.visitor, Node.isLiteral, hwrite]

/-- What the functions do is recorded on them, unless the callee of a call is not defined. -/
theorem collectCapabilities_follows (s : Source) {base : Annotations}
    (hscopes : base.scopeChain = s.boundNotes.scopeChain)
    (hrefs : base.refFrames = s.boundNotes.refFrames) (hempty : base.capabilities = {}) :
    s.collectCapabilities.Follows base s.checkCalls
      fun _ notes => notes = s.capabilityNotes base s.functions := by
  have hread : ∀ done, (s.capabilityNotes base done).readScopes = .ok s.walked.scopes := by
    intro done
    change base.scopeChain.read _ _ = _
    rw [hscopes]
    rfl
  have hbase : s.capabilityNotes base [] = base := by
    cases base
    simp only at hempty
    subst hempty
    rfl
  have hwalk := walking_follows (s := s) (v := Capabilities.visitor) (s.capabilityNotes base)
    s.checkCallsIn ?_ rfl ?_ ?_
  · rwa [hbase] at hwalk
  · simp only [Visitor.visit, Visitor.handle, Capabilities.visitor, Node.isLiteral,
      Bool.false_eq_true, if_false, Pass.run_orPosition, Pass.run_bind, Pass.run_consult, hread,
      Pass.run_pure]
  · intro done x todo hfuncs
    exact s.walk_func_capabilities hscopes hrefs hfuncs
  · intro j item hitem done
    have hflat := flat_item item [.item j] hitem
    rw [Outline.walk_eq_forM_nodes _ _ fun x hx => Capabilities.leave_eq_pure x.1 (hflat x hx)]
    have hcheck : s.checkCallsIn [.item j] item = .ok () := by rw [checkCallsIn, hitem]
    exact Pass.follows_of_ok hcheck (Capabilities.visit_outside (hread done) _ hflat) rfl

/-- Functions are declared with their numbers. -/
theorem getElem?_functions (s : Source) {item : Item} {signature : FuncSignature}
    (h : .func signature ∈ s.inScope item) :
    ∃ x, s.functions[signature.id.index]? = some x ∧ signature = x.2.signature signature.id := by
  rcases List.mem_append.mp h with hown | houter
  · cases item with
    | func f =>
      obtain ⟨v, -, hv | hv⟩ := Func.exists_variable hown <;> cases hv
    | _ => simp [Item.ownDeclarations] at hown
  rcases List.mem_append.mp houter with hbuiltin | hdeclared
  · simp [Declaration.builtins] at hbuiltin
  obtain ⟨j, item, hj, hitem⟩ := exists_item_of_mem hdeclared
  cases item with
  | func f =>
    obtain rfl : signature = f.signature ⟨0 + (funcsIn (s.items.take j)).length⟩ := by
      simpa [Item.declarations] using hitem
    have hk := getElem?_funcsIn hj
    rw [← map_snd_funcs_walked, funcs_walked, List.getElem?_map, Option.map_eq_some_iff] at hk
    obtain ⟨x, hx, rfl⟩ := hk
    exact ⟨x, by simpa [Func.signature] using hx, rfl⟩
  | _ => simp [Item.declarations] at hitem

theorem lt_of_mem_calls (s : Source) {x : Path × Func} {id : FuncId}
    (h : id ∈ (s.capabilitiesOf x).calls) : id.index < s.functions.length := by
  simp only [capabilitiesOf, Capabilities.observe, List.nil_append, List.mem_filterMap] at h
  obtain ⟨y, -, hy⟩ := h
  unfold Node.callee? at hy
  split at hy
  · next p callee args hnode =>
    split at hy
    · next signature hresolve =>
      obtain rfl := Option.some.inj hy
      obtain ⟨z, hz, -⟩ := s.getElem?_functions (Declaration.mem_of_resolveIn hresolve)
      exact (List.getElem?_eq_some_iff.mp hz).1
    · cases hy
  · cases hy

/-- The node of the function with number `k`. -/
def callNode (s : Source) (k : Nat) (x : Path × Func) : CallNode where
  id := ⟨k⟩
  name := x.2.name
  containsPrint := (s.capabilitiesOf x).containsPrint
  containsDynamicIndex := (s.capabilitiesOf x).containsDynamicIndex
  callees := FuncId.sorted (s.capabilitiesOf x).calls

def callGraph (s : Source) : CallGraph := ⟨s.functions.mapIdx s.callNode⟩

theorem length_callGraph (s : Source) : s.callGraph.nodes.length = s.functions.length :=
  List.length_mapIdx

theorem index_callGraph (s : Source) :
    s.callGraph.nodes.map (·.id.index) = List.range s.callGraph.nodes.length := by
  apply List.ext_getElem?
  intro i
  by_cases h : i < s.functions.length
  · simp [callGraph, callNode, h]
  · simp [callGraph, h]

theorem node_callGraph (s : Source) {id : FuncId} (h : id.index < s.functions.length) :
    ∃ n, s.callGraph.node id = .ok n := by
  rw [← length_callGraph] at h
  exact ⟨s.callGraph.nodes[id.index], by rw [CallGraph.node, List.getElem?_eq_getElem h]⟩

end Source

theorem CallNode.insert_of_le {n : CallNode} {ns : List CallNode}
    (h : ∀ m ∈ ns, n.id.index ≤ m.id.index) : CallNode.insert n ns = n :: ns := by
  cases ns with
  | nil => rfl
  | cons m ns => rw [CallNode.insert, if_pos (h m (by simp))]

/-- Nodes that are in order stay where they are. -/
theorem CallNode.foldr_insert {ns : List CallNode}
    (h : ns.Pairwise fun n m => n.id.index ≤ m.id.index) : ns.foldr CallNode.insert [] = ns := by
  induction h with
  | nil => rfl
  | cons hfirst _ ih => rw [List.foldr_cons, ih, insert_of_le hfirst]

theorem Result.mapM_eq_mapIdx {f : α → Result β} {g : Nat → α → β} {xs : List α}
    (h : ∀ (k : Nat) (x : α), xs[k]? = some x → f x = .ok (g k x)) :
    xs.mapM f = .ok (xs.mapIdx g) := by
  induction xs generalizing g with
  | nil => rfl
  | cons x xs ih =>
    have hx : f x = .ok (g 0 x) := h 0 x rfl
    have hxs : xs.mapM f = .ok (xs.mapIdx fun k => g (k + 1)) := ih fun k y hy => h (k + 1) y hy
    rw [List.mapM_cons, hx, hxs, List.mapIdx_cons]
    rfl

namespace Source

/-- With its functions numbered and described, every program has a call graph. -/
theorem build_eq_ok (s : Source) {notes : Annotations}
    (hids : ∀ (k : Nat) (x : Path × Func), s.functions[k]? = some x →
      notes.readFuncId x.1 = .ok ⟨k⟩)
    (hcapabilities : ∀ x ∈ s.functions, notes.readCapabilities x.1 = .ok (s.capabilitiesOf x)) :
    CallGraph.build s notes = .ok s.callGraph := by
  have hnode : ∀ (k : Nat) (x : Path × Func), s.functions[k]? = some x →
      CallGraph.nodeOf notes x.1 x.2 = .ok (s.callNode k x) := by
    intro k x hk
    rw [CallGraph.nodeOf, hcapabilities x (List.mem_of_getElem? hk), hids k x hk]
    rfl
  have hsorted : (s.functions.mapIdx s.callNode).foldr CallNode.insert [] = s.callGraph.nodes := by
    have hrange : (s.callGraph.nodes.map (·.id.index)).Pairwise (· ≤ ·) := by
      rw [index_callGraph]
      exact List.pairwise_le_range
    exact CallNode.foldr_insert (List.pairwise_map.mp hrange)
  have hcallees : (s.callGraph.nodes.forM fun n =>
      n.callees.forM fun callee => discard (s.callGraph.node callee)) = .ok () := by
    refine Result.forM_eq_ok_iff.mpr fun n hn => Result.forM_eq_ok_iff.mpr fun callee hcallee => ?_
    obtain ⟨k, hk, rfl⟩ := List.mem_mapIdx.mp hn
    rw [callNode, FuncId.mem_sorted] at hcallee
    obtain ⟨m, hm⟩ := s.node_callGraph (s.lt_of_mem_calls hcallee)
    rw [hm]
    rfl
  rw [CallGraph.build, Result.mapM_eq_mapIdx hnode, Result.ok_bind]
  simp only [hsorted, index_callGraph, ne_eq, not_true_eq_false, if_false]
  exact Result.seq_eq_ok_iff.mpr ⟨hcallees, rfl⟩

end Source

end SimCompiler
