import SimCompiler.Annotation.Table
import SimCompiler.Syntax.Outline

/-!
# The call graph

One node for each function of a program, indexed by the function's number, with the functions it
calls as a sorted list without repetition. The graph may have cycles.
-/
namespace SimCompiler

structure CallNode where
  id : FuncId
  name : String
  containsPrint : Bool
  containsDynamicIndex : Bool
  callees : List FuncId
deriving DecidableEq, Repr, Inhabited

structure CallGraph where
  nodes : List CallNode
deriving DecidableEq, Repr, Inhabited

namespace FuncId

/-- Adds a function to a sorted list without repetition. -/
def insert (id : FuncId) : List FuncId → List FuncId
  | [] => [id]
  | x :: xs =>
    if id.index < x.index then id :: x :: xs
    else if id = x then x :: xs
    else x :: insert id xs

@[simp] theorem mem_insert {id other : FuncId} {ids : List FuncId} :
    other ∈ insert id ids ↔ other = id ∨ other ∈ ids := by
  induction ids with
  | nil => simp [insert]
  | cons x xs ih => grind [insert]

/-- The members of a list, in order and each once. -/
def sorted (ids : List FuncId) : List FuncId := ids.foldr insert []

@[simp] theorem mem_sorted {id : FuncId} {ids : List FuncId} : id ∈ sorted ids ↔ id ∈ ids := by
  induction ids with
  | nil => simp [sorted]
  | cons x xs ih => simpa [sorted] using or_congr_right ih

end FuncId

/-- Adds a node in front of the first one whose number is not smaller. -/
def CallNode.insert (n : CallNode) : List CallNode → List CallNode
  | [] => [n]
  | x :: xs => if n.id.index ≤ x.id.index then n :: x :: xs else x :: insert n xs

namespace CallGraph

def node (g : CallGraph) (id : FuncId) : Result CallNode :=
  match g.nodes[id.index]? with
  | some n => .ok n
  | none => Result.defect (.notInCallGraph id)

def callees (g : CallGraph) (id : FuncId) : Result (List FuncId) := do
  return (← g.node id).callees

/-- The node of the function at `path`, from what was recorded on it. -/
def nodeOf (notes : Annotations) (path : Path) (f : Func) : Result CallNode := do
  let c ← notes.readCapabilities path
  return {
    id := ← notes.readFuncId path
    name := f.name
    containsPrint := c.containsPrint
    containsDynamicIndex := c.containsDynamicIndex
    callees := FuncId.sorted c.calls }

/-- The graph of a program. The numbers of its functions must be those from zero on, and every
callee must be one of them. -/
def build (source : Source) (notes : Annotations) : Result CallGraph := do
  let nodes ← source.functions.mapM fun (path, f) => nodeOf notes path f
  let g : CallGraph := ⟨nodes.foldr CallNode.insert []⟩
  if g.nodes.map (·.id.index) ≠ List.range g.nodes.length then Result.defect .scatteredIds
  g.nodes.forM fun n => n.callees.forM fun callee => discard (g.node callee)
  return g

/-- The calls of the functions that have not been visited. -/
def callsAhead (g : CallGraph) (visited : List FuncId) : List FuncId :=
  (g.nodes.zipIdx.filter fun (_, i) => ⟨i⟩ ∉ visited).flatMap (·.1.callees)

theorem mem_zipIdx_of_callees {g : CallGraph} {id : FuncId} {ids : List FuncId}
    (h : g.callees id = .ok ids) : ∃ n, (n, id.index) ∈ g.nodes.zipIdx ∧ n.callees = ids := by
  rw [callees, node] at h
  split at h
  · next n hn =>
    cases h
    exact ⟨n, List.mem_zipIdx_iff_getElem?.mpr hn, rfl⟩
  · cases h

theorem length_flatMap_filter_le {p q : α → Bool} (f : α → List β)
    (h : ∀ a, q a = true → p a = true) (xs : List α) :
    ((xs.filter q).flatMap f).length ≤ ((xs.filter p).flatMap f).length := by
  induction xs with
  | nil => exact Nat.le_refl _
  | cons x xs ih => grind

theorem length_flatMap_filter_add_le {p q : α → Bool} (f : α → List β)
    (h : ∀ a, q a = true → p a = true) {xs : List α} {x : α} (hx : x ∈ xs) (hp : p x = true)
    (hq : ¬ q x = true) :
    ((xs.filter q).flatMap f).length + (f x).length ≤ ((xs.filter p).flatMap f).length := by
  obtain ⟨before, after, rfl⟩ := List.append_of_mem hx
  have hbefore := length_flatMap_filter_le f h before
  have hafter := length_flatMap_filter_le f h after
  simp only [List.filter_append, List.filter_cons_of_pos hp, List.filter_cons_of_neg hq,
    List.flatMap_append, List.flatMap_cons, List.length_append]
  omega

/-- A function that is visited takes its own calls away from those that are ahead. -/
theorem length_callsAhead {g : CallGraph} {id : FuncId} {ids visited : List FuncId}
    (h : g.callees id = .ok ids) (hnew : id ∉ visited) :
    (g.callsAhead (FuncId.insert id visited)).length + ids.length ≤
      (g.callsAhead visited).length := by
  obtain ⟨n, hn, rfl⟩ := mem_zipIdx_of_callees h
  exact length_flatMap_filter_add_le _ (by simp) hn (by simpa using hnew) (by simp)

/-- Visits the pending functions, and after each one those that it calls. Each step follows one
call, so the loop ends when the calls of the functions not visited yet are used up. -/
def explore (g : CallGraph) : (pending visited : List FuncId) → Result (List FuncId)
  | [], visited => .ok visited
  | next :: pending, visited =>
    if hseen : next ∈ visited then g.explore pending visited
    else match hcallees : g.callees next with
      | .ok callees =>
        have := length_callsAhead hcallees hseen
        g.explore (callees.reverse ++ pending) (FuncId.insert next visited)
      | .error e => .error e
termination_by pending visited => (g.callsAhead visited).length + pending.length
decreasing_by
  · simp
  · simp only [List.length_append, List.length_reverse, List.length_cons]
    omega

@[simp] theorem explore_nil (g : CallGraph) (visited : List FuncId) :
    g.explore [] visited = .ok visited := by
  rw [explore]

theorem explore_of_mem (g : CallGraph) {next : FuncId} {pending visited : List FuncId}
    (h : next ∈ visited) : g.explore (next :: pending) visited = g.explore pending visited := by
  rw [explore, dif_pos h]

theorem explore_of_not_mem (g : CallGraph) {next : FuncId} {pending visited : List FuncId}
    (h : next ∉ visited) : g.explore (next :: pending) visited = g.callees next >>= fun ids =>
      g.explore (ids.reverse ++ pending) (FuncId.insert next visited) := by
  rw [explore, dif_neg h]
  split
  · next hcallees =>
    simp only [hcallees]
    rfl
  · next hcallees =>
    simp only [hcallees]
    rfl

/-- Every function that `id` reaches through one or more calls, in order. -/
def reachable (g : CallGraph) (id : FuncId) : Result (List FuncId) := do
  g.explore (← g.callees id).reverse []

def isRecursive (g : CallGraph) (id : FuncId) : Result Bool := do
  return (← g.reachable id).contains id

end CallGraph

end SimCompiler
