import Mathlib.Logic.Relation
import SimCompiler.Proofs.Calls

/-!
# Reachable functions

A function reaches those at the end of a chain of calls. The search visits what is pending, each
function once, and makes pending what a visited function calls. So when nothing is pending any more,
whatever is called by a visited function has been visited too, and nothing else has been.
-/
namespace SimCompiler

namespace CallGraph

variable {g : CallGraph}

/-- The graph has a node for the function. -/
def Has (g : CallGraph) (id : FuncId) : Prop := ∃ n, g.node id = .ok n

/-- The function `a` calls the function `b` directly. -/
def Calls (g : CallGraph) (a b : FuncId) : Prop := ∃ n, g.node a = .ok n ∧ b ∈ n.callees

/-- Every function that is called has a node. -/
def Closed (g : CallGraph) : Prop := ∀ a b, g.Calls a b → g.Has b

theorem has_iff {id : FuncId} : g.Has id ↔ id.index < g.nodes.length := by
  rw [Has, node]
  constructor
  · rintro ⟨n, hn⟩
    cases hget : g.nodes[id.index]? with
    | none => simp [hget, Result.defect] at hn
    | some m => exact (List.getElem?_eq_some_iff.mp hget).1
  · intro hlt
    exact ⟨g.nodes[id.index], by rw [List.getElem?_eq_getElem hlt]⟩

theorem callees_eq {id : FuncId} (h : g.Has id) :
    ∃ ids, g.callees id = .ok ids ∧ ∀ b, b ∈ ids ↔ g.Calls id b := by
  obtain ⟨n, hn⟩ := h
  refine ⟨n.callees, by rw [callees, hn]; rfl, fun b => ⟨fun hb => ⟨n, hn, hb⟩, ?_⟩⟩
  rintro ⟨m, hm, hb⟩
  cases hn.symm.trans hm
  exact hb

theorem mem_of_reflTransGen {found : List FuncId}
    (hclosed : ∀ a ∈ found, ∀ b, g.Calls a b → b ∈ found) {a b : FuncId} (ha : a ∈ found)
    (h : Relation.ReflTransGen g.Calls a b) : b ∈ found := by
  induction h with
  | refl => exact ha
  | tail _ hcall ih => exact hclosed _ ih _ hcall

/-- What has been visited when nothing is pending any more: the functions that were pending and all
that they reach. The calls of those visited before may still have been pending, so `closed` is about
the others only. -/
structure Explored (g : CallGraph) (pending visited result : List FuncId) : Prop where
  keeps : ∀ id ∈ visited, id ∈ result
  visits : ∀ id ∈ pending, id ∈ result
  reached : ∀ id ∈ result, id ∈ visited ∨ ∃ a ∈ pending, Relation.ReflTransGen g.Calls a id
  closed : ∀ a ∈ result, a ∉ visited → ∀ b, g.Calls a b → b ∈ result

namespace Explored

variable {next : FuncId} {pending visited result : List FuncId}

/-- A pending function that has been visited adds nothing. -/
theorem skip (h : g.Explored pending visited result) (hseen : next ∈ visited) :
    g.Explored (next :: pending) visited result where
  keeps := h.keeps
  visits := List.forall_mem_cons.mpr ⟨h.keeps next hseen, h.visits⟩
  reached id hid := (h.reached id hid).imp_right fun ⟨a, ha, hreach⟩ =>
    ⟨a, List.mem_cons_of_mem _ ha, hreach⟩
  closed := h.closed

/-- A pending function that is visited leaves its callees to be visited. -/
theorem visit {ids : List FuncId} (hids : ∀ b, b ∈ ids ↔ g.Calls next b)
    (h : g.Explored (ids.reverse ++ pending) (FuncId.insert next visited) result) :
    g.Explored (next :: pending) visited result where
  keeps id hid := h.keeps id (FuncId.mem_insert.mpr (.inr hid))
  visits := List.forall_mem_cons.mpr ⟨h.keeps next (FuncId.mem_insert.mpr (.inl rfl)),
    fun id hid => h.visits id (List.mem_append_right _ hid)⟩
  reached id hid := by
    rcases h.reached id hid with hid | ⟨a, ha, hreach⟩
    · rcases FuncId.mem_insert.mp hid with rfl | hid
      · exact .inr ⟨id, List.mem_cons_self, .refl⟩
      · exact .inl hid
    · rcases List.mem_append.mp ha with ha | ha
      · have hcall := (hids a).mp (List.mem_reverse.mp ha)
        exact .inr ⟨next, List.mem_cons_self, .head hcall hreach⟩
      · exact .inr ⟨a, List.mem_cons_of_mem _ ha, hreach⟩
  closed a ha hnew b hcall := by
    by_cases heq : a = next
    · subst heq
      exact h.visits b (List.mem_append_left _ (List.mem_reverse.mpr ((hids b).mpr hcall)))
    · exact h.closed a ha (fun hmem => (FuncId.mem_insert.mp hmem).elim heq hnew) b hcall

end Explored

/-- The search succeeds where every function that is called has a node. -/
theorem explore_eq (hg : g.Closed) {pending : List FuncId} (h : ∀ id ∈ pending, g.Has id)
    (visited : List FuncId) :
    ∃ result, g.explore pending visited = .ok result ∧ g.Explored pending visited result := by
  induction pending, visited using explore.induct g with
  | case1 visited =>
    exact ⟨visited, g.explore_nil visited, fun _ hid => hid, by simp, fun _ hid => .inl hid,
      fun a ha hnew => absurd ha hnew⟩
  | case2 next pending visited hseen ih =>
    obtain ⟨result, hresult, hexplored⟩ := ih (List.forall_mem_cons.mp h).2
    exact ⟨result, (g.explore_of_mem hseen).trans hresult, hexplored.skip hseen⟩
  | case3 next pending visited hseen ids hcallees _ ih =>
    obtain ⟨hnext, hpending⟩ := List.forall_mem_cons.mp h
    obtain ⟨ids', hids', hcalls⟩ := callees_eq hnext
    cases hcallees.symm.trans hids'
    obtain ⟨result, hresult, hexplored⟩ := ih (List.forall_mem_append.mpr
      ⟨fun b hb => hg next b ((hcalls b).mp (List.mem_reverse.mp hb)), hpending⟩)
    refine ⟨result, ?_, hexplored.visit hcalls⟩
    rw [g.explore_of_not_mem hseen, hcallees]
    exact hresult
  | case4 next pending visited hseen e hcallees =>
    obtain ⟨ids, hids, -⟩ := callees_eq (List.forall_mem_cons.mp h).1
    cases hids.symm.trans hcallees

/-- A function reaches what is at the end of a chain of one or more calls. -/
theorem reachable_eq (hg : g.Closed) {id : FuncId} (h : g.Has id) :
    ∃ ids, g.reachable id = .ok ids ∧ ∀ b, b ∈ ids ↔ Relation.TransGen g.Calls id b := by
  obtain ⟨direct, hdirect, hcalls⟩ := callees_eq h
  have hhas : ∀ b ∈ direct.reverse, g.Has b :=
    fun b hb => hg id b ((hcalls b).mp (List.mem_reverse.mp hb))
  obtain ⟨result, hresult, hexplored⟩ := explore_eq hg hhas []
  refine ⟨result, by rw [reachable, hdirect]; exact hresult, fun b => ⟨fun hb => ?_, fun hb => ?_⟩⟩
  · obtain ⟨a, ha, hreach⟩ := (hexplored.reached b hb).resolve_left List.not_mem_nil
    exact .head' ((hcalls a).mp (List.mem_reverse.mp ha)) hreach
  · obtain ⟨a, hcall, hreach⟩ := Relation.TransGen.head'_iff.mp hb
    refine mem_of_reflTransGen (fun x hx => hexplored.closed x hx List.not_mem_nil) ?_ hreach
    exact hexplored.visits a (List.mem_reverse.mpr ((hcalls a).mpr hcall))

/-- A function is recursive if a chain of calls leads back to it. -/
theorem isRecursive_eq (hg : g.Closed) {id : FuncId} (h : g.Has id) :
    ∃ b, g.isRecursive id = .ok b ∧ (b = true ↔ Relation.TransGen g.Calls id id) := by
  obtain ⟨ids, hids, hmem⟩ := reachable_eq hg h
  refine ⟨ids.contains id, by rw [isRecursive, hids]; rfl, ?_⟩
  rw [List.contains_iff_mem, hmem]

/-- Where every call of one graph has a counterpart in another, so has every chain of calls. -/
theorem exists_transGen {g' : CallGraph} {r : FuncId → FuncId → Prop}
    (hstep : ∀ a a' b, r a a' → g.Calls a b → ∃ b', r b b' ∧ g'.Calls a' b') {a a' b : FuncId}
    (ha : r a a') (h : Relation.TransGen g.Calls a b) :
    ∃ b', r b b' ∧ Relation.TransGen g'.Calls a' b' := by
  induction h with
  | single hcall =>
    obtain ⟨b', hb', hcall'⟩ := hstep _ _ _ ha hcall
    exact ⟨b', hb', .single hcall'⟩
  | tail _ hcall ih =>
    obtain ⟨b', hb', hreach⟩ := ih
    obtain ⟨c', hc', hcall'⟩ := hstep _ _ _ hb' hcall
    exact ⟨c', hc', hreach.tail hcall'⟩

end CallGraph

end SimCompiler
