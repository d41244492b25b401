import Mathlib.Data.List.Flatten
import SimCompiler.Proofs.Analyses
import SimCompiler.Proofs.Subtrees

/-!
# What the analyses record on functions

Two analyses keep a stack of the functions being visited. Functions do not contain functions, so
the stack is empty between the items of a program and holds one function inside an item. What such
an analysis has recorded is a function of the functions it is done with. The linking of return
statements is the simpler of the two.
-/
namespace SimCompiler

namespace Source

/-- A walk that is done with a function when it leaves it: `after done` are the annotations once the
functions `done` have been left, and `check` decides whether an item can be walked. -/
theorem walking_follows {s : Source} {v : Visitor (Work (List α))}
    (after : List (Path × Func) → Annotations) (check : Path → Item → Result Unit)
    (hsource : v.visit ([], .source s) ⟨after [], []⟩ = .ok () ⟨after [], []⟩)
    (hleave : v.leave [] (.source s) = pure ())
    (hfunc : ∀ done x todo, s.functions = done ++ x :: todo →
      ((x.2.outline x.1).walk v).Follows ⟨after done, []⟩ (check x.1 (.func x.2))
        fun _ w => w = ⟨after (done ++ [x]), []⟩)
    (hother : ∀ (j : Nat) (item : Item), item.func? = none → ∀ done,
      ((item.outline [.item j]).walk v).Follows ⟨after done, []⟩ (check [.item j] item)
        fun _ w => w = ⟨after done, []⟩) :
    (Pass.walking v [] s).Follows (after [])
      (forM s.items.zipIdx fun x => check [.item x.2] x.1)
      fun _ notes => notes = after s.functions := by
  have hitems : ∀ items i (w : Walked), w.enterAll i items = s.walked →
      (forM (Outline.numbered .item Item.outline [] i items) (Outline.walk v)).Follows
        ⟨after w.funcs, []⟩ (forM (items.zipIdx i) fun x => check [.item x.2] x.1)
        fun _ w => w = ⟨after s.functions, []⟩ := by
    intro items
    induction items with
    | nil =>
      intro i w hw
      rw [Walked.enterAll] at hw
      exact Pass.follows_pure (by rw [hw, funcs_walked])
    | cons item items ih =>
      intro i w hw
      have hrest := ih (i + 1) (w.enter [.item i] item) hw
      rw [Outline.numbered, List.forM_cons, List.zipIdx_cons, List.forM_cons]
      cases hitem : item.func? with
      | none =>
        have hsame : (w.enter [.item i] item).funcs = w.funcs := by simp [Walked.enter, hitem]
        refine (hother i item hitem w.funcs).bind ?_
        rintro - _ - rfl
        rwa [hsame] at hrest
      | some f =>
        obtain rfl := Item.func?_eq_some_iff.mp hitem
        have hmore : (w.enter [.item i] (.func f)).funcs = w.funcs ++ [([.item i], f)] := rfl
        have hsplit := (w.enter [.item i] (.func f)).funcs_enterAll (i + 1) items
        rw [← Walked.enterAll, hw, funcs_walked, hmore, List.append_assoc] at hsplit
        refine (hfunc w.funcs _ _ hsplit).bind ?_
        rintro - _ - rfl
        rwa [hmore] at hrest
  have hwalk : (s.outline.walk v).Follows ⟨after [], []⟩
      (forM s.items.zipIdx fun x => check [.item x.2] x.1)
      fun _ w => w = ⟨after s.functions, []⟩ := by
    have hlast : (v.handle ⟨.leave, [], .source s⟩).orPosition (Node.source s).position =
        pure () := by
      simp only [Visitor.handle, hleave]
      rfl
    rw [outline, Outline.walk_mk, hlast, bind_pure_unit]
    exact Pass.follows_bind_of_ok hsource (hitems s.items 0 {} rfl)
  cases hcheck : forM s.items.zipIdx fun x => check [.item x.2] x.1 with
  | error e =>
    rw [hcheck] at hwalk
    obtain ⟨w, hw⟩ := hwalk
    exact ⟨w.notes, by rw [Pass.run_walking, hw]⟩
  | ok u =>
    rw [hcheck] at hwalk
    obtain ⟨w, hw, rfl⟩ := hwalk
    exact ⟨after s.functions, by rw [Pass.run_walking, hw], rfl⟩

/-- The functions of a program do not share nodes. -/
theorem sublist_inner (s : Source) :
    (s.functions.flatMap fun x => x.2.inner x.1).Sublist s.outline.nodes := by
  have hitem (item : Item) (path : Path) :
      (item.func?.toList.flatMap fun f => f.inner path).Sublist (item.outline path).nodes := by
    cases item with
    | func f =>
      rw [Item.outline, f.nodes_outline]
      simp [Item.func?]
    | _ => exact List.nil_sublist _
  rw [flatMap_functions, outline, Outline.nodes_mk, Outline.nodesAll_eq_flatMap,
    Outline.numbered_eq_map, List.flatMap_map]
  refine List.Sublist.cons _ ?_
  exact List.Sublist.flatMap_right _ fun x _ => hitem x.1 [.item x.2]

end Source

/-- What is recorded about the node on the function around it, if it is a return statement. -/
def Node.returnSite? : Node → Option ReturnSite
  | .stmt (.ret position value) => some ⟨position, value.isSome⟩
  | _ => none

/-- The return statements among the nodes, in their order. -/
def returnSites (nodes : List (Path × Node)) : List ReturnSite :=
  nodes.filterMap (·.2.returnSite?)

/-- The paths of the return statements among the nodes. -/
def returnPaths (nodes : List (Path × Node)) : List Path :=
  (nodes.filter (·.2.returnSite?.isSome)).map Prod.fst

theorem returnPaths_sublist (xs : List (Path × Node)) :
    (returnPaths xs).Sublist (xs.map Prod.fst) :=
  List.filter_sublist.map Prod.fst

namespace Returns

/-- The return statements at `paths` belong to the function `id`. -/
def own (notes : Annotations) (id : FuncId) (paths : List Path) : Annotations :=
  { notes with returnOwners := ⟨(paths.map (·, id)).reverse ++ notes.returnOwners.entries⟩ }

/-- A return statement goes to the innermost function. -/
theorem visit_node {notes : Annotations} {x : Path × Node} (hflat : x.2.hasFrame = false)
    (hfree : x.1 ∉ notes.returnOwners.entries.map Prod.fst) (id : FuncId)
    (sites : List ReturnSite) :
    visitor.visit x ⟨notes, [(id, sites)]⟩ =
      .ok () ⟨own notes id (returnPaths [x]), [(id, sites ++ returnSites [x])]⟩ := by
  obtain ⟨path, node⟩ := x
  have hidle : visitor.visit (path, node) = pure () → node.returnSite? = none →
      visitor.visit (path, node) ⟨notes, [(id, sites)]⟩ = .ok () ⟨own notes id
        (returnPaths [(path, node)]), [(id, sites ++ returnSites [(path, node)])]⟩ := by
    intro hvisit hsite
    rw [hvisit]
    simp [own, returnPaths, returnSites, hsite]
  cases node with
  | source s => simp [Node.hasFrame] at hflat
  | func f => simp [Node.hasFrame] at hflat
  | stmt st =>
    cases st with
    | ret p value =>
      have hwrite := (SlotTable.write_eq_ok_iff _ _ .returnOwner path id).mpr
        ⟨SlotTable.get?_eq_none hfree, rfl⟩
      simp [Visitor.visit, Visitor.handle, visitor, Node.isLiteral, Annotations.writeReturnOwner,
        hwrite, own, returnPaths, returnSites, Node.returnSite?, SlotTable.insert]
    | _ => exact hidle rfl rfl
  | expr e => cases e <;> exact hidle rfl rfl
  | _ => exact hidle rfl rfl

theorem visit_nodes (notes : Annotations) (id : FuncId) (xs : List (Path × Node))
    (sites : List ReturnSite) (hflat : ∀ x ∈ xs, x.2.hasFrame = false)
    (hnodup : (xs.map Prod.fst).Nodup)
    (hfree : ∀ x ∈ xs, x.1 ∉ notes.returnOwners.entries.map Prod.fst) :
    forM xs visitor.visit ⟨notes, [(id, sites)]⟩ =
      .ok () ⟨own notes id (returnPaths xs), [(id, sites ++ returnSites xs)]⟩ := by
  induction xs generalizing notes sites with
  | nil => simp [own, returnPaths, returnSites]
  | cons x xs ih =>
    rw [List.map_cons, List.nodup_cons] at hnodup
    have hrest := ih (own notes id (returnPaths [x])) (sites ++ returnSites [x])
      (fun y hy => hflat y (by simp [hy])) hnodup.2 (by
        intro y hy hmem
        simp only [own, List.map_append, List.mem_append] at hmem
        rcases hmem with hnew | hold
        · have hpath : y.1 ∈ returnPaths [x] := by simpa using hnew
          have hxy : y.1 = x.1 := by simpa using (returnPaths_sublist [x]).subset hpath
          exact hnodup.1 (hxy ▸ List.mem_map_of_mem hy)
        · exact hfree y (by simp [hy]) hold)
    rw [List.forM_cons, Pass.run_bind,
      visit_node (hflat x (by simp)) (hfree x (by simp)) id sites]
    refine hrest.trans ?_
    cases hsite : x.2.returnSite? <;>
      simp [own, returnPaths, returnSites, hsite]

/-- Outside of functions no return statement is allowed. -/
theorem visit_outside (notes : Annotations) (xs : List (Path × Node))
    (hflat : ∀ x ∈ xs, x.2.hasFrame = false) :
    (forM xs visitor.visit).Follows ⟨notes, []⟩
      (if returnSites xs = [] then .ok () else Result.defect .returnOutsideFunction)
      fun _ w => w = ⟨notes, []⟩ := by
  induction xs with
  | nil => exact Pass.follows_pure rfl
  | cons x xs ih =>
    obtain ⟨path, node⟩ := x
    have hrest := ih fun y hy => hflat y (by simp [hy])
    have hidle : visitor.visit (path, node) = pure () → node.returnSite? = none →
        (forM ((path, node) :: xs) visitor.visit).Follows ⟨notes, []⟩
          (if returnSites ((path, node) :: xs) = [] then .ok ()
            else Result.defect .returnOutsideFunction) fun _ w => w = ⟨notes, []⟩ := by
      intro hvisit hsite
      have hsame : returnSites ((path, node) :: xs) = returnSites xs := by
        simp [returnSites, hsite]
      rw [List.forM_cons, hvisit, hsame]
      exact Pass.follows_bind_of_ok rfl hrest
    have hnode := hflat (path, node) (by simp)
    cases node with
    | source s => simp [Node.hasFrame] at hnode
    | func f => simp [Node.hasFrame] at hnode
    | stmt st =>
      cases st with
      | ret p value =>
        have hsites : returnSites ((path, .stmt (.ret p value)) :: xs) ≠ [] := by
          simp [returnSites, Node.returnSite?]
        rw [if_neg hsites]
        refine ⟨⟨notes, []⟩, ?_⟩
        simp [Visitor.visit, Visitor.handle, visitor, Node.isLiteral, CompileError.orPosition]
      | _ => exact hidle rfl rfl
    | expr e => cases e <;> exact hidle rfl rfl
    | _ => exact hidle rfl rfl

theorem leave_eq_pure (path : Path) {node : Node} (h : node.hasFrame = false) :
    visitor.leave path node = pure () := by
  cases node <;> first | rfl | simp [Node.hasFrame] at h

end Returns

/-- An item outside of functions has no return statements. -/
def Item.checkReturns (path : Path) (item : Item) : Result Unit :=
  if item.func?.isSome ∨ returnSites (item.outline path).nodes = [] then .ok ()
  else Result.defect .returnOutsideFunction

namespace Source

/-- No return statement stands outside of a function. -/
def checkReturns (s : Source) : Result Unit :=
  forM s.items.zipIdx fun x => x.1.checkReturns [.item x.2]

/-- `base` with the return statements of the functions `done`, which have the numbers from zero
on. -/
def returnNotes (base : Annotations) (done : List (Path × Func)) : Annotations :=
  { base with
    returnSites := ⟨(done.map fun x => (x.1, SimCompiler.returnSites (x.2.inner x.1))).reverse⟩
    returnOwners := ⟨(done.mapIdx fun k x =>
      (returnPaths (x.2.inner x.1)).map (·, FuncId.mk k)).flatten.reverse⟩ }

theorem map_fst_returnOwners (base : Annotations) (done : List (Path × Func)) :
    (returnNotes base done).returnOwners.entries.map Prod.fst =
      (done.flatMap fun x => returnPaths (x.2.inner x.1)).reverse := by
  have hnumbered : ∀ (done : List (Path × Func)) (k : Nat), (done.mapIdx fun i x =>
      (returnPaths (x.2.inner x.1)).map (·, FuncId.mk (i + k))).flatten.map Prod.fst =
        done.flatMap fun x => returnPaths (x.2.inner x.1) := by
    intro done
    induction done with
    | nil => exact fun _ => rfl
    | cons x done ih =>
      intro k
      have hrest := ih (k + 1)
      simp only [List.mapIdx_cons, List.flatten_cons, List.map_append, List.flatMap_cons]
      rw [← hrest]
      simp [Function.comp_def, Nat.add_right_comm, Nat.add_assoc]
  rw [returnNotes, List.map_reverse]
  exact congrArg List.reverse (hnumbered done 0)

theorem nodup_inner (s : Source) :
    (s.functions.flatMap fun x => (x.2.inner x.1).map Prod.fst).Nodup := by
  have hnodup := (s.sublist_inner.map Prod.fst).nodup s.nodup_paths
  rwa [List.map_flatMap] at hnodup

/-- Leaving a function, its return statements are recorded on it. -/
theorem walk_func_returns (s : Source) {base : Annotations}
    (hids : base.funcIds = s.boundNotes.funcIds) {done todo : List (Path × Func)}
    {x : Path × Func} (hfuncs : s.functions = done ++ x :: todo) :
    (x.2.outline x.1).walk Returns.visitor ⟨returnNotes base done, []⟩ =
      .ok () ⟨returnNotes base (done ++ [x]), []⟩ := by
  have hk : s.functions[done.length]? = some x := by simp [hfuncs]
  have hpaths := s.nodup_funcs_walked
  have hinner := s.nodup_inner
  rw [hfuncs, List.flatMap_append, List.flatMap_cons, List.nodup_append] at hinner
  have hid : (returnNotes base done).readFuncId x.1 = .ok ⟨done.length⟩ := by
    rw [← funcs_walked] at hk
    have hget := Walked.get?_numbered hpaths hk FuncId.mk
    refine SlotTable.read_eq_ok ?_ _
    change base.funcIds.get? x.1 = _
    rw [hids]
    exact hget
  have henter : Returns.visitor.visit (x.1, .func x.2) ⟨returnNotes base done, []⟩ =
      .ok () ⟨returnNotes base done, [(⟨done.length⟩, [])]⟩ := by
    simp [Visitor.visit, Visitor.handle, Returns.visitor, Node.isLiteral, hid]
  have hvisit := Returns.visit_nodes (returnNotes base done) ⟨done.length⟩
    (x.2.inner x.1) [] (x.2.flat_inner x.1) (List.nodup_append.mp hinner.2.1).1 (by
      intro y hy hmem
      rw [map_fst_returnOwners, List.mem_reverse, List.mem_flatMap] at hmem
      obtain ⟨z, hz, hpath⟩ := hmem
      have hdone : y.1 ∈ done.flatMap fun x => (x.2.inner x.1).map Prod.fst :=
        List.mem_flatMap.mpr ⟨z, hz, (returnPaths_sublist _).subset hpath⟩
      exact hinner.2.2 y.1 hdone y.1
        (List.mem_append_left _ (List.mem_map_of_mem hy)) rfl)
  have hfree : (returnNotes base done).returnSites.get? x.1 = none := by
    rw [funcs_walked, hfuncs, List.map_append, List.nodup_append] at hpaths
    apply SlotTable.get?_eq_none
    rw [returnNotes, List.map_reverse, List.mem_reverse, List.map_map]
    intro hmem
    exact hpaths.2.2 x.1 hmem x.1 (by simp) rfl
  have hwrite : (Returns.own (returnNotes base done) ⟨done.length⟩
      (returnPaths (x.2.inner x.1))).writeReturnSites x.1
        (SimCompiler.returnSites (x.2.inner x.1)) = .ok (returnNotes base (done ++ [x])) := by
    have htable := (SlotTable.write_eq_ok_iff _ _ .returnSites x.1
      (SimCompiler.returnSites (x.2.inner x.1))).mpr ⟨hfree, rfl⟩
    rw [Annotations.writeReturnSites]
    change (SlotTable.write (returnNotes base done).returnSites _ _ _ >>= _) = _
    rw [htable]
    simp [returnNotes, Returns.own, SlotTable.insert]
  rw [x.2.walk_outline fun path node => Returns.leave_eq_pure path, Pass.run_bind, henter]
  simp only [Pass.run_bind, hvisit, List.nil_append]
  simp [Visitor.handle, Returns.visitor, Node.isLiteral, hwrite]

/-- Return statements are linked to the functions around them, and a return statement outside of
functions is a defect. -/
theorem linkReturns_follows (s : Source) {base : Annotations}
    (hids : base.funcIds = s.boundNotes.funcIds) (hsites : base.returnSites = {})
    (howners : base.returnOwners = {}) :
    s.linkReturns.Follows base s.checkReturns fun _ notes =>
      notes = returnNotes base s.functions := by
  have hbase : returnNotes base [] = base := by
    cases base
    simp only at hsites howners
    subst hsites howners
    rfl
  have hwalk := walking_follows (s := s) (v := Returns.visitor) (returnNotes base)
    (fun path item => item.checkReturns path) rfl rfl ?_ ?_
  · rwa [hbase] at hwalk
  · intro done x todo hfuncs
    exact Pass.follows_of_ok rfl (s.walk_func_returns hids hfuncs) rfl
  · intro j item hitem done
    have hflat := flat_item item [.item j] hitem
    rw [Outline.walk_eq_forM_nodes _ _ fun x hx => Returns.leave_eq_pure x.1 (hflat x hx)]
    simpa [Item.checkReturns, hitem] using Returns.visit_outside (returnNotes base done) _ hflat

end Source

end SimCompiler
