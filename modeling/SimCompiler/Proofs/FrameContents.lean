import Mathlib.Data.List.Pairwise
import SimCompiler.Proofs.Analyses
import SimCompiler.Proofs.Subtrees

/-!
# What stands in a frame

The nodes inside a function belong to the frame of the function, all others to the root frame. What
the nodes of a frame declare is what the program adds to the frame, functions apart. So in a program
without clashes the frame holds each of these declarations under its own name, and no two nodes
declare the same one. A look-up ends in the nearest frame that holds the name.
-/
namespace SimCompiler

/-- The look-up of a name that starts in one frame ends in another. -/
inductive Scopes.FoundIn (s : Scopes) (name : String) : FrameId → FrameId → Prop
  | here {id : FrameId} {frame : Frame} (hframe : s.frame id = .ok frame)
      (hget : (frame.get? name).isSome) : FoundIn s name id id
  | outer {id parent found : FrameId} {frame : Frame} (hframe : s.frame id = .ok frame)
      (hget : frame.get? name = none) (hparent : frame.parent = some parent)
      (h : FoundIn s name parent found) : FoundIn s name id found

namespace Scopes

variable {s : Scopes} {name : String} {id found : FrameId} {frame : Frame} {d : Declaration}

/-- A frame that holds the name is searched first and last. -/
theorem FoundIn.eq_of_get? (h : s.FoundIn name id found) (hframe : s.frame id = .ok frame)
    (hget : frame.get? name = some d) : found = id := by
  cases h with
  | here => rfl
  | outer hframe' hnone =>
    rw [hframe] at hframe'
    cases hframe'
    rw [hget] at hnone
    cases hnone

theorem lookupWithin_of_get? (hframe : s.frame id = .ok frame) (hget : frame.get? name = some d)
    (steps : Nat) : s.lookupWithin name (steps + 1) id = .ok (some d) := by
  rw [lookupWithin, hframe, Result.ok_bind, hget]
  rfl

/-- Every frame comes after its parent. -/
def Ordered (s : Scopes) : Prop :=
  ∀ id frame parent, s.frame id = .ok frame → frame.parent = some parent → parent.index < id.index

/-- A look-up in ordered frames does not run out of steps. -/
theorem FoundIn.lookupWithin (hs : s.Ordered) (h : s.FoundIn name id found)
    (hframe : s.frame found = .ok frame) (hget : frame.get? name = some d) :
    ∀ steps, id.index < steps → s.lookupWithin name steps id = .ok (some d) := by
  induction h with
  | here =>
    intro steps hsteps
    obtain ⟨n, rfl⟩ : ∃ n, steps = n + 1 := ⟨steps - 1, by omega⟩
    exact lookupWithin_of_get? hframe hget n
  | @outer id parent found start hstart hnone hparent _ ih =>
    intro steps hsteps
    obtain ⟨n, rfl⟩ : ∃ n, steps = n + 1 := ⟨steps - 1, by omega⟩
    have hlt := hs id start parent hstart hparent
    rw [Scopes.lookupWithin, hstart, Result.ok_bind, hnone, hparent]
    exact ih hframe n (by omega)

theorem index_lt_size (hframe : s.frame id = .ok frame) : id.index < s.size := by
  rw [Scopes.frame] at hframe
  by_contra hle
  rw [List.getElem?_eq_none (by simpa [size] using hle)] at hframe
  cases hframe

theorem FoundIn.resolve (hs : s.Ordered) (h : s.FoundIn name id found)
    (hframe : s.frame found = .ok frame) (hget : frame.get? name = some d) :
    s.resolve id name = .ok d := by
  have hlt : id.index < s.size := by
    cases h with
    | here hstart => exact index_lt_size hstart
    | outer hstart => exact index_lt_size hstart
  rw [Scopes.resolve, lookup, h.lookupWithin hs hframe hget _ (by omega)]
  rfl

end Scopes

theorem Walked.ordered_scopes (w : Walked) : w.scopes.Ordered := by
  rintro ⟨_ | k⟩ frame parent hframe hparent
  · cases hframe
    cases hparent
  · rw [Scopes.frame, scopes, List.getElem?_cons_succ, List.getElem?_mapIdx] at hframe
    cases hk : w.funcs[k]? with
    | none =>
      rw [hk] at hframe
      cases hframe
    | some f =>
      rw [hk] at hframe
      cases hframe
      cases hparent
      exact Nat.succ_pos k

theorem Walked.entries_eq (w : Walked) {id : FrameId} {frame : Frame}
    (hframe : w.scopes.frame id = .ok frame) : frame.entries = Site.held w.sites id := by
  have hlt := Scopes.index_lt_size hframe
  rw [size_scopes] at hlt
  have hle : id.index ≤ w.funcs.length := by omega
  obtain ⟨frame', hget, hentries⟩ := w.getElem?_frames hle
  rw [Scopes.frame, hget] at hframe
  cases hframe
  exact hentries

def Declaration.isFunc : Declaration → Bool
  | .func _ => true
  | _ => false

/-- Where names differ, a name finds its declaration. -/
theorem Declaration.find?_eq_some {ds : List Declaration} (hnodup : (ds.map (·.name)).Nodup)
    {d : Declaration} (hd : d ∈ ds) : ds.find? (·.name == d.name) = some d := by
  cases hfind : ds.find? (·.name == d.name) with
  | none => exact absurd (List.find?_eq_none.mp hfind d hd) (by simp)
  | some d' =>
    have hname : d'.name = d.name := by simpa using List.find?_some hfind
    rw [List.inj_on_of_nodup_map hnodup (List.mem_of_find?_eq_some hfind) hd hname]

theorem FrameId.nodup_prelude (id : FrameId) : (id.prelude.map (·.name)).Nodup := by
  rw [prelude]
  split
  · decide
  · exact List.nodup_nil

namespace Source

/-- The nodes of the items for which `id` is the nearest frame, if `funcs` functions and `i` items
come before. -/
def nodesFrom (id : FrameId) (funcs i : Nat) : List Item → List (Path × Node)
  | [] => []
  | item :: items =>
    (if Walked.itemFrame funcs item = id then
      (item.outline [.item i]).nodes.filter fun x => !x.2.hasFrame
    else []) ++ nodesFrom id (funcs + item.funcCount) (i + 1) items

/-- The nodes for which `id` is the nearest frame. The program and the functions, which have frames
of their own, are not among them. -/
def nodesIn (s : Source) (id : FrameId) : List (Path × Node) := nodesFrom id 0 0 s.items

theorem mem_nodesFrom {id : FrameId} {items : List Item} {funcs i : Nat} {x : Path × Node} :
    x ∈ nodesFrom id funcs i items ↔ ∃ (j : Nat) (item : Item), items[j]? = some item ∧
      Walked.itemFrame (funcs + (funcsIn (items.take j)).length) item = id ∧
      x ∈ (item.outline [.item (i + j)]).nodes ∧ x.2.hasFrame = false := by
  induction items generalizing funcs i with
  | nil => simp [nodesFrom]
  | cons first items ih =>
    rw [nodesFrom, List.mem_append, ih]
    constructor
    · rintro (hx | ⟨j, item, hj, hframe, hx⟩)
      · by_cases hfirst : Walked.itemFrame funcs first = id
        · rw [if_pos hfirst, List.mem_filter] at hx
          exact ⟨0, first, rfl, hfirst, hx.1, by simpa using hx.2⟩
        · rw [if_neg hfirst] at hx
          cases hx
      · refine ⟨j + 1, item, hj, ?_, ?_⟩
        · rwa [length_funcsIn_take_succ, ← Nat.add_assoc]
        · rwa [Nat.add_assoc, Nat.add_comm 1 j] at hx
    · rintro ⟨_ | j, item, hj, hframe, hx⟩
      · obtain rfl : first = item := by simpa using hj
        have hfirst : Walked.itemFrame funcs first = id := hframe
        rw [if_pos hfirst, List.mem_filter]
        exact .inl ⟨hx.1, by simpa using hx.2⟩
      · refine .inr ⟨j, item, hj, ?_, ?_⟩
        · rwa [length_funcsIn_take_succ, ← Nat.add_assoc] at hframe
        · rwa [Nat.add_assoc, Nat.add_comm 1 j]

theorem filter_declaredBy (xs : List (Path × Node)) :
    (declaredBy xs).filter (!·.isFunc) = declaredBy xs := by
  refine List.filter_eq_self.mpr fun d hd => ?_
  obtain ⟨⟨path, node⟩, -, hnode⟩ := List.mem_filterMap.mp hd
  cases node with
  | param | localVar | globalVar | enum | constant =>
    cases hnode
    rfl
  | _ => cases hnode

/-- The nodes of an item declare what the item adds to their frame, functions apart. -/
theorem declaredBy_content (item : Item) (path : Path) (funcs : Nat) (id : FrameId) :
    declaredBy (if Walked.itemFrame funcs item = id then
        (item.outline path).nodes.filter fun x => !x.2.hasFrame else []) =
      (Site.inFrame (item.sites funcs) id).filter (!·.isFunc) := by
  cases hitem : item.func? with
  | none =>
    have hdeclared := declaredBy_item item path funcs hitem
    have hflat : (item.outline path).nodes.filter (fun x => !x.2.hasFrame) =
        (item.outline path).nodes :=
      List.filter_eq_self.mpr fun x hx => by simp [flat_item item path hitem x hx]
    have hframe : Walked.itemFrame funcs item = Scopes.root ∧ item.ownDeclarations = [] := by
      cases item with
      | func f => cases hitem
      | _ => exact ⟨rfl, rfl⟩
    rw [hframe.1, hflat, Item.sites, hframe.2, List.map_nil, List.append_nil, Site.inFrame_map]
    by_cases hroot : Scopes.root = id
    · rw [if_pos hroot, if_pos hroot, ← hdeclared, filter_declaredBy]
    · rw [if_neg hroot, if_neg hroot]
      rfl
  | some f =>
    obtain rfl := Item.func?_eq_some_iff.mp hitem
    have hdeclared := declaredBy_func f path
    have hflat : ((Item.func f).outline path).nodes.filter (fun x => !x.2.hasFrame) =
        f.inner path := by
      rw [Item.outline, f.nodes_outline, List.filter_cons_of_neg (by simp [Node.hasFrame])]
      exact List.filter_eq_self.mpr fun x hx => by simp [f.flat_inner path x hx]
    -- The function itself is what the item adds to the root frame.
    have houter : (Site.inFrame (((Item.func f).declarations funcs).map (⟨Scopes.root, ·⟩))
        id).filter (!·.isFunc) = [] := by
      rw [Site.inFrame_map]
      by_cases hroot : Scopes.root = id
      · rw [if_pos hroot]
        rfl
      · rw [if_neg hroot]
        rfl
    rw [hflat, Item.sites, Site.inFrame_append, List.filter_append, houter, List.nil_append,
      Site.inFrame_map]
    by_cases hown : (⟨funcs + 1⟩ : FrameId) = id
    · rw [if_pos hown, Walked.itemFrame, if_pos hown, Item.ownDeclarations, ← hdeclared,
        filter_declaredBy]
    · rw [if_neg hown, Walked.itemFrame, if_neg hown]
      rfl

/-- The nodes in a frame declare what the program adds to it, functions apart. -/
theorem declaredBy_nodesFrom (id : FrameId) (funcs i : Nat) (items : List Item) :
    declaredBy (nodesFrom id funcs i items) =
      (Site.inFrame (sitesFrom funcs items) id).filter (!·.isFunc) := by
  induction items generalizing funcs i with
  | nil => rfl
  | cons item items ih =>
    rw [nodesFrom, declaredBy_append, declaredBy_content, ih, sitesFrom, Site.inFrame_append,
      List.filter_append]

variable {s : Source} {id : FrameId}

/-- In a program without clashes no two declarations of a frame have the same name. -/
theorem ClashFree.nodup_held (h : s.ClashFree) (id : FrameId) :
    ((Site.held s.sites id).map (·.name)).Nodup := by
  obtain ⟨hnodup, hprelude⟩ :=
    (Site.enroll_eq_ok_iff [] s.sites).mp (s.enroll_sites_eq_ok_iff.mpr h) id
  rw [Site.held, List.map_append]
  refine id.nodup_prelude.append hnodup fun name hname hname' => ?_
  obtain ⟨b, hb, rfl⟩ := List.mem_map.mp hname
  obtain ⟨d, hd, heq⟩ := List.mem_map.mp hname'
  exact hprelude d hd b (by simpa [Site.held] using hb) heq.symm

/-- No two nodes in a frame declare the same name. -/
theorem ClashFree.eq_of_declaration? (h : s.ClashFree) {x y : Path × Node}
    (hx : x ∈ s.nodesIn id) (hy : y ∈ s.nodesIn id) {d d' : Declaration}
    (hd : x.2.declaration? = some d) (hd' : y.2.declaration? = some d') (hname : d.name = d'.name) :
    x = y := by
  have hnodup : (declaredBy (s.nodesIn id)).Pairwise fun d d' => d.name ≠ d'.name := by
    rw [nodesIn, declaredBy_nodesFrom]
    have hheld := (h.nodup_held id).sublist ((List.sublist_append_right _ _).map _)
    exact (List.pairwise_map.mp hheld).sublist List.filter_sublist
  have hsymm : Std.Symm fun x y : Path × Node => ∀ d, x.2.declaration? = some d →
      ∀ d', y.2.declaration? = some d' → d.name ≠ d'.name :=
    ⟨fun x y hxy d hd d' hd' heq => hxy d' hd' d hd heq.symm⟩
  by_contra hne
  exact (List.pairwise_filterMap.mp hnodup).forall hx hy hne d hd d' hd' hname

/-- A frame holds what its nodes declare. -/
theorem ClashFree.get?_declaration (h : s.ClashFree) {x : Path × Node} (hx : x ∈ s.nodesIn id)
    {d : Declaration} (hd : x.2.declaration? = some d) :
    ∃ frame, s.walked.scopes.frame id = .ok frame ∧ frame.get? d.name = some d := by
  have hheld : d ∈ Site.held s.sites id := by
    have hmem : d ∈ declaredBy (s.nodesIn id) := List.mem_filterMap.mpr ⟨x, hx, hd⟩
    rw [nodesIn, declaredBy_nodesFrom] at hmem
    exact List.mem_append_right _ (List.mem_of_mem_filter hmem)
  have hle : id.index ≤ s.walked.funcs.length := by
    obtain ⟨j, item, hj, rfl, -⟩ := mem_nodesFrom.mp hx
    cases item with
    | func f =>
      have hlt := (List.getElem?_eq_some_iff.mp (getElem?_funcsIn hj)).1
      rw [← map_snd_funcs_walked, List.length_map] at hlt
      rw [Walked.itemFrame, Nat.zero_add]
      exact hlt
    | _ => exact Nat.zero_le _
  obtain ⟨frame, hframe, hentries⟩ := s.walked.getElem?_frames hle
  refine ⟨frame, by rw [Scopes.frame, hframe], ?_⟩
  rw [Frame.get?, hentries, sites_walked]
  exact Declaration.find?_eq_some (h.nodup_held id) hheld

/-- Every local variable of a frame is declared by one of its nodes. -/
theorem exists_localVar {frame : Frame} (hframe : s.walked.scopes.frame id = .ok frame)
    {v : Variable} (hv : .localVar v ∈ frame.entries) :
    ∃ path, (path, .localVar v) ∈ s.nodesIn id := by
  rw [s.walked.entries_eq hframe, sites_walked] at hv
  have hdeclared : .localVar v ∈ declaredBy (s.nodesIn id) := by
    rw [nodesIn, declaredBy_nodesFrom]
    rcases List.mem_append.mp hv with hprelude | hsites
    · rw [FrameId.prelude] at hprelude
      split at hprelude
      · simp [Declaration.builtins] at hprelude
      · cases hprelude
    · exact List.mem_filter.mpr ⟨hsites, rfl⟩
  obtain ⟨⟨path, node⟩, hnode, hd⟩ := List.mem_filterMap.mp hdeclared
  refine ⟨path, ?_⟩
  cases node with
  | localVar v' =>
    cases hd
    exact hnode
  | _ => cases hd

end Source

end SimCompiler
