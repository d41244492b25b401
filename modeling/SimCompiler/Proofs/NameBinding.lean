import SimCompiler.Analysis.Binding
import SimCompiler.Proofs.Nodes

/-!
# Binding names enrolls the declarations of a program

`Walked` records what name binding has met so far: the sites it declared, the functions it opened
and the references it bound. Its working data and its annotations are a function of that record, so
one step of the walk is one step of `Site.enroll`.
-/
namespace SimCompiler

def Node.isRef : Node → Bool
  | .expr (.ref _) => true
  | _ => false

/-- The paths of the references among the nodes. -/
def refPaths (nodes : List (Path × Node)) : List Path :=
  (nodes.filter (·.2.isRef)).map Prod.fst

@[simp] theorem refPaths_nil : refPaths [] = [] := rfl

@[simp] theorem refPaths_append (xs ys : List (Path × Node)) :
    refPaths (xs ++ ys) = refPaths xs ++ refPaths ys := by
  simp [refPaths]

theorem refPaths_sublist (xs : List (Path × Node)) : (refPaths xs).Sublist (xs.map Prod.fst) :=
  List.filter_sublist.map Prod.fst

namespace SlotTable

theorem get?_eq_none {t : SlotTable α} {path : Path} (h : path ∉ t.entries.map Prod.fst) :
    t.get? path = none := by
  rw [get?, List.lookup_eq_none_iff]
  intro x hx
  have hne : path ≠ x.1 := fun heq => h (heq ▸ List.mem_map_of_mem hx)
  simpa using hne

/-- A slot holds what was written to it. -/
theorem get?_of_mem {t : SlotTable α} (hnodup : (t.entries.map Prod.fst).Nodup) {path : Path}
    {a : α} (h : (path, a) ∈ t.entries) : t.get? path = some a := by
  obtain ⟨entries⟩ := t
  induction entries with
  | nil => simp at h
  | cons x xs ih =>
    rw [List.map_cons, List.nodup_cons] at hnodup
    rcases List.mem_cons.mp h with rfl | hx
    · simp [get?]
    · have hne : path ≠ x.1 := fun heq => hnodup.1 (heq ▸ List.mem_map_of_mem hx)
      change (insert ⟨xs⟩ x.1 x.2).get? path = some a
      rw [get?_insert, if_neg hne]
      exact ih hnodup.2 hx

theorem read_eq_ok {t : SlotTable α} {path : Path} {a : α} (h : t.get? path = some a)
    (slot : Slot) : t.read slot path = .ok a := by
  rw [read, h]

end SlotTable

/-- What has been met so far on a walk that binds names. -/
structure Walked where
  sites : List Site := []
  funcs : List (Path × Func) := []
  refs : List (Path × FrameId) := []

namespace Walked

/-- The frame of the function `f`, which has number `k`. -/
def funcFrame (w : Walked) (k : Nat) (f : Path × Func) : Frame :=
  ⟨"fn " ++ f.2.name, some Scopes.root, Site.held w.sites ⟨k + 1⟩⟩

def scopes (w : Walked) : Scopes :=
  ⟨⟨"<root>", none, Site.held w.sites Scopes.root⟩ :: w.funcs.mapIdx w.funcFrame⟩

def notes (w : Walked) : Annotations where
  funcIds := ⟨(w.funcs.mapIdx fun k f => (f.1, ⟨k⟩)).reverse⟩
  funcFrames := ⟨(w.funcs.mapIdx fun k f => (f.1, ⟨k + 1⟩)).reverse⟩
  refFrames := ⟨w.refs.reverse⟩

/-- The state of the walk inside the frames of `stack`. -/
def work (w : Walked) (stack : List FrameId) : Work Binder :=
  ⟨w.notes, w.scopes, stack, w.funcs.length⟩

/-- Function numbers that have not been given out have no sites yet. -/
def Tidy (w : Walked) : Prop :=
  ∀ k, w.funcs.length ≤ k → Site.inFrame w.sites ⟨k + 1⟩ = []

def declare (w : Walked) (site : Site) : Walked := { w with sites := w.sites ++ [site] }

@[simp] theorem funcs_declare (w : Walked) (site : Site) : (w.declare site).funcs = w.funcs := rfl

theorem getElem?_frames (w : Walked) {frame : FrameId} (hframe : frame.index ≤ w.funcs.length) :
    ∃ f, w.scopes.frames[frame.index]? = some f ∧ f.entries = Site.held w.sites frame := by
  obtain ⟨_ | k⟩ := frame
  · exact ⟨_, rfl, rfl⟩
  · have hk : k < w.funcs.length := hframe
    refine ⟨w.funcFrame k w.funcs[k], ?_, rfl⟩
    simp [scopes, hk]

theorem held_declare (w : Walked) (site : Site) (frame : FrameId) :
    Site.held (w.declare site).sites frame =
      Site.held w.sites frame ++ if site.frame = frame then [site.declaration] else [] :=
  Site.held_concat w.sites site frame

theorem getElem?_frames_declare (w : Walked) (site : Site) (i : Nat) :
    (w.declare site).scopes.frames[i]? = w.scopes.frames[i]?.map fun f =>
      if site.frame = ⟨i⟩ then { f with entries := f.entries ++ [site.declaration] } else f := by
  cases i with
  | zero =>
    change some (Frame.mk _ _ (Site.held (w.declare site).sites Scopes.root)) = some _
    rw [held_declare]
    by_cases h : site.frame = Scopes.root
    · simp [h, Scopes.root]
    · have h' : site.frame ≠ ⟨0⟩ := h
      simp [h, h']
  | succ k =>
    simp only [scopes, declare, List.getElem?_cons_succ, List.getElem?_mapIdx, Option.map_map]
    congr 1
    funext f
    have hheld := w.held_declare site ⟨k + 1⟩
    simp only [declare] at hheld
    by_cases h : site.frame = ⟨k + 1⟩ <;> simp [funcFrame, hheld, h]

theorem set_frames (w : Walked) {frame : FrameId} {f : Frame} {d : Declaration}
    (hf : w.scopes.frames[frame.index]? = some f) :
    w.scopes.frames.set frame.index { f with entries := f.entries ++ [d] } =
      (w.declare ⟨frame, d⟩).scopes.frames := by
  have hlt := (List.getElem?_eq_some_iff.mp hf).1
  apply List.ext_getElem?
  intro i
  rw [getElem?_frames_declare, List.getElem?_set]
  by_cases h : frame.index = i
  · subst h
    rw [if_pos rfl, if_pos hlt, hf]
    simp
  · have hne : frame ≠ ⟨i⟩ := fun heq => h (congrArg FrameId.index heq)
    simp [h, hne]

/-- Whether a name is free in an open frame is what `Site.holder?` says. -/
theorem define_scopes (w : Walked) {frame : FrameId} (hframe : frame.index ≤ w.funcs.length)
    (d : Declaration) :
    w.scopes.define frame d =
      match Site.holder? w.sites ⟨frame, d⟩ with
      | some holder => Result.fault (.redefined holder)
      | none => .ok (w.declare ⟨frame, d⟩).scopes := by
  obtain ⟨f, hf, hentries⟩ := w.getElem?_frames hframe
  have hfound : w.scopes.frame frame = .ok f := by simp [Scopes.frame, hf]
  have hget : f.get? d.name = Site.holder? w.sites ⟨frame, d⟩ := by
    simp [Frame.get?, hentries, Site.holder?]
  rw [Scopes.define_eq, hfound]
  change (match f.get? d.name with | some holder => _ | none => _) = _
  rw [hget]
  cases Site.holder? w.sites ⟨frame, d⟩ with
  | some holder => rfl
  | none => exact congrArg (fun frames => Except.ok (Scopes.mk frames)) (w.set_frames hf)

def openFunc (w : Walked) (path : Path) (f : Func) : Walked :=
  { w with funcs := w.funcs ++ [(path, f)] }

theorem openFrame_scopes (w : Walked) (hw : w.Tidy) (path : Path) (f : Func) :
    w.scopes.openFrame ("fn " ++ f.name) Scopes.root =
      (⟨w.funcs.length + 1⟩, (w.openFunc path f).scopes) := by
  have hempty : Site.held w.sites ⟨w.funcs.length + 1⟩ = [] := by
    simp [Site.held, FrameId.prelude, hw w.funcs.length (Nat.le_refl _)]
  simp only [Scopes.openFrame, Scopes.size, scopes, openFunc, List.mapIdx_append]
  simp [funcFrame, hempty]
  rfl

/-- Binds the reference at `path` to `frame`. -/
def bindRef (w : Walked) (path : Path) (frame : FrameId) : Walked :=
  { w with refs := w.refs ++ [(path, frame)] }

@[simp] theorem scopes_bindRef (w : Walked) (path : Path) (frame : FrameId) :
    (w.bindRef path frame).scopes = w.scopes := rfl

@[simp] theorem funcs_bindRef (w : Walked) (path : Path) (frame : FrameId) :
    (w.bindRef path frame).funcs = w.funcs := rfl

theorem writeRefFrame_notes (w : Walked) {path : Path} (hpath : path ∉ w.refs.map Prod.fst)
    (frame : FrameId) :
    w.notes.writeRefFrame path frame = .ok (w.bindRef path frame).notes := by
  have hfree : w.notes.refFrames.get? path = none :=
    SlotTable.get?_eq_none (by simpa [notes] using hpath)
  have hwrite := (SlotTable.write_eq_ok_iff _ _ .referenceFrame path frame).mpr ⟨hfree, rfl⟩
  rw [Annotations.writeRefFrame, hwrite]
  simp [bind, Except.bind, pure, Except.pure, notes, bindRef, SlotTable.insert]

/-- Takes in nodes without frames of their own that stand inside `frame`. -/
def visit (w : Walked) (frame : FrameId) (nodes : List (Path × Node)) : Walked :=
  { w with
    sites := w.sites ++ (declaredBy nodes).map (⟨frame, ·⟩)
    refs := w.refs ++ (refPaths nodes).map (·, frame) }

theorem define_run (notes : Annotations) (scopes : Scopes) (frame : FrameId)
    (stack : List FrameId) (funcs : Nat) (d : Declaration) :
    Binder.define d ⟨notes, scopes, frame :: stack, funcs⟩ =
      match scopes.define frame d with
      | .ok scopes' => .ok () ⟨notes, scopes', frame :: stack, funcs⟩
      | .error e => .error e ⟨notes, scopes, frame :: stack, funcs⟩ := by
  cases h : scopes.define frame d <;> simp [Binder.define_eq, Binder.current, h]

theorem define_work (w : Walked) {frame : FrameId} (hframe : frame.index ≤ w.funcs.length)
    (stack : List FrameId) {d : Declaration} {p : Position} (hp : d.position = some p) :
    ((Binder.define d).orPosition p).Follows (w.work (frame :: stack))
      (Site.enroll w.sites [⟨frame, d⟩])
      fun _ s => s = (w.declare ⟨frame, d⟩).work (frame :: stack) := by
  have hrun := define_run w.notes w.scopes frame stack w.funcs.length d
  rw [w.define_scopes hframe d] at hrun
  cases h : Site.holder? w.sites ⟨frame, d⟩ with
  | some holder =>
    rw [h] at hrun
    have henroll : Site.enroll w.sites [⟨frame, d⟩] =
        .error (Site.redefinition ⟨frame, d⟩ holder) := by
      simp [Site.enroll, h]
    rw [henroll]
    refine ⟨w.work (frame :: stack), ?_⟩
    rw [Pass.run_orPosition, work, hrun]
    simp [Site.redefinition, hp, Result.fault, CompileError.ofFault, CompileError.orPosition,
      CodeError.orPosition]
  | none =>
    rw [h] at hrun
    refine Pass.follows_of_ok (a := ()) (by simp [Site.enroll, h]) ?_ rfl
    rw [Pass.run_orPosition, work, hrun]
    rfl

theorem visit_declaration (w : Walked) {frame : FrameId} (hframe : frame.index ≤ w.funcs.length)
    (stack : List FrameId) {path : Path} {node : Node} {d : Declaration}
    (hvisit : Binder.visitor.visit (path, node) = (Binder.define d).orPosition node.position)
    (hd : node.declaration? = some d) (hp : d.position = some node.position)
    (href : node.isRef = false) :
    (Binder.visitor.visit (path, node)).Follows (w.work (frame :: stack))
      (Site.enroll w.sites ((declaredBy [(path, node)]).map (⟨frame, ·⟩)))
      fun _ s => s = (w.visit frame [(path, node)]).work (frame :: stack) := by
  have hw : w.visit frame [(path, node)] = w.declare ⟨frame, d⟩ := by
    simp [visit, declare, refPaths, hd, href]
  rw [hw, hvisit]
  simpa [hd] using w.define_work hframe stack hp

/-- One node without a frame of its own. -/
theorem visit_node (w : Walked) {frame : FrameId} (hframe : frame.index ≤ w.funcs.length)
    (stack : List FrameId) (x : Path × Node) (hflat : x.2.hasFrame = false)
    (hfresh : x.2.isRef = true → x.1 ∉ w.refs.map Prod.fst) :
    (Binder.visitor.visit x).Follows (w.work (frame :: stack))
      (Site.enroll w.sites ((declaredBy [x]).map (⟨frame, ·⟩)))
      fun _ s => s = (w.visit frame [x]).work (frame :: stack) := by
  obtain ⟨path, node⟩ := x
  have hidle : Binder.visitor.visit (path, node) = pure () → node.declaration? = none →
      node.isRef = false → (Binder.visitor.visit (path, node)).Follows (w.work (frame :: stack))
        (Site.enroll w.sites ((declaredBy [(path, node)]).map (⟨frame, ·⟩)))
        fun _ s => s = (w.visit frame [(path, node)]).work (frame :: stack) := by
    intro hvisit hd href
    rw [hvisit]
    simp only [declaredBy_cons, hd]
    exact Pass.follows_pure (by simp [visit, refPaths, hd, href])
  cases node with
  | source s => simp [Node.hasFrame] at hflat
  | func f => simp [Node.hasFrame] at hflat
  | globalVar v => exact w.visit_declaration hframe stack rfl rfl rfl rfl
  | enum d => exact w.visit_declaration hframe stack rfl rfl rfl rfl
  | constant c => exact w.visit_declaration hframe stack rfl rfl rfl rfl
  | param v => exact w.visit_declaration hframe stack rfl rfl rfl rfl
  | localVar v => exact w.visit_declaration hframe stack rfl rfl rfl rfl
  | typeRef t => exact hidle rfl rfl rfl
  | block b => exact hidle rfl rfl rfl
  | stmt s => exact hidle rfl rfl rfl
  | elif e => exact hidle rfl rfl rfl
  | otherwise e => exact hidle rfl rfl rfl
  | expr e =>
    cases e with
    | ref r =>
      have hw : w.visit frame [(path, .ref r)] = w.bindRef path frame := by
        simp [visit, bindRef, refPaths, Node.isRef, Node.declaration?]
      have hwrite := w.writeRefFrame_notes (hfresh rfl) frame
      rw [hw]
      refine Pass.follows_of_ok rfl ?_ rfl
      simp [Visitor.visit, Visitor.handle, Binder.visitor, Binder.current, work, hwrite,
        Node.isLiteral]
    | _ => exact hidle rfl rfl rfl

theorem visit_nil (w : Walked) (frame : FrameId) : w.visit frame [] = w := by
  simp [visit]

theorem visit_cons (w : Walked) (frame : FrameId) (x : Path × Node) (xs : List (Path × Node)) :
    w.visit frame (x :: xs) = (w.visit frame [x]).visit frame xs := by
  have hdecl : declaredBy (x :: xs) = declaredBy [x] ++ declaredBy xs := by simp
  have href : refPaths (x :: xs) = refPaths [x] ++ refPaths xs := refPaths_append [x] xs
  simp only [visit, hdecl, href, List.map_append, List.append_assoc]

/-- A run of nodes without frames of their own inside an open frame. -/
theorem visit_nodes (w : Walked) {frame : FrameId} (hframe : frame.index ≤ w.funcs.length)
    (stack : List FrameId) (xs : List (Path × Node)) (hflat : ∀ x ∈ xs, x.2.hasFrame = false)
    (hfresh : (w.refs.map Prod.fst ++ refPaths xs).Nodup) :
    (forM xs Binder.visitor.visit).Follows (w.work (frame :: stack))
      (Site.enroll w.sites ((declaredBy xs).map (⟨frame, ·⟩)))
      fun _ s => s = (w.visit frame xs).work (frame :: stack) := by
  induction xs generalizing w with
  | nil => exact Pass.follows_pure (by rw [visit_nil])
  | cons x xs ih =>
    have href : refPaths (x :: xs) = refPaths [x] ++ refPaths xs := refPaths_append [x] xs
    have hdecl : declaredBy (x :: xs) = declaredBy [x] ++ declaredBy xs := by simp
    rw [href, ← List.append_assoc] at hfresh
    have hx : x.2.isRef = true → x.1 ∉ w.refs.map Prod.fst := by
      intro hisRef hmem
      have hfirst := (List.nodup_append.mp hfresh).1
      rw [List.nodup_append] at hfirst
      exact hfirst.2.2 x.1 hmem x.1 (by simp [refPaths, hisRef]) rfl
    rw [List.forM_cons, hdecl, List.map_append, Site.enroll_append, visit_cons]
    refine (w.visit_node hframe stack x (hflat x (by simp)) hx).bind ?_
    rintro - s - rfl
    refine ih (w.visit frame [x]) hframe (fun y hy => hflat y (by simp [hy])) ?_
    simpa [visit, Function.comp_def] using hfresh

/-- The annotations once function number `w.funcs.length` has its number but no frame yet. -/
def numberedNotes (w : Walked) (path : Path) : Annotations :=
  { w.notes with funcIds := w.notes.funcIds.insert path ⟨w.funcs.length⟩ }

theorem map_fst_mapIdx (fs : List (Path × Func)) (g : Nat → α) :
    (fs.mapIdx fun k f => (f.1, g k)).map Prod.fst = fs.map Prod.fst := by
  apply List.ext_getElem?
  intro i
  simp [Function.comp_def]

theorem writeFuncId_notes (w : Walked) {path : Path} (hpath : path ∉ w.funcs.map Prod.fst) :
    w.notes.writeFuncId path ⟨w.funcs.length⟩ = .ok (w.numberedNotes path) := by
  have hfree : w.notes.funcIds.get? path = none := by
    apply SlotTable.get?_eq_none
    rw [notes, List.map_reverse, List.mem_reverse, map_fst_mapIdx]
    exact hpath
  have hwrite := (SlotTable.write_eq_ok_iff _ _ .functionId path
    (⟨w.funcs.length⟩ : FuncId)).mpr ⟨hfree, rfl⟩
  rw [Annotations.writeFuncId, hwrite]
  rfl

theorem writeFuncFrame_notes (w : Walked) {path : Path} (hpath : path ∉ w.funcs.map Prod.fst)
    (f : Func) :
    (w.numberedNotes path).writeFuncFrame path ⟨w.funcs.length + 1⟩ =
      .ok (w.openFunc path f).notes := by
  have hfree : (w.numberedNotes path).funcFrames.get? path = none := by
    apply SlotTable.get?_eq_none
    rw [numberedNotes, notes, List.map_reverse, List.mem_reverse, map_fst_mapIdx]
    exact hpath
  have hwrite := (SlotTable.write_eq_ok_iff _ _ .functionFrame path
    (⟨w.funcs.length + 1⟩ : FrameId)).mpr ⟨hfree, rfl⟩
  rw [Annotations.writeFuncFrame, hwrite]
  simp [bind, Except.bind, pure, Except.pure, numberedNotes, notes, openFunc, SlotTable.insert,
    List.mapIdx_append]

theorem Tidy.declare_root {w : Walked} (hw : w.Tidy) (d : Declaration) :
    (w.declare ⟨Scopes.root, d⟩).Tidy := by
  intro k hk
  simpa [Walked.declare, Site.inFrame_cons] using hw k hk

theorem enterFunc_run (notes : Annotations) (scopes : Scopes) (frame : FrameId)
    (stack : List FrameId) (n : Nat) (path : Path) (f : Func) :
    Binder.enterFunc path f ⟨notes, scopes, frame :: stack, n⟩ =
      match scopes.define frame (.func (f.signature ⟨n⟩)) with
      | .error e => .error e ⟨notes, scopes, frame :: stack, n + 1⟩
      | .ok scopes =>
        let opened := scopes.openFrame ("fn " ++ f.name) frame
        match notes.writeFuncId path ⟨n⟩ with
        | .error e => .error e ⟨notes, opened.2, frame :: stack, n + 1⟩
        | .ok notes =>
          match notes.writeFuncFrame path opened.1 with
          | .error e => .error e ⟨notes, opened.2, frame :: stack, n + 1⟩
          | .ok notes => .ok () ⟨notes, opened.2, opened.1 :: frame :: stack, n + 1⟩ := by
  have hsignature : f.signature ⟨n⟩ = ⟨⟨n⟩, f.position, f.name, f.params.map (·.type),
    f.returnType⟩ := rfl
  rw [hsignature]
  cases hdefine : scopes.define frame (.func ⟨⟨n⟩, f.position, f.name, f.params.map (·.type),
      f.returnType⟩) with
  | error e => simp [Binder.enterFunc, define_run, hdefine]
  | ok scopes' =>
    cases hid : notes.writeFuncId path ⟨n⟩ with
    | error e => simp [Binder.enterFunc, Binder.current, define_run, hdefine, hid]
    | ok notes' =>
      simp only [Binder.enterFunc, Binder.current, define_run, hdefine, hid, Pass.run_bind,
        Pass.run_own, Pass.run_modifyOwn, Pass.run_pure, Pass.run_annotate]
      cases notes'.writeFuncFrame path (scopes'.openFrame ("fn " ++ f.name) frame).1 <;> rfl

/-- Entering a function declares it at the root and opens its frame. -/
theorem visit_func (w : Walked) (hw : w.Tidy) {path : Path} (hpath : path ∉ w.funcs.map Prod.fst)
    (f : Func) :
    (Binder.visitor.visit (path, .func f)).Follows (w.work [Scopes.root])
      (Site.enroll w.sites [⟨Scopes.root, .func (f.signature ⟨w.funcs.length⟩)⟩])
      fun _ s => s = ((w.declare ⟨Scopes.root, .func (f.signature ⟨w.funcs.length⟩)⟩).openFunc
        path f).work [⟨w.funcs.length + 1⟩, Scopes.root] := by
  have hroot : Scopes.root.index ≤ w.funcs.length := Nat.zero_le _
  have hdefine := w.define_scopes hroot (.func (f.signature ⟨w.funcs.length⟩))
  have hvisit : Binder.visitor.visit (path, .func f) =
      (Binder.enterFunc path f).orPosition f.position := rfl
  rw [hvisit, Site.enroll]
  cases h : Site.holder? w.sites ⟨Scopes.root, .func (f.signature ⟨w.funcs.length⟩)⟩ with
  | some holder =>
    rw [h] at hdefine
    refine ⟨⟨w.notes, w.scopes, [Scopes.root], w.funcs.length + 1⟩, ?_⟩
    rw [Pass.run_orPosition, work, enterFunc_run, hdefine]
    rfl
  | none =>
    rw [h] at hdefine
    have hopen := (w.declare ⟨Scopes.root, .func (f.signature ⟨w.funcs.length⟩)⟩).openFrame_scopes
      (hw.declare_root _) path f
    have hid := w.writeFuncId_notes hpath
    have hfuncFrame := w.writeFuncFrame_notes hpath f
    refine ⟨_, ?_, rfl⟩
    rw [Pass.run_orPosition, work, enterFunc_run, hdefine]
    simp only [hopen, hid, funcs_declare, hfuncFrame]
    simp [work, openFunc, declare, notes]

/-- The frame around the content of the item when `funcs` functions stand before it. -/
def itemFrame (funcs : Nat) : Item → FrameId
  | .func _ => ⟨funcs + 1⟩
  | _ => Scopes.root

/-- Takes in a whole item. -/
def enter (w : Walked) (path : Path) (item : Item) : Walked where
  sites := w.sites ++ item.sites w.funcs.length
  funcs := w.funcs ++ (item.func?.map (path, ·)).toList
  refs := w.refs ++ (refPaths (item.outline path).nodes).map (·, itemFrame w.funcs.length item)

theorem length_funcs_enter (w : Walked) (path : Path) (item : Item) :
    (w.enter path item).funcs.length = w.funcs.length + item.funcCount := by
  cases item <;> simp [enter, Item.funcCount, Item.func?]

theorem Tidy.enter {w : Walked} (hw : w.Tidy) (path : Path) (item : Item) :
    (w.enter path item).Tidy := by
  intro k hk
  rw [length_funcs_enter] at hk
  rw [Walked.enter, Site.inFrame_append, hw k (by omega), Source.inFrame_sites_item]
  cases item with
  | func f =>
    have hne : w.funcs.length ≠ k := Nat.ne_of_lt hk
    rw [if_neg hne]
    rfl
  | _ => simp [Item.ownDeclarations]

theorem leave_eq_pure (path : Path) {node : Node} (h : node.hasFrame = false) :
    Binder.visitor.leave path node = pure () := by
  cases node <;> first | rfl | simp [Node.hasFrame] at h

/-- A function declares itself around its frame and the rest inside, then it closes its frame. -/
theorem walk_func (w : Walked) (hw : w.Tidy) {path : Path} (hpath : path ∉ w.funcs.map Prod.fst)
    (f : Func)
    (hfresh : (w.refs.map Prod.fst ++ refPaths (f.outline path).nodes).Nodup) :
    ((f.outline path).walk Binder.visitor).Follows (w.work [Scopes.root])
      (Site.enroll w.sites ((Item.func f).sites w.funcs.length))
      fun _ s => s = (w.enter path (.func f)).work [Scopes.root] := by
  have hrefs : refPaths (f.outline path).nodes = refPaths (f.inner path) := by
    rw [f.nodes_outline]
    rfl
  have hsites : (Item.func f).sites w.funcs.length =
      [⟨Scopes.root, .func (f.signature ⟨w.funcs.length⟩)⟩] ++
        f.declarations.map (⟨⟨w.funcs.length + 1⟩, ·⟩) := rfl
  rw [f.walk_outline fun p _ hnode => leave_eq_pure p hnode, hsites, Site.enroll_append]
  refine (w.visit_func hw hpath f).bind ?_
  rintro - s - rfl
  rw [← declaredBy_func f path]
  refine (visit_nodes _ (by simp [openFunc]) [Scopes.root] _ (f.flat_inner path) ?_).then_ok ?_
  · rwa [hrefs] at hfresh
  · rintro - s rfl
    refine ⟨_, rfl, ?_⟩
    simp [enter, visit, openFunc, declare, work, declaredBy_func, hsites, hrefs, Item.func?,
      itemFrame, Item.outline, notes, scopes]

theorem walk_item (w : Walked) (hw : w.Tidy) {path : Path} (hpath : path ∉ w.funcs.map Prod.fst)
    (item : Item)
    (hfresh : (w.refs.map Prod.fst ++ refPaths (item.outline path).nodes).Nodup) :
    ((item.outline path).walk Binder.visitor).Follows (w.work [Scopes.root])
      (Site.enroll w.sites (item.sites w.funcs.length))
      fun _ s => s = (w.enter path item).work [Scopes.root] := by
  cases hitem : item.func? with
  | some f =>
    obtain rfl := Item.func?_eq_some_iff.mp hitem
    exact w.walk_func hw hpath f hfresh
  | none =>
    have hflat := flat_item item path hitem
    have hsites : item.sites w.funcs.length =
        (declaredBy (item.outline path).nodes).map (⟨Scopes.root, ·⟩) := by
      rw [declaredBy_item item path w.funcs.length hitem]
      cases item <;> simp_all [Item.sites, Item.ownDeclarations, Item.func?]
    have hframe : itemFrame w.funcs.length item = Scopes.root := by
      cases item <;> simp_all [itemFrame, Item.func?]
    have henter : w.enter path item = w.visit Scopes.root (item.outline path).nodes := by
      simp [enter, visit, hsites, hframe, hitem]
    rw [Outline.walk_eq_forM_nodes _ _ fun x hx => leave_eq_pure x.1 (hflat x hx), hsites, henter]
    exact w.visit_nodes (Nat.zero_le _) [] _ hflat hfresh

/-- Takes in items one after another; the first has number `i`. -/
def enterAll (w : Walked) (i : Nat) : List Item → Walked
  | [] => w
  | item :: items => (w.enter [.item i] item).enterAll (i + 1) items

/-- All functions so far stand before item `i`. -/
def Before (w : Walked) (i : Nat) : Prop := ∀ x ∈ w.funcs, ∃ j, j < i ∧ x.1 = [.item j]

theorem Before.not_mem {w : Walked} {i : Nat} (h : w.Before i) :
    [.item i] ∉ w.funcs.map Prod.fst := by
  intro hmem
  obtain ⟨x, hx, hxi⟩ := List.mem_map.mp hmem
  obtain ⟨j, hj, hxj⟩ := h x hx
  rw [hxj, List.cons.injEq, Step.item.injEq] at hxi
  omega

theorem Before.enter {w : Walked} {i : Nat} (h : w.Before i) (item : Item) :
    (w.enter [.item i] item).Before (i + 1) := by
  intro x hx
  rcases List.mem_append.mp hx with hx | hx
  · obtain ⟨j, hj, hxj⟩ := h x hx
    exact ⟨j, by omega, hxj⟩
  · refine ⟨i, by omega, ?_⟩
    rw [Option.mem_toList, Option.map_eq_some_iff] at hx
    obtain ⟨f, -, rfl⟩ := hx
    rfl

/-- The items of a program from number `i` on, inside the root frame. -/
theorem walk_items (w : Walked) (hw : w.Tidy) (i : Nat) (items : List Item) (hfuncs : w.Before i)
    (hfresh : (w.refs.map Prod.fst ++
      refPaths (Outline.nodesAll (Outline.numbered .item Item.outline [] i items))).Nodup) :
    (forM (Outline.numbered .item Item.outline [] i items)
      (Outline.walk Binder.visitor)).Follows (w.work [Scopes.root])
      (Site.enroll w.sites (Source.sitesFrom w.funcs.length items))
      fun _ s => s = (w.enterAll i items).work [Scopes.root] := by
  induction items generalizing w i with
  | nil => exact Pass.follows_pure rfl
  | cons item items ih =>
    rw [Outline.numbered, Outline.nodesAll_cons, refPaths_append, ← List.append_assoc] at hfresh
    have hfirst := w.walk_item hw hfuncs.not_mem item (List.nodup_append.mp hfresh).1
    rw [Outline.numbered, List.forM_cons, Source.sitesFrom, Site.enroll_append]
    refine hfirst.bind ?_
    rintro - s - rfl
    rw [← length_funcs_enter w [.item i]]
    refine ih (w.enter [.item i] item) (hw.enter _ item) (i + 1) (hfuncs.enter item) ?_
    simpa [enter, Function.comp_def] using hfresh

end Walked

namespace Source

/-- Everything that name binding meets in a program. -/
def walked (s : Source) : Walked := Walked.enterAll {} 0 s.items

/-- The annotations of a program whose names are bound. -/
def boundNotes (s : Source) : Annotations :=
  { s.walked.notes with scopeChain := SlotTable.insert {} Annotations.program s.walked.scopes }

theorem nodup_refPaths (s : Source) :
    (refPaths (Outline.nodesAll (Outline.numbered .item Item.outline [] 0 s.items))).Nodup := by
  have hnodup := (refPaths_sublist s.outline.nodes).nodup s.nodup_paths
  rwa [Source.outline, Outline.nodes_mk] at hnodup

/-- Name binding declares the sites of the program one after another. -/
theorem bindNames_follows (s : Source) :
    s.bindNames.Follows {} (Site.enroll [] s.sites) fun _ notes => notes = s.boundNotes := by
  have hwalk : s.outline.walk Binder.visitor =
      forM (Outline.numbered .item Item.outline [] 0 s.items) (Outline.walk Binder.visitor) := by
    rw [Source.outline, Outline.walk_mk]
    change (pure () >>= fun _ => _ >>= fun _ => pure ()) = _
    rw [pure_bind, bind_pure_unit]
  have hitems : (s.outline.walk Binder.visitor).Follows ⟨{}, {}⟩ (Site.enroll [] s.sites)
      fun _ w => w = s.walked.work [Scopes.root] := by
    rw [hwalk]
    exact Walked.walk_items {} (fun _ _ => rfl) 0 s.items (by simp [Walked.Before]) s.nodup_refPaths
  cases henroll : Site.enroll [] s.sites with
  | error e =>
    rw [henroll] at hitems
    obtain ⟨w, hw⟩ := hitems
    exact ⟨w.notes, by simp [bindNames, Pass.run_withOwn, hw]⟩
  | ok u =>
    rw [henroll] at hitems
    obtain ⟨w, hw, rfl⟩ := hitems
    have hwrite : s.walked.notes.writeScopes s.walked.scopes = .ok s.boundNotes := rfl
    exact ⟨s.boundNotes, by simp [bindNames, Pass.run_withOwn, hw, Walked.work, hwrite], rfl⟩

theorem bindNames_eq_ok_iff (s : Source) (notes : Annotations) :
    s.bindNames {} = .ok () notes ↔ s.ClashFree ∧ notes = s.boundNotes := by
  have hfollows := s.bindNames_follows
  rw [← enroll_sites_eq_ok_iff]
  cases henroll : Site.enroll [] s.sites with
  | error e =>
    rw [henroll] at hfollows
    obtain ⟨_, hrun⟩ := hfollows
    simp [hrun]
  | ok u =>
    rw [henroll] at hfollows
    obtain ⟨_, hrun, rfl⟩ := hfollows
    simp [hrun, eq_comm]

theorem bindNames_eq_error {s : Source} (h : ¬ s.ClashFree) :
    ∃ pre site post holder notes, s.sites = pre ++ site :: post ∧ Site.enroll [] pre = .ok () ∧
      Site.holder? pre site = some holder ∧
      s.bindNames {} = .error (site.redefinition holder) notes := by
  have hfollows := s.bindNames_follows
  rw [← enroll_sites_eq_ok_iff] at h
  cases henroll : Site.enroll [] s.sites with
  | ok u => exact absurd henroll h
  | error e =>
    rw [henroll] at hfollows
    obtain ⟨notes, hrun⟩ := hfollows
    obtain ⟨pre, site, post, holder, hsplit, hpre, hholder, rfl⟩ := Site.enroll_eq_error henroll
    exact ⟨pre, site, post, holder, notes, hsplit, hpre, by simpa using hholder, hrun⟩

theorem exists_position {s : Source} {site : Site} (h : site ∈ s.sites) :
    ∃ p, site.declaration.position = some p := by
  have hmem : site.declaration.heading? ∈ (headings s.outline.nodes).map some := by
    rw [s.map_some_headings]
    exact List.mem_map_of_mem h
  obtain ⟨heading, -, hheading⟩ := List.mem_map.mp hmem
  obtain ⟨p, hp, -⟩ := Option.map_eq_some_iff.mp hheading.symm
  exact ⟨p, hp⟩

/-- Binding succeeds exactly on programs without clashes. On any other it fails with a reference
error: it stands at the first declaration, in pre-order, that finds its name taken in its frame,
and it says what kind of declaration holds the name. -/
theorem bindNames_accepts_exactly_clashFree (source : Source) :
    ((∃ notes, source.bindNames {} = .ok () notes) ↔ source.ClashFree) ∧
    (¬ source.ClashFree → ∃ pre site post holder p e notes,
      source.sites = pre ++ site :: post ∧
      (∀ pre' site' post', pre = pre' ++ site' :: post' → Site.holder? pre' site' = none) ∧
      Site.holder? pre site = some holder ∧ site.declaration.position = some p ∧
      source.bindNames {} = .error (.code e) notes ∧ e.kind = .reference ∧ e.position = some p ∧
      e.message = holder.name ++ " has been already defined as " ++
        (holder.kind ++ " `" ++ holder.name ++ "`")) ∧
    source.sites.map (·.declaration.heading?) = (headings source.outline.nodes).map some := by
  refine ⟨?_, ?_, source.map_some_headings.symm⟩
  · constructor
    · rintro ⟨notes, hrun⟩
      exact ((source.bindNames_eq_ok_iff notes).mp hrun).1
    · intro h
      exact ⟨_, (source.bindNames_eq_ok_iff _).mpr ⟨h, rfl⟩⟩
  · intro h
    obtain ⟨pre, site, post, holder, notes, hsplit, hpre, hholder, hrun⟩ := bindNames_eq_error h
    have hsite : site ∈ source.sites := by simp [hsplit]
    obtain ⟨p, hp⟩ := exists_position hsite
    refine ⟨pre, site, post, holder, p, _, notes, hsplit, ?_, hholder, hp, hrun, rfl, hp, rfl⟩
    rintro pre' site' post' rfl
    simpa using Site.holder?_eq_none_of_enroll hpre

/-- The branch of a conditional has no frame: its variable clashes with a parameter. -/
theorem bindNames_rejects_redeclared_parameter :
    let line (n : UInt32) : Position := ⟨"main", n, 1⟩
    let a (n : UInt32) : Variable := ⟨line n, "a", ⟨line n, "int", false⟩⟩
    let assign : Stmt := .assign (line 3) ⟨line 3, "a"⟩ (.int (line 3) 1) (some (a 3))
    let body : Block := ⟨line 2, [.cond (line 2) (.bool (line 2) true) ⟨line 3, [assign]⟩ [] none]⟩
    let f : Func := ⟨line 1, "f", [a 1], none, body⟩
    let source : Source := ⟨line 1, [.func f]⟩
    ¬ source.ClashFree ∧ ∃ e notes, source.bindNames {} = .error (.code e) notes ∧
      e.kind = .reference := by
  intro line a assign body f source
  have hclash : ¬ source.ClashFree := by
    intro h
    have hnodup := h.distinctOwn f (by simp [source])
    revert hnodup
    decide
  obtain ⟨_, _, _, _, _, e, notes, _, _, _, _, hrun, hkind, _⟩ :=
    source.bindNames_accepts_exactly_clashFree.2.1 hclash
  exact ⟨hclash, e, notes, hrun, hkind⟩

end Source

end SimCompiler
