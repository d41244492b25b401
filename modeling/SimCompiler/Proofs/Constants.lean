import SimCompiler.Proofs.Annotated
import SimCompiler.Proofs.FrameContents

/-!
# Constants

The check of an assignment lets every declaring assignment write to a constant, whatever variable
it declares. That this is no gap rests on the names: an assignment that declares the name it writes
to writes to what it declares, because its own frame is the first to be searched and holds the name
once. So the declaration of a constant is the only statement that assigns to it.
-/
namespace SimCompiler

/-- Variables that are declared as constants; the kind of variable does not matter. -/
def Declaration.isConst : Declaration → Bool
  | .localVar v | .param v | .globalVar v => v.type.isConst
  | _ => false

/-- What an assignment or an update writes to. -/
def Stmt.target? : Stmt → Option Ref
  | .assign _ target _ _ | .update _ target _ _ => some target
  | _ => none

/-- What the checker has found of a node of the function `func`, or of the program itself. -/
def Node.Checked (c : TypeScope) (func : Option Func) : Node → Prop
  | .source _ => False
  | .func f => func = some f ∧ c.checkBlock func f.body = .ok ()
  | .block b => c.checkBlock func b = .ok ()
  | .stmt s => c.checkStmt func s = .ok ()
  | .elif e => c.checkElif func e = .ok ()
  | .otherwise e => c.checkElse func e = .ok ()
  | _ => True

namespace TypeScope

variable {c : TypeScope} {func : Option Func}

/-- What is checked has checked parts. -/
theorem checked_children {node : Node} (h : node.Checked c func) :
    ∀ child ∈ node.children, child.Checked c func := by
  cases node with
  | source s => exact h.elim
  | func f => simpa [Node.children, Node.Checked, or_imp, forall_and] using h.2
  | block b => simpa [Node.children, Node.Checked] using checkBlock_eq_ok_iff.mp h
  | stmt st =>
    cases st with
    | cond p condition block elifs otherwise =>
      obtain ⟨-, hblock, helifs, helse⟩ := checkStmt_cond h
      cases otherwise with
      | none => simpa [Node.children, Node.Checked] using ⟨hblock, helifs⟩
      | some e =>
        have hlast := helse e rfl
        rw [← checkElse_eq] at hlast
        simp only [Node.children, List.forall_mem_cons, List.forall_mem_append, List.forall_mem_map]
        exact ⟨trivial, hblock, helifs, hlast, by simp⟩
    | assign p target value declared =>
      simp [Node.children, Node.Checked, or_imp, forall_and]
    | _ => simp [Node.children, Node.Checked]
  | elif e => simpa [Node.children, Node.Checked] using (checkElif_eq_ok h).2
  | otherwise e =>
    rw [Node.Checked, checkElse_eq] at h
    simpa [Node.children, Node.Checked] using h
  | expr e => cases e <;> simp [Node.children, Node.Checked, or_imp, forall_and]
  | _ => simp [Node.children, Node.Checked]

theorem checked_item {item : Item} (h : c.checkItem item = .ok ()) :
    item.node.Checked c item.func? := by
  cases item with
  | globalVar | enum => trivial
  | func f =>
    obtain ⟨-, hrest⟩ := Result.seq_eq_ok_iff.mp h
    exact ⟨rfl, (Result.seq_eq_ok_iff.mp hrest).2⟩
  | stmt st => exact h

theorem targetType_of_isConst {target : Ref} {d : Declaration} (hd : c.resolve target = .ok d)
    (hconst : d.isConst = true) :
    ∃ type, c.targetType target = .ok type ∧ type.isConst = true := by
  cases d with
  | localVar v | param v | globalVar v => exact ⟨v.type, by rw [targetType, hd]; rfl, hconst⟩
  | _ => cases hconst

/-- Only a declaring assignment may write to a constant. -/
theorem declares_of_isConst {st : Stmt} (h : c.checkStmt func st = .ok ()) {target : Ref}
    (htarget : st.target? = some target) {d : Declaration} (hd : c.resolve target = .ok d)
    (hconst : d.isConst = true) : ∃ p value v, st = .assign p target value (some v) := by
  obtain ⟨type, htype, hisConst⟩ := targetType_of_isConst hd hconst
  cases st with
  | assign p target' value declared =>
    cases htarget
    cases declared with
    | some v => exact ⟨p, value, v, rfl⟩
    | none =>
      simp only [checkStmt, Result.bind_eq_ok_iff, Result.orPosition_eq_ok_iff] at h
      obtain ⟨_, -, _, -, operand, -, hrule⟩ := h
      rw [assignRule, htype, Result.ok_bind, hisConst] at hrule
      cases hrule
  | update p target' op value =>
    cases htarget
    simp only [checkStmt, Result.bind_eq_ok_iff, Result.orPosition_eq_ok_iff] at h
    obtain ⟨_, -, operand, -, hrule⟩ := h
    rw [updateRule, htype, Result.ok_bind, hisConst] at hrule
    cases hrule
  | _ => cases htarget

end TypeScope

namespace Source

variable {s : Source} {notes : Annotations}

theorem checked_of_mem (htyped : s.typeCheck = .ok ()) {j : Nat} {item : Item}
    (hj : s.items[j]? = some item) {path : Path} {node : Node}
    (hnode : (path, node) ∈ (item.outline [.item j]).nodes) :
    node.Checked (s.typeScope item) item.func? := by
  have hitem := Result.forM_eq_ok_iff.mp htyped item (List.mem_of_getElem? hj)
  have hroot := TypeScope.checked_item hitem
  rw [← item.node_outline [.item j]] at hroot
  refine (faithful_item item [.item j]).forall_nodes
    (q := fun _ node => node.Checked (s.typeScope item) item.func?) hroot ?_ _ hnode
  intro path node _ hnode child hchild
  exact TypeScope.checked_children hnode _ (Node.mem_children hchild)

theorem checkStmt_of_mem (htyped : s.typeCheck = .ok ()) {j : Nat} {item : Item}
    (hj : s.items[j]? = some item) {path : Path} {st : Stmt}
    (hst : (path, .stmt st) ∈ (item.outline [.item j]).nodes) :
    (s.typeScope item).checkStmt item.func? st = .ok () :=
  checked_of_mem htyped hj hst

/-- A local variable stands below the assignment that declares it. -/
theorem exists_assign {item : Item} {root path : Path} {v : Variable}
    (h : (path, .localVar v) ∈ (item.outline root).nodes) :
    ∃ q p target value, path = .declared :: q ∧
      (q, .stmt (.assign p target value (some v))) ∈ (item.outline root).nodes := by
  refine (faithful_item item root).forall_nodes
    (q := fun path node => ∀ v, node = .localVar v → ∃ q p target value, path = .declared :: q ∧
      (q, .stmt (.assign p target value (some v))) ∈ (item.outline root).nodes) ?_ ?_ _ h v rfl
  · intro v hv
    rw [Item.node_outline] at hv
    cases item <;> cases hv
  · intro q node hnode _ child hchild v hv
    have hmem := Node.mem_children hchild
    rw [hv] at hmem
    obtain ⟨p, target, value, rfl⟩ := Node.eq_assign_of_localVar hmem
    refine ⟨q, p, target, value, ?_, hnode⟩
    simp only [Node.outline, Stmt.outline, Option.map_some, Option.toList_some,
      List.singleton_append, List.mem_cons, List.not_mem_nil, or_false] at hchild
    obtain rfl | rfl | rfl := hchild
    · rfl
    · cases hv
    · simp at hv

/-- The statement at `path` writes to what frame `id` holds under `name`. -/
def Assigns (s : Source) (notes : Annotations) (scopes : Scopes) (path : Path) (id : FrameId)
    (name : String) : Prop :=
  ∃ st target start, (path, .stmt st) ∈ s.outline.nodes ∧ st.target? = some target ∧
    target.name = name ∧ notes.readRefFrame (.target :: path) = .ok start ∧
    scopes.FoundIn name start id

/-- Assignments that declare a variable write to the name of the variable. -/
def DeclaresTargets (s : Source) : Prop :=
  ∀ path p target value v, (path, .stmt (.assign p target value (some v))) ∈ s.outline.nodes →
    target.name = v.name

/-- The assignment at `path` declares `v` in frame `id`. -/
structure Declares (s : Source) (notes : Annotations) (path : Path) (v : Variable)
    (id : FrameId) : Prop where
  stmt : ∃ p target value, (path, .stmt (.assign p target value (some v))) ∈ s.outline.nodes
  frame : notes.readRefFrame (.target :: path) = .ok id
  node : (.declared :: path, .localVar v) ∈ s.nodesIn id

theorem target_mem_nodes {o : Outline} (h : o.Faithful) {path : Path} {st : Stmt}
    (hst : (path, .stmt st) ∈ o.nodes) {target : Ref} (htarget : st.target? = some target) :
    (.target :: path, .ref target) ∈ o.nodes := by
  have hchild : target.outline (.target :: path) ∈ ((Node.stmt st).outline path).children := by
    cases st with
    | assign p target' value declared =>
      cases htarget
      simp [Node.outline, Stmt.outline]
    | update p target' op value =>
      cases htarget
      simp [Node.outline, Stmt.outline]
    | _ => cases htarget
  exact h.mem_nodes_child hst hchild

theorem Annotated.declares (hnotes : s.Annotated notes) {j : Nat} {item : Item}
    (hj : s.items[j]? = some item) {path : Path} {p : Position} {target : Ref} {value : Expr}
    {v : Variable}
    (h : (path, .stmt (.assign p target value (some v))) ∈ (item.outline [.item j]).nodes) :
    s.Declares notes path v (Walked.itemFrame (funcsIn (s.items.take j)).length item) := by
  have hitem := faithful_item item [.item j]
  refine ⟨⟨p, target, value, mem_nodes_of_item hj h⟩, ?_, ?_⟩
  · exact hnotes.readRefFrame hj (target_mem_nodes hitem h rfl)
  · have hchild : v.outline .localVar (.declared :: path) ∈
        ((Node.stmt (.assign p target value (some v))).outline path).children := by
      simp [Node.outline, Stmt.outline]
    have hmem := hitem.mem_nodes_child h hchild
    exact mem_nodesFrom.mpr ⟨j, item, hj, by rw [Nat.zero_add], by rwa [Nat.zero_add], rfl⟩

namespace Declares

variable {path : Path} {v : Variable} {id : FrameId}

/-- The frame of the declaration holds the variable. -/
theorem get? (h : s.Declares notes path v id) (hclash : s.ClashFree) :
    ∃ frame, s.walked.scopes.frame id = .ok frame ∧ frame.get? v.name = some (.localVar v) :=
  hclash.get?_declaration h.node rfl

theorem resolve (h : s.Declares notes path v id) (hclash : s.ClashFree) :
    s.walked.scopes.resolve id v.name = .ok (.localVar v) := by
  obtain ⟨frame, hframe, hget⟩ := h.get? hclash
  have hfound : s.walked.scopes.FoundIn v.name id id := .here hframe (by rw [hget]; rfl)
  exact hfound.resolve s.walked.ordered_scopes hframe hget

/-- A declaration assigns to what it declares. -/
theorem assigns (h : s.Declares notes path v id) (hclash : s.ClashFree)
    (htargets : s.DeclaresTargets) : s.Assigns notes s.walked.scopes path id v.name := by
  obtain ⟨p, target, value, hst⟩ := h.stmt
  obtain ⟨frame, hframe, hget⟩ := h.get? hclash
  exact ⟨_, target, id, hst, rfl, htargets path p target value v hst, h.frame,
    .here hframe (by rw [hget]; rfl)⟩

end Declares

section Accepted

variable (hnotes : s.Annotated notes) (hclash : s.ClashFree) (htyped : s.typeCheck = .ok ())
  (htargets : s.DeclaresTargets)
include hnotes hclash htyped htargets

/-- A statement that writes to a constant declares it. -/
theorem Annotated.declares_of_isConst {path : Path} {st : Stmt}
    (hst : (path, .stmt st) ∈ s.outline.nodes) {target : Ref} (htarget : st.target? = some target)
    {d : Declaration} (hd : notes.resolve s.walked.scopes (.target :: path) target = .ok d)
    (hconst : d.isConst = true) :
    ∃ p value v id, st = .assign p target value (some v) ∧ d = .localVar v ∧
      s.Declares notes path v id := by
  rcases mem_nodes hst with hsource | ⟨j, item, hj, hmem⟩
  · cases hsource
  have hframe := hnotes.readRefFrame hj (target_mem_nodes (faithful_item item _) hmem htarget)
  rw [Annotations.resolve, hframe, Result.ok_bind] at hd
  have hresolve : (s.typeScope item).resolve target = .ok d := by
    rwa [s.resolve_scopes_walked hj] at hd
  obtain ⟨p, value, v, rfl⟩ :=
    TypeScope.declares_of_isConst (checkStmt_of_mem htyped hj hmem) htarget hresolve hconst
  have hdeclares := hnotes.declares hj hmem
  refine ⟨p, value, v, _, rfl, ?_, hdeclares⟩
  -- The frame of the statement is searched first, and there the name is that of the variable.
  rw [htargets path p target value v hst, hdeclares.resolve hclash] at hd
  cases hd
  rfl

variable {path path' : Path} {v : Variable} {id : FrameId}

/-- No other statement assigns to a constant than the one that declares it. -/
theorem Declares.eq_of_assigns (h : s.Declares notes path v id) (hconst : v.type.isConst = true)
    (hassigns : s.Assigns notes s.walked.scopes path' id v.name) : path' = path := by
  obtain ⟨st, target, start, hst, htarget, hname, hstart, hfound⟩ := hassigns
  obtain ⟨frame, hframe, hget⟩ := h.get? hclash
  have hd : notes.resolve s.walked.scopes (.target :: path') target = .ok (.localVar v) := by
    rw [Annotations.resolve, hstart, Result.ok_bind, hname]
    exact hfound.resolve s.walked.ordered_scopes hframe hget
  obtain ⟨p, value, v', id', rfl, hv, hother⟩ :=
    hnotes.declares_of_isConst hclash htyped htargets hst htarget hd hconst
  cases hv
  obtain rfl : start = id' := Except.ok.inj (hstart.symm.trans hother.frame)
  obtain ⟨frame', hframe', hget'⟩ := hother.get? hclash
  obtain rfl := hfound.eq_of_get? hframe' hget'
  have heq := hclash.eq_of_declaration? hother.node h.node rfl rfl rfl
  exact (List.cons.inj (congrArg Prod.fst heq)).2

theorem Declares.assigns_iff (h : s.Declares notes path v id) (hconst : v.type.isConst = true)
    (path' : Path) : s.Assigns notes s.walked.scopes path' id v.name ↔ path' = path := by
  constructor
  · exact h.eq_of_assigns hnotes hclash htyped htargets hconst
  · rintro rfl
    exact h.assigns hclash htargets

end Accepted

/-- Every constant variable of an accepted program is assigned by the statement that declares it
and by no other statement; other constants are never assigned. -/
theorem apply_assigns_constants_once (source : Source) (session : Session)
    (htargets : source.DeclaresTargets) (h : Session.apply source {} = .ok () session) :
    ∃ scopes, session.notes.readScopes = .ok scopes ∧
      (∀ path st target d, (path, .stmt st) ∈ source.outline.nodes → st.target? = some target →
        session.notes.resolve scopes (.target :: path) target = .ok d → d.isConst = true →
        ∃ p value v id, st = .assign p target value (some v) ∧ d = .localVar v ∧
          session.notes.readRefFrame (.target :: path) = .ok id ∧
          ∀ path', source.Assigns session.notes scopes path' id v.name ↔ path' = path) ∧
      ∀ id frame v, scopes.frame id = .ok frame → .localVar v ∈ frame.entries →
        v.type.isConst = true →
        ∃ path p target value,
          (path, .stmt (.assign p target value (some v))) ∈ source.outline.nodes ∧
          ∀ path', source.Assigns session.notes scopes path' id v.name ↔ path' = path := by
  have hnotes := annotated_of_apply h
  obtain ⟨hclash, -, -, htyped⟩ := verdict_eq_ok_iff.mp (verdict_of_apply h)
  refine ⟨source.walked.scopes, hnotes.readScopes, ?_, ?_⟩
  · intro path st target d hst htarget hd hconst
    obtain ⟨p, value, v, id, rfl, rfl, hdeclares⟩ :=
      hnotes.declares_of_isConst hclash htyped htargets hst htarget hd hconst
    exact ⟨p, value, v, id, rfl, rfl, hdeclares.frame,
      hdeclares.assigns_iff hnotes hclash htyped htargets hconst⟩
  · intro id frame v hframe hv hconst
    obtain ⟨path, hnode⟩ := exists_localVar hframe hv
    obtain ⟨j, item, hj, hid, hmem, -⟩ := mem_nodesFrom.mp hnode
    rw [Nat.zero_add] at hid hmem
    obtain ⟨q, p, target, value, -, hassign⟩ := exists_assign hmem
    have hdeclares := hnotes.declares hj hassign
    rw [hid] at hdeclares
    exact ⟨q, p, target, value, mem_nodes_of_item hj hassign,
      hdeclares.assigns_iff hnotes hclash htyped htargets hconst⟩

/-- A function has a constant of its own under the name of a constant of the program. -/
theorem apply_assigns_constants_once_shadowed :
    let line (n : UInt32) : Position := ⟨"main", n, 1⟩
    let a (n : UInt32) : Variable := ⟨line n, "a", ⟨line n, "int", true⟩⟩
    let b : Variable := ⟨line 2, "b", ⟨line 2, "int", false⟩⟩
    let declare (n : UInt32) : Stmt :=
      .assign (line n) ⟨line n, "a"⟩ (.int (line n) 1) (some (a n))
    let write : Stmt := .update (line 4) ⟨line 4, "b"⟩ "+=" (.ref ⟨line 4, "a"⟩)
    let f : Func := ⟨line 2, "f", [b], none, ⟨line 3, [declare 3, write]⟩⟩
    let source : Source := ⟨line 1, [.stmt (declare 1), .func f]⟩
    source.DeclaresTargets ∧ ∃ session scopes, Session.apply source {} = .ok () session ∧
      session.notes.readScopes = .ok scopes ∧
      ∀ path, (source.Assigns session.notes scopes path Scopes.root "a" ↔ path = [.item 0]) ∧
        (source.Assigns session.notes scopes path ⟨1⟩ "a" ↔ path = [.stmt 0, .body, .item 1]) := by
  intro line a b declare write f source
  have hassign : ∀ path p target value v,
      (path, .stmt (.assign p target value (some v))) ∈ source.outline.nodes →
      path = [.item 0] ∧ target.name = "a" ∧ v = a 1 ∨
        path = [.stmt 0, .body, .item 1] ∧ target.name = "a" ∧ v = a 3 := by
    intro path p target value v hmem
    simp [source, f, b, declare, write, outline, Outline.numbered, Item.outline, Func.outline,
      Variable.outline, TypeRef.outline, Block.outline, Stmt.outlines, Stmt.outline, Expr.outline,
      Ref.outline] at hmem
    grind
  have htargets : source.DeclaresTargets := by
    intro path p target value v hmem
    obtain ⟨-, hname, rfl⟩ | ⟨-, hname, rfl⟩ := hassign path p target value v hmem
    · exact hname
    · exact hname
  have hanswer : (Session.apply source).answer {} = .ok () := by decide +kernel
  obtain ⟨session, hrun⟩ := Pass.answer_eq_ok_iff.mp hanswer
  obtain ⟨scopes, hscopes, -, hconstants⟩ :=
    source.apply_assigns_constants_once session htargets hrun
  have hnotes := annotated_of_apply hrun
  obtain rfl : source.walked.scopes = scopes :=
    Except.ok.inj (hnotes.readScopes.symm.trans hscopes)
  refine ⟨htargets, session, _, hrun, hscopes, fun path => ⟨?_, ?_⟩⟩
  · obtain ⟨path', p, target, value, hmem, hiff⟩ :=
      hconstants Scopes.root _ (a 1) rfl (by decide +kernel) rfl
    obtain ⟨rfl, -⟩ | ⟨-, -, hv⟩ := hassign path' p target value (a 1) hmem
    · exact hiff path
    · cases hv
  · obtain ⟨path', p, target, value, hmem, hiff⟩ :=
      hconstants ⟨1⟩ _ (a 3) rfl (by decide +kernel) rfl
    obtain ⟨-, -, hv⟩ | ⟨rfl, -⟩ := hassign path' p target value (a 3) hmem
    · cases hv
    · exact hiff path

end Source

end SimCompiler
