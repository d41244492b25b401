import SimCompiler.Proofs.Blame

/-!
# Where faults are reported

A walk puts the position of the node being visited in where a hook left it open. So every fault that
an analysis finds has a position, and it is that of a node of the program.
-/
namespace SimCompiler

namespace Pass

/-- Every error of `x` blames one of `places`. -/
def Blames (places : List (Option Position)) (x : Pass σ α) : Prop :=
  ∀ s e s', x s = .error e s' → e.Blames places

variable {places places' : List (Option Position)}

theorem blames_of_ok {x : Pass σ α} (h : ∀ s, ∃ a s', x s = .ok a s') : x.Blames places := by
  intro s e s' hrun
  obtain ⟨a, s₁, hok⟩ := h s
  rw [hok] at hrun
  cases hrun

theorem blames_pure (a : α) : Blames places (pure a : Pass σ α) :=
  blames_of_ok fun s => ⟨a, s, rfl⟩

theorem blames_defect (d : Defect) : Blames places (defect d : Pass σ α) := by
  rintro s _ _ ⟨⟩
  trivial

theorem blames_get : Blames places (get : Pass σ σ) :=
  blames_of_ok fun s => ⟨s, s, rfl⟩

theorem blames_set (s : σ) : Blames places (set s : Pass σ Unit) :=
  blames_of_ok fun _ => ⟨(), s, rfl⟩

theorem blames_own : Blames places (own : Pass (Work ρ) ρ) :=
  blames_of_ok fun w => ⟨w.own, w, rfl⟩

theorem blames_modifyOwn (f : ρ → ρ) : Blames places (modifyOwn f) :=
  blames_of_ok fun w => ⟨(), { w with own := f w.own }, rfl⟩

theorem blames_ofResult {r : Result α} (h : r.Blames places) :
    Blames places (ofResult r : Pass σ α) := by
  intro s e s' hrun
  cases r with
  | ok a => cases hrun
  | error e' =>
    cases hrun
    exact h

theorem Blames.bind {x : Pass σ α} {f : α → Pass σ β} (hx : x.Blames places)
    (hf : ∀ a, (f a).Blames places) : (x >>= f).Blames places := by
  intro s e s' hrun
  rw [run_bind] at hrun
  cases hs : x s with
  | ok a s₁ =>
    rw [hs] at hrun
    exact hf a s₁ e s' hrun
  | error e₁ s₁ =>
    rw [hs] at hrun
    cases hrun
    exact hx s e s' hs

theorem blames_consult {f : Annotations → Result α} (h : ∀ notes, (f notes).Blames places) :
    Blames places (consult f : Pass (Work ρ) α) :=
  blames_get.bind fun w => blames_ofResult (h w.notes)

theorem blames_annotate {f : Annotations → Result Annotations}
    (h : ∀ notes, (f notes).Blames places) : Blames places (annotate f : Pass (Work ρ) Unit) :=
  (blames_consult h).bind fun notes => blames_of_ok fun w => ⟨(), { w with notes }, rfl⟩

theorem Blames.mono {x : Pass σ α} (h : x.Blames places) (hsub : places ⊆ places') :
    x.Blames places' :=
  fun s e s' hrun => (h s e s' hrun).mono hsub

theorem Blames.orPosition {x : Pass σ α} {p : Position} (h : x.Blames (none :: places))
    (hp : some p ∈ places) : (x.orPosition p).Blames places := by
  intro s e s' hrun
  rw [run_orPosition] at hrun
  cases hs : x s with
  | ok a s₁ =>
    rw [hs] at hrun
    cases hrun
  | error e₁ s₁ =>
    rw [hs] at hrun
    cases hrun
    exact (h s e₁ s' hs).orPosition hp

/-- Working data have no errors of their own. -/
theorem Blames.withOwn {x : Pass (Work ρ) α} (h : x.Blames places) (own : ρ) :
    (withOwn own x).Blames places := by
  intro notes e notes' hrun
  rw [run_withOwn] at hrun
  cases hw : x ⟨notes, own⟩ with
  | ok a w =>
    rw [hw] at hrun
    cases hrun
  | error e₁ w =>
    rw [hw] at hrun
    cases hrun
    exact h _ _ _ hw

end Pass

/-- The positions of nodes. -/
def positions (nodes : List (Path × Node)) : List (Option Position) :=
  nodes.map fun x => some x.2.position

/-- Each hook for a node of `nodes` blames one of `nodes`, or leaves the position open. -/
def Visitor.Blames (v : Visitor σ) (nodes : List (Path × Node)) : Prop :=
  ∀ x ∈ nodes, ∀ phase, (v.handle ⟨phase, x.1, x.2⟩).Blames (none :: positions nodes)

namespace Outline

mutual

/-- The errors of a walk have a position, which is that of a node. -/
theorem blames_walk {v : Visitor σ} {nodes : List (Path × Node)} (hv : v.Blames nodes) :
    ∀ o : Outline, o.nodes ⊆ nodes → (o.walk v).Blames (positions nodes)
  | ⟨path, node, children⟩, hsub => by
    have hnode : (path, node) ∈ nodes := hsub (by simp)
    have hposition : some node.position ∈ positions nodes := List.mem_map_of_mem hnode
    have hchildren : nodesAll children ⊆ nodes := fun x hx => hsub (by simp [hx])
    rw [walk_mk]
    exact ((hv _ hnode .enter).orPosition hposition).bind fun _ =>
      (blames_forM_walk hv children hchildren).bind fun _ =>
        (hv _ hnode .leave).orPosition hposition

theorem blames_forM_walk {v : Visitor σ} {nodes : List (Path × Node)} (hv : v.Blames nodes) :
    ∀ os : List Outline, nodesAll os ⊆ nodes → (forM os (walk v)).Blames (positions nodes)
  | [], _ => Pass.blames_pure ()
  | o :: os, hsub => by
    rw [List.forM_cons]
    rw [nodesAll_cons, List.append_subset] at hsub
    exact (blames_walk hv o hsub.1).bind fun _ => blames_forM_walk hv os hsub.2

end

end Outline

/-- Hooks blame nodes of the program if they blame the node that they are called for or one of its
operands. -/
theorem Visitor.blames_nodes {v : Visitor σ} (s : Source)
    (henter : ∀ path node, (v.enter path node).Blames node.places)
    (hleave : ∀ path node, (v.leave path node).Blames node.places) :
    v.Blames s.outline.nodes := by
  rintro ⟨path, node⟩ hx phase
  have hhandle : (v.handle ⟨phase, path, node⟩).Blames node.places := by
    rw [handle]
    split
    · exact Pass.blames_pure ()
    · cases phase with
      | enter => exact henter path node
      | leave => exact hleave path node
  refine hhandle.mono (List.cons_subset_cons none fun place hplace => ?_)
  obtain ⟨e, he, rfl⟩ := List.mem_map.mp hplace
  obtain ⟨path', hchild⟩ := Node.operand_mem_children he path
  have hmem := s.faithful_outline.mem_nodes_child hx hchild
  rw [Expr.node_outline] at hmem
  exact List.mem_map_of_mem hmem

section Hooks

variable {places : List (Option Position)}

namespace Binder

theorem blames_current : current.Blames places := by
  refine Pass.blames_own.bind fun b => ?_
  split
  · exact Pass.blames_pure _
  · exact Pass.blames_defect _

theorem blames_define (d : Declaration) : (define d).Blames (none :: places) := by
  rw [define_eq]
  refine blames_current.bind fun frame => Pass.blames_own.bind fun b => ?_
  exact (Pass.blames_ofResult (b.scopes.blames_define frame d)).bind fun _ =>
    Pass.blames_modifyOwn _

theorem blames_enterFunc (path : Path) (f : Func) :
    (enterFunc path f).Blames (none :: places) := by
  refine Pass.blames_own.bind fun b => (Pass.blames_modifyOwn _).bind fun _ => ?_
  refine (blames_define _).bind fun _ => Pass.blames_own.bind fun b => ?_
  refine blames_current.bind fun _ => ?_
  refine (Pass.blames_modifyOwn _).bind fun _ => ?_
  refine (Pass.blames_annotate fun notes => ?_).bind fun _ =>
    (Pass.blames_annotate fun notes => ?_).bind fun _ => Pass.blames_modifyOwn _
  · exact (notes.funcIds.blames_write _ path _).bind fun _ => trivial
  · exact (notes.funcFrames.blames_write _ path _).bind fun _ => trivial

theorem blames_visitor (s : Source) : visitor.Blames s.outline.nodes := by
  refine Visitor.blames_nodes s (fun path node => ?_) fun path node => ?_
  · cases node with
    | func f => exact blames_enterFunc path f
    | param | localVar | globalVar | enum | constant => exact blames_define _
    | expr e =>
      cases e with
      | ref r =>
        refine blames_current.bind fun frame => Pass.blames_annotate fun notes => ?_
        exact (notes.refFrames.blames_write _ path frame).bind fun _ => trivial
      | _ => exact Pass.blames_pure ()
    | _ => exact Pass.blames_pure ()
  · cases node with
    | func f => exact Pass.blames_modifyOwn fun b : Binder => { b with stack := b.stack.tail }
    | _ => exact Pass.blames_pure ()

end Binder

theorem Locals.blames_visitor (s : Source) : visitor.Blames s.outline.nodes := by
  have hframe : ∀ (notes : Annotations) id places, (ofFrame notes id).Blames places :=
    fun notes id _ => (notes.scopeChain.blames_read _ _).bind fun scopes =>
      (scopes.blames_frame id).bind fun _ => trivial
  refine Visitor.blames_nodes s (fun path node => ?_) fun _ _ => Pass.blames_pure ()
  cases node with
  | source s =>
    refine (Pass.blames_consult fun notes => hframe notes _ _).bind fun vars =>
      Pass.blames_annotate fun notes => ?_
    exact (notes.programLocals.blames_write _ _ vars).bind fun _ => trivial
  | func f =>
    refine (Pass.blames_consult fun notes => ?_).bind fun frame =>
      (Pass.blames_consult fun notes => hframe notes frame _).bind fun vars =>
        Pass.blames_annotate fun notes => ?_
    · exact notes.funcFrames.blames_read _ path
    · exact (notes.funcLocals.blames_write _ path vars).bind fun _ => trivial
  | _ => exact Pass.blames_pure ()

theorem Returns.blames_visitor (s : Source) : visitor.Blames s.outline.nodes := by
  refine Visitor.blames_nodes s (fun path node => ?_) fun path node => ?_
  · cases node with
    | func f =>
      refine (Pass.blames_consult fun notes => ?_).bind fun id => Pass.blames_modifyOwn _
      exact notes.funcIds.blames_read _ path
    | stmt st =>
      cases st with
      | ret p value =>
        refine Pass.blames_own.bind fun stack => ?_
        split
        · exact Pass.blames_defect _
        · refine (Pass.blames_annotate fun notes => ?_).bind fun _ => Pass.blames_modifyOwn _
          exact (notes.returnOwners.blames_write _ path _).bind fun _ => trivial
      | _ => exact Pass.blames_pure ()
    | _ => exact Pass.blames_pure ()
  · cases node with
    | func f =>
      refine Pass.blames_own.bind fun stack => ?_
      split
      · exact Pass.blames_defect _
      · refine (Pass.blames_modifyOwn _).bind fun _ => Pass.blames_annotate fun notes => ?_
        exact (notes.returnSites.blames_write _ path _).bind fun _ => trivial
    | _ => exact Pass.blames_pure ()

theorem Capabilities.blames_update (f : Capabilities → Capabilities) :
    (update f).Blames places :=
  Pass.blames_modifyOwn _

theorem Capabilities.blames_enterCall (path : Path) (callee : Ref) :
    (enterCall path callee).Blames (none :: places) := by
  refine (Pass.blames_consult fun notes => ?_).bind fun scopes =>
    Pass.blames_own.bind fun stack => ?_
  · exact notes.scopeChain.blames_read _ _
  split
  · exact Pass.blames_pure ()
  · refine (Pass.blames_consult fun notes => ?_).bind fun d => ?_
    · exact notes.blames_resolve scopes _ callee
    · split
      · exact blames_update _
      · exact Pass.blames_pure ()

theorem Capabilities.blames_visitor (s : Source) : visitor.Blames s.outline.nodes := by
  refine Visitor.blames_nodes s (fun path node => ?_) fun path node => ?_
  · cases node with
    | source s =>
      refine (Pass.blames_consult fun notes => ?_).bind fun _ => Pass.blames_pure ()
      exact notes.scopeChain.blames_read _ _
    | func f => exact Pass.blames_modifyOwn _
    | stmt st =>
      cases st with
      | print p args => exact blames_update _
      | _ => exact Pass.blames_pure ()
    | expr e =>
      cases e with
      | json p root indices target => exact blames_update _
      | call p callee args => exact blames_enterCall path callee
      | _ => exact Pass.blames_pure ()
    | _ => exact Pass.blames_pure ()
  · cases node with
    | func f =>
      refine Pass.blames_own.bind fun stack => ?_
      split
      · exact Pass.blames_defect _
      · refine (Pass.blames_modifyOwn _).bind fun _ => Pass.blames_annotate fun notes => ?_
        exact (notes.capabilities.blames_write _ path _).bind fun _ => trivial
    | _ => exact Pass.blames_pure ()

theorem TypeContext.blames_visitor (cx : TypeContext) (s : Source) :
    cx.visitor.Blames s.outline.nodes := by
  refine Visitor.blames_nodes s (fun path node => ?_) fun path node => ?_
  · cases node with
    | func f => exact Pass.blames_modifyOwn _
    | _ => exact Pass.blames_pure ()
  · cases node with
    | func f => exact Pass.blames_modifyOwn _
    | _ =>
      refine Pass.blames_own.bind fun funcs =>
        Pass.Blames.bind (Pass.blames_consult fun notes => ?_) fun type => ?_
      · exact cx.blames_checkNode notes path funcs _
      cases type with
      | none => exact Pass.blames_pure ()
      | some type => exact Pass.blames_annotate fun notes => notes.blames_writeType path type

end Hooks

namespace CallGraph

theorem blames_build (source : Source) (notes : Annotations) {places : List (Option Position)} :
    (build source notes).Blames places := by
  have hnode : ∀ (g : CallGraph) callee, (g.node callee).Blames places := by
    intro g callee
    rw [node]
    split <;> simp
  refine (Result.blames_mapM fun x _ => ?_).bind fun nodes =>
    Result.blames_ite.mpr ⟨fun _ => trivial, fun _ => ?_⟩
  · exact (notes.capabilities.blames_read _ x.1).bind fun c =>
      (notes.funcIds.blames_read _ x.1).bind fun _ => trivial
  · refine Result.Blames.bind (Result.blames_forM fun n _ => ?_) fun _ => trivial
    exact Result.blames_forM fun callee _ => (hnode _ callee).bind fun _ => trivial

end CallGraph

namespace Source

variable (s : Source)

theorem blames_walking {v : Visitor (Work ρ)} (hv : v.Blames s.outline.nodes) (own : ρ) :
    (Pass.walking v own s).Blames (positions s.outline.nodes) :=
  ((s.outline.blames_walk hv (List.Subset.refl _)).withOwn own).bind fun _ => Pass.blames_pure ()

theorem blames_bindNames : s.bindNames.Blames (positions s.outline.nodes) := by
  have hwalk := s.outline.blames_walk (Binder.blames_visitor s) (List.Subset.refl _)
  refine (hwalk.withOwn {}).bind fun x => Pass.blames_get.bind fun notes => ?_
  refine (Pass.blames_ofResult ?_).bind fun notes => Pass.blames_set notes
  exact (notes.scopeChain.blames_write _ _ _).bind fun _ => trivial

theorem blames_checkTypes : s.checkTypes.Blames (positions s.outline.nodes) := by
  refine Pass.blames_get.bind fun notes => (Pass.blames_ofResult ?_).bind fun scopes =>
    (Pass.blames_ofResult ?_).bind fun cx => s.blames_walking (cx.blames_visitor s) []
  · exact notes.scopeChain.blames_read _ _
  · exact (scopes.blames_frame _).bind fun _ => trivial

theorem blames_analyze : s.analyze.Blames (positions s.outline.nodes) :=
  s.blames_bindNames.bind fun _ => (s.blames_walking (Locals.blames_visitor s) ()).bind fun _ =>
    (s.blames_walking (Returns.blames_visitor s) []).bind fun _ =>
      (s.blames_walking (Capabilities.blames_visitor s) []).bind fun _ => s.blames_checkTypes

/-- Whatever is known about a program, the faults that are found in it are at its nodes. -/
theorem blames_apply : (Session.apply s).Blames (positions s.outline.nodes) := by
  intro session e session' hrun
  rw [Session.apply] at hrun
  split at hrun
  next e notes hanalyze =>
    cases hrun
    exact s.blames_analyze _ _ _ hanalyze
  next notes hanalyze =>
    split at hrun
    next e hbuild =>
      cases hrun
      have hblames : (CallGraph.build s notes).Blames (positions s.outline.nodes) :=
        CallGraph.blames_build s notes
      rwa [hbuild] at hblames
    next => cases hrun

end Source

end SimCompiler
