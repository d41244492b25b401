import SimCompiler.Proofs.Analyses
import SimCompiler.Proofs.Events

/-!
# Running the analyses again

Name binding comes first and never reads an annotation. So a second run does what the first one did
up to the first slot that was filled, finds it filled and stops, before it has changed anything.
Nothing that comes later empties a slot, and a third run starts where the second one did. If the
first run failed before it filled a slot, the second one starts from the same annotations.
-/
namespace SimCompiler

/-- Every slot that is filled in `t` is filled in `t'`. -/
def SlotTable.Within (t t' : SlotTable α) : Prop :=
  ∀ path a, t.get? path = some a → ∃ b, t'.get? path = some b

namespace SlotTable

theorem Within.refl (t : SlotTable α) : t.Within t := fun _ a h => ⟨a, h⟩

theorem Within.trans {t t' t'' : SlotTable α} (h : t.Within t') (h' : t'.Within t'') :
    t.Within t'' := by
  intro path a ha
  obtain ⟨b, hb⟩ := h path a ha
  exact h' path b hb

theorem within_of_write {t t' : SlotTable α} {slot : Slot} {path : Path} {a : α}
    (h : t.write slot path a = .ok t') : t.Within t' := by
  obtain ⟨-, rfl⟩ := (write_eq_ok_iff _ _ _ _ _).mp h
  intro other b hb
  rw [get?_insert]
  by_cases heq : other = path
  · exact ⟨a, if_pos heq⟩
  · exact ⟨b, by rw [if_neg heq, hb]⟩

/-- A slot that was filled once cannot be filled again. -/
theorem write_of_insert_within {t t' : SlotTable α} {path : Path} {a : α}
    (h : (t.insert path a).Within t') (slot : Slot) (b : α) :
    t'.write slot path b = .error (.defect (.reassigned slot)) := by
  obtain ⟨c, hc⟩ := h path a (by rw [get?_insert, if_pos rfl])
  rw [write, hc]
  rfl

end SlotTable

/-- Every slot that name binding has filled in `a` is filled in `b`. -/
structure Annotations.BoundIn (a b : Annotations) : Prop where
  scopeChain : a.scopeChain.Within b.scopeChain
  funcIds : a.funcIds.Within b.funcIds
  funcFrames : a.funcFrames.Within b.funcFrames
  refFrames : a.refFrames.Within b.refFrames

namespace Annotations

theorem BoundIn.refl (a : Annotations) : a.BoundIn a :=
  ⟨.refl _, .refl _, .refl _, .refl _⟩

theorem boundIn_of_core {a b : Annotations} (h : b.core = a.core) : a.BoundIn b := by
  have hscopes : b.scopeChain = a.scopeChain := congrArg (·.scopeChain) h
  have hfuncIds : b.funcIds = a.funcIds := congrArg (·.funcIds) h
  have hfuncFrames : b.funcFrames = a.funcFrames := congrArg (·.funcFrames) h
  have hrefFrames : b.refFrames = a.refFrames := congrArg (·.refFrames) h
  constructor
  · rw [hscopes]
    exact .refl _
  · rw [hfuncIds]
    exact .refl _
  · rw [hfuncFrames]
    exact .refl _
  · rw [hrefFrames]
    exact .refl _

theorem BoundIn.trans {a b c : Annotations} (h : a.BoundIn b) (h' : b.BoundIn c) : a.BoundIn c :=
  ⟨h.scopeChain.trans h'.scopeChain, h.funcIds.trans h'.funcIds,
    h.funcFrames.trans h'.funcFrames, h.refFrames.trans h'.refFrames⟩

end Annotations

namespace Pass

/-- The state in which `x` ends, whether it fails or not. -/
def final (x : Pass σ α) (s : σ) : σ :=
  match x s with
  | .ok _ s' => s'
  | .error _ s' => s'

theorem final_bind (x : Pass σ α) (f : α → Pass σ β) (s : σ) :
    (x >>= f).final s = match x s with
      | .ok a s' => (f a).final s'
      | .error _ s' => s' := by
  rw [final, run_bind]
  cases x s <;> rfl

theorem final_orPosition (x : Pass σ α) (p : Position) (s : σ) :
    (x.orPosition p).final s = x.final s := by
  rw [final, final, run_orPosition]
  cases x s <;> rfl

/-- However `x` ends, no slot that name binding has filled is empty again. -/
def Grows (notes : σ → Annotations) (x : Pass σ α) : Prop :=
  ∀ s, (notes s).BoundIn (notes (x.final s))

variable {notes : σ → Annotations}

theorem grows_pure (a : α) : (pure a : Pass σ α).Grows notes := fun _ => .refl _

theorem grows_get : (get : Pass σ σ).Grows notes := fun _ => .refl _

theorem grows_defect (d : Defect) : (defect d : Pass σ α).Grows notes := fun _ => .refl _

theorem grows_ofResult (r : Result α) : (ofResult r : Pass σ α).Grows notes := by
  intro s
  cases r <;> exact .refl _

theorem Grows.bind {x : Pass σ α} {f : α → Pass σ β} (hx : x.Grows notes)
    (hf : ∀ a, (f a).Grows notes) : (x >>= f).Grows notes := by
  intro s
  have hs := hx s
  rw [final_bind]
  rw [final] at hs
  cases hrun : x s with
  | error e s' =>
    rw [hrun] at hs
    exact hs
  | ok a s' =>
    rw [hrun] at hs
    exact hs.trans (hf a s')

theorem Grows.orPosition {x : Pass σ α} (hx : x.Grows notes) (p : Position) :
    (x.orPosition p).Grows notes := by
  intro s
  rw [final_orPosition]
  exact hx s

theorem grows_forM {f : α → Pass σ Unit} {xs : List α} (h : ∀ x ∈ xs, (f x).Grows notes) :
    (forM xs f).Grows notes := by
  induction xs with
  | nil => exact grows_pure ()
  | cons x xs ih =>
    rw [List.forM_cons]
    exact (h x (by simp)).bind fun _ => ih fun y hy => h y (by simp [hy])

theorem grows_own : (own : Pass (Work ρ) ρ).Grows Work.notes := fun _ => .refl _

theorem grows_modifyOwn (f : ρ → ρ) : (modifyOwn f).Grows Work.notes := fun _ => .refl _

theorem grows_consult (f : Annotations → Result α) :
    (consult f : Pass (Work ρ) α).Grows Work.notes := by
  intro w
  rw [final, run_consult]
  cases f w.notes <;> exact .refl _

theorem grows_annotate {f : Annotations → Result Annotations}
    (h : ∀ a b, f a = .ok b → a.BoundIn b) :
    (annotate f : Pass (Work ρ) Unit).Grows Work.notes := by
  intro w
  rw [final, run_annotate]
  cases hf : f w.notes with
  | error e => exact .refl _
  | ok notes => exact h w.notes notes hf

/-- What `x` does from the working data `own` when it is run twice: nothing with annotations, or it
fills a slot and cannot do so again. -/
inductive Once (x : Pass (Work ρ) α) (own : ρ) : Prop
  | silent (a : α) (own' : ρ) (h : ∀ notes, x ⟨notes, own⟩ = .ok a ⟨notes, own'⟩)
  | failing (e : CompileError) (own' : ρ) (h : ∀ notes, x ⟨notes, own⟩ = .error e ⟨notes, own'⟩)
  | filling (h : ∀ notes, (x.final ⟨{}, own⟩).notes.BoundIn notes →
      ∃ d own', x ⟨notes, own⟩ = .error (.defect d) ⟨notes, own'⟩)

theorem once_annotate {f : Annotations → Result Annotations}
    (h : ∃ first, f {} = .ok first ∧
      ∀ notes, first.BoundIn notes → ∃ d, f notes = .error (.defect d)) (own : ρ) :
    (annotate f).Once own := by
  obtain ⟨first, hfirst, hagain⟩ := h
  refine .filling fun notes hnotes => ?_
  rw [final, run_annotate, hfirst] at hnotes
  obtain ⟨d, hd⟩ := hagain notes hnotes
  exact ⟨d, own, by rw [run_annotate, hd]⟩

theorem Once.bind {x : Pass (Work ρ) α} {f : α → Pass (Work ρ) β} {own : ρ} (hx : x.Once own)
    (hf : ∀ a own', (f a).Once own') (hgrows : ∀ a, (f a).Grows Work.notes) : (x >>= f).Once own := by
  cases hx with
  | silent a own' h =>
    have hrun : ∀ notes, (x >>= f) ⟨notes, own⟩ = f a ⟨notes, own'⟩ := fun notes => by
      rw [run_bind, h]
    cases hf a own' with
    | silent b own'' h' => exact .silent b own'' fun notes => (hrun notes).trans (h' notes)
    | failing e own'' h' => exact .failing e own'' fun notes => (hrun notes).trans (h' notes)
    | filling h' =>
      refine .filling fun notes hnotes => ?_
      rw [final, hrun] at hnotes
      rw [hrun]
      exact h' notes hnotes
  | failing e own' h => exact .failing e own' fun notes => by rw [run_bind, h]
  | filling h =>
    refine .filling fun notes hnotes => ?_
    -- The slots that `x` fills are still filled when `f` has run.
    have hfirst : (x.final ⟨{}, own⟩).notes.BoundIn notes := by
      rw [final_bind] at hnotes
      rw [final]
      cases hrun : x ⟨{}, own⟩ with
      | error e w => simpa only [hrun] using hnotes
      | ok a w =>
        simp only [hrun] at hnotes
        exact (hgrows a w).trans hnotes
    obtain ⟨d, own', hd⟩ := h notes hfirst
    exact ⟨d, own', by rw [run_bind, hd]⟩

theorem Once.orPosition {x : Pass (Work ρ) α} {own : ρ} (hx : x.Once own) (p : Position) :
    (x.orPosition p).Once own := by
  cases hx with
  | silent a own' h => exact .silent a own' fun notes => by rw [run_orPosition, h]
  | failing e own' h => exact .failing (e.orPosition p) own' fun notes => by rw [run_orPosition, h]
  | filling h =>
    refine .filling fun notes hnotes => ?_
    rw [final_orPosition] at hnotes
    obtain ⟨d, own', hd⟩ := h notes hnotes
    exact ⟨d, own', by rw [run_orPosition, hd]; rfl⟩

/-- A pass that can be told to have run before. -/
structure WritesOnce (x : Pass (Work ρ) α) : Prop where
  grows : x.Grows Work.notes
  once : ∀ own, x.Once own

theorem writesOnce_pure (a : α) : (pure a : Pass (Work ρ) α).WritesOnce :=
  ⟨grows_pure a, fun own => .silent a own fun _ => rfl⟩

theorem writesOnce_own : (own : Pass (Work ρ) ρ).WritesOnce :=
  ⟨grows_own, fun own => .silent own own fun _ => rfl⟩

theorem writesOnce_modifyOwn (f : ρ → ρ) : (modifyOwn f).WritesOnce :=
  ⟨grows_modifyOwn f, fun own => .silent () (f own) fun _ => rfl⟩

theorem writesOnce_defect (d : Defect) : (defect d : Pass (Work ρ) α).WritesOnce :=
  ⟨grows_defect d, fun own => .failing (.defect d) own fun _ => rfl⟩

theorem writesOnce_ofResult (r : Result α) : (ofResult r : Pass (Work ρ) α).WritesOnce := by
  refine ⟨grows_ofResult r, fun own => ?_⟩
  cases r with
  | ok a => exact .silent a own fun _ => rfl
  | error e => exact .failing e own fun _ => rfl

theorem WritesOnce.bind {x : Pass (Work ρ) α} {f : α → Pass (Work ρ) β} (hx : x.WritesOnce)
    (hf : ∀ a, (f a).WritesOnce) : (x >>= f).WritesOnce :=
  ⟨hx.grows.bind fun a => (hf a).grows,
    fun own => (hx.once own).bind (fun a => (hf a).once) fun a => (hf a).grows⟩

theorem WritesOnce.orPosition {x : Pass (Work ρ) α} (hx : x.WritesOnce) (p : Position) :
    (x.orPosition p).WritesOnce :=
  ⟨hx.grows.orPosition p, fun own => (hx.once own).orPosition p⟩

theorem writesOnce_forM {f : α → Pass (Work ρ) Unit} {xs : List α}
    (h : ∀ x ∈ xs, (f x).WritesOnce) : (forM xs f).WritesOnce := by
  induction xs with
  | nil => exact writesOnce_pure ()
  | cons x xs ih =>
    rw [List.forM_cons]
    exact (h x (by simp)).bind fun _ => ih fun y hy => h y (by simp [hy])

end Pass

namespace Outline

theorem grows_walk {v : Visitor (Work ρ)}
    (henter : ∀ path node, (v.enter path node).Grows Work.notes)
    (hleave : ∀ path node, (v.leave path node).Grows Work.notes) (o : Outline) :
    (o.walk v).Grows Work.notes := by
  rw [walk_eq_forM_events]
  refine Pass.grows_forM fun e _ => Pass.Grows.orPosition ?_ _
  rw [Visitor.hook]
  cases e.phase with
  | enter => exact henter e.path e.node
  | leave => exact hleave e.path e.node

theorem writesOnce_walk {v : Visitor (Work ρ)}
    (henter : ∀ path node, (v.enter path node).WritesOnce)
    (hleave : ∀ path node, (v.leave path node).WritesOnce) (o : Outline) :
    (o.walk v).WritesOnce := by
  rw [walk_eq_forM_events]
  refine Pass.writesOnce_forM fun e _ => Pass.WritesOnce.orPosition ?_ _
  rw [Visitor.hook]
  cases e.phase with
  | enter => exact henter e.path e.node
  | leave => exact hleave e.path e.node

end Outline

/-- Filling a slot of one of the tables that `BoundIn` compares. -/
theorem Pass.writesOnce_write (table : Annotations → SlotTable α)
    (update : Annotations → SlotTable α → Annotations)
    (htable : ∀ a t, table (update a t) = t)
    (hupdate : ∀ a t, (table a).Within t → a.BoundIn (update a t))
    (hbound : ∀ a b, a.BoundIn b → (table a).Within (table b))
    (hempty : table {} = {}) (slot : Slot) (path : Path) (value : α) :
    (annotate fun a => do return update a (← (table a).write slot path value) :
      Pass (Work ρ) Unit).WritesOnce := by
  constructor
  · apply grows_annotate
    intro a b h
    obtain ⟨t, ht, hb⟩ := Result.bind_eq_ok_iff.mp h
    cases hb
    exact hupdate a t (SlotTable.within_of_write ht)
  · apply once_annotate
    refine ⟨update {} (({} : SlotTable α).insert path value), by rw [hempty]; rfl, ?_⟩
    intro notes hnotes
    have hwithin := hbound _ _ hnotes
    rw [htable] at hwithin
    rw [SlotTable.write_of_insert_within hwithin]
    exact ⟨_, rfl⟩

namespace Binder

theorem writesOnce_funcId (path : Path) (id : FuncId) :
    (Pass.annotate (·.writeFuncId path id) : Pass (Work Binder) Unit).WritesOnce :=
  Pass.writesOnce_write (·.funcIds) (fun a t => { a with funcIds := t }) (fun _ _ => rfl)
    (fun a _ h => { Annotations.BoundIn.refl a with funcIds := h })
    (fun _ _ h => h.funcIds) rfl .functionId path id

theorem writesOnce_funcFrame (path : Path) (frame : FrameId) :
    (Pass.annotate (·.writeFuncFrame path frame) : Pass (Work Binder) Unit).WritesOnce :=
  Pass.writesOnce_write (·.funcFrames) (fun a t => { a with funcFrames := t }) (fun _ _ => rfl)
    (fun a _ h => { Annotations.BoundIn.refl a with funcFrames := h })
    (fun _ _ h => h.funcFrames) rfl .functionFrame path frame

theorem writesOnce_refFrame (path : Path) (frame : FrameId) :
    (Pass.annotate (·.writeRefFrame path frame) : Pass (Work Binder) Unit).WritesOnce :=
  Pass.writesOnce_write (·.refFrames) (fun a t => { a with refFrames := t }) (fun _ _ => rfl)
    (fun a _ h => { Annotations.BoundIn.refl a with refFrames := h })
    (fun _ _ h => h.refFrames) rfl .referenceFrame path frame

theorem writesOnce_current : current.WritesOnce := by
  refine Pass.writesOnce_own.bind fun b => ?_
  cases b.stack with
  | nil => exact Pass.writesOnce_defect _
  | cons frame stack => exact Pass.writesOnce_pure frame

theorem writesOnce_define (d : Declaration) : (define d).WritesOnce := by
  rw [define_eq]
  exact writesOnce_current.bind fun _ => Pass.writesOnce_own.bind fun _ =>
    (Pass.writesOnce_ofResult _).bind fun _ => Pass.writesOnce_modifyOwn _

theorem writesOnce_enterFunc (path : Path) (f : Func) : (enterFunc path f).WritesOnce := by
  refine Pass.writesOnce_own.bind fun b => (Pass.writesOnce_modifyOwn _).bind fun _ =>
    (writesOnce_define _).bind fun _ => Pass.writesOnce_own.bind fun _ =>
    writesOnce_current.bind fun _ => ?_
  exact (Pass.writesOnce_modifyOwn _).bind fun _ => (writesOnce_funcId path _).bind fun _ =>
    (writesOnce_funcFrame path _).bind fun _ => Pass.writesOnce_modifyOwn _

theorem writesOnce_walk (o : Outline) : (o.walk visitor).WritesOnce := by
  apply Outline.writesOnce_walk
  · intro path node
    cases node with
    | func f => exact writesOnce_enterFunc path f
    | param v | localVar v | globalVar v | enum d | constant c => exact writesOnce_define _
    | expr e =>
      cases e with
      | ref r => exact writesOnce_current.bind fun frame => writesOnce_refFrame path frame
      | _ => exact Pass.writesOnce_pure ()
    | _ => exact Pass.writesOnce_pure ()
  · intro path node
    cases node with
    | func f =>
      show (Pass.modifyOwn fun b : Binder => { b with stack := b.stack.tail }).WritesOnce
      exact Pass.writesOnce_modifyOwn _
    | _ => exact Pass.writesOnce_pure ()

end Binder

namespace Source

/-- Names are bound once: from annotations with all slots that were filled the first time, name
binding ends in a defect and changes nothing, unless it fails before it fills a slot. -/
theorem bindNames_again (s : Source) : (∃ e, s.bindNames {} = .error e {}) ∨
    ∀ notes, (s.bindNames.final {}).BoundIn notes →
      ∃ d, s.bindNames notes = .error (.defect d) notes := by
  have hwalk := Binder.writesOnce_walk s.outline
  cases hwalk.once {} with
  | failing e own' h =>
    refine .inl ⟨e, ?_⟩
    rw [bindNames, Pass.run_bind, Pass.run_withOwn, h]
  | silent u own' h =>
    refine .inr fun notes hnotes => ?_
    -- Nothing was filled on the way, so the scope chain is what the second run finds filled.
    have hfirst : ∀ notes', ({} : Annotations).writeScopes own'.scopes = .ok notes' →
        s.bindNames {} = .ok () notes' := by
      intro notes' hwrite
      rw [bindNames, Pass.run_bind, Pass.run_withOwn, h]
      simp [hwrite]
    rw [Pass.final, hfirst _ rfl] at hnotes
    have hwrite : notes.writeScopes own'.scopes = .error (.defect (.reassigned .scopeChain)) := by
      rw [Annotations.writeScopes, SlotTable.write_of_insert_within hnotes.scopeChain]
      rfl
    refine ⟨.reassigned .scopeChain, ?_⟩
    rw [bindNames, Pass.run_bind, Pass.run_withOwn, h]
    simp [hwrite]
  | filling h =>
    refine .inr fun notes hnotes => ?_
    have hfirst : ((s.outline.walk Binder.visitor).final ⟨{}, {}⟩).notes.BoundIn
        (s.bindNames.final {}) := by
      rw [bindNames, Pass.final_bind, Pass.run_withOwn, Pass.final]
      cases hrun : s.outline.walk Binder.visitor ⟨{}, {}⟩ with
      | error e w => exact .refl _
      | ok u w =>
        simp only [Pass.final, Pass.run_bind, Pass.run_get, Pass.run_ofResult]
        cases hwrite : w.notes.writeScopes w.own.scopes with
        | error e => exact .refl _
        | ok notes' =>
          obtain ⟨t, ht, hnotes'⟩ := Result.bind_eq_ok_iff.mp hwrite
          cases hnotes'
          exact { Annotations.BoundIn.refl w.notes with
            scopeChain := SlotTable.within_of_write ht }
    obtain ⟨d, own', hd⟩ := h notes (hfirst.trans hnotes)
    refine ⟨d, ?_⟩
    rw [bindNames, Pass.run_bind, Pass.run_withOwn, hd]

end Source

theorem Pass.grows_walking {v : Visitor (Work ρ)}
    (henter : ∀ path node, (v.enter path node).Grows Work.notes)
    (hleave : ∀ path node, (v.leave path node).Grows Work.notes) (own : ρ) (source : Source) :
    (walking v own source).Grows id := by
  intro notes
  have hwalk := Outline.grows_walk henter hleave source.outline ⟨notes, own⟩
  rw [final] at hwalk ⊢
  rw [run_walking]
  cases hrun : source.outline.walk v ⟨notes, own⟩ <;> simpa only [hrun, id] using hwalk

namespace Source

theorem collectLocals_grows (s : Source) : s.collectLocals.Grows id := by
  refine Pass.grows_walking (fun path node => ?_) (fun path node => Pass.grows_pure ()) () s
  cases node with
  | source s =>
    refine (Pass.grows_consult _).bind fun vars => Pass.grows_annotate fun a b h => ?_
    obtain ⟨t, -, hb⟩ := Result.bind_eq_ok_iff.mp h
    cases hb
    exact ⟨.refl _, .refl _, .refl _, .refl _⟩
  | func f =>
    refine (Pass.grows_consult _).bind fun frame => (Pass.grows_consult _).bind fun vars =>
      Pass.grows_annotate fun a b h => ?_
    obtain ⟨t, -, hb⟩ := Result.bind_eq_ok_iff.mp h
    cases hb
    exact ⟨.refl _, .refl _, .refl _, .refl _⟩
  | _ => exact Pass.grows_pure ()

theorem linkReturns_grows (s : Source) : s.linkReturns.Grows id := by
  refine Pass.grows_walking (fun path node => ?_) (fun path node => ?_) [] s
  · cases node with
    | func f => exact (Pass.grows_consult _).bind fun id => Pass.grows_modifyOwn _
    | stmt st =>
      cases st with
      | ret p value =>
        refine Pass.grows_own.bind fun opened => ?_
        split
        · exact Pass.grows_defect _
        · exact (Pass.grows_annotate fun a b h =>
            Annotations.boundIn_of_core (Annotations.core_writeReturnOwner h)).bind fun _ =>
            Pass.grows_modifyOwn _
      | _ => exact Pass.grows_pure ()
    | _ => exact Pass.grows_pure ()
  · cases node with
    | func f =>
      refine Pass.grows_own.bind fun opened => ?_
      split
      · exact Pass.grows_defect _
      · exact (Pass.grows_modifyOwn _).bind fun _ => Pass.grows_annotate fun a b h =>
          Annotations.boundIn_of_core (Annotations.core_writeReturnSites h)
    | _ => exact Pass.grows_pure ()

theorem collectCapabilities_grows (s : Source) : s.collectCapabilities.Grows id := by
  have hupdate : ∀ f, (Capabilities.update f).Grows Work.notes := fun f => Pass.grows_modifyOwn _
  refine Pass.grows_walking (fun path node => ?_) (fun path node => ?_) [] s
  · cases node with
    | source s => exact (Pass.grows_consult _).bind fun _ => Pass.grows_pure ()
    | func f => exact Pass.grows_modifyOwn _
    | stmt st =>
      cases st with
      | print p args => exact hupdate _
      | _ => exact Pass.grows_pure ()
    | expr e =>
      cases e with
      | json p root indices target => exact hupdate _
      | call p callee args =>
        refine (Pass.grows_consult _).bind fun scopes => Pass.grows_own.bind fun opened => ?_
        split
        · exact Pass.grows_pure ()
        · refine (Pass.grows_consult _).bind fun d => ?_
          split
          · exact hupdate _
          · exact Pass.grows_pure ()
      | _ => exact Pass.grows_pure ()
    | _ => exact Pass.grows_pure ()
  · cases node with
    | func f =>
      refine Pass.grows_own.bind fun opened => ?_
      split
      · exact Pass.grows_defect _
      · exact (Pass.grows_modifyOwn _).bind fun _ => Pass.grows_annotate fun a b h =>
          Annotations.boundIn_of_core (Annotations.core_writeCapabilities h)
    | _ => exact Pass.grows_pure ()

theorem checkTypes_grows (s : Source) : s.checkTypes.Grows id := by
  refine Pass.grows_get.bind fun notes => (Pass.grows_ofResult _).bind fun scopes =>
    (Pass.grows_ofResult _).bind fun cx => ?_
  refine Pass.grows_walking (fun path node => ?_) (fun path node => ?_) [] s
  · cases node with
    | func f => exact Pass.grows_modifyOwn _
    | _ => exact Pass.grows_pure ()
  · cases node with
    | func f => exact Pass.grows_modifyOwn _
    | _ =>
      refine Pass.grows_own.bind fun funcs => Pass.Grows.bind (Pass.grows_consult _) fun type? => ?_
      cases type? with
      | none => exact Pass.grows_pure ()
      | some type =>
        refine Pass.grows_annotate fun a b h => ?_
        rw [Annotations.writeType] at h
        split at h
        · split at h
          · cases h
            exact .refl _
          · cases h
        · cases h
          exact ⟨.refl _, .refl _, .refl _, .refl _⟩

/-- Nothing that follows name binding empties a slot which that has filled. -/
theorem final_bindNames_boundIn (s : Source) :
    (s.bindNames.final {}).BoundIn (s.analyze.final {}) := by
  have hrest := s.collectLocals_grows.bind fun _ => s.linkReturns_grows.bind fun _ =>
    s.collectCapabilities_grows.bind fun _ => s.checkTypes_grows
  rw [analyze, Pass.final_bind, Pass.final]
  cases s.bindNames {} with
  | error e notes => exact .refl _
  | ok u notes => exact hrest notes

end Source

namespace Session

theorem notes_final_apply (source : Source) (s : Session) :
    ((apply source).final s).notes = source.analyze.final s.notes := by
  rw [Pass.final, Pass.final, apply]
  cases source.analyze s.notes with
  | error e notes => rfl
  | ok u notes => cases hbuild : CallGraph.build source notes <;> simp [hbuild]

/-- A run that fails leaves the call graph as it was. -/
theorem eq_of_apply_error {source : Source} {s s' : Session} {e : CompileError}
    (h : apply source s = .error e s') : s' = { s with notes := s'.notes } := by
  rw [apply] at h
  cases hanalyze : source.analyze s.notes with
  | error e notes =>
    rw [hanalyze] at h
    cases h
    rfl
  | ok u notes =>
    cases hbuild : CallGraph.build source notes with
    | error e =>
      simp only [hanalyze, hbuild] at h
      cases h
      rfl
    | ok g =>
      simp only [hanalyze, hbuild] at h
      cases h

theorem apply_of_bindNames {source : Source} {s : Session} {e : CompileError}
    (h : source.bindNames s.notes = .error e s.notes) : apply source s = .error e s := by
  have hanalyze : source.analyze s.notes = .error e s.notes := by
    rw [Source.analyze, Pass.run_bind, h]
  rw [apply, hanalyze]

/-- What is known about one program after its analyses have been run `n` times. -/
def afterRuns (source : Source) : Nat → Session
  | 0 => {}
  | n + 1 => (apply source).final (afterRuns source n)

/-- However the first run ends, every later one ends with the same error and leaves annotations and
call graph as the first run left them. The error is a defect, unless the first run failed before it
filled a slot; then it is that of the first run. -/
theorem apply_again (source : Source) :
    ∃ e, (∀ n, apply source (afterRuns source (n + 1)) = .error e (afterRuns source 1)) ∧
      (∀ first s, apply source {} = .error first s → s.notes = {} → e = first) ∧
      ((∀ first s, apply source {} = .error first s → s.notes ≠ {}) → ∃ d, e = .defect d) := by
  -- A run that changes nothing is repeated by the next one.
  have hrepeat : ∀ e, apply source (afterRuns source 1) = .error e (afterRuns source 1) →
      ∀ n, afterRuns source (n + 1) = afterRuns source 1 := by
    intro e he n
    induction n with
    | zero => rfl
    | succ n ih => rw [afterRuns, ih, Pass.final, he]
  have hfinal : (source.bindNames.final {}).BoundIn (afterRuns source 1).notes := by
    rw [afterRuns, notes_final_apply]
    exact source.final_bindNames_boundIn
  rcases source.bindNames_again with ⟨e, hfails⟩ | hagain
  · have hfirst : apply source {} = .error e {} := apply_of_bindNames hfails
    have hafter : afterRuns source 1 = {} := by rw [afterRuns, Pass.final, afterRuns, hfirst]
    have hsecond : apply source (afterRuns source 1) = .error e (afterRuns source 1) := by
      rw [hafter]
      exact hfirst
    refine ⟨e, fun n => by rw [hrepeat e hsecond]; exact hsecond, ?_, ?_⟩
    · intro first s hrun _
      cases hfirst.symm.trans hrun
      rfl
    · intro hfilled
      exact absurd rfl (hfilled e {} hfirst)
  · obtain ⟨d, hd⟩ := hagain _ hfinal
    have hsecond := apply_of_bindNames hd
    refine ⟨.defect d, fun n => by rw [hrepeat _ hsecond]; exact hsecond, ?_, fun _ => ⟨d, rfl⟩⟩
    intro first s hrun hnotes
    have hs : s = {} := by
      rw [eq_of_apply_error hrun, hnotes]
    have hafter : afterRuns source 1 = {} := by
      rw [afterRuns, Pass.final, afterRuns, hrun, hs]
    rw [hafter, hrun] at hsecond
    cases hsecond
    rfl

end Session

end SimCompiler
