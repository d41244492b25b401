import SimCompiler.Proofs.Repetition

/-!
# Checking types again

The checker adds types to the annotations and takes none back, and a step that fails adds nothing.
What a step has read is still there when the checker comes back to it, and says the same. So it
finds the type that it wrote the first time, and where the first run stopped the second one stops,
for the same reason.
-/
namespace SimCompiler

namespace Annotations

/-- Where `f` has an answer, it has the same answer once more types are known. -/
def Stable (f : Annotations → Result α) : Prop :=
  ∀ a b, a.Extends b → ∀ x, f a = .ok x → f b = .ok x

theorem stable_const (r : Result α) : Stable fun _ => r := fun _ _ _ _ h => h

theorem Stable.bind {f : Annotations → Result α} {g : α → Annotations → Result β}
    (hf : Stable f) (hg : ∀ x, Stable (g x)) : Stable fun a => f a >>= fun x => g x a := by
  intro a b hab y hy
  obtain ⟨x, hx, hy⟩ := Result.bind_eq_ok_iff.mp hy
  exact Result.bind_eq_ok_iff.mpr ⟨x, hf a b hab x hx, hg x a b hab y hy⟩

theorem stable_ite {p : Prop} [Decidable p] {f g : Annotations → Result α} (hf : Stable f)
    (hg : Stable g) : Stable fun a => if p then f a else g a := by
  by_cases hp : p
  · simpa only [if_pos hp] using hf
  · simpa only [if_neg hp] using hg

theorem stable_resolve (scopes : Scopes) (path : Path) (r : Ref) :
    Stable fun a => a.resolve scopes path r := by
  intro a b hab d hd
  rw [hab.rest]
  exact hd

theorem stable_exprType (scopes : Scopes) (path : Path) (e : Expr) :
    Stable fun a => a.exprType scopes path e := by
  have hslot : Stable fun a => a.readType path := by
    intro a b hab t ht
    simp only [readType] at ht ⊢
    cases hget : a.types.get? path with
    | none =>
      rw [hget] at ht
      cases ht
    | some t' =>
      rw [hget] at ht
      cases ht
      rw [hab.types path t hget]
  cases e with
  | ref r => exact (stable_resolve scopes path r).bind fun d => stable_const _
  | unary | binary | call => exact hslot
  | _ => exact stable_const _

/-- A type that was written can be written again, and that changes nothing. -/
theorem writeType_again {a b : Annotations} {path : Path} {type : String}
    (h : a.writeType path type = .ok b) :
    a.Extends b ∧ ∀ c, b.Extends c → c.writeType path type = .ok c := by
  have hagain : ∀ {b c : Annotations}, b.types.get? path = some type → b.Extends c →
      c.writeType path type = .ok c := by
    intro b c hget hbc
    rw [writeType, hbc.types path type hget]
    exact if_pos (beq_self_eq_true type)
  rw [writeType] at h
  cases hget : a.types.get? path with
  | some t =>
    simp only [hget] at h
    split at h
    · next heq =>
      cases h
      rw [eq_of_beq heq] at hget
      exact ⟨.refl a, fun c => hagain hget⟩
    · cases h
  | none =>
    simp only [hget] at h
    cases h
    refine ⟨⟨rfl, fun other t ht => ?_⟩, fun c => hagain ?_⟩
    · have hne : other ≠ path := by
        rintro rfl
        cases hget.symm.trans ht
      rw [SlotTable.get?_insert, if_neg hne, ht]
    · rw [SlotTable.get?_insert, if_pos rfl]

end Annotations

open Annotations

/-! ### What the checker reads -/

namespace TypeContext

variable (cx : TypeContext) (path : Path)

theorem stable_targetType (target : Ref) : Stable fun a => cx.targetType a path target :=
  (stable_resolve _ _ _).bind fun _ => stable_const _

theorem stable_checkArgs (d : Declaration) (i : Nat) (params : List String) (args : List Expr) :
    Stable fun a => cx.checkArgs a path d i params args := by
  induction params generalizing i args with
  | nil => exact stable_const _
  | cons param params ih =>
    cases args with
    | nil => exact stable_const _
    | cons arg args =>
      refine Stable.bind ?_ fun _ => ih (i + 1) args
      exact (stable_exprType _ _ _).bind fun _ => stable_const _

theorem stable_callType (callee : Ref) (args : List Expr) :
    Stable fun a => cx.callType a path callee args := by
  refine (stable_resolve _ _ _).bind fun d => ?_
  cases d.callable? with
  | none => exact stable_const _
  | some signature =>
    obtain ⟨params, result⟩ := signature
    refine stable_ite (stable_const _) ?_
    exact (cx.stable_checkArgs path d 0 params args).bind fun _ => stable_const _

theorem stable_checkIndices (i : Nat) (es : List Expr) :
    Stable fun a => cx.checkIndices a path i es := by
  induction es generalizing i with
  | nil => exact stable_const _
  | cons e es ih =>
    refine Stable.bind ?_ fun _ => ih (i + 1)
    exact (stable_exprType _ _ _).bind fun _ => stable_const _

theorem stable_checkPrint (i : Nat) (es : List Expr) :
    Stable fun a => cx.checkPrint a path i es := by
  induction es generalizing i with
  | nil => exact stable_const _
  | cons e es ih =>
    refine Stable.bind ?_ fun _ => ih (i + 1)
    cases e with
    | ref r => exact (stable_resolve _ _ _).bind fun _ => stable_const _
    | _ => exact stable_const _

theorem stable_checkReturn (func : Func) (value : Option Expr) :
    Stable fun a => cx.checkReturn a path func value := by
  unfold checkReturn
  cases func.returnType with
  | none => cases value <;> exact stable_const _
  | some type =>
    cases value with
    | none => exact stable_const _
    | some e => exact (stable_exprType _ _ _).bind fun _ => stable_const _

/-- What the check of a node answers it answers again. -/
theorem stable_checkNode (funcs : List Func) (node : Node) :
    Stable fun a => cx.checkNode a path funcs node := by
  have hthen : ∀ {f : Annotations → Result Unit}, Stable f →
      Stable fun a => f a >>= fun _ => (pure none : Result (Option String)) :=
    fun hf => hf.bind fun _ => stable_const _
  cases node with
  | expr e =>
    cases e with
    | ref r => exact (stable_resolve _ _ _).bind fun _ => stable_const _
    | unary p op e => exact (stable_exprType _ _ _).bind fun _ => stable_const _
    | binary p l op r =>
      refine (stable_exprType _ _ _).bind fun _ => ?_
      exact (stable_exprType _ _ _).bind fun _ => stable_const _
    | call p callee args => exact (cx.stable_callType path callee args).bind fun _ => stable_const _
    | json p root indices target =>
      refine hthen ((stable_resolve _ _ _).bind fun d => (stable_const _).bind fun type => ?_)
      exact stable_ite (stable_const _) (cx.stable_checkIndices path 0 indices)
    | _ => exact stable_const _
  | stmt st =>
    cases st with
    | assign p target value declared =>
      refine hthen ((cx.stable_targetType _ target).bind fun type => ?_)
      exact stable_ite (stable_const _) ((stable_exprType _ _ _).bind fun _ => stable_const _)
    | update p target op value =>
      refine hthen ((cx.stable_targetType _ target).bind fun type => ?_)
      exact stable_ite (stable_const _) ((stable_exprType _ _ _).bind fun _ => stable_const _)
    | cond p condition block elifs otherwise =>
      exact hthen ((stable_exprType _ _ _).bind fun _ => stable_const _)
    | print p args => exact hthen (cx.stable_checkPrint path 0 args)
    | ret p value =>
      cases funcs with
      | nil => exact stable_const _
      | cons func funcs => exact hthen (cx.stable_checkReturn path func value)
    | pass p => exact stable_const _
  | elif branch => exact hthen ((stable_exprType _ _ _).bind fun _ => stable_const _)
  | _ => exact stable_const _

end TypeContext

/-! ### Repeating a walk -/

namespace Pass

/-- If `x` succeeds, it can be repeated with the types it has added or more, and then it adds
nothing. If it fails, it fails again with the types it has added. -/
structure Repeatable (x : Pass (Work ρ) α) : Prop where
  ok : ∀ {a b : Annotations} {own own' : ρ} {r : α}, x ⟨a, own⟩ = .ok r ⟨b, own'⟩ →
    a.Extends b ∧ ∀ c, b.Extends c → x ⟨c, own⟩ = .ok r ⟨c, own'⟩
  error : ∀ {a b : Annotations} {own own' : ρ} {e : CompileError},
    x ⟨a, own⟩ = .error e ⟨b, own'⟩ → a.Extends b ∧ x ⟨b, own⟩ = .error e ⟨b, own'⟩

/-- A step that does nothing with annotations. -/
theorem repeatable_of_run {x : Pass (Work ρ) α} (answer : ρ → α) (next : ρ → ρ)
    (h : ∀ a own, x ⟨a, own⟩ = .ok (answer own) ⟨a, next own⟩) : x.Repeatable := by
  constructor
  · intro a b own own' r hrun
    cases (h a own).symm.trans hrun
    exact ⟨.refl a, fun c _ => h c own⟩
  · intro a b own own' e hrun
    cases (h a own).symm.trans hrun

theorem repeatable_pure (r : α) : (pure r : Pass (Work ρ) α).Repeatable :=
  repeatable_of_run (fun _ => r) id fun _ _ => rfl

theorem repeatable_own : (own : Pass (Work ρ) ρ).Repeatable :=
  repeatable_of_run id id fun _ _ => rfl

theorem repeatable_modifyOwn (f : ρ → ρ) : (modifyOwn f).Repeatable :=
  repeatable_of_run (fun _ => ()) f fun _ _ => rfl

theorem repeatable_consult {f : Annotations → Result α} (hf : Stable f) :
    (consult f : Pass (Work ρ) α).Repeatable := by
  constructor
  · intro a b own own' r h
    rw [run_consult] at h
    cases hread : f a with
    | error e =>
      rw [hread] at h
      cases h
    | ok r' =>
      rw [hread] at h
      cases h
      exact ⟨.refl a, fun c hac => by rw [run_consult, hf a c hac r hread]⟩
  · intro a b own own' e h
    rw [run_consult] at h
    cases hread : f a with
    | ok r =>
      rw [hread] at h
      cases h
    | error e' =>
      rw [hread] at h
      cases h
      exact ⟨.refl a, by rw [run_consult, hread]⟩

theorem repeatable_annotate {f : Annotations → Result Annotations}
    (hf : ∀ a b, f a = .ok b → a.Extends b ∧ ∀ c, b.Extends c → f c = .ok c) :
    (annotate f : Pass (Work ρ) Unit).Repeatable := by
  constructor
  · intro a b own own' r h
    rw [run_annotate] at h
    cases hwrite : f a with
    | error e =>
      rw [hwrite] at h
      cases h
    | ok notes =>
      rw [hwrite] at h
      cases h
      obtain ⟨hab, hagain⟩ := hf a b hwrite
      exact ⟨hab, fun c hbc => by rw [run_annotate, hagain c hbc]⟩
  · intro a b own own' e h
    rw [run_annotate] at h
    cases hwrite : f a with
    | ok notes =>
      rw [hwrite] at h
      cases h
    | error e' =>
      rw [hwrite] at h
      cases h
      exact ⟨.refl a, by rw [run_annotate, hwrite]⟩

theorem Repeatable.bind {x : Pass (Work ρ) α} {f : α → Pass (Work ρ) β} (hx : x.Repeatable)
    (hf : ∀ r, (f r).Repeatable) : (x >>= f).Repeatable := by
  constructor
  · intro a c own own'' r' h
    obtain ⟨r, ⟨b, own'⟩, hxrun, hfrun⟩ := bind_eq_ok_iff.mp h
    obtain ⟨hab, hxagain⟩ := hx.ok hxrun
    obtain ⟨hbc, hfagain⟩ := (hf r).ok hfrun
    refine ⟨hab.trans hbc, fun d hcd => bind_eq_ok_iff.mpr ⟨r, _, ?_, hfagain d hcd⟩⟩
    exact hxagain d (hbc.trans hcd)
  · intro a c own own'' e h
    rw [run_bind] at h
    cases hxrun : x ⟨a, own⟩ with
    | error e' w =>
      rw [hxrun] at h
      cases h
      obtain ⟨hac, hxagain⟩ := hx.error hxrun
      exact ⟨hac, by rw [run_bind, hxagain]⟩
    | ok r w =>
      obtain ⟨b, own'⟩ := w
      rw [hxrun] at h
      obtain ⟨hab, hxagain⟩ := hx.ok hxrun
      obtain ⟨hbc, hfagain⟩ := (hf r).error h
      refine ⟨hab.trans hbc, ?_⟩
      rw [run_bind, hxagain c hbc]
      exact hfagain

theorem Repeatable.orPosition {x : Pass (Work ρ) α} (hx : x.Repeatable) (p : Position) :
    (x.orPosition p).Repeatable := by
  constructor
  · intro a b own own' r h
    rw [run_orPosition] at h
    cases hrun : x ⟨a, own⟩ with
    | error e w =>
      rw [hrun] at h
      cases h
    | ok r' w =>
      rw [hrun] at h
      cases h
      obtain ⟨hab, hagain⟩ := hx.ok hrun
      exact ⟨hab, fun c hbc => by rw [run_orPosition, hagain c hbc]⟩
  · intro a b own own' e h
    rw [run_orPosition] at h
    cases hrun : x ⟨a, own⟩ with
    | ok r w =>
      rw [hrun] at h
      cases h
    | error e' w =>
      rw [hrun] at h
      cases h
      obtain ⟨hab, hagain⟩ := hx.error hrun
      exact ⟨hab, by rw [run_orPosition, hagain]⟩

theorem repeatable_forM {f : α → Pass (Work ρ) Unit} (h : ∀ x, (f x).Repeatable) (xs : List α) :
    (forM xs f).Repeatable := by
  induction xs with
  | nil => exact repeatable_pure ()
  | cons x xs ih =>
    rw [List.forM_cons]
    exact (h x).bind fun _ => ih

end Pass

namespace TypeContext

variable (cx : TypeContext)

/-- Leaving a node, the checker reads what it can read again and records what it can record
again. -/
theorem repeatable_leave (path : Path) (node : Node) : (cx.visitor.leave path node).Repeatable := by
  cases node with
  | func f => exact Pass.repeatable_modifyOwn _
  | _ =>
    refine Pass.repeatable_own.bind fun funcs => ?_
    refine (Pass.repeatable_consult (cx.stable_checkNode path funcs _)).bind fun type? => ?_
    cases type? with
    | none => exact Pass.repeatable_pure ()
    | some type => exact Pass.repeatable_annotate fun a b => writeType_again

theorem repeatable_walk (o : Outline) : (o.walk cx.visitor).Repeatable := by
  rw [Outline.walk_eq_forM_events]
  refine Pass.repeatable_forM (fun event => ?_) _
  refine Pass.Repeatable.orPosition ?_ _
  obtain ⟨phase, path, node⟩ := event
  cases phase with
  | leave => exact cx.repeatable_leave path node
  | enter =>
    cases node with
    | func f => exact Pass.repeatable_modifyOwn _
    | _ => exact Pass.repeatable_pure ()

end TypeContext

namespace Source

theorem run_checkTypes (s : Source) (notes : Annotations) :
    s.checkTypes notes = match notes.readScopes >>= TypeContext.ofScopes with
      | .error e => .error e notes
      | .ok cx => Pass.walking cx.visitor [] s notes := by
  simp only [checkTypes, Pass.run_bind, Pass.run_get, Pass.run_ofResult]
  cases hscopes : notes.readScopes with
  | error e => rfl
  | ok scopes =>
    simp only [Result.ok_bind]
    cases TypeContext.ofScopes scopes <;> rfl

/-- With more types the checker starts in the same context. -/
theorem run_checkTypes_of_extends (s : Source) {notes notes' : Annotations} {cx : TypeContext}
    (hcx : notes.readScopes >>= TypeContext.ofScopes = .ok cx) (h : notes.Extends notes') :
    s.checkTypes notes' = Pass.walking cx.visitor [] s notes' := by
  have hscopes : notes'.readScopes = notes.readScopes := by
    rw [h.rest]
    rfl
  rw [run_checkTypes, hscopes, hcx]

/-- A second run of the type checker, on the annotations that the first run has left, does what the
first run did: it succeeds, or it fails with the same error at the same position, and it ends with
the annotations it has started from. This holds whatever was annotated before the first run. -/
theorem checkTypes_again (source : Source) (notes : Annotations) :
    source.checkTypes (source.checkTypes.final notes) = source.checkTypes notes := by
  cases hcx : notes.readScopes >>= TypeContext.ofScopes with
  | error e =>
    have hrun : source.checkTypes notes = .error e notes := by rw [run_checkTypes, hcx]
    rw [Pass.final, hrun]
    exact hrun
  | ok cx =>
    have hrun : source.checkTypes notes = Pass.walking cx.visitor [] source notes :=
      source.run_checkTypes_of_extends hcx (.refl notes)
    rw [Pass.run_walking] at hrun
    cases hwalk : source.outline.walk cx.visitor ⟨notes, []⟩ with
    | ok u w =>
      obtain ⟨hgrown, hagain⟩ := (cx.repeatable_walk _).ok hwalk
      rw [hwalk] at hrun
      rw [Pass.final, hrun]
      refine (source.run_checkTypes_of_extends hcx hgrown).trans ?_
      rw [Pass.run_walking, hagain _ (.refl _)]
    | error e w =>
      obtain ⟨hgrown, hagain⟩ := (cx.repeatable_walk _).error hwalk
      rw [hwalk] at hrun
      rw [Pass.final, hrun]
      refine (source.run_checkTypes_of_extends hcx hgrown).trans ?_
      rw [Pass.run_walking, hagain]

end Source

end SimCompiler
