import SimCompiler.Proofs.DirectTyping

/-!
# The invariant of the type-checking walk

The checker meets a node after its children and reads their types from slots. Along the walk every
slot that is filled holds the type that `TypeScope.typeOf` computes, and the slots of all nodes that
have been left are filled. `Checks` says that a walk keeps this and does what a function without
slots says; the rules below put such walks together as outlines are put together.
-/
namespace SimCompiler

/-- Operators and calls have a slot for their type. -/
def Expr.hasSlot : Expr → Bool
  | .unary .. | .binary .. | .call .. => true
  | _ => false

namespace Annotations

/-- `b` is `a` with types added. -/
structure Extends (a b : Annotations) : Prop where
  rest : b = { a with types := b.types }
  types : ∀ path type, a.types.get? path = some type → b.types.get? path = some type

theorem Extends.refl (a : Annotations) : a.Extends a := ⟨rfl, fun _ _ h => h⟩

theorem Extends.trans {a b c : Annotations} (h : a.Extends b) (h' : b.Extends c) :
    a.Extends c := by
  refine ⟨?_, fun path type ht => h'.types path type (h.types path type ht)⟩
  rw [h'.rest, h.rest]

end Annotations

/-- What a walk takes for granted: the context of the checker, the annotations that bind the
references, and what typing says about the expression at a path. -/
structure Setting where
  cx : TypeContext
  base : Annotations
  typing : Path → Result (Option String) → Prop

namespace Setting

variable (S : Setting)

/-- The slots filled so far hold what they should. -/
structure Sound (notes : Annotations) : Prop where
  refFrames : notes.refFrames = S.base.refFrames
  types : ∀ path type, notes.types.get? path = some type → S.typing path (.ok (some type))

/-- Inside `nodes`, references resolve in the scope of `c`, and `c` types the expressions. -/
structure Describes (c : TypeScope) (nodes : List (Path × Node)) : Prop where
  lattice : c.lattice = S.cx.lattice
  refs : ∀ path r, (path, .ref r) ∈ nodes → S.base.resolve S.cx.scopes path r = c.resolve r
  types : ∀ path e, (path, .expr e) ∈ nodes → ∀ r, S.typing path r ↔ c.typeOf e = r

/-- The expressions among `nodes` are typed, and the slots that they have are filled. -/
structure Filled (notes : Annotations) (nodes : List (Path × Node)) : Prop where
  typed : ∀ path e, (path, .expr e) ∈ nodes → ∃ type, S.typing path (.ok type)
  slots : ∀ path e, (path, .expr e) ∈ nodes → e.hasSlot = true →
    ∃ type, notes.types.get? path = some type

/-- How a walk over `nodes` that started with `notes` inside `funcs` ends. -/
structure Kept (funcs : List Func) (nodes : List (Path × Node)) (notes : Annotations)
    (w : Work (List Func)) : Prop where
  own : w.own = funcs
  grown : notes.Extends w.notes
  sound : S.Sound w.notes
  filled : S.Filled w.notes nodes

/-- The walk over `o` inside `funcs` does what `r` says. -/
def Checks (funcs : List Func) (o : Outline) (r : Result α) : Prop :=
  ∀ notes, S.Sound notes →
    (o.walk S.cx.visitor).Follows ⟨notes, funcs⟩ r fun _ => S.Kept funcs o.nodes notes

def ChecksAll (funcs : List Func) (os : List Outline) (r : Result α) : Prop :=
  ∀ notes, S.Sound notes →
    (forM os (Outline.walk S.cx.visitor)).Follows ⟨notes, funcs⟩ r fun _ =>
      S.Kept funcs (Outline.nodesAll os) notes

variable {S} {funcs : List Func} {c : TypeScope}

theorem Filled.sub {notes : Annotations} {xs ys : List (Path × Node)} (h : S.Filled notes ys)
    (hsub : ∀ x ∈ xs, x ∈ ys) : S.Filled notes xs :=
  ⟨fun p e he => h.typed p e (hsub _ he), fun p e he => h.slots p e (hsub _ he)⟩

theorem filled_append {notes : Annotations} {xs ys : List (Path × Node)} :
    S.Filled notes (xs ++ ys) ↔ S.Filled notes xs ∧ S.Filled notes ys := by
  constructor
  · exact fun h => ⟨h.sub fun _ => List.mem_append_left ys,
      h.sub fun _ => List.mem_append_right xs⟩
  · rintro ⟨⟨htyped, hslots⟩, ⟨htyped', hslots'⟩⟩
    refine ⟨fun p e h => ?_, fun p e h => ?_⟩
    · exact (List.mem_append.mp h).elim (htyped p e) (htyped' p e)
    · exact (List.mem_append.mp h).elim (hslots p e) (hslots' p e)

theorem Filled.mono {a b : Annotations} {nodes : List (Path × Node)} (h : S.Filled a nodes)
    (hab : a.Extends b) : S.Filled b nodes := by
  refine ⟨h.typed, fun path e hmem hslot => ?_⟩
  obtain ⟨type, ht⟩ := h.slots path e hmem hslot
  exact ⟨type, hab.types path type ht⟩

theorem Describes.mono {xs ys : List (Path × Node)} (h : S.Describes c ys)
    (hsub : ∀ x ∈ xs, x ∈ ys) : S.Describes c xs :=
  ⟨h.lattice, fun p r hr => h.refs p r (hsub _ hr), fun p e he => h.types p e (hsub _ he)⟩

theorem Describes.left {xs ys : List (Path × Node)} (h : S.Describes c (xs ++ ys)) :
    S.Describes c xs :=
  h.mono fun _ hx => List.mem_append_left ys hx

theorem Describes.right {xs ys : List (Path × Node)} (h : S.Describes c (xs ++ ys)) :
    S.Describes c ys :=
  h.mono fun _ hx => List.mem_append_right xs hx

theorem Describes.children {path : Path} {node : Node} {children : List Outline}
    (h : S.Describes c (⟨path, node, children⟩ : Outline).nodes) :
    S.Describes c (Outline.nodesAll children) := by
  rw [Outline.nodes_mk] at h
  exact h.mono fun _ hx => List.mem_cons_of_mem _ hx

theorem checksAll_nil (a : α) : S.ChecksAll funcs [] (.ok a) := by
  intro notes hnotes
  exact Pass.follows_pure ⟨rfl, .refl notes, hnotes, by simp, by simp⟩

theorem Checks.cons {o : Outline} {os : List Outline} {r : Result α} {f : α → Result β}
    (ho : S.Checks funcs o r) (hos : ∀ a, r = .ok a → S.ChecksAll funcs os (f a)) :
    S.ChecksAll funcs (o :: os) (r >>= f) := by
  intro notes hnotes
  rw [List.forM_cons]
  refine (ho notes hnotes).bind ?_
  rintro a ⟨notes', _⟩ ha ⟨rfl, hext, hsound, hfilled⟩
  refine (hos a ha notes' hsound).mono ?_
  rintro b w - ⟨hown, hext', hsound', hfilled'⟩
  refine ⟨hown, hext.trans hext', hsound', ?_⟩
  rw [Outline.nodesAll_cons, filled_append]
  exact ⟨hfilled.mono hext', hfilled'⟩

theorem ChecksAll.append {os os' : List Outline} {r : Result α} {f : α → Result β}
    (hos : S.ChecksAll funcs os r) (hos' : ∀ a, r = .ok a → S.ChecksAll funcs os' (f a)) :
    S.ChecksAll funcs (os ++ os') (r >>= f) := by
  intro notes hnotes
  rw [List.forM_append]
  refine (hos notes hnotes).bind ?_
  rintro a ⟨notes', _⟩ ha ⟨rfl, hext, hsound, hfilled⟩
  refine (hos' a ha notes' hsound).mono ?_
  rintro b w - ⟨hown, hext', hsound', hfilled'⟩
  refine ⟨hown, hext.trans hext', hsound', ?_⟩
  rw [Outline.nodesAll_append, filled_append]
  exact ⟨hfilled.mono hext', hfilled'⟩

theorem Checks.singleton {o : Outline} {r : Result α} (ho : S.Checks funcs o r) :
    S.ChecksAll funcs [o] r := by
  have hone : S.ChecksAll funcs [o] (r >>= pure) := ho.cons fun a _ => checksAll_nil a
  rwa [bind_pure] at hone

/-- The answer may be put differently. -/
theorem Checks.map {o : Outline} {r : Result α} (h : S.Checks funcs o r) (f : α → β) :
    S.Checks funcs o (r >>= fun a => .ok (f a)) := by
  intro notes hnotes
  have hfollows := h notes hnotes
  cases r <;> exact hfollows

theorem ChecksAll.map {os : List Outline} {r : Result α} (h : S.ChecksAll funcs os r)
    (f : α → β) : S.ChecksAll funcs os (r >>= fun a => .ok (f a)) := by
  intro notes hnotes
  have hfollows := h notes hnotes
  cases r <;> exact hfollows

/-- A type that fits the slot can be written, and is then there. -/
theorem Sound.writeType {notes : Annotations} (h : S.Sound notes) {path : Path} {type : String}
    (htyping : ∀ t, S.typing path (.ok (some t)) ↔ t = type) :
    ∃ notes', notes.writeType path type = .ok notes' ∧ notes.Extends notes' ∧ S.Sound notes' ∧
      notes'.types.get? path = some type := by
  rw [Annotations.writeType]
  cases hget : notes.types.get? path with
  | some t =>
    obtain rfl : t = type := (htyping t).mp (h.types path t hget)
    exact ⟨notes, by simp, .refl notes, h, hget⟩
  | none =>
    refine ⟨_, rfl, ⟨rfl, ?_⟩, ⟨h.refFrames, ?_⟩, by simp [SlotTable.get?_insert]⟩
    · intro p t ht
      have hne : p ≠ path := by
        rintro rfl
        simp [hget] at ht
      rw [SlotTable.get?_insert, if_neg hne, ht]
    · intro p t ht
      rw [SlotTable.get?_insert] at ht
      by_cases hp : p = path
      · rw [if_pos hp, Option.some.injEq] at ht
        subst hp
        exact (htyping t).mpr ht.symm
      · rw [if_neg hp] at ht
        exact h.types p t ht

theorem leave_run (cx : TypeContext) {node : Node} (hfunc : ∀ f, node ≠ .func f) (path : Path)
    (notes : Annotations) (funcs : List Func) :
    cx.visitor.leave path node ⟨notes, funcs⟩ =
      match cx.checkNode notes path funcs node with
      | .error e => .error e ⟨notes, funcs⟩
      | .ok none => .ok () ⟨notes, funcs⟩
      | .ok (some type) =>
        match notes.writeType path type with
        | .error e => .error e ⟨notes, funcs⟩
        | .ok notes' => .ok () ⟨notes', funcs⟩ := by
  cases node with
  | func f => exact absurd rfl (hfunc f)
  | _ =>
    simp only [TypeContext.visitor, Pass.run_bind, Pass.run_own, Pass.run_consult]
    cases cx.checkNode notes path funcs _ with
    | error e => rfl
    | ok type? =>
      cases type? with
      | none => rfl
      | some type =>
        simp only [Pass.run_annotate]
        cases notes.writeType path type <;> rfl

/-- A node whose children have been checked by `r` and that is then checked by `rule`. Of what the
rule answers, `record` goes into the slot of the node. -/
theorem checks_mk {path : Path} {node : Node} {children : List Outline} {r : Result α}
    {rule : α → Result β} (record : β → Option String) (hliteral : node.isLiteral = false)
    (hfunc : ∀ f, node ≠ .func f) (hchildren : S.ChecksAll funcs children r)
    (hrule : ∀ a notes, r = .ok a → S.Sound notes → S.Filled notes (Outline.nodesAll children) →
      S.cx.checkNode notes path funcs node = (rule a >>= fun b => .ok (record b)))
    (htyped : ∀ e, node = .expr e → ∀ a b, r = .ok a → rule a = .ok b →
      ∃ type, S.typing path (.ok type))
    (hslot : ∀ e, node = .expr e → e.hasSlot = true → ∀ a b, rule a = .ok b →
      ∃ type, record b = some type)
    (hrecord : ∀ a b type, r = .ok a → rule a = .ok b → record b = some type →
      ∀ t, S.typing path (.ok (some t)) ↔ t = type) :
    S.Checks funcs ⟨path, node, children⟩
      (r >>= fun a => (rule a).orPosition node.position) := by
  intro notes hnotes
  have henter : S.cx.visitor.enter path node = pure () := by
    cases node <;> first | rfl | exact absurd rfl (hfunc _)
  have hvisit : S.cx.visitor.visit (path, node) = pure () := by
    rw [Visitor.visit, Visitor.handle, hliteral, henter]
    rfl
  have hleave : S.cx.visitor.handle ⟨.leave, path, node⟩ = S.cx.visitor.leave path node := by
    simp [Visitor.handle, hliteral]
  rw [Outline.walk_mk, hvisit, hleave, pure_bind]
  refine (hchildren notes hnotes).bind ?_
  rintro a ⟨notes', funcs'⟩ ha ⟨hown, hext, hsound, hfilled⟩
  obtain rfl : funcs' = funcs := hown
  refine Pass.Follows.orPosition ?_ node.position
  have hrun := leave_run S.cx hfunc path notes' funcs'
  rw [hrule a notes' ha hsound hfilled] at hrun
  cases hb : rule a with
  | error e =>
    rw [hb] at hrun
    exact ⟨_, hrun⟩
  | ok b =>
    -- The slots of the children stay filled; that of the node itself is filled if it has one.
    have hdone : ∀ notes'' : Annotations, notes'.Extends notes'' →
        (∀ type, record b = some type → notes''.types.get? path = some type) →
        S.Filled notes'' (⟨path, node, children⟩ : Outline).nodes := by
      intro notes'' hgrown hget
      rw [Outline.nodes_mk, ← List.singleton_append, filled_append]
      refine ⟨⟨?_, ?_⟩, hfilled.mono hgrown⟩
      · intro p e hmem
        cases List.mem_singleton.mp hmem
        exact htyped e rfl a b ha hb
      · intro p e hmem hslot'
        cases List.mem_singleton.mp hmem
        obtain ⟨type, htype⟩ := hslot e rfl hslot' a b hb
        exact ⟨type, hget type htype⟩
    simp only [hb, bind, Except.bind] at hrun
    cases htype : record b with
    | none =>
      rw [htype] at hrun
      exact ⟨_, hrun, rfl, hext, hsound, hdone notes' (.refl notes') (by simp [htype])⟩
    | some type =>
      obtain ⟨notes'', hwrite, hgrown, hsound', hget⟩ :=
        hsound.writeType (hrecord a b type ha hb htype)
      simp only [htype, hwrite] at hrun
      refine ⟨_, hrun, rfl, hext.trans hgrown, hsound', hdone notes'' hgrown ?_⟩
      intro t ht
      obtain rfl : type = t := Option.some.inj (htype.symm.trans ht)
      exact hget

/-- A node that is not an expression. -/
theorem checks_plain {path : Path} {node : Node} {children : List Outline} {r : Result α}
    {rule : α → Result β} (hexpr : ∀ e, node ≠ .expr e) (hfunc : ∀ f, node ≠ .func f)
    (hchildren : S.ChecksAll funcs children r)
    (hrule : ∀ a notes, r = .ok a → S.Sound notes → S.Filled notes (Outline.nodesAll children) →
      S.cx.checkNode notes path funcs node = (rule a >>= fun _ => .ok none)) :
    S.Checks funcs ⟨path, node, children⟩
      (r >>= fun a => (rule a).orPosition node.position) := by
  have hliteral : node.isLiteral = false := by
    cases node <;> first | rfl | exact absurd rfl (hexpr _)
  refine checks_mk (fun _ => none) hliteral hfunc hchildren hrule ?_ ?_ (by simp)
  · exact fun e he => absurd he (hexpr e)
  · exact fun e he => absurd he (hexpr e)

/-- A node that is only a place for its children. -/
theorem checks_silent {path : Path} {node : Node} {children : List Outline} {r : Result α}
    (hexpr : ∀ e, node ≠ .expr e) (hfunc : ∀ f, node ≠ .func f)
    (hnode : ∀ notes, S.cx.checkNode notes path funcs node = .ok none)
    (hchildren : S.ChecksAll funcs children r) : S.Checks funcs ⟨path, node, children⟩ r := by
  have hplain : S.Checks funcs ⟨path, node, children⟩
      (r >>= fun a => Result.orPosition (.ok a) node.position) :=
    checks_plain hexpr hfunc hchildren fun _ notes _ _ _ => hnode notes
  have hsame : (r >>= fun a => Result.orPosition (.ok a) node.position) = r := bind_pure r
  rwa [hsame] at hplain

/-- An expression. What the rule answers is its type, which goes into its slot if it has one. -/
theorem checks_of_typeOf {path : Path} {e : Expr} {children : List Outline} {r : Result α}
    {rule : α → Result (Option String)} (hliteral : (Node.expr e).isLiteral = false)
    (hself : ∀ r, S.typing path r ↔ c.typeOf e = r)
    (htype : c.typeOf e = (r >>= fun a => (rule a).orPosition e.position))
    (hsome : e.hasSlot = true → ∀ a, rule a ≠ .ok none) (hchildren : S.ChecksAll funcs children r)
    (hrule : ∀ a notes, r = .ok a → S.Sound notes → S.Filled notes (Outline.nodesAll children) →
      S.cx.checkNode notes path funcs (.expr e) =
        (rule a >>= fun type => .ok (if e.hasSlot then type else none))) :
    S.Checks funcs ⟨path, .expr e, children⟩ (c.typeOf e) := by
  have hcomputed : ∀ a type, r = .ok a → rule a = .ok type → c.typeOf e = .ok type := by
    intro a type ha hb
    rw [htype, ha, Result.ok_bind, Result.orPosition_eq_ok_iff, hb]
  rw [htype]
  refine checks_mk _ hliteral (by simp) hchildren hrule ?_ ?_ ?_
  · rintro _ - a type ha hb
    exact ⟨type, (hself _).mpr (hcomputed a type ha hb)⟩
  · intro e' he' hslot a type hb
    cases he'
    rw [if_pos hslot]
    exact Option.ne_none_iff_exists'.mp fun hnone => hsome hslot a (hnone ▸ hb)
  · intro a b type ha hb hrecord t
    have hslot : b = some type := by
      by_cases h : e.hasSlot = true
      · rwa [if_pos h] at hrecord
      · rw [if_neg h] at hrecord
        exact absurd hrecord (by simp)
    rw [hself, hcomputed a b ha hb, hslot, Except.ok.injEq, Option.some.injEq, eq_comm]

end Setting

end SimCompiler
