import SimCompiler.Analysis.Work

/-!
# Running passes

How a pass changes its state, step by step, what it means that a pass does what a function without
state says, and what it means that a condition decides between success and a defect.
-/
namespace SimCompiler

namespace Result

@[simp] theorem pure_eq_ok (a : α) : (pure a : Result α) = .ok a := rfl

@[simp] theorem ok_bind (a : α) (f : α → Result β) : (Except.ok a >>= f) = f a := rfl

@[simp] theorem error_bind (e : CompileError) (f : α → Result β) :
    (Except.error e >>= f) = .error e := rfl

theorem bind_eq_ok_iff {r : Except ε α} {f : α → Except ε β} {b : β} :
    (r >>= f) = .ok b ↔ ∃ a, r = .ok a ∧ f a = .ok b := by
  cases r <;> simp [bind, Except.bind]

theorem seq_eq_ok_iff {r : Result Unit} {r' : Result α} {a : α} :
    (r >>= fun _ => r') = .ok a ↔ r = .ok () ∧ r' = .ok a := by
  cases r <;> simp

theorem mem_of_mapM {f : α → Result β} {xs : List α} {ys : List β}
    (h : xs.mapM f = .ok ys) {b : β} : b ∈ ys ↔ ∃ x ∈ xs, f x = .ok b := by
  induction xs generalizing ys with
  | nil =>
    cases h
    simp
  | cons x xs ih =>
    rw [List.mapM_cons] at h
    obtain ⟨first, hfirst, h⟩ := bind_eq_ok_iff.mp h
    obtain ⟨rest, hrest, h⟩ := bind_eq_ok_iff.mp h
    cases h
    simp [ih hrest, hfirst, eq_comm]

theorem forM_eq_ok_iff {xs : List α} {f : α → Result Unit} :
    forM xs f = .ok () ↔ ∀ x ∈ xs, f x = .ok () := by
  induction xs with
  | nil => simp
  | cons x xs ih => rw [List.forM_cons, seq_eq_ok_iff, List.forall_mem_cons, ih]

theorem mapM_ok {f : α → Result β} {xs : List α} (h : ∀ x ∈ xs, ∃ b, f x = .ok b) :
    ∃ bs, xs.mapM f = .ok bs := by
  induction xs with
  | nil => exact ⟨[], rfl⟩
  | cons x xs ih =>
    obtain ⟨b, hb⟩ := h x (by simp)
    obtain ⟨bs, hbs⟩ := ih fun y hy => h y (by simp [hy])
    exact ⟨b :: bs, by simp [List.mapM_cons, hb, hbs]⟩

@[simp] theorem orPosition_eq_ok_iff {r : Result α} {p : Position} {a : α} :
    r.orPosition p = .ok a ↔ r = .ok a := by
  cases r with
  | ok b => exact Iff.rfl
  | error e =>
    change Except.error (e.orPosition p) = Except.ok a ↔ _
    simp

/-- `r` succeeds if `p` holds and ends in a defect if not. -/
structure Settles (p : Prop) (r : Result α) : Prop where
  ok : p → ∃ a, r = .ok a
  defect : ¬ p → ∃ d, r = .error (.defect d)

theorem settles_ok {p : Prop} (h : p) (a : α) : Settles p (.ok a) :=
  ⟨fun _ => ⟨a, rfl⟩, fun hn => absurd h hn⟩

theorem settles_defect {p : Prop} (h : ¬ p) (d : Defect) : Settles p (Result.defect d : Result α) :=
  ⟨fun hp => absurd hp h, fun _ => ⟨d, rfl⟩⟩

theorem Settles.congr {p q : Prop} {r : Result α} (h : Settles p r) (hpq : p ↔ q) :
    Settles q r := by
  rwa [← hpq]

theorem Settles.bind {p q : Prop} {r : Result α} {f : α → Result β} (hr : Settles p r)
    (hf : ∀ a, r = .ok a → Settles q (f a)) : Settles (p ∧ q) (r >>= f) := by
  by_cases hp : p
  · obtain ⟨a, ha⟩ := hr.ok hp
    have hfa := hf a ha
    rw [ha, ok_bind]
    exact hfa.congr ⟨fun hq => ⟨hp, hq⟩, fun h => h.2⟩
  · obtain ⟨d, hd⟩ := hr.defect hp
    rw [hd, error_bind]
    exact settles_defect (fun h => hp h.1) d

theorem Settles.map {p : Prop} {r : Result α} (hr : Settles p r) (f : α → β) :
    Settles p (r >>= fun a => .ok (f a)) :=
  (hr.bind fun a _ => settles_ok trivial (f a)).congr (by rw [and_true])

end Result

namespace Pass

/-- Every code error of `x` has a position. -/
def Positioned (x : Pass σ α) : Prop := ∀ p, x.orPosition p = x

theorem positioned_pure (a : α) : Positioned (pure a : Pass σ α) := fun _ => rfl

theorem positioned_orPosition (x : Pass σ α) (p : Position) : Positioned (x.orPosition p) := by
  intro q
  funext s
  cases h : x s <;> simp [orPosition, h]

theorem orPosition_bind (x : Pass σ α) (f : α → Pass σ β) (p : Position) :
    (x >>= f).orPosition p = x.orPosition p >>= fun a => (f a).orPosition p := by
  funext s
  cases h : x s <;> simp [orPosition, bind, EStateM.bind, h]

theorem Positioned.bind {x : Pass σ α} {f : α → Pass σ β} (hx : Positioned x)
    (hf : ∀ a, Positioned (f a)) : Positioned (x >>= f) := by
  intro p
  have hfp : (fun a => (f a).orPosition p) = f := funext fun a => hf a p
  rw [orPosition_bind, hx p, hfp]

theorem bind_eq_ok_iff {x : Pass σ α} {f : α → Pass σ β} {s s' : σ} {b : β} :
    (x >>= f) s = .ok b s' ↔ ∃ a s₁, x s = .ok a s₁ ∧ f a s₁ = .ok b s' := by
  rw [run_bind]
  cases x s <;> simp [and_assoc]

/-- What `x` answers when it starts in `s`. -/
def answer (x : Pass σ α) (s : σ) : Result α :=
  match x s with
  | .ok a _ => .ok a
  | .error e _ => .error e

theorem answer_eq_ok_iff {x : Pass σ α} {s : σ} {a : α} :
    x.answer s = .ok a ↔ ∃ s', x s = .ok a s' := by
  rw [answer]
  cases x s <;> simp

theorem answer_eq_error_iff {x : Pass σ α} {s : σ} {e : CompileError} :
    x.answer s = .error e ↔ ∃ s', x s = .error e s' := by
  rw [answer]
  cases x s <;> simp

/-- Started in `s`, the pass `x` does what `r` says: it fails with the error of `r`, or it succeeds
as `r` does, and the answer of `r` and the state in which `x` ends satisfy `q`. -/
def Follows (x : Pass σ Unit) (s : σ) (r : Result α) (q : α → σ → Prop) : Prop :=
  match r with
  | .ok a => ∃ s', x s = .ok () s' ∧ q a s'
  | .error e => ∃ s', x s = .error e s'

theorem follows_of_ok {x : Pass σ Unit} {s s' : σ} {r : Result α} {a : α} {q : α → σ → Prop}
    (hr : r = .ok a) (hx : x s = .ok () s') (hq : q a s') : x.Follows s r q := by
  subst hr
  exact ⟨s', hx, hq⟩

theorem follows_pure {s : σ} {a : α} {q : α → σ → Prop} (h : q a s) :
    Follows (pure ()) s (.ok a) q :=
  ⟨s, rfl, h⟩

theorem Follows.mono {x : Pass σ Unit} {s : σ} {r : Result α} {q q' : α → σ → Prop}
    (hx : x.Follows s r q) (h : ∀ a s', r = .ok a → q a s' → q' a s') : x.Follows s r q' := by
  cases r with
  | error e => exact hx
  | ok a =>
    obtain ⟨s', hs', hq⟩ := hx
    exact ⟨s', hs', h a s' rfl hq⟩

theorem follows_bind_of_ok {x y : Pass σ Unit} {s s' : σ} {r : Result α} {q : α → σ → Prop}
    (hx : x s = .ok () s') (hy : y.Follows s' r q) : (x >>= fun _ => y).Follows s r q := by
  have hrun : (x >>= fun _ => y) s = y s' := by simp [hx]
  unfold Follows at hy ⊢
  rwa [hrun]

theorem Follows.bind {x y : Pass σ Unit} {s : σ} {r : Result α} {f : α → Result β}
    {q : α → σ → Prop} {q' : β → σ → Prop} (hx : x.Follows s r q)
    (hy : ∀ a s', r = .ok a → q a s' → y.Follows s' (f a) q') :
    (x >>= fun _ => y).Follows s (r >>= f) q' := by
  cases r with
  | error e =>
    obtain ⟨s', hs'⟩ := hx
    exact ⟨s', by simp [Bind.bind, EStateM.bind, hs']⟩
  | ok a =>
    obtain ⟨s', hs', hq⟩ := hx
    exact follows_bind_of_ok hs' (hy a s' rfl hq)

/-- A step that cannot fail changes nothing about the answer. -/
theorem Follows.then_ok {x y : Pass σ Unit} {s : σ} {r : Result α} {q q' : α → σ → Prop}
    (hx : x.Follows s r q) (hy : ∀ a s', q a s' → ∃ s'', y s' = .ok () s'' ∧ q' a s'') :
    (x >>= fun _ => y).Follows s r q' := by
  cases r with
  | error e =>
    obtain ⟨s', hs'⟩ := hx
    exact ⟨s', by simp [hs']⟩
  | ok a =>
    obtain ⟨s', hs', hq⟩ := hx
    obtain ⟨s'', hs'', hq'⟩ := hy a s' hq
    exact ⟨s'', by simp [hs', hs''], hq'⟩

theorem Follows.orPosition {x : Pass σ Unit} {s : σ} {r : Result α} {q : α → σ → Prop}
    (hx : x.Follows s r q) (p : Position) :
    (x.orPosition p).Follows s (r.orPosition p) q := by
  cases r with
  | error e =>
    obtain ⟨s', hs'⟩ := hx
    exact ⟨s', by simp [Pass.orPosition, hs']⟩
  | ok a =>
    obtain ⟨s', hs', hq⟩ := hx
    exact ⟨s', by simp [Pass.orPosition, hs'], hq⟩

theorem Follows.of_ok {x : Pass σ Unit} {s s' : σ} {r : Result Unit} {q : Unit → σ → Prop}
    (hx : x.Follows s r q) (hs' : x s = .ok () s') : q () s' := by
  cases r with
  | error e =>
    obtain ⟨_, herror⟩ := hx
    simp [hs'] at herror
  | ok u =>
    obtain ⟨_, hok, hq⟩ := hx
    cases hs'.symm.trans hok
    exact hq

theorem Follows.answer_eq {x : Pass σ Unit} {s : σ} {r : Result Unit} {q : Unit → σ → Prop}
    (hx : x.Follows s r q) : x.answer s = r := by
  cases r with
  | error e =>
    obtain ⟨s', hs'⟩ := hx
    simp [answer, hs']
  | ok a =>
    obtain ⟨s', hs', -⟩ := hx
    simp [answer, hs']

/-- If `x` succeeds, it keeps `p`. -/
def Keeps (p : σ → Prop) (x : Pass σ α) : Prop := ∀ s a s', p s → x s = .ok a s' → p s'

theorem Follows.keeps {x : Pass σ Unit} {s : σ} {r : Result α} {q : α → σ → Prop} {p : σ → Prop}
    (hx : x.Follows s r q) (hkeeps : x.Keeps p) (hs : p s) :
    x.Follows s r fun a s' => q a s' ∧ p s' := by
  cases r with
  | error e => exact hx
  | ok a =>
    obtain ⟨s', hs', hq⟩ := hx
    exact ⟨s', hs', hq, hkeeps s () s' hs hs'⟩

theorem keeps_pure (p : σ → Prop) (a : α) : Keeps p (pure a : Pass σ α) := by
  intro s a' s' hs h
  cases h
  exact hs

theorem Keeps.bind {p : σ → Prop} {x : Pass σ α} {f : α → Pass σ β} (hx : x.Keeps p)
    (hf : ∀ a, (f a).Keeps p) : (x >>= f).Keeps p := by
  intro s b s' hs h
  rw [run_bind] at h
  cases hrun : x s with
  | error e s₁ => simp [hrun] at h
  | ok a s₁ =>
    rw [hrun] at h
    exact hf a s₁ b s' (hx s a s₁ hs hrun) h

theorem Keeps.orPosition {p : σ → Prop} {x : Pass σ α} (hx : x.Keeps p) (q : Position) :
    (x.orPosition q).Keeps p := by
  intro s a s' hs h
  rw [run_orPosition] at h
  cases hrun : x s with
  | error e s₁ => simp [hrun] at h
  | ok b s₁ =>
    rw [hrun] at h
    exact hx s a s' hs (hrun.trans h)

theorem keeps_defect (p : σ → Prop) (d : Defect) : Keeps p (defect d : Pass σ α) := by
  intro s a s' hs h
  cases h

theorem keeps_get (p : σ → Prop) : Keeps p (get : Pass σ σ) := by
  intro s a s' hs h
  cases h
  exact hs

theorem keeps_ofResult (p : σ → Prop) (r : Result α) : Keeps p (ofResult r : Pass σ α) := by
  intro s a s' hs h
  cases r with
  | error e => cases h
  | ok b =>
    cases h
    exact hs

/-- A pass that can only read. -/
theorem keeps_consult (p : Work ρ → Prop) (f : Annotations → Result α) :
    Keeps p (consult f) := by
  intro w a w' hw h
  rw [run_consult] at h
  cases hf : f w.notes <;> simp [hf] at h
  exact h.2 ▸ hw

theorem keeps_own (p : Work ρ → Prop) : Keeps p (own : Pass (Work ρ) ρ) := by
  intro w a w' hw h
  cases h
  exact hw

theorem keeps_modifyOwn (q : Annotations → Prop) (f : ρ → ρ) :
    Keeps (fun w : Work ρ => q w.notes) (modifyOwn f) := by
  intro w a w' hw h
  cases h
  exact hw

theorem keeps_annotate (q : Annotations → Prop) {f : Annotations → Result Annotations}
    (h : ∀ a b, q a → f a = .ok b → q b) :
    Keeps (fun w : Work ρ => q w.notes) (annotate f) := by
  intro w a w' hw hrun
  rw [run_annotate] at hrun
  cases hf : f w.notes with
  | error e => simp [hf] at hrun
  | ok notes =>
    rw [hf] at hrun
    cases hrun
    exact h w.notes notes hw hf

/-- Wherever it starts, `x` succeeds if `p` holds and ends in a defect if not. -/
structure Settles (p : Prop) (x : Pass σ α) : Prop where
  ok : p → ∀ s, ∃ a s', x s = .ok a s'
  defect : ¬ p → ∀ s, ∃ d s', x s = .error (.defect d) s'

theorem settles_pure {p : Prop} (h : p) (a : α) : Settles p (pure a : Pass σ α) :=
  ⟨fun _ s => ⟨a, s, rfl⟩, fun hn => absurd h hn⟩

theorem Settles.congr {p q : Prop} {x : Pass σ α} (h : x.Settles p) (hpq : p ↔ q) :
    x.Settles q := by
  rwa [← hpq]

theorem Settles.bind {p q : Prop} {x : Pass σ α} {f : α → Pass σ β} (hx : x.Settles p)
    (hf : ∀ a, (f a).Settles q) : (x >>= f).Settles (p ∧ q) := by
  constructor
  · rintro ⟨hp, hq⟩ s
    obtain ⟨a, s₁, ha⟩ := hx.ok hp s
    obtain ⟨b, s₂, hb⟩ := (hf a).ok hq s₁
    exact ⟨b, s₂, by simp [ha, hb]⟩
  · intro hpq s
    by_cases hp : p
    · obtain ⟨a, s₁, ha⟩ := hx.ok hp s
      obtain ⟨d, s₂, hd⟩ := (hf a).defect (fun hq => hpq ⟨hp, hq⟩) s₁
      exact ⟨d, s₂, by simp [ha, hd]⟩
    · obtain ⟨d, s₁, hd⟩ := hx.defect hp s
      exact ⟨d, s₁, by simp [hd]⟩

/-- Steps that cannot fail may follow. -/
theorem Settles.then {p : Prop} {x : Pass σ α} {f : α → Pass σ β} (hx : x.Settles p)
    (hf : ∀ a, (f a).Settles True) : (x >>= f).Settles p :=
  (hx.bind hf).congr (by rw [and_true])

theorem settles_ofResult {p : Prop} {r : Result α} (h : Result.Settles p r) :
    (ofResult r : Pass σ α).Settles p := by
  constructor
  · intro hp s
    obtain ⟨a, ha⟩ := h.ok hp
    exact ⟨a, s, by rw [run_ofResult, ha]⟩
  · intro hp s
    obtain ⟨d, hd⟩ := h.defect hp
    exact ⟨d, s, by rw [run_ofResult, hd]⟩

theorem ofResult_ok_bind (a : α) (f : α → Pass σ β) : (ofResult (.ok a) >>= f) = f a := rfl

end Pass

end SimCompiler
