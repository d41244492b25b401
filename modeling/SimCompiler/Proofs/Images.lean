import SimCompiler.Analysis.Capabilities
import SimCompiler.Proofs.Events

/-!
# Runs and their images

A map of states carries the runs of one pass to the runs of another if the second pass, started in
the image of a state, ends in the image of the state in which the first one ends. Answers and
errors may be mapped as well. Whoever checks this for the hooks of two visitors has it for their
walks.
-/
namespace SimCompiler

/-- The result with its error and its answer mapped. -/
def Result.image (e : CompileError → CompileError) (k : α → β) : Result α → Result β
  | .ok a => .ok (k a)
  | .error err => .error (e err)

namespace Result

variable {e : CompileError → CompileError}

@[simp] theorem image_ok (k : α → β) (a : α) : image e k (.ok a) = .ok (k a) := rfl

theorem image_id (r : Result α) : r.image id id = r := by
  cases r <;> rfl

/-- The image of two steps is the image of the first and then that of the second. -/
theorem image_bind {r : Result α} {f : α → Result β} {g : γ → Result δ} {j : α → γ} {k : β → δ}
    (h : ∀ a, g (j a) = (f a).image e k) : (r.image e j >>= g) = (r >>= f).image e k := by
  cases r with
  | ok a => exact h a
  | error err => rfl

theorem bind_of_image {r : Result α} {r' : Result γ} {f : α → Result β} {g : γ → Result δ}
    {j : α → γ} {k : β → δ} (hr : r' = r.image e j) (h : ∀ a, g (j a) = (f a).image e k) :
    (r' >>= g) = (r >>= f).image e k := by
  rw [hr]
  exact image_bind h

theorem mapM_image {f : α → Result β} {g : γ → Result β} {j : α → γ}
    (h : ∀ a, g (j a) = (f a).image e id) (as : List α) :
    (as.map j).mapM g = (as.mapM f).image e id := by
  induction as with
  | nil => rfl
  | cons a as ih =>
    rw [List.map_cons, List.mapM_cons, List.mapM_cons]
    exact bind_of_image (h a) fun b => bind_of_image ih fun bs => rfl

end Result

namespace Pass

/-- The runs of `y` from the images of states are the images of the runs of `x`: `f` maps states,
`e` errors and `k` answers. -/
def Maps (f : σ → τ) (e : CompileError → CompileError) (k : α → β) (x : Pass σ α) (y : Pass τ β) :
    Prop :=
  ∀ s, y (f s) = match x s with
    | .ok a s' => .ok (k a) (f s')
    | .error err s' => .error (e err) (f s')

variable {f : σ → τ} {e : CompileError → CompileError}

theorem maps_pure (k : α → β) (a : α) : Maps f e k (pure a) (pure (k a)) := fun _ => rfl

theorem maps_ofResult {r : Result α} {r' : Result β} {k : α → β} (h : r' = r.image e k) :
    Maps f e k (ofResult r) (ofResult r') := by
  intro s
  subst h
  cases r <;> rfl

theorem maps_defect (k : α → β) {d d' : Defect} (h : e (.defect d) = .defect d') :
    Maps f e k (defect d) (defect d') := by
  intro s
  show EStateM.Result.error (.defect d') (f s) = .error (e (.defect d)) (f s)
  rw [h]

theorem Maps.bind {x : Pass σ α} {y : Pass τ β} {k : α → β} {p : α → Pass σ γ} {q : β → Pass τ δ}
    {l : γ → δ} (hxy : Maps f e k x y) (hpq : ∀ a, Maps f e l (p a) (q (k a))) :
    Maps f e l (x >>= p) (y >>= q) := by
  intro s
  rw [run_bind, run_bind, hxy s]
  cases x s with
  | ok a s' => exact hpq a s'
  | error err s' => rfl

theorem Maps.run_ok {x : Pass σ α} {y : Pass τ β} {k : α → β} (hxy : Maps f e k x y) {s s' : σ}
    {a : α} (h : x s = .ok a s') : y (f s) = .ok (k a) (f s') := by
  rw [hxy s, h]

theorem Maps.exists_ok {x : Pass σ α} {y : Pass τ β} {k : α → β} (hxy : Maps f e k x y) {s : σ}
    {b : β} {t : τ} (h : y (f s) = .ok b t) : ∃ a s', x s = .ok a s' ∧ b = k a ∧ t = f s' := by
  rw [hxy s] at h
  cases hx : x s with
  | ok a s' =>
    rw [hx] at h
    cases h
    exact ⟨a, s', rfl, rfl, rfl⟩
  | error err s' =>
    rw [hx] at h
    cases h

/-- Two runs that have the same image end alike: both fail or both succeed, and the ends have the
same image as well. -/
theorem Maps.alike {g : σ' → τ} {x : Pass σ α} {y : Pass σ' α'} {z : Pass τ β} {j : α → β}
    {k : α' → β} (hx : Maps f e j x z) (hy : Maps g e k y z) {s : σ} {t : σ'} (hst : f s = g t) :
    (∃ err s' err' t', x s = .error err s' ∧ y t = .error err' t' ∧ e err = e err' ∧ f s' = g t') ∨
      ∃ a s' b t', x s = .ok a s' ∧ y t = .ok b t' ∧ j a = k b ∧ f s' = g t' := by
  have hrun := (hx s).symm.trans ((congrArg z hst).trans (hy t))
  cases hs : x s with
  | error err s' =>
    cases ht : y t with
    | error err' t' =>
      rw [hs, ht] at hrun
      obtain ⟨herr, hend⟩ := EStateM.Result.error.inj hrun
      exact .inl ⟨err, s', err', t', rfl, rfl, herr, hend⟩
    | ok b t' =>
      rw [hs, ht] at hrun
      cases hrun
  | ok a s' =>
    cases ht : y t with
    | error err' t' =>
      rw [hs, ht] at hrun
      cases hrun
    | ok b t' =>
      rw [hs, ht] at hrun
      obtain ⟨ha, hend⟩ := EStateM.Result.ok.inj hrun
      exact .inr ⟨a, s', b, t', rfl, rfl, ha, hend⟩

theorem Maps.orPosition {x : Pass σ α} {y : Pass τ β} {k : α → β} {p q : Position}
    (hxy : Maps f e k x y) (he : ∀ err, (e err).orPosition q = e (err.orPosition p)) :
    Maps f e k (x.orPosition p) (y.orPosition q) := by
  intro s
  rw [run_orPosition, run_orPosition, hxy s]
  cases x s with
  | ok a s' => rfl
  | error err s' => exact congrArg (EStateM.Result.error · (f s')) (he err)

theorem maps_forM {p : α → Pass σ Unit} {q : β → Pass τ Unit} {h : α → β} {as : List α}
    (hpq : ∀ a ∈ as, Maps f e id (p a) (q (h a))) :
    Maps f e id (forM as p) (forM (as.map h) q) := by
  induction as with
  | nil => exact maps_pure id ()
  | cons a as ih =>
    rw [List.map_cons, List.forM_cons, List.forM_cons]
    exact (hpq a (by simp)).bind fun _ => ih fun b hb => hpq b (by simp [hb])

end Pass

/-- Maps the annotations by `f` and the working data by `g`. -/
def Work.image (f : Annotations → Annotations) (g : ρ → ρ') (w : Work ρ) : Work ρ' :=
  ⟨f w.notes, g w.own⟩

namespace Pass

variable {f : Annotations → Annotations} {g : ρ → ρ'} {e : CompileError → CompileError}

theorem maps_own : Maps (Work.image f g) e g own own := fun _ => rfl

theorem maps_modifyOwn {p : ρ → ρ} {q : ρ' → ρ'} (h : ∀ r, q (g r) = g (p r)) :
    Maps (Work.image f g) e id (modifyOwn p) (modifyOwn q) := by
  intro w
  have hown : q (w.image f g).own = g (p w.own) := h w.own
  rw [run_modifyOwn, run_modifyOwn, hown]
  rfl

theorem maps_updating (p : ρ → ρ) : Maps (Work.image f id) e id (modifyOwn p) (modifyOwn p) :=
  maps_modifyOwn fun _ => rfl

theorem maps_consult {p : Annotations → Result α} {q : Annotations → Result β} {k : α → β}
    (h : ∀ notes, q (f notes) = (p notes).image e k) :
    Maps (Work.image f g) e k (consult p) (consult q) := by
  intro w
  have hq : q (w.image f g).notes = (p w.notes).image e k := h w.notes
  rw [run_consult, run_consult, hq]
  cases p w.notes <;> rfl

theorem maps_annotate {p q : Annotations → Result Annotations}
    (h : ∀ notes, q (f notes) = (p notes).image e f) :
    Maps (Work.image f g) e id (annotate p) (annotate q) := by
  intro w
  have hq : q (w.image f g).notes = (p w.notes).image e f := h w.notes
  rw [run_annotate, run_annotate, hq]
  cases p w.notes <;> rfl

theorem maps_withOwn {x : Pass (Work ρ) α} {y : Pass (Work ρ') β} {k : α → β}
    (h : Maps (Work.image f g) e k x y) (own : ρ) :
    Maps f e (Prod.map k g) (withOwn own x) (withOwn (g own) y) := by
  intro notes
  have hrun : y ⟨f notes, g own⟩ = _ := h ⟨notes, own⟩
  rw [run_withOwn, run_withOwn, hrun]
  cases x ⟨notes, own⟩ <;> rfl

/-- The walks of two visitors, if `h` maps the events of the first to those of the second. -/
theorem maps_walk {v : Visitor (Work ρ)} {v' : Visitor (Work ρ')} {o o' : Outline}
    {h : Event → Event} (hevents : o'.events = o.events.map h)
    (hcall : ∀ event ∈ o.events, Maps (Work.image f g) e id (v.call event) (v'.call (h event))) :
    Maps (Work.image f g) e id (o.walk v) (o'.walk v') := by
  rw [Outline.walk_eq_forM_events, Outline.walk_eq_forM_events, hevents]
  exact maps_forM hcall

theorem maps_walking {v : Visitor (Work ρ)} {v' : Visitor (Work ρ')} {source source' : Source}
    (h : Maps (Work.image f g) e id (source.outline.walk v) (source'.outline.walk v')) (own : ρ) :
    Maps f e id (walking v own source) (walking v' (g own) source') :=
  (maps_withOwn h own).bind fun _ => maps_pure id ()

end Pass

theorem Capabilities.maps_update {f : Annotations → Annotations} {e : CompileError → CompileError}
    (p : Capabilities → Capabilities) : Pass.Maps (Work.image f id) e id (update p) (update p) :=
  Pass.maps_updating _

end SimCompiler
