import SimCompiler.Proofs.PlanRuns
import SimCompiler.Proofs.Repetition

/-!
# A refused request

An engine that refuses one request cuts the run short: the requests before it are made as if
nothing were refused, and no request is made after it. The cut is described for two passes that
differ in their engines only. It goes through every plan, so it goes through every program,
wherever the refused request stands in it.
-/
namespace SimCompiler

namespace Pass

/-- The pass `x` only adds to its log, and `y` does what `x` does until `x` makes request number
`index`. There `y` stops with the error that `refusal` makes of the request. -/
structure CutAt (index : Nat) (refusal : Request → RenderError) (x y : Pass RequestLog α) :
    Prop where
  extends_log : ∀ log, log <+: x.final log
  cut : ∀ log : RequestLog, log.length ≤ index →
    y log = match (x.final log)[index]? with
      | some request => .error (.render (refusal request)) ((x.final log).take index)
      | none => x log

variable {index : Nat} {refusal : Request → RenderError}

/-- A pass that makes no request is not cut. -/
theorem cutAt_of_final {x : Pass RequestLog α} (h : ∀ log, x.final log = log) :
    x.CutAt index refusal x := by
  constructor
  · intro log
    simp only [h, List.prefix_refl]
  · intro log hlog
    rw [h, List.getElem?_eq_none hlog]

theorem cutAt_pure (a : α) : (pure a : Pass RequestLog α).CutAt index refusal (pure a) :=
  cutAt_of_final fun _ => rfl

theorem cutAt_ofResult (r : Result α) :
    (ofResult r : Pass RequestLog α).CutAt index refusal (ofResult r) :=
  cutAt_of_final fun log => by cases r <;> rfl

theorem CutAt.bind {x y : Pass RequestLog α} {f g : α → Pass RequestLog β}
    (hxy : x.CutAt index refusal y) (hfg : ∀ a, (f a).CutAt index refusal (g a)) :
    (x >>= f).CutAt index refusal (y >>= g) := by
  have hextends : ∀ log, x.final log <+: (x >>= f).final log := by
    intro log
    rw [final_bind, final]
    cases x log with
    | ok a log₁ => exact (hfg a).extends_log log₁
    | error e log₁ => exact List.prefix_refl log₁
  refine ⟨fun log => (hxy.extends_log log).trans (hextends log), fun log hlog => ?_⟩
  have hcut := hxy.cut log hlog
  cases hindex : (x.final log)[index]? with
  | some request =>
    -- The request is one of `x`, and what comes later leaves it where it is.
    obtain ⟨later, hlater⟩ := hextends log
    have hlt : index < (x.final log).length := (List.getElem?_eq_some_iff.mp hindex).1
    rw [hindex] at hcut
    rw [run_bind, hcut, ← hlater, List.getElem?_append_left hlt, hindex,
      List.take_append_of_le_length (Nat.le_of_lt hlt)]
  | none =>
    have hle : (x.final log).length ≤ index := List.getElem?_eq_none_iff.mp hindex
    rw [hindex] at hcut
    rw [run_bind, run_bind, final_bind, hcut]
    rw [final] at hle hindex
    cases hrun : x log with
    | ok a log₁ =>
      rw [hrun] at hle
      exact (hfg a).cut log₁ hle
    | error e log₁ =>
      rw [hrun] at hindex
      simp only [hindex]

theorem cutAt_collect {xs ys : List (Pass RequestLog α)}
    (h : List.Forall₂ (CutAt index refusal) xs ys) :
    (collect xs).CutAt index refusal (collect ys) := by
  induction h with
  | nil => exact cutAt_pure []
  | cons hxy _ ih => exact hxy.bind fun _ => ih.bind fun _ => cutAt_pure _

end Pass

open RequestLog

variable (index : Nat) (refusal : Request → RenderError)

theorem RequestLog.render_refusing (request : Request) (log : RequestLog) :
    (refusing index refusal).render request log =
      if log.length = index then .error (refusal request) log else renderer.render request log := by
  show (if log.length = index then _ else _ : EStateM RenderError RequestLog String) log = _
  by_cases h : log.length = index
  · rw [if_pos h, if_pos h]
    rfl
  · rw [if_neg h, if_neg h]

/-- One request: it is recorded, unless its number is the one that is refused. -/
theorem Generator.cutAt_ask (request : Request) :
    (ask renderer request).CutAt index refusal (ask (refusing index refusal) request) := by
  have hfinal : ∀ log, (ask renderer request).final log = log ++ [request] := fun _ => rfl
  refine ⟨fun log => ?_, fun log hlog => ?_⟩
  · rw [hfinal]
    exact List.prefix_append log [request]
  · rw [hfinal, ask, render_refusing]
    by_cases heq : log.length = index
    · rw [if_pos heq, ← heq, List.getElem?_concat_length, List.take_left]
    · have hlength : (log ++ [request]).length ≤ index := by
        rw [List.length_append, List.length_singleton]
        omega
      rw [if_neg heq, List.getElem?_eq_none hlength]
      rfl

theorem Plan.cutAt_run (p : Plan) :
    (p.run renderer).CutAt index refusal (p.run (refusing index refusal)) := by
  induction p using Plan.induction with
  | node parts form ih =>
    have hparts : List.Forall₂ (Pass.CutAt index refusal) (parts.map (·.run renderer))
        (parts.map (·.run (refusing index refusal))) := by
      rw [List.forall₂_map_left_iff, List.forall₂_map_right_iff, List.forall₂_same]
      exact ih
    rw [run_node, run_node]
    exact (Pass.cutAt_collect hparts).bind fun _ => (Pass.cutAt_ofResult form).bind fun _ =>
      Generator.cutAt_ask index refusal _

namespace Source

theorem cutAt_generate (source : Source) (notes : Annotations) (name : String) :
    (source.generate notes renderer name).CutAt index refusal
      (source.generate notes (refusing index refusal) name) := by
  refine (Pass.cutAt_ofResult _).bind fun g => ?_
  rw [Generator.project, Generator.project, Generator.program_eq_run, Generator.program_eq_run]
  exact (Plan.cutAt_run index refusal _).bind fun mainFile =>
    (Generator.cutAt_ask index refusal _).bind fun buildFile => Pass.cutAt_pure _

/-- Let `log` be what generation records, however it ends. An engine that refuses request number
`index`, with an error of some kind that names the template, records the requests before it, and
generation ends with that error. If there is no such request, nothing changes. -/
theorem generate_refused (source : Source) (notes : Annotations) (name : String) (index : Nat)
    (kind : String → RenderError) :
    let log := (source.generate notes renderer name).final []
    source.generate notes (refusing index fun request => kind request.template) name [] =
      match log[index]? with
      | some request => .error (.render (kind request.template)) (log.take index)
      | none => source.generate notes renderer name [] :=
  (source.cutAt_generate index (fun request => kind request.template) notes name).cut []
    (Nat.zero_le index)

end Source

end SimCompiler
