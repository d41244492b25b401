import Mathlib.Data.List.Range
import SimCompiler.Proofs.Plans

/-!
# Running plans

Two engines that refuse nothing take a plan to the same end, whatever they answer. The request log
gets one request for each node of the plan, parts before the request that uses them, and each
placeholder is used once.
-/
namespace SimCompiler

/-- Passes every request on to the engine and writes it down. -/
def Renderer.recording (engine : Renderer σ) : Renderer (σ × List Request) where
  render request := fun (s, received) =>
    match engine.render request s with
    | .ok text s' => .ok text (s', received ++ [request])
    | .error e s' => .error e (s', received ++ [request])

namespace Pass

theorem ofResult_eq_ok_iff {r : Result α} {a : α} {s s' : σ} :
    ofResult r s = .ok a s' ↔ r = .ok a ∧ s = s' := by
  cases r <;> simp

/-- The engine refuses a request of `x`. -/
def Refused (x : Pass σ α) (s : σ) : Prop := ∃ e s', x s = .error (.render e) s'

/-- Both fail with the same error, or both succeed, unless an engine refuses a request. -/
def Alike (x : Pass σ α) (y : Pass τ β) : Prop :=
  ∀ s t, x.Refused s ∨ y.Refused t ∨ (∃ e s' t', x s = .error e s' ∧ y t = .error e t') ∨
    ∃ a s' b t', x s = .ok a s' ∧ y t = .ok b t'

theorem alike_pure (a : α) (b : β) : (pure a : Pass σ α).Alike (pure b : Pass τ β) :=
  fun s t => .inr (.inr (.inr ⟨a, s, b, t, rfl, rfl⟩))

theorem alike_ofResult (r : Result α) : (ofResult r : Pass σ α).Alike (ofResult r : Pass τ α) := by
  intro s t
  cases r with
  | error e => exact .inr (.inr (.inl ⟨e, s, t, rfl, rfl⟩))
  | ok a => exact .inr (.inr (.inr ⟨a, s, a, t, rfl, rfl⟩))

theorem Refused.bind {x : Pass σ α} {s : σ} (h : x.Refused s) (f : α → Pass σ β) :
    (x >>= f).Refused s := by
  obtain ⟨e, s', hs'⟩ := h
  exact ⟨e, s', by rw [run_bind, hs']⟩

theorem Alike.bind {x : Pass σ α} {y : Pass τ β} {f : α → Pass σ γ} {g : β → Pass τ δ}
    (hxy : x.Alike y) (hfg : ∀ a b, (f a).Alike (g b)) : (x >>= f).Alike (y >>= g) := by
  intro s t
  rcases hxy s t with hx | hy | ⟨e, s', t', hs', ht'⟩ | ⟨a, s', b, t', hs', ht'⟩
  · exact .inl (hx.bind f)
  · exact .inr (.inl (hy.bind g))
  · exact .inr (.inr (.inl ⟨e, s', t', by rw [run_bind, hs'], by rw [run_bind, ht']⟩))
  · have hf : (x >>= f) s = f a s' := by rw [run_bind, hs']
    have hg : (y >>= g) t = g b t' := by rw [run_bind, ht']
    unfold Refused
    rw [hf, hg]
    exact hfg a b s' t'

theorem alike_collect {xs : List (Pass σ α)} {ys : List (Pass τ β)}
    (h : List.Forall₂ Alike xs ys) : (collect xs).Alike (collect ys) := by
  induction h with
  | nil => exact alike_pure [] []
  | cons hxy _ ih => exact hxy.bind fun _ _ => ih.bind fun _ _ => alike_pure _ _

end Pass

theorem Generator.alike_ask (engine : Renderer σ) (engine' : Renderer τ) (r r' : Request) :
    (ask engine r).Alike (ask engine' r') := by
  intro s t
  cases hs : engine.render r s with
  | error e s' => exact .inl ⟨e, s', by rw [ask, hs]⟩
  | ok a s' =>
    cases ht : engine'.render r' t with
    | error e t' => exact .inr (.inl ⟨e, t', by rw [ask, ht]⟩)
    | ok b t' => exact .inr (.inr (.inr ⟨a, s', b, t', by rw [ask, hs], by rw [ask, ht]⟩))

/-- How a plan ends does not depend on the answers of the engine. -/
theorem Plan.alike_run (engine : Renderer σ) (engine' : Renderer τ) (p : Plan) :
    (p.run engine).Alike (p.run engine') := by
  induction p using Plan.induction with
  | node parts form ih =>
    have hparts :
        List.Forall₂ Pass.Alike (parts.map (·.run engine)) (parts.map (·.run engine')) := by
      rw [List.forall₂_map_left_iff, List.forall₂_map_right_iff, List.forall₂_same]
      exact ih
    rw [run_node, run_node]
    exact (Pass.alike_collect hparts).bind fun _ _ => (Pass.alike_ofResult form).bind fun _ _ =>
      Generator.alike_ask engine engine' _ _

theorem repr_injective : Function.Injective Nat.repr := by
  intro i j h
  rw [Nat.repr_eq_ofList_toDigits, Nat.repr_eq_ofList_toDigits] at h
  have hdigits : Nat.toDigits 10 i = Nat.toDigits 10 j := String.ofList_injective h
  calc i = Nat.ofDigitChars 10 (Nat.toDigits 10 i) 0 := Nat.ofDigitChars_ten_toDigits.symm
    _ = j := by rw [hdigits, Nat.ofDigitChars_ten_toDigits]

namespace RequestLog

theorem placeholder_injective : Function.Injective placeholder := by
  intro i j h
  rw [placeholder, placeholder, String.append_left_inj, String.append_right_inj] at h
  exact repr_injective h

/-- The placeholders of `n` requests from number `start` on. -/
def placeholders (start n : Nat) : List String := (List.range' start n).map placeholder

theorem mem_placeholders {start n : Nat} {text : String} :
    text ∈ placeholders start n ↔ ∃ j, start ≤ j ∧ j < start + n ∧ text = placeholder j := by
  simp [placeholders, List.mem_range'_1, and_assoc, eq_comm]

/-- How `new` requests behind `log` were made that are still open at `texts`: they are those of
`heads`, each uses texts of earlier ones, and together with `texts` each is used once. -/
structure Grows (log : RequestLog) (heads : List (Result Request)) (texts : List String)
    (new : List Request) : Prop where
  heads : heads = new.map fun r => .ok r.bare
  used : (new.flatMap Request.parts ++ texts).Perm (placeholders log.length new.length)
  earlier : ∀ k r, new[k]? = some r → ∀ text ∈ r.parts, ∃ j < log.length + k, text = placeholder j

theorem grows_nil (log : RequestLog) : Grows log [] [] [] := ⟨rfl, .refl _, by simp⟩

variable {log : RequestLog} {heads heads' : List (Result Request)} {texts texts' : List String}
  {new new' : List Request}

theorem Grows.append (h : Grows log heads texts new) (h' : Grows (log ++ new) heads' texts' new') :
    Grows log (heads ++ heads') (texts ++ texts') (new ++ new') := by
  refine ⟨by rw [h.heads, h'.heads, List.map_append], ?_, ?_⟩
  · have hrange : placeholders log.length (new ++ new').length =
        placeholders log.length new.length ++ placeholders (log ++ new).length new'.length := by
      rw [placeholders, placeholders, placeholders, List.length_append, List.length_append,
        ← List.map_append, List.range'_append_1]
    have hswap : ((new ++ new').flatMap Request.parts ++ (texts ++ texts')).Perm
        ((new.flatMap Request.parts ++ texts) ++ (new'.flatMap Request.parts ++ texts')) := by
      simp only [List.flatMap_append, List.append_assoc]
      refine List.Perm.append_left _ ?_
      rw [← List.append_assoc, ← List.append_assoc]
      exact List.perm_append_comm.append_right texts'
    rw [hrange]
    exact hswap.trans (h.used.append h'.used)
  · intro k r hr text htext
    rcases Nat.lt_or_ge k new.length with hk | hk
    · rw [List.getElem?_append_left hk] at hr
      exact h.earlier k r hr text htext
    · rw [List.getElem?_append_right hk] at hr
      obtain ⟨j, hj, rfl⟩ := h'.earlier (k - new.length) r hr text htext
      rw [List.length_append] at hj
      exact ⟨j, by omega, rfl⟩

/-- The open texts go into the next request, which is then open itself. -/
theorem Grows.ask (h : Grows log heads texts new) {r : Request} (hr : r.parts.Perm texts) :
    Grows log (heads ++ [.ok r.bare]) [placeholder (log ++ new).length] (new ++ [r]) := by
  refine ⟨by rw [h.heads, List.map_append]; rfl, ?_, ?_⟩
  · have hrange : placeholders log.length (new ++ [r]).length =
        placeholders log.length new.length ++ [placeholder (log ++ new).length] := by
      rw [placeholders, placeholders, List.length_append, List.length_append, List.length_singleton,
        List.range'_1_concat, List.map_append]
      rfl
    rw [hrange]
    refine List.Perm.append_right _ (List.Perm.trans ?_ h.used)
    rw [List.flatMap_append, List.flatMap_singleton]
    exact hr.append_left _
  · intro k r' hr' text htext
    rcases Nat.lt_or_ge k new.length with hk | hk
    · rw [List.getElem?_append_left hk] at hr'
      exact h.earlier k r' hr' text htext
    · rw [List.getElem?_append_right hk, List.getElem?_singleton] at hr'
      have hopen : text ∈ new.flatMap Request.parts ++ texts := by
        split at hr'
        · cases hr'
          exact List.mem_append_right _ (hr.mem_iff.mp htext)
        · cases hr'
      obtain ⟨j, -, hj, rfl⟩ := mem_placeholders.mp (h.used.mem_iff.mp hopen)
      exact ⟨j, by omega, rfl⟩

end RequestLog

namespace Plan

/-- A run of the plan adds the requests of its nodes to the log, the last of which is open. -/
def AddsHeads (p : Plan) : Prop :=
  ∀ log text log', p.run RequestLog.renderer log = .ok text log' →
    ∃ new, log' = log ++ new ∧ RequestLog.Grows log p.heads [text] new

theorem collect_log {ps : List Plan} (ih : ∀ p ∈ ps, p.AddsHeads) {log log' : RequestLog}
    {texts : List String}
    (h : Pass.collect (ps.map (·.run RequestLog.renderer)) log = .ok texts log') :
    ∃ new, log' = log ++ new ∧ RequestLog.Grows log (ps.flatMap (·.heads)) texts new := by
  induction ps generalizing log texts with
  | nil =>
    cases h
    exact ⟨[], by simp, RequestLog.grows_nil _⟩
  | cons p ps ihps =>
    obtain ⟨text, log₁, htext, h⟩ := Pass.bind_eq_ok_iff.mp h
    obtain ⟨rest, log₂, hrest, h⟩ := Pass.bind_eq_ok_iff.mp h
    cases h
    obtain ⟨new, rfl, hnew⟩ := ih p (by simp) log text log₁ htext
    obtain ⟨new', rfl, hnew'⟩ := ihps (fun p hp => ih p (by simp [hp])) hrest
    exact ⟨new ++ new', by rw [List.append_assoc], hnew.append hnew'⟩

theorem node_log {parts : List Plan} {form : Result (Form parts.length)}
    (ih : ∀ p ∈ parts, p.AddsHeads) {log log' : RequestLog} {text : String}
    (h : (node parts form).run RequestLog.renderer log = .ok text log') :
    ∃ f texts new, form = .ok f ∧ texts.length = parts.length ∧
      Pass.collect (parts.map (·.run RequestLog.renderer)) log = .ok texts (log ++ new) ∧
      RequestLog.Grows log (parts.flatMap (·.heads)) texts new ∧
      text = RequestLog.placeholder (log ++ new).length ∧
      log' = log ++ new ++ [f.fill texts] := by
  rw [run_node] at h
  obtain ⟨texts, log₁, htexts, h⟩ := Pass.bind_eq_ok_iff.mp h
  obtain ⟨new, rfl, hnew⟩ := collect_log ih htexts
  have hlength := Pass.length_of_collect htexts
  rw [List.length_map] at hlength
  obtain ⟨f, log₂, hform, h⟩ := Pass.bind_eq_ok_iff.mp h
  obtain ⟨rfl, rfl⟩ := Pass.ofResult_eq_ok_iff.mp hform
  cases h
  exact ⟨f, texts, new, rfl, hlength, htexts, hnew, rfl, rfl⟩

theorem addsHeads (p : Plan) : p.AddsHeads := by
  induction p using Plan.induction with
  | node parts form ih =>
    intro log text log' h
    obtain ⟨f, texts, new, rfl, hlength, -, hnew, rfl, rfl⟩ := node_log ih h
    have hgrown := hnew.ask (f.parts_fill texts hlength)
    rw [f.bare_fill] at hgrown
    refine ⟨new ++ [f.fill texts], by rw [List.append_assoc], ?_⟩
    rw [heads_node]
    exact hgrown

end Plan

/-- The log of a program ends with its main file, which is open. -/
theorem Generator.program_log {g : Generator} {source : Source} {text : String} {log : RequestLog}
    (h : (g.programPlan source).run RequestLog.renderer [] = .ok text log) :
    ∃ prototypes globals own locals enums decls stmts texts new,
      source.functions.mapM (fun x => g.prototype x.2) = .ok prototypes ∧
      (Source.globalsIn source.items).mapM g.variableSlot = .ok globals ∧
      g.notes.readProgramLocals = .ok own ∧ own.mapM g.variableSlot = .ok locals ∧
      RequestLog.Grows [] ((g.itemPlans 0 source.items).flatMap (·.heads)) texts new ∧
      text = RequestLog.placeholder new.length ∧
      log = new ++ [.mainFile enums prototypes decls globals locals stmts] := by
  rw [programPlan, Plan.run_after] at h
  obtain ⟨prototypes, log₁, hmapM, h⟩ := Pass.bind_eq_ok_iff.mp h
  obtain ⟨hprototypes, rfl⟩ := Pass.ofResult_eq_ok_iff.mp hmapM
  obtain ⟨f, texts, new, hform, -, -, hnew, rfl, rfl⟩ :=
    Plan.node_log (fun p _ => p.addsHeads) h
  obtain ⟨globals, hglobals, hform⟩ := Result.bind_eq_ok_iff.mp hform
  obtain ⟨own, hown, hform⟩ := Result.bind_eq_ok_iff.mp hform
  obtain ⟨locals, hlocals, hform⟩ := Result.bind_eq_ok_iff.mp hform
  cases hform
  exact ⟨prototypes, globals, own, locals, _, _, _, texts, new, hprototypes, hglobals, hown,
    hlocals, hnew, rfl, rfl⟩

/-- The log of a generated program: that of the program and the request for the build file. -/
theorem Source.generate_log {source : Source} {notes : Annotations} {name : String}
    {project : Project} {log : RequestLog}
    (h : source.generate notes RequestLog.renderer name [] = .ok project log) :
    ∃ g new, Generator.ofAnnotations notes = .ok g ∧
      (g.programPlan source).run RequestLog.renderer [] = .ok project.mainFile new ∧
      log = new ++ [.buildFile name] := by
  obtain ⟨g, log₁, hgenerator, h⟩ := Pass.bind_eq_ok_iff.mp h
  obtain ⟨hg, rfl⟩ := Pass.ofResult_eq_ok_iff.mp hgenerator
  obtain ⟨text, new, hmain, h⟩ := Pass.bind_eq_ok_iff.mp h
  cases h
  rw [Generator.program_eq_run] at hmain
  exact ⟨g, new, hg, hmain, rfl⟩

/-- A program that was compiled had been accepted and could be generated. -/
theorem Source.generate_of_compile {source : Source} {engine : Renderer σ} {name text : String}
    {s s' : σ} (h : source.compile engine name s = .ok text s') :
    ∃ session project, Session.apply source {} = .ok () session ∧
      source.generate session.notes engine name s = .ok project s' ∧ project.mainFile = text := by
  cases hsession : Session.apply source {} with
  | error e session =>
    rw [compile, hsession] at h
    cases h
  | ok _ session =>
    rw [compile, hsession] at h
    obtain ⟨project, s₁, hgenerate, h⟩ := Pass.bind_eq_ok_iff.mp h
    cases h
    exact ⟨session, project, rfl, hgenerate, rfl⟩

end SimCompiler
