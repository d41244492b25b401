import SimCompiler.Proofs.PlanRuns

/-!
# Replaying a request log

The request log holds placeholders where an engine would have put its texts. Going through the log
once more with an engine at hand, each placeholder can be replaced by the text of its request. The
result is what the generator asks of that engine directly.
-/
namespace SimCompiler

/-- An engine whose answer depends on the request alone. -/
def Renderer.ofTemplate (template : Request → String) : Renderer Unit where
  render request := pure (template request)

namespace RequestLog

/-- Replaces the placeholder of a request by the answer to it. -/
def fill (answers : List String) (text : String) : String :=
  match answers.zipIdx.find? (fun x => placeholder x.2 == text) with
  | some x => x.1
  | none => text

theorem fill_placeholder {answers : List String} {j : Nat} {answer : String}
    (h : answers[j]? = some answer) : fill answers (placeholder j) = answer := by
  rw [fill]
  cases hfind : answers.zipIdx.find? (fun x => placeholder x.2 == placeholder j) with
  | none =>
    have hmem : (answer, j) ∈ answers.zipIdx := List.mem_zipIdx_iff_getElem?.mpr h
    simpa using List.find?_eq_none.mp hfind _ hmem
  | some x =>
    have hj : x.2 = j := placeholder_injective (by simpa using List.find?_some hfind)
    have hx := List.mem_zipIdx_iff_getElem?.mp (List.mem_of_find?_eq_some hfind)
    rw [hj, h] at hx
    exact (Option.some.inj hx).symm

/-- An answer that is there stays the same. -/
theorem fill_append {answers : List String} {j : Nat} (hj : j < answers.length)
    (more : List String) :
    fill (answers ++ more) (placeholder j) = fill answers (placeholder j) := by
  have hold := List.getElem?_eq_getElem hj
  have hnew : (answers ++ more)[j]? = some answers[j] := by
    rw [List.getElem?_append_left hj, hold]
  rw [fill_placeholder hold, fill_placeholder hnew]

variable (template : Request → String)

/-- The requests of the log, with the texts that `template` gives in place of placeholders. -/
def replay (log : RequestLog) : List Request :=
  log.foldl (fun done r => done ++ [r.mapParts (fill (done.map template))]) []

theorem replay_concat (log : RequestLog) (r : Request) :
    replay template (log ++ [r]) =
      replay template log ++ [r.mapParts (fill ((replay template log).map template))] := by
  rw [replay, List.foldl_append]
  rfl

theorem replay_append (log new : RequestLog) :
    ∃ more, replay template (log ++ new) = replay template log ++ more ∧
      more.length = new.length := by
  induction new generalizing log with
  | nil => exact ⟨[], by simp, rfl⟩
  | cons r new ih =>
    obtain ⟨more, hmore, hlength⟩ := ih (log ++ [r])
    rw [replay_concat, List.append_assoc, List.append_assoc] at hmore
    exact ⟨_, hmore, by simp [hlength]⟩

@[simp] theorem length_replay (log : RequestLog) : (replay template log).length = log.length := by
  obtain ⟨more, hmore, hlength⟩ := replay_append template [] log
  rw [List.nil_append] at hmore
  rw [hmore, List.length_append, hlength]
  exact Nat.zero_add _

/-- Puts the answer of `template` in the place of a placeholder of the log. -/
def stitch (log : RequestLog) : String → String := fill ((replay template log).map template)

/-- The placeholders of a log mean the same in every longer log. -/
theorem stitch_append {log new : RequestLog} {j : Nat} (hj : j < log.length) :
    stitch template (log ++ new) (placeholder j) = stitch template log (placeholder j) := by
  obtain ⟨more, hmore, -⟩ := replay_append template log new
  rw [stitch, hmore, List.map_append, fill_append]
  · rfl
  · rwa [List.length_map, length_replay]

theorem stitch_concat (log : RequestLog) (r : Request) :
    stitch template (log ++ [r]) (placeholder log.length) =
      template (r.mapParts (stitch template log)) := by
  apply fill_placeholder
  rw [replay_concat, List.map_append, List.getElem?_append_right] <;> simp [stitch]

/-- Where requests use texts of earlier ones only, each request is filled in with all answers. -/
theorem getElem?_replay {log : RequestLog}
    (hearlier : ∀ k r, log[k]? = some r → ∀ text ∈ r.parts, ∃ j < k, text = placeholder j) {k : Nat}
    {r : Request} (hr : log[k]? = some r) :
    (replay template log)[k]? = some (r.mapParts (stitch template log)) := by
  obtain ⟨hk, rfl⟩ := List.getElem?_eq_some_iff.mp hr
  have hsplit : log = log.take k ++ [log[k]] ++ log.drop (k + 1) := by
    rw [List.take_append_getElem, List.take_append_drop]
  obtain ⟨more, hmore, -⟩ := replay_append template (log.take k ++ [log[k]]) (log.drop (k + 1))
  have hstitch : log[k].mapParts (stitch template (log.take k)) =
      log[k].mapParts (stitch template log) := by
    apply Request.mapParts_congr
    intro text htext
    obtain ⟨j, hj, rfl⟩ := hearlier k _ hr text htext
    conv_rhs => rw [← List.take_append_drop k log]
    rw [stitch_append]
    rw [List.length_take]
    omega
  rw [← hsplit, replay_concat] at hmore
  change _ = _ ++ [log[k].mapParts (stitch template (log.take k))] ++ _ at hmore
  rw [hstitch] at hmore
  rw [hmore, List.append_assoc, List.getElem?_append_right] <;> simp [Nat.min_eq_left hk.le]

end RequestLog

namespace Plan

variable (template : Request → String)

/-- Run with the engine, the plan makes the replay of the requests that it adds to a log. -/
def Replays (p : Plan) : Prop :=
  ∀ log text log', p.run RequestLog.renderer log = .ok text log' →
    p.run (Renderer.ofTemplate template).recording ((), RequestLog.replay template log) =
      .ok (RequestLog.stitch template log' text) ((), RequestLog.replay template log')

theorem collect_replay {ps : List Plan} (ih : ∀ p ∈ ps, p.Replays template)
    {log log' : RequestLog} {texts : List String}
    (h : Pass.collect (ps.map (·.run RequestLog.renderer)) log = .ok texts log') :
    Pass.collect (ps.map (·.run (Renderer.ofTemplate template).recording))
        ((), RequestLog.replay template log) =
      .ok (texts.map (RequestLog.stitch template log')) ((), RequestLog.replay template log') := by
  induction ps generalizing log texts with
  | nil =>
    cases h
    rfl
  | cons p ps ihps =>
    obtain ⟨text, log₁, htext, h⟩ := Pass.bind_eq_ok_iff.mp h
    obtain ⟨rest, log₂, hrest, h⟩ := Pass.bind_eq_ok_iff.mp h
    cases h
    have hfirst := ih p (by simp) log text log₁ htext
    have hthen := ihps (fun p hp => ih p (by simp [hp])) hrest
    -- The text of the first part is a placeholder, and later answers do not change its meaning.
    obtain ⟨new, rfl, hnew⟩ := p.addsHeads log text log₁ htext
    obtain ⟨new', rfl, -⟩ := collect_log (fun p _ => p.addsHeads) hrest
    have hmem : text ∈ new.flatMap Request.parts ++ [text] := by simp
    obtain ⟨j, -, hj, rfl⟩ := RequestLog.mem_placeholders.mp (hnew.used.mem_iff.mp hmem)
    rw [← List.length_append] at hj
    rw [List.map_cons, List.map_cons, RequestLog.stitch_append template hj]
    exact Pass.bind_eq_ok_iff.mpr ⟨_, _, hfirst, Pass.bind_eq_ok_iff.mpr ⟨_, _, hthen, rfl⟩⟩

theorem replays (p : Plan) : p.Replays template := by
  induction p using Plan.induction with
  | node parts form ih =>
    intro log text log' h
    obtain ⟨f, texts, new, rfl, -, htexts, -, rfl, rfl⟩ := node_log (fun p _ => p.addsHeads) h
    have hparts := collect_replay template ih htexts
    rw [run_node, Pass.run_bind, hparts, RequestLog.stitch_concat, RequestLog.replay_concat,
      f.mapParts_fill]
    change EStateM.Result.ok _ (_, _ ++ [f.fill _]) = .ok _ (_, _ ++ [(f.fill texts).mapParts
      (RequestLog.stitch template (log ++ new))])
    rw [f.mapParts_fill]

end Plan

namespace RequestLog

/-- Of a log with one open request, each other request is used in one place. -/
theorem Grows.count_eq_one {heads : List (Result Request)} {new : List Request} {i j : Nat}
    (h : Grows [] heads [placeholder i] new) (hij : i ≠ j) (hj : j < new.length) :
    (new.flatMap Request.parts).count (placeholder j) = 1 := by
  have hnodup : (placeholders 0 new.length).Nodup :=
    List.Nodup.map placeholder_injective List.nodup_range'
  have hmem : placeholder j ∈ placeholders 0 new.length :=
    mem_placeholders.mpr ⟨j, by omega, by omega, rfl⟩
  have hall := h.used.count_eq (placeholder j)
  have hopen : [placeholder i].count (placeholder j) = 0 :=
    List.count_eq_zero_of_not_mem (by simpa using placeholder_injective.ne hij.symm)
  rw [List.count_append, hopen] at hall
  exact hall.trans (List.count_eq_one_of_mem hnodup hmem)

end RequestLog

namespace Source

variable {source : Source} {notes : Annotations} {name : String} {project : Project}
  {log : RequestLog}

theorem parts_earlier (h : source.generate notes RequestLog.renderer name [] = .ok project log) :
    ∀ (k : Nat) (r : Request), log[k]? = some r →
      ∀ text ∈ r.parts, ∃ j < k, text = RequestLog.placeholder j := by
  obtain ⟨g, planned, -, hplan, rfl⟩ := generate_log h
  obtain ⟨new, hnew, hgrows⟩ := Plan.addsHeads _ _ _ _ hplan
  rw [List.nil_append] at hnew
  subst hnew
  intro k r hr text htext
  rcases Nat.lt_or_ge k planned.length with hk | hk
  · rw [List.getElem?_append_left hk] at hr
    simpa using hgrows.earlier k r hr text htext
  · -- The request for the build file has no parts.
    rw [List.getElem?_append_right hk] at hr
    obtain rfl := List.mem_singleton.mp (List.mem_of_getElem? hr)
    simp [Request.parts] at htext

/-- The request for the main file comes last but one and is the text of the program. -/
theorem mainFile_log (h : source.generate notes RequestLog.renderer name [] = .ok project log) :
    ∃ main : Request, log[log.length - 2]? = some main ∧ 2 ≤ log.length ∧
      main.template = "openmp-cpu:main.cpp" ∧
      project.mainFile = RequestLog.placeholder (log.length - 2) := by
  obtain ⟨g, planned, -, hplan, rfl⟩ := generate_log h
  obtain ⟨prototypes, globals, own, locals, enums, decls, stmts, texts, new, -, -, -, -, -, htext,
    rfl⟩ := Generator.program_log hplan
  exact ⟨.mainFile enums prototypes decls globals locals stmts, by simp, by simp, rfl,
    by simp [htext]⟩

theorem count_parts (h : source.generate notes RequestLog.renderer name [] = .ok project log)
    {j : Nat} (hj : j < log.length - 2) :
    (log.flatMap Request.parts).count (RequestLog.placeholder j) = 1 := by
  obtain ⟨main, -, -, -, htext⟩ := mainFile_log h
  obtain ⟨g, planned, -, hplan, rfl⟩ := generate_log h
  obtain ⟨new, hnew, hgrows⟩ := Plan.addsHeads _ _ _ _ hplan
  rw [List.nil_append] at hnew
  subst hnew
  rw [htext] at hgrows
  rw [List.length_append, List.length_singleton] at hj hgrows
  have hbuild : (Request.buildFile name).parts = [] := rfl
  rw [List.flatMap_append, List.flatMap_singleton, hbuild, List.append_nil]
  exact hgrows.count_eq_one (by omega) (by omega)

theorem generate_ofTemplate
    (h : source.generate notes RequestLog.renderer name [] = .ok project log)
    (template : Request → String) :
    ∃ buildFile, source.generate notes (Renderer.ofTemplate template).recording name ((), []) =
      .ok ⟨RequestLog.stitch template log project.mainFile, buildFile⟩
        ((), RequestLog.replay template log) := by
  obtain ⟨main, -, hlength, -, htext⟩ := mainFile_log h
  obtain ⟨g, planned, hg, hplan, rfl⟩ := generate_log h
  rw [List.length_append, List.length_singleton] at hlength htext
  have hrun := Plan.replays template _ [] _ _ hplan
  rw [htext, RequestLog.stitch_append template (by omega), ← htext, RequestLog.replay_concat]
  refine ⟨template (.buildFile name), ?_⟩
  rw [generate, hg, Pass.ofResult_ok_bind, Generator.project, Generator.program_eq_run]
  exact Pass.bind_eq_ok_iff.mpr ⟨_, _, hrun, rfl⟩

/-- Generating a program with an engine that answers by `template` makes as many requests as the
log has. Each is that of the log with the engine's own answers in place of the placeholders. -/
theorem generate_eq_replay (source : Source) (notes : Annotations) (name : String)
    (project : Project) (log : RequestLog)
    (h : source.generate notes RequestLog.renderer name [] = .ok project log)
    (template : Request → String) :
    ∃ (rendered : Project) (requests : List Request),
      source.generate notes (Renderer.ofTemplate template).recording name ((), []) =
        .ok rendered ((), requests) ∧
      requests.length = log.length ∧
      (∀ (k : Nat) (r : Request), log[k]? = some r →
        requests[k]? = some (r.mapParts (RequestLog.fill (requests.map template)))) ∧
      (∀ (k : Nat) (r : Request), log[k]? = some r →
        ∀ text ∈ r.parts, ∃ j < k, text = RequestLog.placeholder j) ∧
      (∀ j < log.length - 2,
        (log.flatMap Request.parts).count (RequestLog.placeholder j) = 1) ∧
      2 ≤ log.length ∧ ∃ r, requests[log.length - 2]? = some r ∧
        r.template = "openmp-cpu:main.cpp" ∧ rendered.mainFile = template r := by
  obtain ⟨main, hmain, hlength, htemplate, htext⟩ := mainFile_log h
  obtain ⟨buildFile, hrun⟩ := generate_ofTemplate h template
  have hreplay : ∀ (k : Nat) (r : Request), log[k]? = some r →
      (RequestLog.replay template log)[k]? =
        some (r.mapParts (RequestLog.stitch template log)) :=
    fun k r hr => RequestLog.getElem?_replay template (parts_earlier h) hr
  refine ⟨_, RequestLog.replay template log, hrun, RequestLog.length_replay template log, hreplay,
    parts_earlier h, fun j hj => count_parts h hj, hlength, _, hreplay _ main hmain, ?_, ?_⟩
  · rw [Request.template_mapParts, htemplate]
  · rw [htext]
    apply RequestLog.fill_placeholder
    rw [List.getElem?_map, hreplay _ main hmain]
    rfl

/-- A conditional waits for the texts of its two branches, the main file for that of an enumeration
and of the conditional. -/
theorem generate_eq_replay_conditional :
    let line (n : UInt32) : Position := ⟨"main", n, 1⟩
    let cell : EnumDecl := ⟨line 1, "Cell", [⟨line 1, "Dead", "Cell"⟩]⟩
    let print : Stmt := .print (line 3) [.ref ⟨line 3, "Dead"⟩]
    let branch : Stmt := .cond (line 2) (.bool (line 2) true) ⟨line 2, [print]⟩ []
      (some ⟨line 4, ⟨line 4, [.pass (line 5)]⟩⟩)
    let source : Source := ⟨line 1, [.enum cell, .stmt branch]⟩
    let template (r : Request) : String := r.template ++ String.join r.parts
    ∃ session project log, Session.apply source {} = .ok () session ∧
      source.generate session.notes RequestLog.renderer "main" [] = .ok project log ∧
      ∃ rendered requests,
        source.generate session.notes (Renderer.ofTemplate template).recording "main" ((), []) =
          .ok rendered ((), requests) ∧ requests.length = log.length ∧
        ∃ r, requests[log.length - 2]? = some r ∧ rendered.mainFile = template r := by
  intro line cell print branch source template
  have hanswer : (source.compile RequestLog.renderer "main").answer [] =
      .ok (RequestLog.placeholder 5) := by decide +kernel
  obtain ⟨log, hcompile⟩ := Pass.answer_eq_ok_iff.mp hanswer
  obtain ⟨session, project, hsession, hgenerate, -⟩ := generate_of_compile hcompile
  obtain ⟨rendered, requests, hrun, hlength, -, -, -, -, r, hr, -, htext⟩ :=
    source.generate_eq_replay session.notes "main" project log hgenerate template
  exact ⟨session, project, log, hsession, hgenerate, rendered, requests, hrun, hlength, r, hr,
    htext⟩

end Source

end SimCompiler
