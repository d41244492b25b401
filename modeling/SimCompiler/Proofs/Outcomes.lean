import SimCompiler.Proofs.ErrorPositions
import SimCompiler.Proofs.Generation
import SimCompiler.Proofs.PlanRuns

/-!
# How a compilation ends

The faults of a program are found before the template engine is asked for anything. After that only
two things can go wrong apart from a refusal of the engine, and both are internal errors: a printed
enumeration, and a schema-less value that is not a built-in constant.
-/
namespace SimCompiler

/-- If a pass that settles `p` fails, then `p` does not hold and the error is internal. -/
theorem Pass.Settles.of_error {x : Pass σ α} {p : Prop} (h : x.Settles p) {s s' : σ}
    {e : CompileError} (hrun : x s = .error e s') : ¬ p ∧ ∃ d, e = .defect d := by
  by_cases hp : p
  · obtain ⟨a, s₁, ha⟩ := h.ok hp s
    cases ha.symm.trans hrun
  · obtain ⟨d, s₁, hd⟩ := h.defect hp s
    cases hd.symm.trans hrun
    exact ⟨hp, d, rfl⟩

/-- The generator has no text for the node at `path`: a print statement has the name of an
enumeration among its arguments, or an indexed value is no built-in constant. -/
def Node.Stuck (notes : Annotations) (scopes : Scopes) (path : Path) : Node → Prop
  | .stmt (.print _ args) => ∃ i r t, args[i]? = some (.ref r) ∧
      notes.resolve scopes (.arg i :: path) r = .ok (.enum t)
  | .expr (.json _ root _ _) => ∃ d, notes.resolve scopes (.root :: path) root = .ok d ∧
      ∀ k, d ≠ .builtinConst k
  | _ => False

namespace Source

variable {s : Source} {notes : Annotations}

/-- How generation ends does not depend on the answers of the engine. -/
theorem alike_generate (s : Source) (notes : Annotations) (name : String) (engine : Renderer σ)
    (engine' : Renderer τ) :
    (s.generate notes engine name).Alike (s.generate notes engine' name) := by
  rw [generate, generate]
  cases Generator.ofAnnotations notes with
  | error e => exact fun t t' => .inr (.inr (.inl ⟨e, t, t', rfl, rfl⟩))
  | ok g =>
    rw [Pass.ofResult_ok_bind, Pass.ofResult_ok_bind, Generator.project, Generator.project,
      Generator.program_eq_run, Generator.program_eq_run]
    exact (Plan.alike_run engine engine' _).bind fun _ _ =>
      (Generator.alike_ask engine engine' _ _).bind fun _ _ => Pass.alike_pure _ _

/-- Generating an accepted program finds no fault in it. -/
theorem Accepted.generate_ne_code (h : s.Accepted notes) (engine : Renderer σ) (name : String)
    {t t' : σ} {e : CodeError} : s.generate notes engine name t ≠ .error (.code e) t' := by
  intro hrun
  have hsettles := h.settles_generate RequestLog.answers name
  rcases alike_generate s notes name engine RequestLog.renderer t [] with
    ⟨refusal, _, hrefused⟩ | ⟨refusal, _, hrefused⟩ | ⟨e', _, _, herror, hlog⟩ |
      ⟨_, _, _, _, hok, -⟩
  · cases hrun.symm.trans hrefused
  · obtain ⟨-, d, hd⟩ := hsettles.of_error hrefused
    cases hd
  · obtain ⟨-, d, rfl⟩ := hsettles.of_error hlog
    cases hrun.symm.trans herror
  · cases hrun.symm.trans hok

/-- If a program is accepted and yet cannot be compiled, generating it fails. -/
theorem generate_of_compile_error {session : Session} (h : Session.apply s {} = .ok () session)
    {engine : Renderer σ} {name : String} {t t' : σ} {e : CompileError}
    (hcompile : s.compile engine name t = .error e t') :
    s.generate session.notes engine name t = .error e t' := by
  rw [compile, h] at hcompile
  change (s.generate session.notes engine name >>= _) t = _ at hcompile
  rw [Pass.run_bind] at hcompile
  cases hrun : s.generate session.notes engine name t with
  | ok project t₁ =>
    rw [hrun] at hcompile
    cases hcompile
  | error e' t₁ =>
    rw [hrun] at hcompile
    cases hcompile
    rfl

/-- A fault of the program is one of names or types, is reported at a node, and is found before the
engine gets any request. -/
theorem compile_fault_at_node (source : Source) (engine : Renderer σ) (name : String) (s s' : σ)
    (e : CodeError) (h : source.compile engine name s = .error (.code e) s') :
    (e.kind = .reference ∨ e.kind = .type) ∧
      (∃ path node, (path, node) ∈ source.outline.nodes ∧ e.position = some node.position) ∧
      s' = s ∧ source.compile engine.recording name (s, []) = .error (.code e) (s, []) := by
  cases hsession : Session.apply source {} with
  | error e' session =>
    have hblames := source.blames_apply _ _ _ hsession
    rw [compile, hsession] at h
    cases h
    obtain ⟨hkind, hplace⟩ := hblames
    obtain ⟨⟨path, node⟩, hnode, hposition⟩ := List.mem_map.mp hplace
    refine ⟨hkind, ⟨path, node, hnode, hposition.symm⟩, rfl, ?_⟩
    rw [compile, hsession]
    rfl
  | ok _ session =>
    have hgenerate := generate_of_compile_error hsession h
    exact absurd hgenerate ((accepted_of_apply hsession).generate_ne_code engine name)

/-- An argument that does not fit its parameter is reported at the argument, also to an engine that
would refuse every request. -/
theorem compile_fault_at_node_argument :
    let place (n c : UInt32) : Position := ⟨"main", n, c⟩
    let int (n c : UInt32) : TypeRef := ⟨place n c, "int", false⟩
    let body : Block := ⟨place 2 3, [.ret (place 2 3) (some (.ref ⟨place 2 10, "a"⟩))]⟩
    let func : Func := ⟨place 1 1, "f", [⟨place 1 6, "a", int 1 9⟩], some (int 1 15), body⟩
    let call : Expr := .call (place 3 7) ⟨place 3 7, "f"⟩ [.str (place 3 9) "x"]
    let source : Source := ⟨place 1 1, [.func func, .stmt (.print (place 3 1) [call])]⟩
    let engine := RequestLog.refusing 0 fun r => .unknownTemplate r.template
    ∃ e log, source.compile engine "main" [] = .error (.code e) log ∧
      (e.kind = .reference ∨ e.kind = .type) ∧
      (∃ path node, (path, node) ∈ source.outline.nodes ∧ e.position = some node.position) ∧
      log = [] ∧ e.position = some (place 3 9) := by
  intro place int body func call source engine
  have hanswer : (source.compile engine "main").answer [] = .error (.code
      ⟨.argumentType 1 (.func ⟨⟨0⟩, place 1 1, "f", [int 1 9], some (int 1 15)⟩) "int" "str",
        some (place 3 9)⟩) := by decide +kernel
  obtain ⟨log, hcompile⟩ := Pass.answer_eq_error_iff.mp hanswer
  obtain ⟨hkind, hnode, hlog, -⟩ :=
    source.compile_fault_at_node engine "main" [] log _ hcompile
  exact ⟨_, log, hcompile, hkind, hnode, hlog, rfl⟩

/-- The names of an accepted program are all declared. -/
theorem Accepted.resolves (h : s.Accepted notes) {i : Nat} {item : Item}
    (hi : s.items[i]? = some item) {path : Path} {r : Ref}
    (hr : (path, .ref r) ∈ (item.outline [.item i]).nodes) :
    ∃ d, (s.typeScope item).resolve r = .ok d := by
  obtain ⟨type, htyping⟩ := h.filled.typed path (.ref r) (mem_nodes_of_item hi hr)
  have htype := ((s.describes_item hi).types path (.ref r) hr _).mp htyping
  simp only [TypeScope.typeOf, TypeScope.checkRef, Result.bind_eq_ok_iff,
    Result.orPosition_eq_ok_iff] at htype
  obtain ⟨d, hd, -⟩ := htype
  exact ⟨d, hd⟩

/-- What the generator reads is what is in scope. -/
theorem Accepted.stuck_iff (h : s.Accepted notes) {i : Nat} {item : Item}
    (hi : s.items[i]? = some item) {path : Path} {node : Node}
    (hnode : (path, node) ∈ (item.outline [.item i]).nodes) :
    node.Stuck notes s.walked.scopes path ↔ ¬ node.HasCode (s.typeScope item) := by
  have hclosed := faithful_item item [.item i]
  cases node with
  | stmt st =>
    cases st with
    | print p args =>
      have harg : ∀ (j : Nat) (r : Ref), args[j]? = some (.ref r) →
          (.arg j :: path, .ref r) ∈ (item.outline [.item i]).nodes := by
        intro j r hj
        have hchild := Expr.outline_mem_outlines hj path
        have hmem := hclosed.mem_nodes_child hnode (by rwa [Node.outline, Stmt.outline])
        simpa using hmem
      simp only [Node.Stuck, Node.HasCode, not_forall, not_not]
      constructor
      · rintro ⟨j, r, t, hj, hr⟩
        rw [h.resolve_eq hi (harg j r hj)] at hr
        exact ⟨r, t, List.mem_of_getElem? hj, hr⟩
      · rintro ⟨r, t, hmem, hr⟩
        obtain ⟨j, hj⟩ := List.mem_iff_getElem?.mp hmem
        rw [← h.resolve_eq hi (harg j r hj)] at hr
        exact ⟨j, r, t, hj, hr⟩
    | _ => simp [Node.Stuck, Node.HasCode]
  | expr e =>
    cases e with
    | json p root indices target =>
      have hroot : (.root :: path, .ref root) ∈ (item.outline [.item i]).nodes :=
        hclosed.mem_nodes_child hnode (by rw [Node.outline, Expr.outline]; exact List.mem_cons_self)
      obtain ⟨d, hd⟩ := h.resolves hi hroot
      simp only [Node.Stuck, Node.HasCode, h.resolve_eq hi hroot, hd, Except.ok.injEq]
      simp
    | _ => simp [Node.Stuck, Node.HasCode]
  | _ => simp [Node.Stuck, Node.HasCode]

/-- Generating an accepted program fails exactly if it contains a node without a text, and the error
is an internal one. -/
theorem generate_fails_iff_stuck (source : Source) (session : Session) (name : String)
    (log : RequestLog) (h : Session.apply source {} = .ok () session) :
    ∃ scopes, session.notes.readScopes = .ok scopes ∧
      ((∃ e log', source.generate session.notes RequestLog.renderer name log = .error e log') ↔
        ∃ path node, (path, node) ∈ source.outline.nodes ∧
          node.Stuck session.notes scopes path) ∧
      ∀ e log', source.generate session.notes RequestLog.renderer name log = .error e log' →
        e.isInternal = true := by
  have haccepted := accepted_of_apply h
  have hsettles := haccepted.settles_generate RequestLog.answers name
  refine ⟨source.walked.scopes, haccepted.scopes, ⟨?_, ?_⟩, ?_⟩
  · rintro ⟨e, log', hrun⟩
    obtain ⟨hcode, -⟩ := hsettles.of_error hrun
    simp only [TypeScope.HaveCode, not_forall] at hcode
    obtain ⟨i, item, hi, ⟨path, node⟩, hnode, hcode⟩ := hcode
    exact ⟨path, node, mem_nodes_of_item hi hnode, (haccepted.stuck_iff hi hnode).mpr hcode⟩
  · rintro ⟨path, node, hnode, hstuck⟩
    rcases mem_nodes hnode with heq | ⟨i, item, hi, hnode⟩
    · cases heq
      exact hstuck.elim
    · have hcode := (haccepted.stuck_iff hi hnode).mp hstuck
      obtain ⟨d, log', hrun⟩ :=
        hsettles.defect (fun hall => hcode (hall i item hi (path, node) hnode)) log
      exact ⟨.defect d, log', hrun⟩
  · intro e log' hrun
    obtain ⟨-, d, rfl⟩ := hsettles.of_error hrun
    rfl

/-- A variable of an enumeration that is called `json` passes for a schema-less value. -/
theorem generate_fails_iff_stuck_json :
    let line (n : UInt32) : Position := ⟨"main", n, 1⟩
    let json : EnumDecl := ⟨line 1, "json", [⟨line 1, "Empty", "json"⟩]⟩
    let x : Variable := ⟨line 2, "x", ⟨line 2, "json", false⟩⟩
    let init : Stmt := .assign (line 2) ⟨line 2, "x"⟩ (.ref ⟨line 2, "Empty"⟩) (some x)
    let value : Expr := .json (line 3) ⟨line 3, "x"⟩ [.int (line 3) 0] ⟨line 3, "int", false⟩
    let source : Source := ⟨line 1, [.enum json, .stmt init, .stmt (.print (line 3) [value])]⟩
    ∃ session scopes, Session.apply source {} = .ok () session ∧
      session.notes.readScopes = .ok scopes ∧
      (∃ path node, (path, node) ∈ source.outline.nodes ∧
        node.Stuck session.notes scopes path) ∧
      ∃ e log, source.generate session.notes RequestLog.renderer "main" [] = .error e log ∧
        e.isInternal = true := by
  intro line json x init value source
  have hanswer : (source.compile RequestLog.renderer "main").answer [] =
      .error (.defect .jsonVariable) := by decide +kernel
  have haccepts : (Session.apply source).answer {} = .ok () := by decide +kernel
  obtain ⟨log, hcompile⟩ := Pass.answer_eq_error_iff.mp hanswer
  obtain ⟨session, hsession⟩ := Pass.answer_eq_ok_iff.mp haccepts
  have hgenerate := generate_of_compile_error hsession hcompile
  obtain ⟨scopes, hscopes, hfails, hinternal⟩ :=
    source.generate_fails_iff_stuck session "main" [] hsession
  exact ⟨session, scopes, hsession, hscopes, hfails.mp ⟨_, log, hgenerate⟩, _, log, hgenerate,
    hinternal _ log hgenerate⟩

end Source

end SimCompiler
