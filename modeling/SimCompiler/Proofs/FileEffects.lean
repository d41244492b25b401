import SimCompiler.Command.Workspace
import SimCompiler.Proofs.Lookup
import SimCompiler.Proofs.Passes

/-!
# What a command does to files

A command that fails, or that prints its result, leaves every file as it was. One that writes its
result to a file gives that file the text that it would otherwise have printed, and changes no
other file. This holds on every file system where reading changes nothing and where writing changes
one file, or none if it fails. The model of a directory is one.
-/
namespace SimCompiler

namespace Options

/-- The arguments without the output option and its value. -/
def withoutOutput : List String → List String
  | [] => []
  | "--" :: rest => "--" :: rest
  | arg :: rest =>
    if isOption arg then
      match Mention.ofArg? arg, rest with
      | some ⟨s, none⟩, value :: rest =>
        if s = .output then withoutOutput rest else arg :: value :: withoutOutput rest
      | some ⟨s, _⟩, rest => if s = .output then withoutOutput rest else arg :: withoutOutput rest
      | none, rest => arg :: withoutOutput rest
    else arg :: withoutOutput rest

/-- What was given apart from the output. -/
def Given.withoutOutput (g : Given) : Given :=
  { g with settings := g.settings.filter (·.1 ≠ .output) }

theorem lookup_withoutOutput (g : Given) (s : Setting) :
    g.withoutOutput.settings.lookup s = if s = .output then none else g.settings.lookup s :=
  lookup_filter_ne g.settings s .output

theorem set_withoutOutput {g g' : Given} {s : Setting} {value : String}
    (h : g.set s value = .ok g') :
    if s = .output then g'.withoutOutput = g.withoutOutput
    else g.withoutOutput.set s value = .ok g'.withoutOutput := by
  rw [Given.set] at h
  split at h
  · cases h
  next hfree =>
    cases h
    split
    next hs => simp [Given.withoutOutput, hs]
    next hs =>
      rw [Given.set, lookup_withoutOutput, if_neg hs, if_neg hfree]
      simp [Given.withoutOutput, List.filter_append, hs]

theorem setInput_withoutOutput {g g' : Given} {arg : String} (h : g.setInput arg = .ok g') :
    g.withoutOutput.setInput arg = .ok g'.withoutOutput := by
  rw [Given.setInput] at h ⊢
  split at h
  · cases h
  next hfree =>
    cases h
    exact if_neg hfree

theorem foldlM_setInput_withoutOutput {args : List String} {g g' : Given}
    (h : args.foldlM Given.setInput g = .ok g') :
    args.foldlM Given.setInput g.withoutOutput = .ok g'.withoutOutput := by
  induction args generalizing g with
  | nil =>
    cases h
    rfl
  | cons arg args ih =>
    rw [List.foldlM_cons] at h ⊢
    cases hset : g.setInput arg with
    | error e => rw [hset] at h; cases h
    | ok g₁ =>
      rw [hset] at h
      rw [setInput_withoutOutput hset]
      exact ih h

/-- How arguments are taken in, one by one, when none of them is refused. -/
inductive Given.Takes : Given → List String → Given → Prop
  | nil (g : Given) : Takes g [] g
  | inputs {g g' : Given} {rest : List String} (h : rest.foldlM Given.setInput g = .ok g') :
      Takes g ("--" :: rest) g'
  | attached {g g₁ g' : Given} {arg value : String} {rest : List String} {s : Setting}
      (hoption : isOption arg = true) (hmention : Mention.ofArg? arg = some ⟨s, some value⟩)
      (hset : g.set s value = .ok g₁) (h : Takes g₁ rest g') : Takes g (arg :: rest) g'
  | detached {g g₁ g' : Given} {arg value : String} {rest : List String} {s : Setting}
      (hoption : isOption arg = true) (hmention : Mention.ofArg? arg = some ⟨s, none⟩)
      (hvalue : isOption value = false) (hset : g.set s value = .ok g₁) (h : Takes g₁ rest g') :
      Takes g (arg :: value :: rest) g'
  | input {g g₁ g' : Given} {arg : String} {rest : List String} (hoption : isOption arg = false)
      (hset : g.setInput arg = .ok g₁) (h : Takes g₁ rest g') : Takes g (arg :: rest) g'

/-- The mark in front of input files is not an option with a name. -/
theorem ne_mark_of_mention {arg : String} {m : Mention} (h : Mention.ofArg? arg = some m) :
    arg ≠ "--" := by
  rintro rfl
  have hnone : (Mention.ofArg? "--").isNone = true := by decide +kernel
  rw [h] at hnone
  cases hnone

theorem ne_mark_of_input {arg : String} (h : isOption arg = false) : arg ≠ "--" := by
  rintro rfl
  exact absurd h (by decide +kernel)

theorem addAll_input {arg : String} (h : isOption arg = false) (g : Given) (rest : List String) :
    g.addAll (arg :: rest) = (g.setInput arg >>= fun g => g.addAll rest) := by
  rw [Given.addAll.eq_def]
  split
  next heq => cases heq
  next heq =>
    cases heq
    exact absurd rfl (ne_mark_of_input h)
  next heq =>
    cases heq
    rw [if_neg (by simp [h])]

theorem withoutOutput_input {arg : String} (h : isOption arg = false) (rest : List String) :
    withoutOutput (arg :: rest) = arg :: withoutOutput rest := by
  rw [withoutOutput.eq_def]
  split
  next heq => cases heq
  next heq =>
    cases heq
    exact absurd rfl (ne_mark_of_input h)
  next heq =>
    cases heq
    rw [if_neg (by simp [h])]

theorem takes_of_addAll {args : List String} {g g' : Given} (h : g.addAll args = .ok g') :
    g.Takes args g' := by
  fun_induction Given.addAll g args with
  | case1 g =>
    cases h
    exact .nil _
  | case2 g rest => exact .inputs h
  | case3 => cases h
  | case4 g arg _ hoption s value rest hmention ih =>
    obtain ⟨g₁, hset, hrest⟩ := Result.bind_eq_ok_iff.mp h
    exact .attached hoption hmention hset (ih g₁ hrest)
  | case5 => cases h
  | case6 => cases h
  | case7 g arg _ hoption s value rest hmention _ hvalue ih =>
    obtain ⟨g₁, hset, hrest⟩ := Result.bind_eq_ok_iff.mp h
    exact .detached hoption hmention (by simpa using hvalue) hset (ih g₁ hrest)
  | case8 g arg rest _ hoption ih =>
    obtain ⟨g₁, hset, hrest⟩ := Result.bind_eq_ok_iff.mp h
    exact .input (by simpa using hoption) hset (ih g₁ hrest)

theorem addAll_of_takes {args : List String} {g g' : Given} (h : g.Takes args g') :
    g.addAll args = .ok g' := by
  induction h with
  | nil g => rfl
  | inputs h => exact h
  | attached hoption hmention hset _ ih =>
    rw [Given.addAll.eq_4 _ _ _ _ _ (ne_mark_of_mention hmention) hmention, if_pos hoption, hset]
    exact ih
  | detached hoption hmention hvalue hset _ ih =>
    rw [Given.addAll.eq_6 _ _ _ _ _ (ne_mark_of_mention hmention) hmention, if_pos hoption, hvalue,
      hset]
    exact ih
  | input hoption hset _ ih =>
    rw [addAll_input hoption, hset]
    exact ih

/-- Without the output option the other arguments are taken in as before. -/
theorem takes_withoutOutput {args : List String} {g g' : Given} (h : g.Takes args g') :
    g.withoutOutput.Takes (withoutOutput args) g'.withoutOutput := by
  induction h with
  | nil g => exact .nil _
  | inputs h => exact .inputs (foldlM_setInput_withoutOutput h)
  | @attached g g₁ g' arg value rest s hoption hmention hset _ ih =>
    have hset' := set_withoutOutput hset
    rw [withoutOutput.eq_4 _ _ _ (ne_mark_of_mention hmention) _ hmention (by simp),
      if_pos hoption]
    by_cases hs : s = .output
    · rw [if_pos hs] at hset' ⊢
      rwa [hset'] at ih
    · rw [if_neg hs] at hset' ⊢
      exact .attached hoption hmention hset' ih
  | @detached g g₁ g' arg value rest s hoption hmention hvalue hset _ ih =>
    have hset' := set_withoutOutput hset
    rw [withoutOutput.eq_3 _ _ _ _ (ne_mark_of_mention hmention) hmention, if_pos hoption]
    by_cases hs : s = .output
    · rw [if_pos hs] at hset' ⊢
      rwa [hset'] at ih
    · rw [if_neg hs] at hset' ⊢
      exact .detached hoption hmention hvalue hset' ih
  | input hoption hset _ ih =>
    rw [withoutOutput_input hoption]
    exact .input hoption (setInput_withoutOutput hset) ih

/-- An option that takes a value is no inquiry. -/
theorem inquiryOf?_of_mention {arg : String} {m : Mention} (h : Mention.ofArg? arg = some m) :
    inquiryOf? arg = none := by
  rw [Mention.ofArg?, Option.bind_eq_bind, Option.bind_eq_some_iff] at h
  obtain ⟨⟨label, value⟩, hdivide, h⟩ := h
  rw [Option.bind_eq_bind, Option.bind_eq_some_iff] at h
  obtain ⟨s, hs, -⟩ := h
  have hnone : label.inquiry? = none := by
    cases label with
    | name name =>
      rw [Label.setting?, Setting.ofName?] at hs
      have hname := List.find?_some hs
      obtain rfl : s.name = name := eq_of_beq hname
      cases s <;> decide
    | letter c =>
      rw [Label.setting?, Setting.ofLetter?] at hs
      split at hs
      next hc =>
        rw [eq_of_beq hc]
        decide
      · cases hs
  rw [inquiryOf?, hdivide]
  exact hnone

theorem findInquiry?_cons {arg : String} (h : arg ≠ "--") (awaiting input : Bool)
    (rest : List String) : findInquiry? awaiting input (arg :: rest) =
      if isOption arg then
        match inquiryOf? arg, Mention.ofArg? arg with
        | some q, _ => some q
        | none, some m => findInquiry? m.attached.isNone input rest
        | none, none => none
      else if awaiting then findInquiry? false input rest
      else if input then none
      else findInquiry? false true rest := by
  rw [findInquiry?.eq_def]
  split
  next heq => cases heq
  next heq =>
    cases heq
    exact absurd rfl h
  next heq =>
    cases heq
    rfl

theorem input_of_set {g g' : Given} {s : Setting} {value : String} (h : g.set s value = .ok g') :
    g'.input = g.input := by
  rw [Given.set] at h
  split at h
  · cases h
  · cases h
    rfl

/-- Arguments that are all taken in contain no inquiry. -/
theorem findInquiry?_of_takes {args : List String} {g g' : Given} (h : g.Takes args g') :
    findInquiry? false g.input.isSome args = none := by
  induction h with
  | nil g => rfl
  | inputs h => rfl
  | attached hoption hmention hset _ ih =>
    rw [findInquiry?_cons (ne_mark_of_mention hmention), if_pos hoption,
      inquiryOf?_of_mention hmention, hmention]
    rwa [input_of_set hset] at ih
  | detached hoption hmention hvalue hset _ ih =>
    rw [findInquiry?_cons (ne_mark_of_mention hmention), if_pos hoption,
      inquiryOf?_of_mention hmention, hmention]
    dsimp only
    rw [findInquiry?_cons (ne_mark_of_input hvalue), if_neg (by simp [hvalue])]
    rwa [input_of_set hset] at ih
  | input hoption hset _ ih =>
    rw [findInquiry?_cons (ne_mark_of_input hoption), if_neg (by simp [hoption])]
    rw [Given.setInput] at hset
    split at hset
    · cases hset
    next hfree =>
      cases hset
      simpa [hfree] using ih

theorem parse_eq_ok_iff {args : List String} {o : Options} :
    parse args = .ok o ↔ ∃ g, ({} : Given).addAll args = .ok g ∧ g.options = .ok o := by
  rw [parse]
  constructor
  · intro h
    split at h
    · cases h
    · exact Result.bind_eq_ok_iff.mp h
  · rintro ⟨g, hg, hoptions⟩
    have hnone : findInquiry? false false args = none := findInquiry?_of_takes (takes_of_addAll hg)
    rw [hnone]
    exact Result.bind_eq_ok_iff.mpr ⟨g, hg, hoptions⟩

theorem options_withoutOutput {g : Given} {o : Options} (h : g.options = .ok o) :
    g.withoutOutput.options = .ok { o with output := none } := by
  have hemit := lookup_withoutOutput g .emit
  have houtput := lookup_withoutOutput g .output
  have hproject := lookup_withoutOutput g .project
  rw [if_neg (by decide)] at hemit hproject
  rw [if_pos rfl] at houtput
  rw [Given.options] at h ⊢
  simp only [hemit, houtput, hproject]
  cases hvalue : g.settings.lookup .emit with
  | none =>
    rw [hvalue] at h
    cases h
    rfl
  | some value =>
    simp only [hvalue] at h
    cases hkind : EmitKind.ofString? value with
    | none =>
      rw [hkind] at h
      cases h
    | some kind =>
      rw [hkind] at h
      cases h
      simp only [hkind]
      rfl

/-- The arguments without the output option ask for the same, but for no output file. -/
theorem parse_withoutOutput {args : List String} {o : Options} (h : parse args = .ok o) :
    parse (withoutOutput args) = .ok { o with output := none } := by
  obtain ⟨g, hg, hoptions⟩ := parse_eq_ok_iff.mp h
  exact parse_eq_ok_iff.mpr ⟨g.withoutOutput,
    addAll_of_takes (takes_withoutOutput (takes_of_addAll hg)), options_withoutOutput hoptions⟩

end Options

namespace Workspace

variable {w w' : Workspace} {location : List String} {content : ByteArray}

theorem lookup_put (w : Workspace) (location other : List String) (content : ByteArray) :
    (w.put location content).files.lookup other =
      if other = location then some content else w.files.lookup other := by
  rw [put, List.lookup_cons, lookup_filter_ne]
  by_cases h : other = location
  · simp [h]
  · have hne : (other == location) = false := by simpa using h
    simp [hne, h]

/-- A new file makes no directory disappear. -/
theorem isDirectory_put (location : List String) (content : ByteArray) {other : List String}
    (h : w.isDirectory other = true) : (w.put location content).isDirectory other = true := by
  rw [isDirectory, Bool.or_eq_true, List.any_eq_true] at h ⊢
  refine h.imp_right ?_
  rintro ⟨⟨file, bytes⟩, hmem, hinside⟩
  by_cases hfile : file = location
  · exact ⟨(location, content), by simp [put], by simpa [hfile] using hinside⟩
  · exact ⟨(file, bytes), by simp [put, hmem, hfile], hinside⟩

/-- Steps that lead through directories do not notice a file that is none. -/
theorem follow_put (hplain : w.isDirectory location = false) (content : ByteArray)
    {current target components : List String} (h : w.follow current components = .ok target) :
    (w.put location content).follow current components = .ok target := by
  induction components generalizing current with
  | nil => exact h
  | cons c cs ih =>
    rw [follow] at h ⊢
    by_cases hfile : w.isFile current = true
    · rw [if_pos hfile] at h
      cases h
    by_cases hdirectory : w.isDirectory current = true
    · have hne : current ≠ location := by
        rintro rfl
        rw [hplain] at hdirectory
        cases hdirectory
      have hfile' : (w.put location content).isFile current = w.isFile current := by
        rw [isFile, lookup_put, if_neg hne, ← isFile]
      have hdirectory' := isDirectory_put location content hdirectory
      rw [hfile', hdirectory']
      rw [hdirectory] at h
      simp only [hfile, Bool.not_true, Bool.false_eq_true, if_false] at h ⊢
      split
      next hstay =>
        rw [if_pos hstay] at h
        exact ih h
      next hmove =>
        rw [if_neg hmove] at h
        split
        next hup =>
          rw [if_pos hup] at h
          exact ih h
        next hdown =>
          rw [if_neg hdown] at h
          exact ih h
    · rw [if_neg hfile, if_pos (by simpa using hdirectory)] at h
      cases h

theorem resolve_put (hplain : w.isDirectory location = false) (content : ByteArray) {path : String}
    {target : List String} (h : w.resolve path = .ok target) :
    (w.put location content).resolve path = .ok target := by
  rw [resolve] at h ⊢
  split at h
  · cases h
  next hpath =>
    rw [if_neg hpath]
    exact follow_put hplain content h

theorem load_put (hplain : w.isDirectory location = false) {path : String}
    (h : w.resolve path = .ok location) : (w.put location content).load path = .ok content := by
  rw [load, resolve_put hplain content h]
  simp only [bind, Except.bind, lookup_put, if_true]
  rfl

/-- A file is written where its path leads to. -/
theorem exists_of_store {path text : String} (h : w.store path text = .ok w') :
    ∃ location, w.resolve path = .ok location ∧ w.isDirectory location = false ∧
      w' = w.put location text.toUTF8 := by
  rw [store] at h
  by_cases hpath : path.isEmpty = true
  · rw [if_pos hpath] at h
    cases h
  rw [if_neg hpath] at h
  obtain ⟨location, hfollow, h⟩ := Result.bind_eq_ok_iff.mp h
  by_cases hrefused : (named path ≠ components path || w.isDirectory location) = true
  · rw [if_pos hrefused] at h
    cases h
  · rw [if_neg hrefused] at h
    cases h
    obtain ⟨hnamed, hplain⟩ : named path = components path ∧ w.isDirectory location = false := by
      simpa using hrefused
    refine ⟨location, ?_, hplain, rfl⟩
    rw [resolve, if_neg hpath, ← hnamed, hfollow]

theorem run_store (w : Workspace) (path text : String) :
    (access.store path text).run w =
      match w.store path text with
      | .ok w' => (.ok (), w')
      | .error e => (.error e, w) := by
  simp only [access, StateT.run_bind, StateT.run_get, pure_bind]
  cases w.store path text <;> rfl

end Workspace

/-! ### Laws of file access -/

/-- What there is to see of files in a state: the place that a path leads to, the content of the file
at a place, and the standard input. -/
structure FileView (σ κ : Type) where
  place? : σ → String → Option κ
  content? : σ → κ → Option ByteArray
  input : σ → Except IoFault ByteArray

/-- Reading changes nothing. Writing a file gives it its content and changes no other file; where it
fails, it changes nothing. -/
structure FileAccess.Lawful [DecidableEq κ] (files : FileAccess (StateM σ))
    (view : FileView σ κ) : Prop where
  load_keeps : ∀ path s, ((files.load path).run s).2 = s
  loadInput_eq : ∀ s, files.loadInput.run s = (view.input s, s)
  store_keeps : ∀ path text s e s', (files.store path text).run s = (.error e, s') → s' = s
  store_writes : ∀ path text s s', (files.store path text).run s = (.ok (), s') →
    (files.load path).run s' = (.ok text.toUTF8, s') ∧ view.input s' = view.input s ∧
      ∃ place, view.place? s path = some place ∧ ∀ other,
        view.content? s' other = if other = place then some text.toUTF8 else view.content? s other

namespace Workspace

def view : FileView Workspace (List String) where
  place? w path := (w.resolve path).toOption
  content? w location := w.files.lookup location
  input w := .ok w.input

theorem lawful_access : access.Lawful view where
  load_keeps path w := rfl
  loadInput_eq w := rfl
  store_keeps path text w e w' h := by
    rw [run_store] at h
    cases hstore : w.store path text with
    | ok w₁ =>
      rw [hstore] at h
      cases h
    | error e' =>
      rw [hstore] at h
      cases h
      rfl
  store_writes path text w w' h := by
    rw [run_store] at h
    cases hstore : w.store path text with
    | error e =>
      rw [hstore] at h
      cases h
    | ok w₁ =>
      rw [hstore] at h
      cases h
      obtain ⟨location, hresolve, hplain, rfl⟩ := exists_of_store hstore
      have hload : (w.put location text.toUTF8).load path = .ok text.toUTF8 :=
        load_put hplain hresolve
      refine ⟨congrArg (·, w.put location text.toUTF8) hload, rfl, location, ?_, ?_⟩
      · simp only [view, hresolve]
        rfl
      · exact fun other => w.lookup_put location other _

end Workspace

/-! ### Runs of the command -/

namespace Command

variable {σ κ : Type} [DecidableEq κ] {files : FileAccess (StateM σ)} {view : FileView σ κ}

theorem run_load (h : files.Lawful view) (o : Options) (s : σ) :
    ((load files o).run s).2 = s := by
  rw [load]
  cases o.input with
  | none => rw [h.loadInput_eq]
  | some path => exact h.load_keeps path s

/-- A command reads its input once, and then at most writes its output. -/
theorem run_of_parse (h : files.Lawful view) {args : List String} {o : Options}
    (hparse : Options.parse args = .ok o) (s : σ) :
    (run files args).run s =
      match output o ((load files o).run s).1 with
      | .error e => (.error e, s)
      | .ok text => (deliver files o text).run s := by
  have hload : (load files o).run s = (((load files o).run s).1, s) :=
    Prod.ext rfl (run_load h o s)
  rw [run, hparse]
  simp only [StateT.run_bind]
  rw [hload]
  simp only [bind]
  cases output o ((load files o).run s).1 <;> rfl

/-- Arguments that ask for no compilation are answered at once. -/
theorem run_of_parse_error (files : FileAccess (StateM σ)) {args : List String} {e : OptionError}
    (hparse : Options.parse args = .error e) (s : σ) :
    ∃ answer, (run files args).run s = (answer, s) ∧
      ∀ q, e = .inquiry q → answer = .ok q.answer := by
  rw [run, hparse]
  cases e with
  | inquiry q => exact ⟨_, rfl, fun q' hq => by cases hq; rfl⟩
  | _ => exact ⟨_, rfl, fun q' hq => by cases hq⟩

/-- A command that delivers its output at most writes the file it names. -/
theorem run_deliver (h : files.Lawful view) (o : Options) (text : String) (s : σ) :
    (o.output = none ∧ (deliver files o text).run s = (.ok text, s)) ∨
      (∃ path e, o.output = some path ∧ (deliver files o text).run s = (.error (.io e), s)) ∨
      ∃ path s', o.output = some path ∧ (deliver files o text).run s = (.ok "", s') ∧
        (files.store path text).run s = (.ok (), s') := by
  rw [deliver]
  cases o.output with
  | none => exact .inl ⟨rfl, rfl⟩
  | some path =>
    obtain ⟨answer, s', hstore⟩ : ∃ answer s', (files.store path text).run s = (answer, s') :=
      ⟨_, _, rfl⟩
    simp only [StateT.run_bind, hstore]
    cases answer with
    | error e =>
      obtain rfl := h.store_keeps path text s e s' hstore
      exact .inr (.inl ⟨path, e, rfl, rfl⟩)
    | ok u => exact .inr (.inr ⟨path, s', rfl, rfl, hstore⟩)

/-- A command that fails or has no output file, or that is asked about itself, leaves all files as
they are. Otherwise the output file gets the text that the command would print without it, and no
other file changes. This is so on every lawful file system, and the workspace is one. -/
theorem run_writes_only_output :
    Workspace.access.Lawful Workspace.view ∧
    ∀ (σ κ : Type) [DecidableEq κ] (files : FileAccess (StateM σ)) (view : FileView σ κ),
      files.Lawful view → ∀ (args : List String) (s : σ),
      ∃ answer s', (run files args).run s = (answer, s') ∧
        (∀ e, answer = .error e → s' = s) ∧
        (∀ e, Options.parse args = .error e → s' = s) ∧
        (∀ q, Options.parse args = .error (.inquiry q) → answer = .ok q.answer) ∧
        (∀ o, Options.parse args = .ok o → o.output = none → s' = s) ∧
        ∀ text o path, answer = .ok text → Options.parse args = .ok o → o.output = some path →
          text = "" ∧
          ∃ printed place,
            Options.parse (Options.withoutOutput args) = .ok { o with output := none } ∧
            (run files (Options.withoutOutput args)).run s = (.ok printed, s) ∧
            (files.load path).run s' = (.ok printed.toUTF8, s') ∧
            view.place? s path = some place ∧ view.input s' = view.input s ∧
            ∀ other, view.content? s' other =
              if other = place then some printed.toUTF8 else view.content? s other := by
  refine ⟨Workspace.lawful_access, fun σ κ _ files view h args s => ?_⟩
  cases hparse : Options.parse args with
  | error e =>
    obtain ⟨answer, hrun, hinquiry⟩ := run_of_parse_error files hparse s
    refine ⟨answer, s, hrun, fun _ _ => rfl, fun _ _ => rfl, fun q hq => hinquiry q ?_, ?_, ?_⟩
    · cases hq
      rfl
    · intro o ho
      cases ho
    · intro text o path _ ho
      cases ho
  | ok o =>
    have hrun := run_of_parse h hparse s
    have hrun' := run_of_parse h (Options.parse_withoutOutput hparse) s
    have hsame : output { o with output := none } ((load files { o with output := none }).run s).1 =
        output o ((load files o).run s).1 := rfl
    rw [hsame] at hrun'
    cases hresult : output o ((load files o).run s).1 with
    | error e =>
      rw [hresult] at hrun
      refine ⟨_, _, hrun, fun _ _ => rfl, nofun, nofun, fun _ _ _ => rfl, ?_⟩
      intro text o' path htext
      cases htext
    | ok printed =>
      rw [hresult] at hrun hrun'
      obtain ⟨hnone, hdeliver⟩ | ⟨path, e, hsome, hdeliver⟩ | ⟨path, s', hsome, hdeliver, hstore⟩ :=
        run_deliver h o printed s
      · refine ⟨_, _, hrun.trans hdeliver, fun _ _ => rfl, nofun, nofun, fun _ _ _ => rfl, ?_⟩
        intro text o' path _ ho hpath
        cases ho
        cases hnone.symm.trans hpath
      · refine ⟨_, _, hrun.trans hdeliver, fun _ _ => rfl, nofun, nofun, fun _ _ _ => rfl, ?_⟩
        intro text o' path' htext
        cases htext
      · refine ⟨_, _, hrun.trans hdeliver, nofun, nofun, nofun, ?_, ?_⟩
        · intro o' ho hnone
          cases ho
          cases hsome.symm.trans hnone
        · intro text o' path' htext ho hpath
          cases ho
          cases htext
          cases hsome.symm.trans hpath
          obtain ⟨hload, hinput, place, hplace, hcontent⟩ := h.store_writes path printed s s' hstore
          exact ⟨rfl, printed, place, Options.parse_withoutOutput hparse, hrun', hload, hplace,
            hinput, hcontent⟩

/-- The output file is the input file itself; another file is beside it. -/
theorem run_writes_only_output_over_input :
    let program := "\x7b\"position\":[\"main\",1,1],\"items\":[]\x7d"
    let w : Workspace := { files := [(["a.json"], program.toUTF8), (["b.json"], program.toUTF8)] }
    ∃ printed w', (run Workspace.access ["-o", "a.json", "--module=m", "a.json"]).run w =
        (.ok "", w') ∧
      (run Workspace.access ["--module=m", "a.json"]).run w = (.ok printed, w) ∧
      w'.load "a.json" = .ok printed.toUTF8 ∧
      w'.files.lookup ["b.json"] = some program.toUTF8 ∧
      (run Workspace.access ["-o", "--help", "a.json"]).run w = (.ok Inquiry.help.answer, w) := by
  intro program w
  let args := ["-o", "a.json", "--module=m", "a.json"]
  have hanswer : ((run Workspace.access args).run w).1 = .ok "" := by decide +kernel
  have hparse : Options.parse args =
      .ok { input := some "a.json", output := some "a.json", project := "m" } := by decide +kernel
  have hother : Options.withoutOutput args = ["--module=m", "a.json"] := by decide +kernel
  obtain ⟨hlawful, hruns⟩ := run_writes_only_output
  obtain ⟨answer, w', hrun, -, -, -, -, hwritten⟩ := hruns _ _ _ _ hlawful args w
  obtain rfl : answer = .ok "" := by rw [← hanswer, hrun]
  obtain ⟨-, printed, place, -, hprinted, hload, hplace, -, hcontent⟩ :=
    hwritten "" _ "a.json" rfl hparse rfl
  rw [hother] at hprinted
  refine ⟨printed, w', hrun, hprinted, congrArg Prod.fst hload, ?_, ?_⟩
  · have hlocation : Workspace.view.place? w "a.json" = some ["a.json"] := by decide +kernel
    cases hplace.symm.trans hlocation
    exact (hcontent ["b.json"]).trans (if_neg (by decide))
  · have hasked : Options.parse ["-o", "--help", "a.json"] = .error (.inquiry .help) := by
      decide +kernel
    obtain ⟨answer', w'', hrun', -, hkept, hanswered, -, -⟩ :=
      hruns _ _ _ _ hlawful ["-o", "--help", "a.json"] w
    rw [hrun', hkept _ hasked, hanswered _ hasked]

end Command

end SimCompiler
