import SimCompiler.Proofs.NameBinding

/-!
# Names are looked up in lexical scope

The declarations that a reference can see are those of the function around it and, behind them,
the built-ins and the root-level declarations of the whole program. Once names are bound, every
reference resolves to the first of them that has its name.
-/
namespace SimCompiler

/-- The first declaration of `name` among `declarations`. -/
def Declaration.resolveIn (declarations : List Declaration) (name : String) : Result Declaration :=
  match declarations.find? (·.name == name) with
  | some d => .ok d
  | none => Result.fault (.undefined name)

theorem Declaration.mem_of_resolveIn {declarations : List Declaration} {name : String}
    {d : Declaration} (h : Declaration.resolveIn declarations name = .ok d) : d ∈ declarations := by
  rw [Declaration.resolveIn] at h
  cases hfind : declarations.find? (·.name == name) with
  | none => simp [hfind, Result.fault] at h
  | some d' =>
    rw [hfind] at h
    cases h
    exact List.mem_of_find?_eq_some hfind

namespace Source

/-- What can be seen everywhere in a program. -/
def outerScope (s : Source) : List Declaration := Declaration.builtins ++ s.declarations

/-- What can be seen inside an item, innermost first. -/
def inScope (s : Source) (item : Item) : List Declaration := item.ownDeclarations ++ s.outerScope

end Source

namespace Walked

/-- The root frame has no parent, so a look-up that reaches it ends there. -/
theorem lookupWithin_root (w : Walked) (name : String) (steps : Nat) :
    w.scopes.lookupWithin name (steps + 1) Scopes.root =
      .ok ((Site.held w.sites Scopes.root).find? (·.name == name)) := by
  have hframe : w.scopes.frame Scopes.root =
      .ok ⟨"<root>", none, Site.held w.sites Scopes.root⟩ := rfl
  rw [Scopes.lookupWithin, hframe]
  simp only [bind, Except.bind, Frame.get?]
  cases (Site.held w.sites Scopes.root).find? (·.name == name) <;> rfl

/-- A look-up that starts in a function goes on in the root frame. -/
theorem lookupWithin_func (w : Walked) {k : Nat} (hk : k < w.funcs.length) (name : String)
    (steps : Nat) :
    w.scopes.lookupWithin name (steps + 2) ⟨k + 1⟩ =
      .ok ((Site.held w.sites ⟨k + 1⟩ ++ Site.held w.sites Scopes.root).find?
        (·.name == name)) := by
  have hframe : w.scopes.frame ⟨k + 1⟩ = .ok (w.funcFrame k w.funcs[k]) := by
    simp [Scopes.frame, scopes, hk]
  rw [Scopes.lookupWithin, hframe]
  simp only [bind, Except.bind, Frame.get?, funcFrame, List.find?_append]
  cases (Site.held w.sites ⟨k + 1⟩).find? (·.name == name) with
  | some d => rfl
  | none => simp [lookupWithin_root]

theorem size_scopes (w : Walked) : w.scopes.size = 1 + w.funcs.length := by
  simp [Scopes.size, scopes, Nat.add_comm]

theorem sites_enterAll (w : Walked) (i : Nat) (items : List Item) :
    (w.enterAll i items).sites = w.sites ++ Source.sitesFrom w.funcs.length items := by
  induction items generalizing w i with
  | nil => simp [enterAll, Source.sitesFrom]
  | cons item items ih =>
    rw [enterAll, ih, length_funcs_enter, Source.sitesFrom]
    simp [enter]

theorem funcs_enterAll (w : Walked) (i : Nat) (items : List Item) :
    (w.enterAll i items).funcs = w.funcs ++ (items.zipIdx i).filterMap fun
      | (.func f, i) => some ([.item i], f)
      | _ => none := by
  induction items generalizing w i with
  | nil => simp [enterAll]
  | cons item items ih =>
    rw [enterAll, ih, List.zipIdx_cons]
    cases item <;> simp [enter, Item.func?]

/-- References stay bound. -/
theorem mem_refs_enterAll_of_mem {w : Walked} {x : Path × FrameId} (hx : x ∈ w.refs) (i : Nat)
    (items : List Item) : x ∈ (w.enterAll i items).refs := by
  induction items generalizing w i with
  | nil => exact hx
  | cons item items ih => exact ih (List.mem_append_left _ hx) (i + 1)

theorem map_fst_refs_enterAll (w : Walked) (i : Nat) (items : List Item) :
    (w.enterAll i items).refs.map Prod.fst = w.refs.map Prod.fst ++
      refPaths (Outline.nodesAll (Outline.numbered .item Item.outline [] i items)) := by
  induction items generalizing w i with
  | nil => simp [enterAll, Outline.numbered]
  | cons item items ih =>
    rw [enterAll, ih, Outline.numbered, Outline.nodesAll_cons, refPaths_append]
    simp [enter, Function.comp_def]

/-- The references of an item are bound to the frame around its content. -/
theorem mem_refs_enterAll {w : Walked} {i j : Nat} {items : List Item} {item : Item}
    (hj : items[j]? = some item) {path : Path}
    (hpath : path ∈ refPaths (item.outline [.item (i + j)]).nodes) :
    (path, itemFrame (w.funcs.length + (Source.funcsIn (items.take j)).length) item) ∈
      (w.enterAll i items).refs := by
  induction items generalizing w i j with
  | nil => simp at hj
  | cons first items ih =>
    cases j with
    | zero =>
      obtain rfl : first = item := by simpa using hj
      refine mem_refs_enterAll_of_mem (List.mem_append_right _ ?_) (i + 1) items
      exact List.mem_map_of_mem hpath
    | succ j =>
      have hcount : (w.enter [.item i] first).funcs.length +
          (Source.funcsIn (items.take j)).length =
          w.funcs.length + (Source.funcsIn ((first :: items).take (j + 1))).length := by
        rw [length_funcs_enter, Source.length_funcsIn_take_succ, Nat.add_assoc]
      rw [← hcount]
      refine ih (by simpa using hj) ?_
      rwa [Nat.add_assoc, Nat.add_comm 1]

theorem map_snd_funcs_enterAll (w : Walked) (i : Nat) (items : List Item) :
    (w.enterAll i items).funcs.map Prod.snd = w.funcs.map Prod.snd ++ Source.funcsIn items := by
  induction items generalizing w i with
  | nil => simp [enterAll, Source.funcsIn]
  | cons item items ih =>
    rw [enterAll, ih]
    cases item <;> simp [enter, Source.funcsIn, Item.func?]

theorem nodup_funcs_enterAll {w : Walked} {i : Nat} (hw : w.Before i)
    (hnodup : (w.funcs.map Prod.fst).Nodup) (items : List Item) :
    ((w.enterAll i items).funcs.map Prod.fst).Nodup := by
  induction items generalizing w i with
  | nil => exact hnodup
  | cons item items ih =>
    refine ih (hw.enter item) ?_
    cases hitem : item.func? with
    | none => simpa [enter, hitem] using hnodup
    | some f =>
      have hnew := hw.not_mem
      simp only [enter, hitem, Option.map_some, Option.toList_some, List.map_append, List.map_cons,
        List.map_nil]
      exact List.nodup_append.mpr ⟨hnodup, by simp, by rintro p hp q hq rfl; simp_all⟩

/-- The slots of the functions hold what goes with the number of the function. -/
theorem get?_numbered {w : Walked} (hnodup : (w.funcs.map Prod.fst).Nodup) {k : Nat}
    {x : Path × Func} (hk : w.funcs[k]? = some x) (g : Nat → α) :
    (SlotTable.mk (w.funcs.mapIdx fun k f => (f.1, g k)).reverse).get? x.1 = some (g k) := by
  apply SlotTable.get?_of_mem
  · rwa [List.map_reverse, List.nodup_reverse, map_fst_mapIdx]
  · rw [List.mem_reverse, List.mem_mapIdx]
    obtain ⟨hlt, rfl⟩ := List.getElem?_eq_some_iff.mp hk
    exact ⟨k, hlt, rfl⟩

end Walked

namespace Source

theorem sites_walked (s : Source) : s.walked.sites = s.sites := by
  simp [walked, Walked.sites_enterAll, sites]

theorem funcs_walked (s : Source) : s.walked.funcs = s.functions := by
  rw [walked, Walked.funcs_enterAll]
  rfl

theorem nodup_funcs_walked (s : Source) : (s.walked.funcs.map Prod.fst).Nodup :=
  Walked.nodup_funcs_enterAll (by simp [Walked.Before]) (by simp) s.items

theorem map_snd_funcs_walked (s : Source) : s.walked.funcs.map Prod.snd = funcsIn s.items := by
  simp [walked, Walked.map_snd_funcs_enterAll]

theorem held_root_walked (s : Source) :
    Site.held s.walked.sites Scopes.root = s.outerScope := by
  simp [Site.held, FrameId.prelude, sites_walked, sites, inFrame_root_sitesFrom, outerScope,
    declarations]

theorem held_func_walked (s : Source) {k : Nat} {f : Func} (hk : (funcsIn s.items)[k]? = some f) :
    Site.held s.walked.sites ⟨k + 1⟩ = f.declarations := by
  simp [Site.held, FrameId.prelude, sites_walked, inFrame_succ_sites, hk]

/-- The number of a function is the number of functions before it. -/
theorem getElem?_funcsIn {items : List Item} {j : Nat} {f : Func}
    (hj : items[j]? = some (.func f)) :
    (funcsIn items)[(funcsIn (items.take j)).length]? = some f := by
  obtain ⟨hlt, hget⟩ := List.getElem?_eq_some_iff.mp hj
  have hsplit : items = items.take j ++ .func f :: items.drop (j + 1) := by
    rw [← hget, List.getElem_cons_drop, List.take_append_drop]
  have hfuncs : funcsIn items =
      funcsIn (items.take j) ++ f :: funcsIn (items.drop (j + 1)) := by
    conv_lhs => rw [hsplit]
    simp [funcsIn, Item.func?]
  rw [hfuncs]
  simp

/-- A look-up from the frame around the content of an item sees what is in scope there. -/
theorem resolve_scopes_walked (s : Source) {j : Nat} {item : Item} (hj : s.items[j]? = some item)
    (name : String) :
    s.walked.scopes.resolve (Walked.itemFrame (funcsIn (s.items.take j)).length item) name =
      Declaration.resolveIn (s.inScope item) name := by
  have hlookup : s.walked.scopes.lookup
      (Walked.itemFrame (funcsIn (s.items.take j)).length item) name =
      .ok ((s.inScope item).find? (·.name == name)) := by
    rw [Scopes.lookup]
    cases item with
    | func f =>
      have hk := getElem?_funcsIn hj
      have hlt : (funcsIn (s.items.take j)).length < s.walked.funcs.length := by
        have hlength := (List.getElem?_eq_some_iff.mp hk).1
        rwa [← map_snd_funcs_walked, List.length_map] at hlength
      have hsize := s.walked.size_scopes
      obtain ⟨n, hn⟩ : ∃ n, s.walked.scopes.size = n + 1 := ⟨_, by rw [hsize, Nat.add_comm]⟩
      rw [hn, Walked.itemFrame, Walked.lookupWithin_func _ hlt, held_root_walked,
        held_func_walked s hk]
      rfl
    | _ =>
      change s.walked.scopes.lookupWithin name _ Scopes.root = _
      rw [Walked.lookupWithin_root, held_root_walked]
      rfl
  rw [Scopes.resolve, hlookup, Declaration.resolveIn]
  cases (s.inScope item).find? (·.name == name) <;> rfl

theorem nodup_refs_walked (s : Source) : (s.walked.refs.map Prod.fst).Nodup := by
  rw [walked, Walked.map_fst_refs_enterAll]
  exact s.nodup_refPaths

/-- A node below the program itself stands in one of its items. -/
theorem mem_nodes {s : Source} {x : Path × Node} (hx : x ∈ s.outline.nodes) :
    x = ([], .source s) ∨
      ∃ (j : Nat) (item : Item), s.items[j]? = some item ∧ x ∈ (item.outline [.item j]).nodes := by
  rw [outline, Outline.nodes_mk] at hx
  rcases List.mem_cons.mp hx with rfl | hx
  · exact .inl rfl
  · rw [Outline.nodesAll_eq_flatMap, List.mem_flatMap] at hx
    obtain ⟨o, ho, hx⟩ := hx
    obtain ⟨j, item, hj, rfl⟩ := Outline.mem_numbered.mp ho
    exact .inr ⟨j, item, hj, by simpa using hx⟩

/-- A reference is bound to the frame around the content of its item. -/
theorem refFrames_boundNotes (s : Source) {j : Nat} {item : Item} (hj : s.items[j]? = some item)
    {path : Path} {r : Ref} (hr : (path, .ref r) ∈ (item.outline [.item j]).nodes) :
    s.boundNotes.refFrames.get? path =
      some (Walked.itemFrame (funcsIn (s.items.take j)).length item) := by
  have hpath : path ∈ refPaths (item.outline [.item (0 + j)]).nodes := by
    rw [Nat.zero_add]
    exact List.mem_map.mpr ⟨(path, .ref r), List.mem_filter.mpr ⟨hr, rfl⟩, rfl⟩
  have hmem := Walked.mem_refs_enterAll (w := {}) hj hpath
  apply SlotTable.get?_of_mem
  · change (s.walked.refs.reverse.map Prod.fst).Nodup
    rw [List.map_reverse, List.nodup_reverse]
    exact s.nodup_refs_walked
  · change _ ∈ s.walked.refs.reverse
    rw [List.mem_reverse, walked]
    simpa using hmem

theorem resolve_boundNotes (s : Source) {j : Nat} {item : Item} (hj : s.items[j]? = some item)
    {path : Path} {r : Ref} (hr : (path, .ref r) ∈ (item.outline [.item j]).nodes) :
    s.boundNotes.resolve s.walked.scopes path r =
      Declaration.resolveIn (s.inScope item) r.name := by
  have hframe := s.refFrames_boundNotes hj hr
  rw [Annotations.resolve, Annotations.readRefFrame, SlotTable.read_eq_ok hframe]
  exact s.resolve_scopes_walked hj r.name

/-- Every function has its place in the source as its number and the root frame as the parent of
its own, there are no other frames, and every reference stands for the first declaration of its
name that is in scope. -/
theorem bindNames_resolves_lexically (source : Source) (notes : Annotations)
    (h : source.bindNames {} = .ok () notes) :
    ∃ scopes, notes.readScopes = .ok scopes ∧ scopes.size = 1 + source.functions.length ∧
      (∀ i path f, source.functions[i]? = some (path, f) →
        notes.readFuncId path = .ok ⟨i⟩ ∧ notes.readFuncFrame path = .ok ⟨i + 1⟩ ∧
        ∃ frame, scopes.frame ⟨i + 1⟩ = .ok frame ∧ frame.parent = some Scopes.root) ∧
      ∀ path r, (path, .ref r) ∈ source.outline.nodes → ∃ j item,
        source.items[j]? = some item ∧ (path, .ref r) ∈ (item.outline [.item j]).nodes ∧
        notes.resolve scopes path r = Declaration.resolveIn (source.inScope item) r.name := by
  obtain ⟨-, rfl⟩ := (source.bindNames_eq_ok_iff notes).mp h
  refine ⟨source.walked.scopes, rfl, ?_, ?_, ?_⟩
  · rw [Walked.size_scopes, funcs_walked]
  · intro i path f hi
    rw [← funcs_walked] at hi
    have hnodup := source.nodup_funcs_walked
    have hid := Walked.get?_numbered hnodup hi FuncId.mk
    have hframe := Walked.get?_numbered hnodup hi fun k => FrameId.mk (k + 1)
    refine ⟨?_, ?_, source.walked.funcFrame i (path, f), ?_, rfl⟩
    · exact SlotTable.read_eq_ok hid .functionId
    · exact SlotTable.read_eq_ok hframe .functionFrame
    · simp [Scopes.frame, Walked.scopes, hi]
  · intro path r hr
    rcases mem_nodes hr with heq | ⟨j, item, hj, hmem⟩
    · simp at heq
    · exact ⟨j, item, hj, hmem, source.resolve_boundNotes hj hmem⟩

/-- A variable that is declared only after its use hides a global one all the same. -/
theorem bindNames_resolves_lexically_hidden_global :
    let line (n : UInt32) : Position := ⟨"main", n, 1⟩
    let a (n : UInt32) : Variable := ⟨line n, "a", ⟨line n, "int", false⟩⟩
    let r (n : UInt32) : Ref := ⟨line n, "a"⟩
    let body : Block := ⟨line 3, [.print (line 3) [.ref (r 3)],
      .assign (line 4) (r 4) (.int (line 4) 1) (some (a 4))]⟩
    let source : Source := ⟨line 1, [.globalVar (a 1), .func ⟨line 2, "f", [], none, body⟩]⟩
    source.bindNames {} = .ok () source.boundNotes ∧
      ∃ scopes, source.boundNotes.readScopes = .ok scopes ∧
        source.boundNotes.resolve scopes [.arg 0, .stmt 0, .body, .item 1] (r 3) =
          .ok (.localVar (a 4)) := by
  intro line a r body source
  have hbind : source.bindNames {} = .ok () source.boundNotes := by
    refine (source.bindNames_eq_ok_iff _).mpr ⟨⟨by decide, by decide, ?_⟩, rfl⟩
    intro f hf
    obtain rfl : f = ⟨line 2, "f", [], none, body⟩ := by simpa [source] using hf
    decide
  obtain ⟨scopes, hscopes, -, -, hresolve⟩ :=
    source.bindNames_resolves_lexically source.boundNotes hbind
  obtain ⟨j, item, hj, hmem, hr⟩ := hresolve [.arg 0, .stmt 0, .body, .item 1] (r 3) (by
    simp [source, body, outline, Outline.numbered, Item.outline, Func.outline, Block.outline,
      Stmt.outlines, Stmt.outline, Expr.outlines, Expr.outline, Ref.outline])
  have hsuffix := (item.wellPathed_outline [.item j]).path_suffix _ hmem
  obtain rfl : j = 1 := by simpa [List.suffix_cons_iff] using hsuffix
  obtain rfl : Item.func ⟨line 2, "f", [], none, body⟩ = item := by simpa [source] using hj
  exact ⟨hbind, scopes, hscopes, hr.trans rfl⟩

end Source

end SimCompiler
