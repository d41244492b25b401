import SimCompiler.Proofs.Paths
import SimCompiler.Scope.Frames

/-!
# Declarations by frame

What a program declares, read off its tree without frames: the root-level declarations, and for
each function its parameters and local variables. `Source.sites` lists all of them in source order,
each with the frame it belongs to. `enroll` goes through such a list and stops at the first
declaration whose name is taken in its frame; it succeeds exactly if no frame declares a name
twice.
-/
namespace SimCompiler

mutual

/-- The variables that a statement declares at any depth, in source order. -/
def Stmt.locals : Stmt → List Variable
  | .pass _ => []
  | .assign _ _ _ declared => declared.toList
  | .update _ _ _ _ => []
  | .print _ _ => []
  | .cond _ _ b elifs none => b.locals ++ Elif.allLocals elifs
  | .cond _ _ b elifs (some e) => b.locals ++ (Elif.allLocals elifs ++ e.locals)
  | .ret _ _ => []

def Stmt.allLocals : List Stmt → List Variable
  | [] => []
  | s :: ss => s.locals ++ Stmt.allLocals ss

def Block.locals : Block → List Variable
  | ⟨_, ss⟩ => Stmt.allLocals ss

def Elif.locals : Elif → List Variable
  | ⟨_, _, b⟩ => b.locals

def Elif.allLocals : List Elif → List Variable
  | [] => []
  | e :: es => e.locals ++ Elif.allLocals es

def Else.locals : Else → List Variable
  | ⟨_, b⟩ => b.locals

end

theorem Stmt.allLocals_eq_flatMap (ss : List Stmt) : Stmt.allLocals ss = ss.flatMap (·.locals) := by
  induction ss with
  | nil => rw [Stmt.allLocals, List.flatMap_nil]
  | cons s ss ih => rw [Stmt.allLocals, ih, List.flatMap_cons]

theorem Elif.allLocals_eq_flatMap (es : List Elif) : Elif.allLocals es = es.flatMap (·.locals) := by
  induction es with
  | nil => rw [Elif.allLocals, List.flatMap_nil]
  | cons e es ih => rw [Elif.allLocals, ih, List.flatMap_cons]

namespace Func

def signature (f : Func) (id : FuncId) : FuncSignature :=
  ⟨id, f.position, f.name, f.params.map (·.type), f.returnType⟩

/-- The declarations of the function's own frame. -/
def declarations (f : Func) : List Declaration :=
  f.params.map .param ++ f.body.locals.map .localVar

theorem exists_variable {f : Func} {d : Declaration} (h : d ∈ f.declarations) :
    ∃ v ∈ f.params ++ f.body.locals, d = .param v ∨ d = .localVar v := by
  rcases List.mem_append.mp h with h | h
  · obtain ⟨v, hv, rfl⟩ := List.mem_map.mp h
    exact ⟨v, List.mem_append_left _ hv, .inl rfl⟩
  · obtain ⟨v, hv, rfl⟩ := List.mem_map.mp h
    exact ⟨v, List.mem_append_right _ hv, .inr rfl⟩

end Func

namespace Item

def func? : Item → Option Func
  | .func f => some f
  | _ => none

theorem func?_eq_some_iff {item : Item} {f : Func} : item.func? = some f ↔ item = .func f := by
  cases item <;> simp [func?]

/-- One for a function, else zero. -/
def funcCount (item : Item) : Nat := item.func?.toList.length

/-- What the item adds to the root frame when `funcs` functions stand before it. -/
def declarations (funcs : Nat) : Item → List Declaration
  | .globalVar v => [.globalVar v]
  | .enum d => .enum ⟨d.position, d.name⟩ :: d.constants.map .constant
  | .func f => [.func (f.signature ⟨funcs⟩)]
  | .stmt s => s.locals.map .localVar

/-- What the item adds to a frame of its own. -/
def ownDeclarations : Item → List Declaration
  | .func f => f.declarations
  | _ => []

end Item

/-- A declaration with the frame it belongs to. -/
structure Site where
  frame : FrameId
  declaration : Declaration
deriving DecidableEq, Repr

/-- The sites of an item in source order. Function number `funcs` has frame `funcs + 1`. -/
def Item.sites (funcs : Nat) (item : Item) : List Site :=
  (item.declarations funcs).map (⟨Scopes.root, ·⟩) ++ item.ownDeclarations.map (⟨⟨funcs + 1⟩, ·⟩)

namespace Source

def declarationsFrom (funcs : Nat) : List Item → List Declaration
  | [] => []
  | item :: rest => item.declarations funcs ++ declarationsFrom (funcs + item.funcCount) rest

/-- The root-level declarations of a program in source order. -/
def declarations (s : Source) : List Declaration := declarationsFrom 0 s.items

def sitesFrom (funcs : Nat) : List Item → List Site
  | [] => []
  | item :: rest => item.sites funcs ++ sitesFrom (funcs + item.funcCount) rest

/-- All declarations of a program in source order. -/
def sites (s : Source) : List Site := sitesFrom 0 s.items

end Source

@[simp] theorem FrameId.mk_succ_eq_root (k : Nat) : (⟨k + 1⟩ : FrameId) = Scopes.root ↔ False := by
  simp [Scopes.root]

@[simp] theorem FrameId.root_eq_mk_succ (k : Nat) : Scopes.root = (⟨k + 1⟩ : FrameId) ↔ False := by
  simp [Scopes.root]

/-- What is declared before a program starts. -/
def Declaration.builtins : List Declaration :=
  BuiltinFunc.all.map .builtinFunc ++ BuiltinConst.all.map .builtinConst

/-- The declarations that a frame holds before the program adds its own. -/
def FrameId.prelude (frame : FrameId) : List Declaration :=
  if frame = Scopes.root then Declaration.builtins else []

namespace Site

/-- The declarations among `sites` that belong to `frame`. -/
def inFrame (sites : List Site) (frame : FrameId) : List Declaration :=
  (sites.filter (·.frame = frame)).map (·.declaration)

/-- Everything that `frame` holds once `sites` have been declared. -/
def held (sites : List Site) (frame : FrameId) : List Declaration :=
  frame.prelude ++ inFrame sites frame

/-- Who has the name of the site in its frame once `before` have been declared. -/
def holder? (before : List Site) (site : Site) : Option Declaration :=
  (held before site.frame).find? (·.name == site.declaration.name)

/-- The error of a declaration whose name belongs to `holder`. -/
def redefinition (site : Site) (holder : Declaration) : CompileError :=
  .code ⟨.redefined holder, site.declaration.position⟩

/-- Declares `sites` one after another, after `before`. -/
def enroll (before : List Site) : List Site → Result Unit
  | [] => .ok ()
  | site :: rest =>
    match holder? before site with
    | some holder => .error (site.redefinition holder)
    | none => enroll (before ++ [site]) rest

@[simp] theorem inFrame_nil (frame : FrameId) : inFrame [] frame = [] := rfl

theorem inFrame_cons (site : Site) (sites : List Site) (frame : FrameId) :
    inFrame (site :: sites) frame =
      (if site.frame = frame then [site.declaration] else []) ++ inFrame sites frame := by
  by_cases h : site.frame = frame <;> simp [inFrame, h]

@[simp] theorem inFrame_append (sites sites' : List Site) (frame : FrameId) :
    inFrame (sites ++ sites') frame = inFrame sites frame ++ inFrame sites' frame := by
  simp [inFrame]

theorem inFrame_map (declarations : List Declaration) (frame frame' : FrameId) :
    inFrame (declarations.map (⟨frame, ·⟩)) frame' =
      if frame = frame' then declarations else [] := by
  induction declarations with
  | nil => simp
  | cons d ds ih =>
    rw [List.map_cons, inFrame_cons, ih]
    by_cases h : frame = frame' <;> simp [h]

theorem held_append (sites sites' : List Site) (frame : FrameId) :
    held (sites ++ sites') frame = held sites frame ++ inFrame sites' frame := by
  simp [held]

theorem held_concat (sites : List Site) (site : Site) (id : FrameId) :
    held (sites ++ [site]) id =
      held sites id ++ if site.frame = id then [site.declaration] else [] := by
  simp [held_append, inFrame_cons]

theorem holder?_eq_none_iff (before : List Site) (site : Site) :
    holder? before site = none ↔
      ∀ d ∈ held before site.frame, d.name ≠ site.declaration.name := by
  simp [holder?]

theorem enroll_append (before sites sites' : List Site) :
    enroll before (sites ++ sites') = (enroll before sites >>= fun _ =>
      enroll (before ++ sites) sites') := by
  induction sites generalizing before with
  | nil => simp [enroll, bind, Except.bind]
  | cons site sites ih =>
    cases h : holder? before site with
    | some holder => simp [enroll, h, bind, Except.bind]
    | none => simp [enroll, h, ih]

/-- The names that `sites` add to a frame differ from each other and from those it held. -/
def Distinct (before sites : List Site) (frame : FrameId) : Prop :=
  ((inFrame sites frame).map (·.name)).Nodup ∧
    ∀ d ∈ inFrame sites frame, ∀ h ∈ held before frame, h.name ≠ d.name

/-- Of all frames only that of the first site can tell the first site from the ones before. -/
theorem distinct_cons_iff (before : List Site) (site : Site) (sites : List Site)
    (frame : FrameId) :
    Distinct before (site :: sites) frame ↔
      (site.frame = frame → holder? before site = none) ∧
        Distinct (before ++ [site]) sites frame := by
  by_cases hf : site.frame = frame
  · subst hf
    simp only [Distinct, inFrame_cons, held_append, holder?_eq_none_iff, inFrame_nil, if_true,
      List.singleton_append, List.append_nil, List.map_cons, List.nodup_cons, List.mem_cons,
      List.mem_append, List.not_mem_nil, or_false, List.mem_map, forall_eq_or_imp, forall_true_left]
    constructor
    · rintro ⟨⟨hnot, hnodup⟩, hfirst, hrest⟩
      refine ⟨hfirst, hnodup, ?_⟩
      rintro d hd h (hh | rfl)
      · exact hrest d hd h hh
      · exact fun heq => hnot ⟨d, hd, heq.symm⟩
    · rintro ⟨hfirst, hnodup, hrest⟩
      refine ⟨⟨?_, hnodup⟩, hfirst, fun d hd h hh => hrest d hd h (.inl hh)⟩
      rintro ⟨d, hd, heq⟩
      exact hrest d hd site.declaration (.inr rfl) heq.symm
  · simp [Distinct, inFrame_cons, held_append, hf]

theorem enroll_eq_ok_iff (before sites : List Site) :
    enroll before sites = .ok () ↔ ∀ frame, Distinct before sites frame := by
  induction sites generalizing before with
  | nil => simp [enroll, Distinct]
  | cons site sites ih =>
    simp only [distinct_cons_iff, forall_and, forall_eq']
    rw [← ih]
    cases h : holder? before site <;> simp [enroll, h]

/-- The first clash decides: everything before it goes well. -/
theorem enroll_eq_error {before sites : List Site} {e : CompileError}
    (he : enroll before sites = .error e) :
    ∃ pre site post holder, sites = pre ++ site :: post ∧ enroll before pre = .ok () ∧
      holder? (before ++ pre) site = some holder ∧ e = site.redefinition holder := by
  induction sites generalizing before with
  | nil => simp [enroll] at he
  | cons site sites ih =>
    cases h : holder? before site with
    | some holder =>
      refine ⟨[], site, sites, holder, rfl, rfl, by simpa using h, ?_⟩
      simpa [enroll, h, eq_comm] using he
    | none =>
      have hrest : enroll (before ++ [site]) sites = .error e := by simpa [enroll, h] using he
      obtain ⟨pre, site', post, holder, rfl, hpre, hholder, rfl⟩ := ih hrest
      refine ⟨site :: pre, site', post, holder, rfl, by simp [enroll, h, hpre], ?_, rfl⟩
      simpa using hholder

/-- No site of an enrolled list finds its name taken. -/
theorem holder?_eq_none_of_enroll {before pre post : List Site} {site : Site}
    (h : enroll before (pre ++ site :: post) = .ok ()) : holder? (before ++ pre) site = none := by
  rw [enroll_append] at h
  cases hpre : enroll before pre with
  | error e => simp [hpre, bind, Except.bind] at h
  | ok u =>
    cases hsite : holder? (before ++ pre) site with
    | none => rfl
    | some holder => simp [hpre, bind, Except.bind, enroll, hsite] at h

end Site

namespace Source

/-- The functions among `items` in source order. -/
def funcsIn (items : List Item) : List Func := items.filterMap (·.func?)

theorem mem_funcsIn {items : List Item} {f : Func} : f ∈ funcsIn items ↔ .func f ∈ items := by
  simp [funcsIn, List.mem_filterMap, Item.func?_eq_some_iff]

theorem inFrame_root_sitesFrom (funcs : Nat) (items : List Item) :
    Site.inFrame (sitesFrom funcs items) Scopes.root = declarationsFrom funcs items := by
  induction items generalizing funcs with
  | nil => rfl
  | cons item items ih =>
    simp [sitesFrom, declarationsFrom, Item.sites, Site.inFrame_map, ih]

theorem inFrame_sites_item (funcs k : Nat) (item : Item) :
    Site.inFrame (item.sites funcs) ⟨k + 1⟩ = if funcs = k then item.ownDeclarations else [] := by
  simp [Item.sites, Site.inFrame_map]

theorem inFrame_sitesFrom_of_lt {funcs k : Nat} (items : List Item) (hk : k < funcs) :
    Site.inFrame (sitesFrom funcs items) ⟨k + 1⟩ = [] := by
  induction items generalizing funcs with
  | nil => rfl
  | cons item items ih =>
    rw [sitesFrom, Site.inFrame_append, inFrame_sites_item, if_neg (by omega),
      ih (Nat.lt_add_right _ hk)]
    rfl

/-- The frame of a function gets the declarations of that function and nothing else. -/
theorem inFrame_sitesFrom_add (funcs k : Nat) (items : List Item) :
    Site.inFrame (sitesFrom funcs items) ⟨funcs + k + 1⟩ =
      ((funcsIn items)[k]?.map (·.declarations)).getD [] := by
  induction items generalizing funcs k with
  | nil => rfl
  | cons item items ih =>
    rw [sitesFrom, Site.inFrame_append, inFrame_sites_item]
    cases item with
    | func f =>
      change _ ++ Site.inFrame (sitesFrom (funcs + 1) items) _ = _
      cases k with
      | zero => simp [inFrame_sitesFrom_of_lt, Item.ownDeclarations, funcsIn, Item.func?]
      | succ k =>
        rw [if_neg (by omega), ← Nat.add_assoc, Nat.add_right_comm funcs k 1, ih]
        rfl
    | _ =>
      simp only [Item.ownDeclarations, ite_self]
      exact ih funcs k

theorem inFrame_succ_sites (s : Source) (k : Nat) :
    Site.inFrame s.sites ⟨k + 1⟩ = ((funcsIn s.items)[k]?.map (·.declarations)).getD [] := by
  simpa [sites] using inFrame_sitesFrom_add 0 k s.items

theorem length_funcsIn_take_succ (item : Item) (items : List Item) (j : Nat) :
    (funcsIn ((item :: items).take (j + 1))).length =
      item.funcCount + (funcsIn (items.take j)).length := by
  cases item <;> simp [funcsIn, Item.funcCount, Item.func?, Nat.add_comm]

theorem exists_item_of_mem {d : Declaration} {items : List Item} {n : Nat}
    (hd : d ∈ declarationsFrom n items) : ∃ (j : Nat) (item : Item), items[j]? = some item ∧
      d ∈ item.declarations (n + (funcsIn (items.take j)).length) := by
  induction items generalizing n with
  | nil => cases hd
  | cons item items ih =>
    rcases List.mem_append.mp hd with hd | hd
    · exact ⟨0, item, rfl, hd⟩
    · obtain ⟨j, item', hj, hd⟩ := ih hd
      refine ⟨j + 1, item', hj, ?_⟩
      rwa [length_funcsIn_take_succ, ← Nat.add_assoc]

theorem sublist_declarationsFrom {names : Item → List String}
    (h : ∀ n item, (names item).Sublist ((item.declarations n).map (·.name))) (n : Nat)
    (items : List Item) :
    (items.flatMap names).Sublist ((declarationsFrom n items).map (·.name)) := by
  induction items generalizing n with
  | nil => exact List.Sublist.refl _
  | cons item items ih =>
    rw [List.flatMap_cons, declarationsFrom, List.map_append]
    exact (h n item).append (ih _)

/-- No name is declared twice in a frame, and the root frame does not redeclare a built-in. -/
structure ClashFree (s : Source) : Prop where
  distinct : (s.declarations.map (·.name)).Nodup
  noBuiltin : ∀ d ∈ s.declarations, ∀ b ∈ Declaration.builtins, b.name ≠ d.name
  distinctOwn : ∀ f, .func f ∈ s.items → (f.declarations.map (·.name)).Nodup

theorem enroll_sites_eq_ok_iff (s : Source) :
    Site.enroll [] s.sites = .ok () ↔ s.ClashFree := by
  rw [Site.enroll_eq_ok_iff]
  constructor
  · intro h
    have hroot := h Scopes.root
    simp only [Site.Distinct, Site.held, sites, inFrame_root_sitesFrom, FrameId.prelude] at hroot
    refine ⟨hroot.1, by simpa [declarations] using hroot.2, ?_⟩
    intro f hf
    obtain ⟨k, hk⟩ := List.mem_iff_getElem?.mp (mem_funcsIn.mpr hf)
    simpa [inFrame_succ_sites, hk] using (h ⟨k + 1⟩).1
  · rintro ⟨hdistinct, hbuiltin, hown⟩ ⟨_ | k⟩
    · change Site.Distinct [] s.sites Scopes.root
      simp only [Site.Distinct, Site.held, sites, inFrame_root_sitesFrom, FrameId.prelude]
      exact ⟨hdistinct, by simpa [declarations] using hbuiltin⟩
    · refine ⟨?_, by simp [Site.held, FrameId.prelude]⟩
      rw [inFrame_succ_sites]
      cases hk : (funcsIn s.items)[k]? with
      | none => exact List.nodup_nil
      | some f => exact hown f (mem_funcsIn.mp (List.mem_of_getElem? hk))

end Source

end SimCompiler
