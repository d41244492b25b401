import Mathlib.Data.Nat.Find
import SimCompiler.Proofs.Lookup
import SimCompiler.Proofs.TypingRefinement

/-!
# Conversion is reachability

A type converts to what can be reached from it along the edges of the lattice, and the search finds
each such type with the length of a shortest chain. Its queue holds types of two levels only: first
those at some distance whose edges have not been followed, then those one step further away that
have been found so far. Everything up to the nearer level has been found by then, so what is new is
one step beyond it.

Enumerations are added to the lattice as types without edges, unless a standard type has their name.
-/
namespace SimCompiler

namespace Lattice

variable {l : Lattice} {a b c : String}

/-- The edges join types of the lattice. -/
def Closed (l : Lattice) : Prop := ∀ e ∈ l.edges, l.contains e.1 = true ∧ l.contains e.2 = true

theorem closed_standard : standard.Closed := by
  have hall : ∀ e ∈ standard.edges,
      standard.contains e.1 = true ∧ standard.contains e.2 = true := by decide
  exact hall

@[simp] theorem edges_addType (l : Lattice) (name : String) : (l.addType name).edges = l.edges := by
  rw [addType]
  split <;> rfl

theorem Closed.addType (h : l.Closed) (name : String) : (l.addType name).Closed := by
  intro e he
  rw [edges_addType] at he
  have hends := h e he
  simp [hends]

theorem Closed.foldl_addType (h : l.Closed) (names : List String) :
    (names.foldl Lattice.addType l).Closed := by
  induction names generalizing l with
  | nil => exact h
  | cons name names ih => exact ih (h.addType name)

theorem contains_foldl_addType (names : List String) (l : Lattice) (name : String) :
    (names.foldl addType l).contains name = true ↔ name ∈ names ∨ l.contains name = true := by
  induction names generalizing l with
  | nil => simp
  | cons n names ih => simp [ih, or_assoc, or_left_comm]

@[simp] theorem edges_foldl_addType (names : List String) (l : Lattice) :
    (names.foldl addType l).edges = l.edges := by
  induction names generalizing l with
  | nil => rfl
  | cons name names ih => rw [List.foldl_cons, ih, edges_addType]

/-- A chain of `n` edges leads from one type to another. -/
inductive Chain (l : Lattice) : Nat → String → String → Prop
  | refl (a : String) : Chain l 0 a a
  | tail {n : Nat} {a b c : String} (chain : Chain l n a b) (edge : (b, c) ∈ l.edges) :
      Chain l (n + 1) a c

/-- A chain of `n` edges leads from one type to another, and no shorter one does. -/
structure Distance (l : Lattice) (n : Nat) (a b : String) : Prop where
  chain : l.Chain n a b
  least : ∀ m, l.Chain m a b → n ≤ m

theorem Chain.exists_distance {n : Nat} (h : l.Chain n a b) :
    ∃ m, m ≤ n ∧ l.Distance m a b := by
  classical
  have hex : ∃ m, l.Chain m a b := ⟨n, h⟩
  exact ⟨Nat.find hex, Nat.find_min' hex h, Nat.find_spec hex, fun m hm => Nat.find_min' hex hm⟩

theorem Distance.unique {m n : Nat} (h : l.Distance m a b) (h' : l.Distance n a b) : m = n :=
  Nat.le_antisymm (h.least n h'.chain) (h'.least m h.chain)

theorem distance_zero_iff : l.Distance 0 a b ↔ a = b := by
  constructor
  · intro h
    cases h.chain
    rfl
  · rintro rfl
    exact ⟨.refl a, fun m _ => Nat.zero_le m⟩

/-- The type before the last one on a shortest chain is one step nearer. -/
theorem Distance.exists_edge {n : Nat} (h : l.Distance (n + 1) a c) :
    ∃ b, l.Distance n a b ∧ (b, c) ∈ l.edges := by
  obtain ⟨hchain, hleast⟩ := h
  cases hchain with
  | @tail _ _ b _ hchain hedge =>
    refine ⟨b, ⟨hchain, fun m hm => ?_⟩, hedge⟩
    have hlonger := hleast (m + 1) (.tail hm hedge)
    omega

theorem Distance.exists_of_le {m n : Nat} (h : l.Distance n a b) (hle : m ≤ n) :
    ∃ c, l.Distance m a c := by
  induction n generalizing b with
  | zero =>
    obtain rfl : m = 0 := Nat.le_zero.mp hle
    exact ⟨b, h⟩
  | succ n ih =>
    by_cases hm : m = n + 1
    · exact ⟨b, hm ▸ h⟩
    · obtain ⟨c, hc, -⟩ := h.exists_edge
      exact ih hc (by omega)

theorem Chain.contains (hl : l.Closed) {n : Nat} (h : l.Chain n a b)
    (ha : l.contains a = true) : l.contains b = true := by
  induction h with
  | refl a => exact ha
  | tail _ hedge _ => exact (hl _ hedge).2

/-- A chain with an edge starts at a type of the lattice. -/
theorem Chain.eq_or_contains (hl : l.Closed) {n : Nat} (h : l.Chain n a b) :
    a = b ∨ l.contains a = true := by
  induction h with
  | refl a => exact .inl rfl
  | tail _ hedge ih =>
    rcases ih with rfl | ha
    · exact .inr (hl _ hedge).1
    · exact .inr ha

/-- What the search from `start` knows when the types of `near`, at distance `n`, are still to be
followed, and after them those of `far`, one step further away. -/
structure Level (l : Lattice) (start : String) (n : Nat) (near far : List String)
    (found : List (String × Nat)) : Prop where
  sound : ∀ t d, (t, d) ∈ found → d ≤ n + 1 ∧ l.Distance d start t
  complete : ∀ t d, d ≤ n → l.Distance d start t → (t, d) ∈ found
  near_sound : ∀ t ∈ near, l.Distance n start t
  far_iff : ∀ t, t ∈ far ↔ (t, n + 1) ∈ found
  followed : ∀ t d, (t, d) ∈ found → d ≤ n → t ∉ near →
    ∀ u, (t, u) ∈ l.edges → ∃ e, (u, e) ∈ found
  nodup : (found.map Prod.fst).Nodup

theorem level_start (l : Lattice) (start : String) : l.Level start 0 [start] [] [(start, 0)] where
  sound t d hmem := by
    cases List.mem_singleton.mp hmem
    exact ⟨Nat.zero_le 1, distance_zero_iff.mpr rfl⟩
  complete t d hd hdistance := by
    obtain rfl := Nat.le_zero.mp hd
    simp [distance_zero_iff.mp hdistance]
  near_sound t ht := distance_zero_iff.mpr (List.mem_singleton.mp ht).symm
  far_iff t := by simp
  followed t d hmem _ hnew := by
    cases List.mem_singleton.mp hmem
    exact absurd (List.mem_singleton_self start) hnew
  nodup := by simp

section Level

variable {start : String} {n : Nat} {near far : List String} {found : List (String × Nat)}

/-- Where the nearer level has been followed, everything one step further away has been found. -/
theorem Level.mem_far (h : l.Level start n [] far found) {t : String} :
    t ∈ far ↔ l.Distance (n + 1) start t := by
  rw [h.far_iff]
  refine ⟨fun ht => (h.sound t _ ht).2, fun ht => ?_⟩
  obtain ⟨b, hb, hedge⟩ := ht.exists_edge
  obtain ⟨e, he⟩ := h.followed b n (h.complete b n (Nat.le_refl n) hb) (Nat.le_refl n)
    List.not_mem_nil t hedge
  rwa [ht.unique (h.sound t e he).2]

/-- When all of the nearer level has been followed, the farther level takes its place. -/
theorem Level.succ (h : l.Level start n [] far found) : l.Level start (n + 1) far [] found where
  sound t d hmem := (h.sound t d hmem).imp_left fun hd => by omega
  complete t d hd hdistance := by
    rcases Nat.le_succ_iff.mp hd with hd | rfl
    · exact h.complete t d hd hdistance
    · exact (h.far_iff t).mp (h.mem_far.mpr hdistance)
  near_sound t ht := h.mem_far.mp ht
  far_iff t := by
    refine ⟨fun ht => absurd ht List.not_mem_nil, fun ht => ?_⟩
    have hle := (h.sound t _ ht).1
    omega
  followed t d hmem hd hnew := by
    rcases Nat.le_succ_iff.mp hd with hd | rfl
    · exact h.followed t d hmem hd List.not_mem_nil
    · exact absurd ((h.far_iff t).mpr hmem) hnew
  nodup := h.nodup

/-- A type that is found from the nearer level is one step further away. -/
theorem Level.distance_of_edge (h : l.Level start n near far found) (hb : l.Distance n start b)
    (hedge : (b, c) ∈ l.edges) (hnew : ∀ d, (c, d) ∉ found) : l.Distance (n + 1) start c := by
  refine ⟨.tail hb.chain hedge, fun m hm => ?_⟩
  -- A shorter chain would have been found before.
  by_contra hlt
  obtain ⟨d, hd, hdistance⟩ := hm.exists_distance
  exact hnew d (h.complete c d (by omega) hdistance)

/-- Following the first type of the queue finds those of its successors that are new. -/
theorem Level.follow (h : l.Level start n (b :: near) far found) {new : List String}
    (hnodup : new.Nodup)
    (hnew : ∀ c, c ∈ new ↔ (b, c) ∈ l.edges ∧ ∀ d, (c, d) ∉ found) :
    l.Level start n near (far ++ new) (found ++ new.map (·, n + 1)) where
  sound t d hmem := by
    rcases List.mem_append.mp hmem with hmem | hmem
    · exact h.sound t d hmem
    · obtain ⟨c, hc, heq⟩ := List.mem_map.mp hmem
      cases heq
      obtain ⟨hedge, hfresh⟩ := (hnew t).mp hc
      exact ⟨Nat.le_refl _, h.distance_of_edge (h.near_sound b List.mem_cons_self) hedge hfresh⟩
  complete t d hd hdistance := List.mem_append_left _ (h.complete t d hd hdistance)
  near_sound t ht := h.near_sound t (List.mem_cons_of_mem _ ht)
  far_iff t := by simp [h.far_iff]
  followed t d hmem hd ht u hedge := by
    have hold : (t, d) ∈ found := by
      refine (List.mem_append.mp hmem).resolve_right fun hmem => ?_
      obtain ⟨c, -, heq⟩ := List.mem_map.mp hmem
      cases heq
      omega
    by_cases hfound : ∃ e, (u, e) ∈ found
    · exact hfound.imp fun e he => List.mem_append_left _ he
    by_cases hb : t = b
    · subst hb
      have hu : u ∈ new := (hnew u).mpr ⟨hedge, fun e he => hfound ⟨e, he⟩⟩
      exact ⟨n + 1, List.mem_append_right _ (List.mem_map.mpr ⟨u, hu, rfl⟩)⟩
    · have hnear : t ∉ b :: near := by simp [hb, ht]
      exact absurd (h.followed t d hold hd hnear u hedge) hfound
  nodup := by
    have hkeys : (new.map (·, n + 1)).map Prod.fst = new := by simp [Function.comp_def]
    rw [List.map_append, hkeys, List.nodup_append]
    refine ⟨h.nodup, hnodup, ?_⟩
    rintro t ht _ hc rfl
    obtain ⟨⟨_, d⟩, hd, rfl⟩ := List.mem_map.mp ht
    exact ((hnew _).mp hc).2 d hd

end Level

/-- Of the types that a search reaches, it keeps those that it has not found before. -/
theorem Search.foldl_reach (distance : Nat) (next : List String) (s : Search) :
    ∃ new : List String, next.foldl (reach distance) s =
        ⟨s.found ++ new.map (·, distance), s.queue ++ new⟩ ∧ new.Nodup ∧
      ∀ c, c ∈ new ↔ c ∈ next ∧ ∀ d, (c, d) ∉ s.found := by
  induction next generalizing s with
  | nil => exact ⟨[], by simp, List.nodup_nil, by simp⟩
  | cons b next ih =>
    obtain ⟨new, hfold, hnodup, hnew⟩ := ih (s.reach distance b)
    rw [List.foldl_cons, hfold]
    by_cases hfound : (s.found.lookup b).isSome
    · have hreach : s.reach distance b = s := if_pos hfound
      rw [hreach] at hnew ⊢
      refine ⟨new, rfl, hnodup, fun c => ?_⟩
      have hb : ∃ d, (b, d) ∈ s.found := lookup_isSome_iff.mp hfound
      rw [hnew, List.mem_cons]
      grind
    · have hreach : s.reach distance b = ⟨s.found ++ [(b, distance)], s.queue ++ [b]⟩ :=
        if_neg hfound
      rw [hreach] at hnew ⊢
      have hb : ∀ d, (b, d) ∉ s.found := fun d hd => hfound (lookup_isSome_iff.mpr ⟨d, hd⟩)
      refine ⟨b :: new, by simp, List.nodup_cons.mpr ⟨fun hmem => ?_, hnodup⟩, fun c => ?_⟩
      · exact ((hnew b).mp hmem).2 distance (by simp)
      · rw [List.mem_cons, hnew, List.mem_cons]
        grind

/-- The queue of a search from `start` is made of two levels. -/
def Search.Layered (l : Lattice) (start : String) (s : Search) : Prop :=
  ∃ n near far, s.queue = near ++ far ∧ l.Level start n near far s.found

namespace Search.Layered

variable {start name : String} {queue : List String} {found : List (String × Nat)} {s : Search}

theorem exists_level (h : Search.Layered l start ⟨found, name :: queue⟩) :
    ∃ n near far, queue = near ++ far ∧ l.Level start n (name :: near) far found := by
  obtain ⟨n, near, far, hqueue, hlevel⟩ := h
  cases near with
  | nil =>
    obtain rfl : name :: queue = far := hqueue
    exact ⟨n + 1, queue, [], (List.append_nil queue).symm, hlevel.succ⟩
  | cons b near =>
    cases hqueue
    exact ⟨n, near, far, rfl, hlevel⟩

/-- Both look-ups for the first type of the queue hit, and the queue keeps its form. -/
theorem follow? (h : Search.Layered l start ⟨found, name :: queue⟩) (hl : l.Closed)
    (hstart : l.contains start = true) :
    ∃ s, l.follow? name ⟨found, queue⟩ = some s ∧ Search.Layered l start s := by
  obtain ⟨n, near, far, rfl, hlevel⟩ := h.exists_level
  have hdistance := hlevel.near_sound name List.mem_cons_self
  have hlookup : found.lookup name = some n :=
    (lookup_eq_some_iff_mem hlevel.nodup).mpr (hlevel.complete name n (Nat.le_refl n) hdistance)
  have hcontains := hdistance.chain.contains hl hstart
  obtain ⟨next, hnext⟩ : ∃ next, l.successors? name = some next := ⟨_, if_pos hcontains⟩
  obtain ⟨new, hfold, hnodup, hnew⟩ := foldl_reach (n + 1) next ⟨found, near ++ far⟩
  simp only [mem_successors? hnext] at hnew
  refine ⟨⟨found ++ new.map (·, n + 1), near ++ far ++ new⟩, ?_, n, near, far ++ new,
    List.append_assoc .., hlevel.follow hnodup hnew⟩
  simp only [Lattice.follow?, hlookup, hnext, hfold, Option.bind_eq_bind, Option.bind_some]
  rfl

/-- When the queue is empty, everything within reach has been found. -/
theorem mem_found (h : Search.Layered l start ⟨found, []⟩) {t : String} {d : Nat} :
    (t, d) ∈ found ↔ l.Distance d start t := by
  obtain ⟨n, near, far, hqueue, hlevel⟩ := h
  obtain ⟨rfl, rfl⟩ := List.append_eq_nil_iff.mp hqueue.symm
  refine ⟨fun ht => (hlevel.sound t d ht).2, fun ht => hlevel.complete t d ?_ ht⟩
  by_contra hlt
  obtain ⟨c, hc⟩ := ht.exists_of_le (m := n + 1) (by omega)
  exact absurd (hlevel.mem_far.mpr hc) List.not_mem_nil

theorem search? (h : Search.Layered l start s) (hl : l.Closed) (hstart : l.contains start = true) :
    ∃ found, l.search? s = some found ∧ Search.Layered l start ⟨found, []⟩ := by
  induction s using search?.induct l with
  | case1 found => exact ⟨found, l.search?_nil found, h⟩
  | case2 found name queue s hfollow _ ih =>
    obtain ⟨s', hs', hlayered⟩ := h.follow? hl hstart
    cases hfollow.symm.trans hs'
    obtain ⟨result, hresult, hlast⟩ := ih hlayered
    exact ⟨result, by rw [search?_cons, hfollow, Option.bind_some, hresult], hlast⟩
  | case3 found name queue hfollow =>
    obtain ⟨s', hs', -⟩ := h.follow? hl hstart
    cases hfollow.symm.trans hs'

end Search.Layered

theorem Search.layered_start (l : Lattice) (start : String) :
    Search.Layered l start (.start start) :=
  ⟨0, [start], [], rfl, level_start l start⟩

/-- The search from a type of the lattice ends with all that is within reach. -/
theorem layered_targets (hl : l.Closed) (ha : l.contains a = true) :
    l.search? (.start a) = some (l.targets a) ∧ Search.Layered l a ⟨l.targets a, []⟩ := by
  obtain ⟨found, hfound, hlayered⟩ := (Search.layered_start l a).search? hl ha
  have htargets : l.targets a = found := by rw [targets, if_pos ha, hfound, Option.getD_some]
  rw [htargets]
  exact ⟨hfound, hlayered⟩

theorem mem_targets (hl : l.Closed) {t : String} {d : Nat} :
    (t, d) ∈ l.targets a ↔ l.contains a = true ∧ l.Distance d a t := by
  by_cases ha : l.contains a = true
  · rw [(layered_targets hl ha).2.mem_found]
    simp [ha]
  · simp [targets, ha]

theorem nodup_targets (hl : l.Closed) : ((l.targets a).map Prod.fst).Nodup := by
  by_cases ha : l.contains a = true
  · obtain ⟨-, n, near, far, -, hlevel⟩ := layered_targets hl ha
    exact hlevel.nodup
  · simp [targets, ha]

theorem lookup_targets (hl : l.Closed) {t : String} {d : Nat} :
    (l.targets a).lookup t = some d ↔ l.contains a = true ∧ l.Distance d a t := by
  rw [← mem_targets hl, lookup_eq_some_iff_mem (nodup_targets hl)]

/-- Conversion is equality, or a chain of edges. -/
theorem isConvertible_iff (hl : l.Closed) :
    l.isConvertible a b = true ↔ a = b ∨ ∃ n, l.Chain n a b := by
  rw [isConvertible, Bool.or_eq_true, beq_iff_eq, Option.isSome_iff_exists]
  simp only [lookup_targets hl]
  constructor
  · rintro (rfl | ⟨d, -, hd⟩)
    · exact .inl rfl
    · exact .inr ⟨d, hd.chain⟩
  · rintro (rfl | ⟨n, hchain⟩)
    · exact .inl rfl
    · obtain ⟨d, -, hd⟩ := hchain.exists_distance
      rcases hchain.eq_or_contains hl with heq | ha
      · exact .inl heq
      · exact .inr ⟨d, ha, hd⟩

theorem contains_of_isConvertible (hl : l.Closed) (hb : l.contains b = true)
    (h : l.isConvertible a b = true) : l.contains a = true := by
  rcases (isConvertible_iff hl).mp h with rfl | ⟨n, hchain⟩
  · exact hb
  · rcases hchain.eq_or_contains hl with rfl | ha
    · exact hb
    · exact ha

theorem mem_commonTargets (hl : l.Closed) {t : String} {n : Nat} :
    (n, t) ∈ l.commonTargets a b ↔ l.contains a = true ∧ l.contains b = true ∧
      ∃ d d', l.Distance d a t ∧ l.Distance d' b t ∧ n = d + d' := by
  simp only [commonTargets, List.mem_filterMap, Option.map_eq_some_iff, Prod.exists,
    lookup_targets hl, mem_targets hl]
  constructor
  · rintro ⟨t', d, ⟨ha, hd⟩, d', ⟨hb, hd'⟩, heq⟩
    cases heq
    exact ⟨ha, hb, d, d', hd, hd', rfl⟩
  · rintro ⟨ha, hb, d, d', hd, hd', rfl⟩
    exact ⟨t, d, ⟨ha, hd⟩, d', ⟨hb, hd'⟩, rfl⟩

theorem foldl_nearer_mem (first : Nat × String) (rest : List (Nat × String)) :
    rest.foldl nearer first ∈ first :: rest := by
  induction rest generalizing first with
  | nil => exact List.mem_singleton_self first
  | cons x rest ih =>
    have hnearer : nearer first x = first ∨ nearer first x = x := by
      rw [nearer]
      split <;> simp
    have hmem := ih (nearer first x)
    rw [List.foldl_cons]
    rcases hnearer with heq | heq <;> rw [heq] at hmem ⊢ <;> simp_all [List.mem_cons, or_left_comm]

/-- A common type is a type of the lattice. -/
theorem contains_of_lub? (hl : l.Closed) {t : String} (h : l.lub? a b = some t) :
    l.contains t = true := by
  rw [lub?] at h
  split at h
  · cases h
  next first rest hcommon =>
    cases h
    have hmem := foldl_nearer_mem first rest
    rw [← hcommon] at hmem
    obtain ⟨ha, -, d, -, hd, -, -⟩ := (mem_commonTargets hl).mp hmem
    exact hd.chain.contains hl ha

/-- Types that convert to one type of the lattice have a least common one. -/
theorem exists_lub? (hl : l.Closed) {t : String} (ht : l.contains t = true)
    (ha : l.isConvertible a t = true) (hb : l.isConvertible b t = true) :
    ∃ u, l.lub? a b = some u := by
  have hdistance : ∀ x, l.isConvertible x t = true → ∃ d, l.Distance d x t := by
    intro x hx
    rcases (isConvertible_iff hl).mp hx with rfl | ⟨n, hchain⟩
    · exact ⟨0, distance_zero_iff.mpr rfl⟩
    · obtain ⟨d, -, hd⟩ := hchain.exists_distance
      exact ⟨d, hd⟩
  obtain ⟨d, hd⟩ := hdistance a ha
  obtain ⟨d', hd'⟩ := hdistance b hb
  have hmem : (d + d', t) ∈ l.commonTargets a b :=
    (mem_commonTargets hl).mpr ⟨contains_of_isConvertible hl ht ha,
      contains_of_isConvertible hl ht hb, d, d', hd, hd', rfl⟩
  rw [lub?]
  split
  next hnone =>
    rw [hnone] at hmem
    cases hmem
  next first rest _ => exact ⟨_, rfl⟩

/-- The type converts to no other type, and no other type converts to it. -/
def Isolated (l : Lattice) (name : String) : Prop :=
  ∀ t, (l.isConvertible name t = true → t = name) ∧ (l.isConvertible t name = true → t = name)

/-- Only an edge to another type, or from one, makes a difference. -/
theorem isolated_iff (hl : l.Closed) {name : String} : l.Isolated name ↔
    ∀ e ∈ l.edges, (e.1 = name → e.2 = name) ∧ (e.2 = name → e.1 = name) := by
  constructor
  · rintro h ⟨x, y⟩ he
    have hxy : l.isConvertible x y = true :=
      (isConvertible_iff hl).mpr (.inr ⟨1, .tail (.refl x) he⟩)
    constructor
    · rintro rfl
      exact (h y).1 hxy
    · rintro rfl
      exact (h x).2 hxy
  · intro h t
    have hchain : ∀ {n x y}, l.Chain n x y → (x = name ↔ y = name) := by
      intro n x y hxy
      induction hxy with
      | refl x => rfl
      | tail _ hedge ih => exact ih.trans ⟨(h _ hedge).1, (h _ hedge).2⟩
    simp only [isConvertible_iff hl]
    constructor
    · rintro (rfl | ⟨n, hn⟩)
      · rfl
      · exact (hchain hn).mp rfl
    · rintro (rfl | ⟨n, hn⟩)
      · rfl
      · exact (hchain hn).mpr rfl

/-- Of the standard types only `str` has no edge. -/
theorem standard_edges_iff {name : String} :
    (∀ e ∈ standard.edges, (e.1 = name → e.2 = name) ∧ (e.2 = name → e.1 = name)) ↔
      (standard.contains name = true → name = TypeName.str) := by
  have hfree : ∀ e ∈ standard.edges, e.1 ≠ e.2 ∧ e.1 ≠ TypeName.str ∧ e.2 ≠ TypeName.str := by
    decide
  have htouched : ∀ n ∈ standard.names, n ≠ TypeName.str →
      ∃ e ∈ standard.edges, e.1 = n ∨ e.2 = n := by
    decide
  constructor
  · intro h hname
    by_contra hstr
    obtain ⟨e, he, hends⟩ := htouched name (by simpa [contains] using hname) hstr
    have hloop := h e he
    rcases hends with hend | hend
    · exact (hfree e he).1 (hend.trans (hloop.1 hend).symm)
    · exact (hfree e he).1 ((hloop.2 hend).trans hend.symm)
  · intro h e he
    have hends := closed_standard e he
    constructor
    · rintro rfl
      exact absurd (h hends.1) (hfree e he).2.1
    · rintro rfl
      exact absurd (h hends.2) (hfree e he).2.2

end Lattice

namespace Source

theorem mem_enumNames {s : Source} {name : String} :
    name ∈ s.enumNames ↔ ∃ d, .enum d ∈ s.items ∧ d.name = name := by
  have hitems : ∀ (items : List Item) (n : Nat), ∀ t,
      .enum t ∈ declarationsFrom n items ↔ ∃ d, .enum d ∈ items ∧ t = ⟨d.position, d.name⟩ := by
    intro items
    induction items with
    | nil => simp [declarationsFrom]
    | cons item items ih =>
      intro n t
      rw [declarationsFrom, List.mem_append, ih]
      cases item <;> simp [Item.declarations]
  rw [enumNames, List.mem_filterMap]
  constructor
  · rintro ⟨d, hd, hname⟩
    cases d <;> simp only [Option.some.injEq, reduceCtorEq] at hname
    obtain ⟨d, hitem, rfl⟩ := (hitems _ _ _).mp hd
    exact ⟨d, hitem, hname⟩
  · rintro ⟨d, hd, rfl⟩
    exact ⟨.enum ⟨d.position, d.name⟩, (hitems _ _ _).mpr ⟨d, hd, rfl⟩, rfl⟩

/-- The types of a program are the standard ones and its enumerations. -/
theorem contains_lattice_iff {s : Source} {name : String} : s.lattice.contains name = true ↔
    (∃ d, .enum d ∈ s.items ∧ d.name = name) ∨ Lattice.standard.contains name = true := by
  rw [lattice, Lattice.contains_foldl_addType, mem_enumNames]

theorem closed_lattice (s : Source) : s.lattice.Closed :=
  Lattice.closed_standard.foldl_addType s.enumNames

/-- An enumeration is isolated among the types of its program, unless it has the name of a standard
number type: then it is that type, with all its conversions. -/
theorem bindNames_isolates_enumerations_iff (source : Source) (notes : Annotations)
    (h : source.bindNames {} = .ok () notes) :
    ∃ scopes cx, notes.readScopes = .ok scopes ∧ TypeContext.ofScopes scopes = .ok cx ∧
      ∀ d, .enum d ∈ source.items →
        cx.lattice.contains d.name = true ∧
        (cx.lattice.Isolated d.name ↔
          (Lattice.standard.contains d.name = true → d.name = TypeName.str)) := by
  obtain ⟨-, rfl⟩ := (source.bindNames_eq_ok_iff notes).mp h
  refine ⟨source.walked.scopes, ⟨source.walked.scopes, source.lattice⟩, rfl,
    source.ofScopes_walked, fun d hd => ?_⟩
  have hedges : source.lattice.edges = Lattice.standard.edges := Lattice.edges_foldl_addType _ _
  refine ⟨contains_lattice_iff.mpr (.inl ⟨d, hd, rfl⟩), ?_⟩
  rw [Lattice.isolated_iff source.closed_lattice, hedges, Lattice.standard_edges_iff]

/-- Beside an isolated enumeration, one that is called `int` converts to `float`. -/
theorem bindNames_isolates_enumerations_iff_int :
    let line (n : UInt32) : Position := ⟨"main", n, 1⟩
    let cell : EnumDecl := ⟨line 1, "Cell", [⟨line 1, "Dead", "Cell"⟩]⟩
    let int : EnumDecl := ⟨line 2, "int", [⟨line 2, "Zero", "int"⟩]⟩
    let source : Source := ⟨line 1, [.enum cell, .enum int]⟩
    source.bindNames {} = .ok () source.boundNotes ∧
      ∃ scopes cx, source.boundNotes.readScopes = .ok scopes ∧
        TypeContext.ofScopes scopes = .ok cx ∧ cx.lattice.Isolated "Cell" ∧
        ¬ cx.lattice.Isolated "int" ∧ cx.lattice.isConvertible "int" "float" = true := by
  intro line cell int source
  have hbind : source.bindNames {} = .ok () source.boundNotes :=
    (source.bindNames_eq_ok_iff _).mpr ⟨⟨by decide, by decide, by simp [source]⟩, rfl⟩
  obtain ⟨scopes, cx, hscopes, hcx, henums⟩ :=
    source.bindNames_isolates_enumerations_iff source.boundNotes hbind
  have hcell := (henums cell (by simp [source])).2
  have hint := (henums int (by simp [source])).2
  obtain rfl : source.walked.scopes = scopes := Except.ok.inj hscopes
  obtain rfl : TypeContext.mk source.walked.scopes source.lattice = cx :=
    Except.ok.inj (source.ofScopes_walked.symm.trans hcx)
  exact ⟨hbind, _, _, hscopes, hcx, hcell.mpr (by decide), fun h => absurd (hint.mp h) (by decide),
    by decide +kernel⟩

end Source

end SimCompiler
