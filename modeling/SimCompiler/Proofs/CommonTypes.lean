import Mathlib.Data.Prod.Lex
import Mathlib.Data.String.Basic
import SimCompiler.Proofs.Conversion

/-!
# Common types

A lattice grows from the standard one by types and paths, in any order: names may be repeated, and
paths may run in circles. Every edge of such a lattice still joins two of its types. So the search
never leaves the lattice, conversion is reachability, and the least upper bound of two types is the
nearest type within reach of both. Nearest is least only where no type has edges to two types: there
what can be reached from one type lies on one line, up to a circle at its end.
-/
namespace SimCompiler.Lattice

/-- The lattices that come from the standard one by adding types and paths. -/
inductive Built : Lattice → Prop
  | standard : Built Lattice.standard
  | addType {l : Lattice} (h : Built l) (name : String) : Built (l.addType name)
  | addPath {l : Lattice} (h : Built l) (path : List String) : Built (l.addPath path)

variable {l : Lattice} {a b t : String}

theorem mem_edges_addEdge {edge e : String × String} :
    e ∈ (l.addEdge edge).edges ↔ e ∈ l.edges ∨ e = edge := by
  rw [addEdge]
  split
  next h =>
    have hedge : edge ∈ l.edges := by simpa using h
    exact ⟨.inl, fun he => he.elim id fun heq => heq ▸ hedge⟩
  next => simp

@[simp] theorem names_addEdge (l : Lattice) (edge : String × String) :
    (l.addEdge edge).names = l.names := by
  rw [addEdge]
  split <;> rfl

theorem mem_edges_foldl_addEdge {edges : List (String × String)} {e : String × String} :
    e ∈ (edges.foldl addEdge l).edges ↔ e ∈ l.edges ∨ e ∈ edges := by
  induction edges generalizing l with
  | nil => simp
  | cons edge edges ih => rw [List.foldl_cons, ih, mem_edges_addEdge, List.mem_cons, or_assoc]

@[simp] theorem names_foldl_addEdge (l : Lattice) (edges : List (String × String)) :
    (edges.foldl addEdge l).names = l.names := by
  induction edges generalizing l with
  | nil => rfl
  | cons edge edges ih => rw [List.foldl_cons, ih, names_addEdge]

/-- A path adds the edges between its neighbours. -/
theorem mem_edges_addPath {path : List String} {e : String × String} :
    e ∈ (l.addPath path).edges ↔ e ∈ l.edges ∨ e ∈ path.zip path.tail := by
  rw [addPath, mem_edges_foldl_addEdge, edges_foldl_addType]

theorem contains_addPath {path : List String} {name : String} :
    (l.addPath path).contains name = true ↔ name ∈ path ∨ l.contains name = true := by
  rw [contains, addPath, names_foldl_addEdge, ← contains, contains_foldl_addType]

theorem Closed.addPath (h : l.Closed) (path : List String) : (l.addPath path).Closed := by
  rintro ⟨x, y⟩ he
  simp only [contains_addPath]
  rcases mem_edges_addPath.mp he with hold | hnew
  · exact ⟨.inr (h _ hold).1, .inr (h _ hold).2⟩
  · have hends := List.of_mem_zip hnew
    exact ⟨.inl hends.1, .inl (List.mem_of_mem_tail hends.2)⟩

theorem Built.closed (h : l.Built) : l.Closed := by
  induction h with
  | standard => exact closed_standard
  | addType _ name ih => exact ih.addType name
  | addPath _ path ih => exact ih.addPath path

/-- The states of the search from `start`: in each step the first type of the queue is followed. -/
inductive Searching (l : Lattice) (start : String) : Search → Prop
  | first (h : l.contains start = true) : Searching l start (.start start)
  | next {found : List (String × Nat)} {name : String} {queue : List String} {s : Search}
      (h : Searching l start ⟨found, name :: queue⟩)
      (hnext : l.follow? name ⟨found, queue⟩ = some s) : Searching l start s

namespace Searching

variable {start : String} {s : Search}

theorem contains_start (h : l.Searching start s) : l.contains start = true := by
  induction h with
  | first hstart => exact hstart
  | next _ _ ih => exact ih

theorem layered (h : l.Searching start s) (hl : l.Closed) : s.Layered l start := by
  induction h with
  | first _ => exact Search.layered_start l start
  | next h hnext ih =>
    obtain ⟨s', hs', hlayered⟩ := ih.follow? hl h.contains_start
    cases hnext.symm.trans hs'
    exact hlayered

/-- The search passes through each of these states. -/
theorem search? (h : l.Searching start s) (hl : l.Closed) :
    l.search? s = some (l.targets start) := by
  induction h with
  | first hstart => exact (layered_targets hl hstart).1
  | next _ hnext ih => rwa [search?_cons, hnext, Option.bind_some] at ih

/-- Each type in the queue is a type of the lattice and has its distance on record. -/
theorem mem_queue (h : l.Searching start s) (hl : l.Closed) (ht : t ∈ s.queue) :
    l.contains t = true ∧ ∃ d, s.found.lookup t = some d ∧ l.Distance d start t := by
  obtain ⟨n, near, far, hqueue, hlevel⟩ := h.layered hl
  have hfound : ∃ d, (t, d) ∈ s.found := by
    rw [hqueue] at ht
    rcases List.mem_append.mp ht with ht | ht
    · exact ⟨n, hlevel.complete t n (Nat.le_refl n) (hlevel.near_sound t ht)⟩
    · exact ⟨n + 1, (hlevel.far_iff t).mp ht⟩
  obtain ⟨d, hd⟩ := hfound
  have hdistance := (hlevel.sound t d hd).2
  exact ⟨hdistance.chain.contains hl h.contains_start, d,
    (lookup_eq_some_iff_mem hlevel.nodup).mpr hd, hdistance⟩

/-- As long as there is a type in the queue, the search takes another step. -/
theorem exists_next (h : l.Searching start s) (hl : l.Closed) {name : String} {queue : List String}
    (hqueue : s.queue = name :: queue) : ∃ s', l.follow? name ⟨s.found, queue⟩ = some s' := by
  obtain ⟨found, _⟩ := s
  cases hqueue
  obtain ⟨s', hs', -⟩ := (h.layered hl).follow? hl h.contains_start
  exact ⟨s', hs'⟩

/-- From each of its states the search comes to an empty queue. -/
theorem last (h : l.Searching start s) (hl : l.Closed) :
    l.Searching start ⟨l.targets start, []⟩ := by
  induction s using search?.induct l with
  | case1 found =>
    have htargets : found = l.targets start :=
      Option.some.inj ((l.search?_nil found).symm.trans (h.search? hl))
    exact htargets ▸ h
  | case2 found name queue s hnext _ ih => exact ih (h.next hnext)
  | case3 found name queue hnone =>
    obtain ⟨s', hs'⟩ := h.exists_next hl rfl
    cases hnone.symm.trans hs'

end Searching

/-- Both types convert to `t`, and no other such type comes before it: the sum of the distances
decides, and among equal sums the name. -/
def NearestCommon (l : Lattice) (a b t : String) : Prop :=
  ∃ d d', l.Distance d a t ∧ l.Distance d' b t ∧
    ∀ u e e', l.Distance e a u → l.Distance e' b u → toLex (d + d', t) ≤ toLex (e + e', u)

theorem NearestCommon.symm (h : l.NearestCommon a b t) : l.NearestCommon b a t := by
  obtain ⟨d, d', hd, hd', hleast⟩ := h
  refine ⟨d', d, hd', hd, fun u e e' he he' => ?_⟩
  have hle := hleast u e' e he' he
  rwa [Nat.add_comm d' d, Nat.add_comm e e']

theorem NearestCommon.unique {u : String} (h : l.NearestCommon a b t)
    (h' : l.NearestCommon a b u) : t = u := by
  obtain ⟨d, d', hd, hd', hleast⟩ := h
  obtain ⟨e, e', he, he', hleast'⟩ := h'
  have heq := le_antisymm (hleast u e e' he he') (hleast' t d d' hd hd')
  exact congrArg Prod.snd (toLex.injective heq)

theorem toLex_nearer (x y : Nat × String) : toLex (nearer x y) = min (toLex x) (toLex y) := by
  obtain ⟨m, s⟩ := x
  obtain ⟨n, t⟩ := y
  rw [nearer]
  split
  next h =>
    refine (min_eq_right ?_).symm
    simp only [Bool.or_eq_true, decide_eq_true_eq, Bool.and_eq_true, beq_iff_eq] at h
    rw [Prod.Lex.toLex_le_toLex]
    exact h.imp_right fun h => ⟨h.1, h.2.le⟩
  next h =>
    refine (min_eq_left ?_).symm
    simp only [Bool.or_eq_true, decide_eq_true_eq, Bool.and_eq_true, beq_iff_eq] at h
    rw [Prod.Lex.toLex_le_toLex]
    grind

theorem foldl_nearer_le (first : Nat × String) (rest : List (Nat × String)) :
    ∀ x ∈ first :: rest, toLex (rest.foldl nearer first) ≤ toLex x := by
  induction rest generalizing first with
  | nil => simp
  | cons y rest ih =>
    have hnearer := ih (nearer first y) (nearer first y) List.mem_cons_self
    rw [toLex_nearer, le_min_iff] at hnearer
    rw [List.foldl_cons]
    intro x hx
    rcases List.mem_cons.mp hx with rfl | hx
    · exact hnearer.1
    rcases List.mem_cons.mp hx with rfl | hx
    · exact hnearer.2
    · exact ih _ x (List.mem_cons_of_mem _ hx)

theorem nearestCommon_of_lub? (hl : l.Closed) (h : l.lub? a b = some t) :
    l.contains a = true ∧ l.contains b = true ∧ l.NearestCommon a b t := by
  rw [lub?] at h
  split at h
  next => cases h
  next first rest hcommon =>
    cases h
    have hmem := foldl_nearer_mem first rest
    have hleast := foldl_nearer_le first rest
    rw [← hcommon] at hmem hleast
    obtain ⟨ha, hb, d, d', hd, hd', hsum⟩ := (mem_commonTargets hl).mp hmem
    refine ⟨ha, hb, d, d', hd, hd', fun u e e' he he' => ?_⟩
    have hle := hleast (e + e', u) ((mem_commonTargets hl).mpr ⟨ha, hb, e, e', he, he', rfl⟩)
    rwa [← hsum]

/-- Types of the lattice have a least upper bound as soon as both reach some type. -/
theorem exists_lub?_of_chain (hl : l.Closed) (ha : l.contains a = true) {m n : Nat}
    (hat : l.Chain m a t) (hbt : l.Chain n b t) : ∃ u, l.lub? a b = some u :=
  exists_lub? hl (hat.contains hl ha) ((isConvertible_iff hl).mpr (.inr ⟨m, hat⟩))
    ((isConvertible_iff hl).mpr (.inr ⟨n, hbt⟩))

theorem lub?_eq_some_iff (hl : l.Closed) : l.lub? a b = some t ↔
    l.contains a = true ∧ l.contains b = true ∧ l.NearestCommon a b t := by
  constructor
  · exact nearestCommon_of_lub? hl
  · rintro ⟨ha, -, hnearest⟩
    obtain ⟨d, d', hd, hd', -⟩ := id hnearest
    obtain ⟨u, hu⟩ := exists_lub?_of_chain hl ha hd.chain hd'.chain
    obtain ⟨-, -, hnearest'⟩ := nearestCommon_of_lub? hl hu
    rw [hu, hnearest.unique hnearest']

theorem lub?_eq_none_iff (hl : l.Closed) : l.lub? a b = none ↔
    l.contains a = false ∨ l.contains b = false ∨ ¬ ∃ t m n, l.Chain m a t ∧ l.Chain n b t := by
  constructor
  · intro hnone
    by_contra hsome
    simp only [not_or, Bool.not_eq_false, not_not] at hsome
    obtain ⟨ha, -, t, m, n, hat, hbt⟩ := hsome
    obtain ⟨u, hu⟩ := exists_lub?_of_chain hl ha hat hbt
    rw [hnone] at hu
    cases hu
  · intro h
    by_contra hne
    obtain ⟨u, hu⟩ := Option.ne_none_iff_exists'.mp hne
    obtain ⟨ha, hb, d, d', hd, hd', -⟩ := nearestCommon_of_lub? hl hu
    rcases h with hna | hnb | hapart
    · rw [ha] at hna
      cases hna
    · rw [hb] at hnb
      cases hnb
    · exact hapart ⟨u, d, d', hd.chain, hd'.chain⟩

theorem lub?_comm (hl : l.Closed) (a b : String) : l.lub? a b = l.lub? b a := by
  have hsymm : ∀ t, l.lub? a b = some t ↔ l.lub? b a = some t := by
    intro t
    rw [lub?_eq_some_iff hl, lub?_eq_some_iff hl]
    constructor
    · rintro ⟨ha, hb, h⟩
      exact ⟨hb, ha, h.symm⟩
    · rintro ⟨hb, ha, h⟩
      exact ⟨ha, hb, h.symm⟩
  exact Option.ext hsymm

/-- However a lattice was built, conversion is reachability, the least upper bound is the nearest
common type, and the search ends without ever missing what it looks up: a type that it takes from the
queue is a type of the lattice, with its distance on record. -/
theorem Built.lub?_nearest (h : l.Built) :
    (∀ a b, l.isConvertible a b = true ↔ a = b ∨ ∃ n, l.Chain n a b) ∧
      (∀ a b, l.lub? a b = none ↔ l.contains a = false ∨ l.contains b = false ∨
        ¬ ∃ t m n, l.Chain m a t ∧ l.Chain n b t) ∧
      (∀ a b t, l.lub? a b = some t ↔
        l.contains a = true ∧ l.contains b = true ∧ l.NearestCommon a b t) ∧
      (∀ a b, l.lub? a b = l.lub? b a) ∧
      (∀ a b t, l.lub? a b = some t → l.contains t = true ∧ l.isConvertible a t = true ∧
        l.isConvertible b t = true) ∧
      (∀ start s, l.Searching start s → l.search? s = some (l.targets start) ∧
        (∀ t ∈ s.queue, l.contains t = true ∧
          ∃ d, s.found.lookup t = some d ∧ l.Distance d start t) ∧
        ∀ name queue, s.queue = name :: queue →
          ∃ s', l.follow? name ⟨s.found, queue⟩ = some s') ∧
      ∀ start, l.contains start = true → l.Searching start ⟨l.targets start, []⟩ := by
  have hl := h.closed
  refine ⟨fun a b => isConvertible_iff hl, fun a b => lub?_eq_none_iff hl,
    fun a b t => lub?_eq_some_iff hl, lub?_comm hl, ?_, ?_, ?_⟩
  · intro a b t ht
    obtain ⟨-, -, d, d', hd, hd', -⟩ := nearestCommon_of_lub? hl ht
    exact ⟨contains_of_lub? hl ht, (isConvertible_iff hl).mpr (.inr ⟨d, hd.chain⟩),
      (isConvertible_iff hl).mpr (.inr ⟨d', hd'.chain⟩)⟩
  · intro start s hsearching
    exact ⟨hsearching.search? hl, fun t => hsearching.mem_queue hl,
      fun name queue => hsearching.exists_next hl⟩
  · intro start hstart
    exact (Searching.first hstart).last hl

/-- Two types with three common types equally near, one of them through a circle. -/
theorem Built.lub?_nearest_circle :
    let l := (((Lattice.standard.addPath ["a", "q"]).addPath ["b", "q"]).addPath
      ["a", "p", "a"]).addPath ["b", "p"]
    l.Built ∧ l.NearestCommon "b" "a" "a" ∧ l.lub? "a" "b" = some "a" ∧
      ¬ ∃ n, l.Chain n "p" "b" := by
  intro l
  have hbuilt : l.Built := .addPath (.addPath (.addPath (.addPath .standard _) _) _) _
  obtain ⟨hconvertible, -, hlub, hcomm, -⟩ := hbuilt.lub?_nearest
  have ha : l.lub? "b" "a" = some "a" := by decide +kernel
  have hpb : l.isConvertible "p" "b" = false := by decide +kernel
  refine ⟨hbuilt, ((hlub "b" "a" "a").mp ha).2.2, (hcomm "a" "b").trans ha, fun hchain => ?_⟩
  rw [(hconvertible "p" "b").mpr (.inr hchain)] at hpb
  cases hpb

/-- No type has edges to two types. -/
def Unbranched (l : Lattice) : Prop := ∀ e ∈ l.edges, ∀ e' ∈ l.edges, e.1 = e'.1 → e.2 = e'.2

theorem unbranched_standard : standard.Unbranched := by
  have hall : ∀ e ∈ standard.edges, ∀ e' ∈ standard.edges, e.1 = e'.1 → e.2 = e'.2 := by decide
  exact hall

section Unbranched

variable {c : String} {m n k : Nat}

theorem isConvertible_iff_exists_chain (hl : l.Closed) :
    l.isConvertible a b = true ↔ ∃ n, l.Chain n a b := by
  rw [isConvertible_iff hl]
  constructor
  · rintro (rfl | hchain)
    · exact ⟨0, .refl a⟩
    · exact hchain
  · exact .inr

theorem Unbranched.eq_of_chain (h : l.Unbranched) (hb : l.Chain n a b) (hc : l.Chain n a c) :
    b = c := by
  induction n generalizing b c with
  | zero =>
    cases hb
    cases hc
    rfl
  | succ n ih =>
    cases hb with
    | tail hb hbedge =>
      cases hc with
      | tail hc hcedge =>
        obtain rfl := ih hb hc
        exact h _ hbedge _ hcedge rfl

/-- Of two types within reach of one type, the nearer one leads to the farther one. -/
theorem Unbranched.chain_between (h : l.Unbranched) (hb : l.Chain m a b)
    (hc : l.Chain (m + k) a c) : l.Chain k b c := by
  induction k generalizing c with
  | zero =>
    obtain rfl := h.eq_of_chain hb hc
    exact .refl b
  | succ k ih =>
    cases hc with
    | tail hc hedge => exact .tail (ih hc) hedge

theorem Unbranched.exists_chain (h : l.Unbranched) (hb : l.Distance m a b)
    (hc : l.Distance n a c) (hle : m ≤ n) : ∃ k, l.Chain k b c := by
  obtain ⟨k, rfl⟩ := Nat.exists_eq_add_of_le hle
  exact ⟨k, h.chain_between hb.chain hc.chain⟩

/-- The nearest common type leads to every other one. -/
theorem NearestCommon.exists_chain (h : l.NearestCommon a b t) (hl : l.Unbranched)
    (hac : l.Chain m a c) (hbc : l.Chain n b c) : ∃ k, l.Chain k t c := by
  obtain ⟨d, d', hd, hd', hleast⟩ := h
  obtain ⟨e, -, he⟩ := hac.exists_distance
  obtain ⟨e', -, he'⟩ := hbc.exists_distance
  have hsum : d + d' ≤ e + e' := (Prod.Lex.toLex_le_toLex'.mp (hleast c e e' he he')).1
  -- On a circle `c` may come before `t` on the way from one of the two types, but not from both.
  obtain hde | hde' : d ≤ e ∨ d' ≤ e' := by omega
  · exact hl.exists_chain hd he hde
  · exact hl.exists_chain hd' he' hde'

end Unbranched

theorem Built.foldl_addType (h : l.Built) (names : List String) :
    (names.foldl Lattice.addType l).Built := by
  induction names generalizing l with
  | nil => exact h
  | cons name names ih => exact ih (h.addType name)

/-- Where no type has edges to two types, also if the edges run in circles, two types that convert
to a third one have a least upper bound: it converts to everything that both convert to. The types
that a program is checked with are of this kind. -/
theorem lub?_least_of_unbranched :
    (∀ l : Lattice, l.Built → l.Unbranched → ∀ a b c, l.contains c = true →
      l.isConvertible a c = true → l.isConvertible b c = true →
      ∃ t, l.lub? a b = some t ∧ l.isConvertible a t = true ∧ l.isConvertible b t = true ∧
        l.isConvertible t c = true) ∧
      ∀ scopes cx, TypeContext.ofScopes scopes = .ok cx →
        cx.lattice.Built ∧ cx.lattice.Unbranched := by
  constructor
  · intro l hbuilt hunbranched a b c hc hac hbc
    have hl := hbuilt.closed
    obtain ⟨t, ht⟩ := exists_lub? hl hc hac hbc
    obtain ⟨-, -, hnearest⟩ := nearestCommon_of_lub? hl ht
    obtain ⟨d, d', hd, hd', -⟩ := id hnearest
    simp only [isConvertible_iff_exists_chain hl] at hac hbc ⊢
    obtain ⟨m, hm⟩ := hac
    obtain ⟨n, hn⟩ := hbc
    exact ⟨t, ht, ⟨d, hd.chain⟩, ⟨d', hd'.chain⟩, hnearest.exists_chain hunbranched hm hn⟩
  · intro scopes cx hcx
    obtain ⟨root, -, hroot⟩ := Result.bind_eq_ok_iff.mp hcx
    cases hroot
    refine ⟨Built.standard.foldl_addType _, ?_⟩
    rw [Unbranched, edges_foldl_addType]
    exact unbranched_standard

/-- Two types that enter a circle at different places, and the types of a program with an
enumeration. -/
theorem lub?_least_of_unbranched_circle :
    let l := (Lattice.standard.addPath ["a", "x", "y", "x"]).addPath ["b", "y"]
    let scopes : Scopes := ⟨[⟨"<root>", none, [.enum ⟨⟨"main", 1, 1⟩, "Cell"⟩]⟩]⟩
    (l.Built ∧ l.Unbranched ∧ l.contains "y" = true ∧ l.isConvertible "a" "y" = true ∧
      l.isConvertible "b" "y" = true ∧ ∃ t, l.lub? "a" "b" = some t ∧
        l.isConvertible t "y" = true) ∧
      ∃ cx, TypeContext.ofScopes scopes = .ok cx ∧ cx.lattice.contains "Cell" = true ∧
        cx.lattice.Unbranched := by
  intro l scopes
  have hbuilt : l.Built := .addPath (.addPath .standard _) _
  have hunbranched : ∀ e ∈ l.edges, ∀ e' ∈ l.edges, e.1 = e'.1 → e.2 = e'.2 := by
    decide +kernel
  have hy : l.contains "y" = true := by decide +kernel
  have hay : l.isConvertible "a" "y" = true := by decide +kernel
  have hby : l.isConvertible "b" "y" = true := by decide +kernel
  obtain ⟨t, ht, -, -, hty⟩ :=
    lub?_least_of_unbranched.1 l hbuilt hunbranched "a" "b" "y" hy hay hby
  refine ⟨⟨hbuilt, hunbranched, hy, hay, hby, t, ht, hty⟩, _, rfl, by decide, ?_⟩
  exact (lub?_least_of_unbranched.2 scopes _ rfl).2

end SimCompiler.Lattice
