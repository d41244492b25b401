import SimCompiler.Types.Name

/-!
# The conversion lattice

A directed graph over type names. An edge from `a` to `b` means that a value of type `a` converts
to `b` without loss; conversions compose, so a type converts to everything that can be reached
from it. The least upper bound of two types is the nearest type that both convert to.
-/
namespace SimCompiler

structure Lattice where
  /-- Every type, each name once. -/
  names : List String := []
  edges : List (String × String) := []
deriving DecidableEq, Repr, Inhabited

namespace Lattice

def contains (l : Lattice) (name : String) : Bool := l.names.contains name

/-- Adds a type that converts only to itself, unless it is there already. -/
def addType (l : Lattice) (name : String) : Lattice :=
  if l.contains name then l else { l with names := l.names ++ [name] }

@[simp] theorem contains_addType (l : Lattice) (name other : String) :
    (l.addType name).contains other = (other == name || l.contains other) := by
  by_cases h : l.contains name = true <;> grind [addType, contains]

def addEdge (l : Lattice) (edge : String × String) : Lattice :=
  if l.edges.contains edge then l else { l with edges := l.edges ++ [edge] }

/-- Adds the types of `path` and the conversion of each to the next, narrowest first. -/
def addPath (l : Lattice) (path : List String) : Lattice :=
  (path.zip path.tail).foldl addEdge (path.foldl addType l)

/-- The number types and `str`. -/
def standard : Lattice :=
  ((((({} : Lattice).addPath
    [TypeName.bool, TypeName.uint, TypeName.int, TypeName.float]).addPath
    ["i8", "i16", "i32", "i64", TypeName.int]).addPath
    ["u8", "u16", "u32", "u64", TypeName.uint]).addPath
    ["f32", "f64", TypeName.float]).addType TypeName.str

/-- All type names in order of their code points. -/
def sortedNames (l : Lattice) : List String := l.names.mergeSort (· ≤ ·)

/-- The types that `name` converts to in one step, where it is a type of the lattice. -/
def successors? (l : Lattice) (name : String) : Option (List String) :=
  if l.contains name then
    some (l.edges.filterMap fun (a, b) => if a == name then some b else none)
  else none

theorem mem_successors? {l : Lattice} {a b : String} {next : List String}
    (h : l.successors? a = some next) : b ∈ next ↔ (a, b) ∈ l.edges := by
  rw [successors?] at h
  split at h
  · cases h
    grind
  · cases h

/-- The types that a search has found, with their distances, and of these the ones whose conversions
it has not followed yet, in the order in which they were found. -/
structure Search where
  found : List (String × Nat)
  queue : List String
deriving DecidableEq, Repr

namespace Search

/-- Puts a type on record and into the queue, unless it has been found before. -/
def reach (distance : Nat) (s : Search) (name : String) : Search :=
  if (s.found.lookup name).isSome then s
  else ⟨s.found ++ [(name, distance)], s.queue ++ [name]⟩

/-- What a search has still to do: follow the types in the queue and the edges to types that have
not been found. -/
def ahead (l : Lattice) (s : Search) : Nat :=
  (l.edges.filter fun e => (s.found.lookup e.2).isNone).length + s.queue.length

/-- A type that enters the queue is no longer ahead as the end of an edge. -/
theorem ahead_reach_le {l : Lattice} {name : String} (h : ∃ a, (a, name) ∈ l.edges)
    (distance : Nat) (s : Search) : (s.reach distance name).ahead l ≤ s.ahead l := by
  rw [reach]
  split
  · exact Nat.le_refl _
  · next hnew =>
    obtain ⟨a, hedge⟩ := h
    have hnone : (s.found.lookup name).isNone = true := by
      rw [Option.isNone_iff_eq_none, ← Option.not_isSome_iff_eq_none]
      exact hnew
    have hfilter : (l.edges.filter fun e => ((s.found ++ [(name, distance)]).lookup e.2).isNone) =
        (l.edges.filter fun e => (s.found.lookup e.2).isNone).filter (·.2 != name) := by
      rw [List.filter_filter]
      apply List.filter_congr
      rintro ⟨b, c⟩ -
      grind
    have hless : ((l.edges.filter fun e => (s.found.lookup e.2).isNone).filter
        (·.2 != name)).length < (l.edges.filter fun e => (s.found.lookup e.2).isNone).length :=
      List.length_filter_lt_length_iff_exists.mpr
        ⟨(a, name), List.mem_filter.mpr ⟨hedge, hnone⟩, by simp⟩
    simp only [ahead, hfilter, List.length_append, List.length_singleton]
    omega

end Search

/-- Follows the conversions of a type that was taken from the queue. There is no answer unless the
type has a distance on record and is a type of the lattice. -/
def follow? (l : Lattice) (name : String) (s : Search) : Option Search := do
  let distance ← s.found.lookup name
  let next ← l.successors? name
  return next.foldl (Search.reach (distance + 1)) s

theorem ahead_follow?_le {l : Lattice} {name : String} {s s' : Search}
    (h : l.follow? name s = some s') : s'.ahead l ≤ s.ahead l := by
  simp only [follow?, Option.bind_eq_bind, Option.bind_eq_some_iff] at h
  obtain ⟨distance, -, next, hnext, heq⟩ := h
  cases heq
  have hedges : ∀ b ∈ next, ∃ a, (a, b) ∈ l.edges :=
    fun b hb => ⟨name, (mem_successors? hnext).mp hb⟩
  clear hnext
  induction next generalizing s with
  | nil => exact Nat.le_refl _
  | cons b next ih =>
    obtain ⟨hb, hrest⟩ := List.forall_mem_cons.mp hedges
    exact Nat.le_trans (ih hrest) (Search.ahead_reach_le hb _ s)

/-- Breadth-first search: follows the types in the queue, first come first served, and answers with
what has been found when the queue is empty. -/
def search? (l : Lattice) : Search → Option (List (String × Nat))
  | ⟨found, []⟩ => some found
  | ⟨found, name :: queue⟩ =>
    match h : l.follow? name ⟨found, queue⟩ with
    | some s =>
      have := ahead_follow?_le h
      l.search? s
    | none => none
termination_by s => s.ahead l
decreasing_by
  simp only [Search.ahead, List.length_cons] at this ⊢
  omega

theorem search?_nil (l : Lattice) (found : List (String × Nat)) :
    l.search? ⟨found, []⟩ = some found := by
  rw [search?]

theorem search?_cons (l : Lattice) (found : List (String × Nat)) (name : String)
    (queue : List String) :
    l.search? ⟨found, name :: queue⟩ = (l.follow? name ⟨found, queue⟩).bind l.search? := by
  rw [search?]
  split
  · next h => simp only [h, Option.bind_some]
  · next h => simp only [h, Option.bind_none]

/-- The search before its first step: `name` is at distance zero from itself. -/
def Search.start (name : String) : Search := ⟨[(name, 0)], [name]⟩

/-- Every type that `name` converts to, with the length of the shortest path. -/
def targets (l : Lattice) (name : String) : List (String × Nat) :=
  if l.contains name then (l.search? (.start name)).getD [] else []

def isConvertible (l : Lattice) (source target : String) : Bool :=
  source == target || ((l.targets source).lookup target).isSome

/-- Of two common types the one with the smaller sum of distances, then of smaller name. -/
def nearer (a b : Nat × String) : Nat × String :=
  if b.1 < a.1 || (b.1 == a.1 && b.2 < a.2) then b else a

/-- The types both `a` and `b` convert to, with the sum of their distances. -/
def commonTargets (l : Lattice) (a b : String) : List (Nat × String) :=
  let fromB := l.targets b
  (l.targets a).filterMap fun (t, d) => (fromB.lookup t).map fun d' => (d + d', t)

/-- The nearest type both types convert to. Ties go by name, so the order of the arguments does
not matter. -/
def lub? (l : Lattice) (a b : String) : Option String :=
  match l.commonTargets a b with
  | [] => none
  | first :: rest => some (rest.foldl nearer first).2

end Lattice

end SimCompiler
