import Mathlib.Algebra.Order.Ring.Int
import SimCompiler.Emit.Generator
import SimCompiler.Proofs.CommonTypes

/-!
# Integers under conversion

Integer types are stored in words of the target language, and a word represents a range of integers.
Along each edge of the lattice the range grows or stays as it is, except from `uint` to `int`: their
words are equally long, and only one of them has a sign. So a conversion keeps every integer unless
it leads from a word of 64 bits without a sign to `int`, where it keeps the lower half.
-/
namespace SimCompiler

namespace Target

/-- The integer types of the target language: truth values, and words with and without a sign. -/
inductive IntegerType where
  | bool
  | signed (bits : Nat)
  | unsigned (bits : Nat)
deriving DecidableEq, Repr

namespace IntegerType

def code : IntegerType → String
  | .bool => "bool"
  | .signed bits => "std::int" ++ bits.repr ++ "_t"
  | .unsigned bits => "std::uint" ++ bits.repr ++ "_t"

def least : IntegerType → Int
  | .bool => 0
  | .signed bits => -2 ^ (bits - 1)
  | .unsigned _ => 0

def greatest : IntegerType → Int
  | .bool => 1
  | .signed bits => 2 ^ (bits - 1) - 1
  | .unsigned bits => 2 ^ bits - 1

/-- The integer is a value of the type. -/
def Represents (t : IntegerType) (n : Int) : Prop := t.least ≤ n ∧ n ≤ t.greatest

/-- Every value of `s` is a value of `t`. -/
def Within (s t : IntegerType) : Prop := ∀ n, s.Represents n → t.Represents n

theorem least_le_greatest (t : IntegerType) : t.least ≤ t.greatest := by
  cases t with
  | bool => decide
  | signed bits =>
    have hpos : (0 : Int) < 2 ^ (bits - 1) := pow_pos (by decide) _
    simp only [least, greatest]
    omega
  | unsigned bits =>
    have hpos : (0 : Int) < 2 ^ bits := pow_pos (by decide) _
    simp only [least, greatest]
    omega

/-- The ends of the range decide. -/
theorem within_iff {s t : IntegerType} :
    s.Within t ↔ t.least ≤ s.least ∧ s.greatest ≤ t.greatest := by
  constructor
  · intro h
    exact ⟨(h s.least ⟨le_refl _, s.least_le_greatest⟩).1,
      (h s.greatest ⟨s.least_le_greatest, le_refl _⟩).2⟩
  · rintro ⟨hleast, hgreatest⟩ n ⟨hlower, hupper⟩
    exact ⟨hleast.trans hlower, hupper.trans hgreatest⟩

instance (s t : IntegerType) : Decidable (s.Within t) := decidable_of_iff _ within_iff.symm

/-- Of the values without a sign, those of the lower half fit a word of the same length with one. -/
theorem represents_signed_iff {bits : Nat} {n : Int} (h : (unsigned bits).Represents n) :
    (signed bits).Represents n ↔ n < 2 ^ (bits - 1) := by
  have hpos : (0 : Int) < 2 ^ (bits - 1) := pow_pos (by decide) _
  have hnonneg : 0 ≤ n := h.1
  simp only [Represents, least, greatest]
  omega

theorem Within.trans {s t u : IntegerType} (h : s.Within t) (h' : t.Within u) : s.Within u :=
  fun n hn => h' n (h n hn)

end IntegerType

/-- The integer types of the language, each with what it is stored in. -/
def integerTypes : List (String × IntegerType) :=
  [(TypeName.bool, .bool), (TypeName.int, .signed 64), (TypeName.uint, .unsigned 64),
    ("i8", .signed 8), ("i16", .signed 16), ("i32", .signed 32), ("i64", .signed 64),
    ("u8", .unsigned 8), ("u16", .unsigned 16), ("u32", .unsigned 32), ("u64", .unsigned 64)]

theorem primitiveType?_of_mem_integerTypes :
    ∀ x ∈ integerTypes, primitiveType? x.1 = some x.2.code := by
  decide

/-- The conversions from a word of 64 bits without a sign to `int`. -/
def Overflows (a b : String) : Prop :=
  b = TypeName.int ∧ (a = TypeName.uint ∨ a = "u64")

/-- Only words of 64 bits without a sign represent integers that `int` does not. -/
theorem within_int_iff : ∀ x ∈ integerTypes,
    x.2.Within (.signed 64) ↔ ¬ (x.1 = TypeName.uint ∨ x.1 = "u64") := by
  decide +kernel

theorem eq_unsigned_of_long : ∀ x ∈ integerTypes,
    x.1 = TypeName.uint ∨ x.1 = "u64" → x.2 = .unsigned 64 := by
  decide

/-- No edge but those to `int` loses an integer, and none comes from `int`. -/
theorem within_of_mem_edges : ∀ e ∈ Lattice.standard.edges, ∀ y ∈ integerTypes,
    e.2 = y.1 → y.1 ≠ TypeName.int →
      ∃ x ∈ integerTypes, x.1 = e.1 ∧ x.1 ≠ TypeName.int ∧ x.2.Within y.2 := by
  decide +kernel

end Target

open Target

namespace Lattice

variable {l l' : Lattice} {a b : String} {n : Nat}

theorem Chain.mono (hedges : l.edges ⊆ l'.edges) (h : l.Chain n a b) : l'.Chain n a b := by
  induction h with
  | refl a => exact .refl a
  | tail _ hedge ih => exact .tail ih (hedges hedge)

/-- A chain to another integer type than `int` keeps every integer. -/
theorem Chain.within (h : standard.Chain n a b) {t : IntegerType} (hb : (b, t) ∈ integerTypes)
    (hint : b ≠ TypeName.int) : ∃ s, (a, s) ∈ integerTypes ∧ s.Within t := by
  induction h generalizing t with
  | refl b => exact ⟨t, hb, fun _ => id⟩
  | tail _ hedge ih =>
    obtain ⟨⟨_, s⟩, hs, rfl, hsint, hst⟩ := within_of_mem_edges _ hedge _ hb rfl hint
    obtain ⟨r, hr, hrs⟩ := ih hs hsint
    exact ⟨r, hr, hrs.trans hst⟩

end Lattice

theorem Generator.typeCode_of_mem_integerTypes (g : Generator) {type : TypeRef} {t : IntegerType}
    (h : (type.name, t) ∈ integerTypes) : g.typeCode type = .ok t.code := by
  rw [typeCode, primitiveType?_of_mem_integerTypes _ h]

namespace TypeContext

variable {scopes : Scopes} {cx : TypeContext}

/-- Enumerations bring no conversions with them. -/
theorem exists_chain_of_isConvertible (hcx : TypeContext.ofScopes scopes = .ok cx) {a b : String}
    (h : cx.lattice.isConvertible a b = true) : ∃ n, Lattice.standard.Chain n a b := by
  obtain ⟨root, -, hroot⟩ := Result.bind_eq_ok_iff.mp hcx
  cases hroot
  obtain ⟨n, hchain⟩ := (Lattice.isConvertible_iff_exists_chain
    (Lattice.closed_standard.foldl_addType root.enumNames)).mp h
  exact ⟨n, hchain.mono (by rw [Lattice.edges_foldl_addType]; exact List.Subset.refl _)⟩

/-- A conversion between integer types keeps every integer, unless it leads from a word of 64 bits
without a sign to `int`: then it keeps those below `2 ^ 63`. -/
theorem isConvertible_keeps_integers_iff (hcx : TypeContext.ofScopes scopes = .ok cx)
    (g : Generator) (a b : TypeRef) (ha : a.name ∈ integerTypes.map Prod.fst)
    (hb : b.name ∈ integerTypes.map Prod.fst)
    (h : cx.lattice.isConvertible a.name b.name = true) :
    ∃ s t : IntegerType, g.typeCode a = .ok s.code ∧ g.typeCode b = .ok t.code ∧
      ((∀ n, s.Represents n → t.Represents n) ↔ ¬ Overflows a.name b.name) ∧
      (Overflows a.name b.name → ∀ n, s.Represents n → (t.Represents n ↔ n < 2 ^ 63)) := by
  -- The only edge with a loss leads to `int`, from where no edge leads to an integer type, so a
  -- chain that ends elsewhere does without it. What reaches `int` is compared with it directly:
  -- a short word loses nothing even on a chain through `uint`.
  by_cases hint : b.name = TypeName.int
  · obtain ⟨⟨_, s⟩, hs, rfl⟩ := List.mem_map.mp ha
    have ht : (b.name, IntegerType.signed 64) ∈ integerTypes := by
      rw [hint]
      decide
    refine ⟨s, .signed 64, g.typeCode_of_mem_integerTypes hs, g.typeCode_of_mem_integerTypes ht,
      ?_, ?_⟩
    · rw [Overflows, and_iff_right hint]
      exact within_int_iff _ hs
    · rintro ⟨-, hlong⟩ n hn
      obtain rfl := eq_unsigned_of_long _ hs hlong
      exact IntegerType.represents_signed_iff hn
  · obtain ⟨⟨_, t⟩, ht, rfl⟩ := List.mem_map.mp hb
    obtain ⟨n, hchain⟩ := exists_chain_of_isConvertible hcx h
    obtain ⟨s, hs, hst⟩ := hchain.within ht hint
    exact ⟨s, t, g.typeCode_of_mem_integerTypes hs, g.typeCode_of_mem_integerTypes ht,
      iff_of_true hst fun hover => hint hover.1, fun hover => absurd hover.1 hint⟩

/-- Where an enumeration is called `u64`, the integer type of that name still converts to `int` with
a loss, and `u32` without. -/
theorem isConvertible_keeps_integers_iff_u64 :
    let scopes : Scopes := ⟨[⟨"<root>", none, [.enum ⟨⟨"main", 1, 1⟩, "u64"⟩]⟩]⟩
    let type (name : String) : TypeRef := ⟨⟨"main", 2, 1⟩, name, false⟩
    let code (name : String) : Result String := (default : Generator).typeCode (type name)
    ∃ cx, TypeContext.ofScopes scopes = .ok cx ∧
      cx.lattice.isConvertible "u64" "int" = true ∧ cx.lattice.isConvertible "u32" "int" = true ∧
      (∃ s t : IntegerType, code "u64" = .ok s.code ∧ code "int" = .ok t.code ∧
        (∃ n, s.Represents n ∧ ¬ t.Represents n) ∧
        ∀ n, s.Represents n → (t.Represents n ↔ n < 2 ^ 63)) ∧
      ∃ s t : IntegerType, code "u32" = .ok s.code ∧ code "int" = .ok t.code ∧
        ∀ n, s.Represents n → t.Represents n := by
  intro scopes type code
  obtain ⟨cx, hcx⟩ : ∃ cx, TypeContext.ofScopes scopes = .ok cx := ⟨_, rfl⟩
  have hconvertible : cx.lattice.isConvertible "u64" "int" = true ∧
      cx.lattice.isConvertible "u32" "int" = true := by
    cases hcx
    decide +kernel
  obtain ⟨s, t, hs, ht, hkeeps, hlost⟩ := isConvertible_keeps_integers_iff hcx default
    (type "u64") (type "int") (by decide) (by decide) hconvertible.1
  obtain ⟨s', t', hs', ht', hkeeps', -⟩ := isConvertible_keeps_integers_iff hcx default
    (type "u32") (type "int") (by decide) (by decide) hconvertible.2
  have hover : Overflows "u64" "int" := ⟨rfl, .inr rfl⟩
  have hloses : ¬ ∀ n, s.Represents n → t.Represents n := fun hall => hkeeps.mp hall hover
  refine ⟨cx, hcx, hconvertible.1, hconvertible.2, ⟨s, t, hs, ht, ?_, hlost hover⟩,
    s', t', hs', ht', hkeeps'.mpr fun h => absurd h.2 (by decide)⟩
  simpa [Classical.not_imp] using hloses

end TypeContext

end SimCompiler
