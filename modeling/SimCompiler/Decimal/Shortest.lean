/-!
# Shortest decimal digits of a binary floating point number

A finite double is a whole number `m` times a power of two. The reals that round to it form an
interval around it, and its text is the decimal with the fewest digits in that interval. On the
grid of decimals with a given number of digits only the two neighbours of the value matter: if any
point of the grid lies in the interval, one of them does.
-/
namespace SimCompiler.Decimal

/-- The number `digits × 10 ^ exponent`. -/
structure Digits where
  digits : Nat
  exponent : Int
deriving DecidableEq, Repr, Inhabited

/-- Which of two equally near decimals is taken. -/
inductive Tie where
  | toEven
  | up
deriving DecidableEq, Repr

/-- A positive double `mantissa × 2 ^ exponent`. The gap to the double below it is only half as
wide as the gap above it when `lowerIsCloser`. -/
structure Binary where
  mantissa : Nat
  exponent : Int
  lowerIsCloser : Bool
deriving DecidableEq, Repr, Inhabited

namespace Binary

/-- The magnitude of a finite double, from its bits. -/
def ofBits (bits : UInt64) : Binary :=
  let fraction : Nat := bits.toNat % Nat.pow 2 52
  let biased : Nat := bits.toNat / Nat.pow 2 52 % Nat.pow 2 11
  if biased = 0 then ⟨fraction, -1074, false⟩
  else ⟨Nat.pow 2 52 + fraction, (biased : Int) - 1075, fraction == 0 && 1 < biased⟩

end Binary

/-- The values of an interval around a number, all over the same denominator. -/
structure Interval where
  low : Nat
  value : Nat
  high : Nat
  denominator : Nat
  /-- Whether the ends belong to the interval. -/
  closed : Bool

namespace Interval

/-- The reals that round to `b`. -/
def ofBinary (b : Binary) : Interval :=
  let scale := Nat.pow 2 (b.exponent - 2).toNat
  { low := (4 * b.mantissa - (if b.lowerIsCloser then 1 else 2)) * scale
    value := 4 * b.mantissa * scale
    high := (4 * b.mantissa + 2) * scale
    denominator := Nat.pow 2 (2 - b.exponent).toNat
    closed := b.mantissa % 2 == 0 }

/-- The same interval in units of `10 ^ k`. -/
def inUnits (i : Interval) (k : Int) : Interval :=
  let up := Nat.pow 10 (-k).toNat
  { i with
    low := i.low * up
    value := i.value * up
    high := i.high * up
    denominator := i.denominator * Nat.pow 10 k.toNat }

def contains (i : Interval) (n : Nat) : Bool :=
  let x := n * i.denominator
  if i.closed then i.low ≤ x && x ≤ i.high else i.low < x && x < i.high

/-- The whole number in the interval that is nearest to its value, if there is any. -/
def nearest? (tie : Tie) (i : Interval) : Option Nat :=
  let below := i.value / i.denominator
  let remainder := i.value % i.denominator
  match i.contains below, i.contains (below + 1) with
  | false, false => none
  | true, false => some below
  | false, true => some (below + 1)
  | true, true =>
    if 2 * remainder < i.denominator then some below
    else if i.denominator < 2 * remainder then some (below + 1)
    else match tie with
      | .up => some (below + 1)
      | .toEven => some (if below % 2 = 0 then below else below + 1)

/-- The exponent `e` with `10 ^ e ≤ value < 10 ^ (e + 1)`, for a positive value. -/
def magnitude (i : Interval) : Int :=
  let e : Int := (Nat.toDigits 10 i.value).length - (Nat.toDigits 10 i.denominator).length
  let j := i.inUnits e
  if j.denominator ≤ j.value then e else e - 1

end Interval

/-- Drops the zeros at the end, at most `fuel` of them. -/
def trimZeros : (fuel : Nat) → Digits → Digits
  | 0, d => d
  | fuel + 1, d =>
    if d.digits ≠ 0 ∧ d.digits % 10 = 0 then trimZeros fuel ⟨d.digits / 10, d.exponent + 1⟩ else d

/-- Tries the grids with one more digit each, the coarsest first. -/
def search (tie : Tie) (i : Interval) : (grids : Nat) → (exponent : Int) → Digits
  | 0, k => ⟨(i.inUnits k).value / (i.inUnits k).denominator, k⟩
  | grids + 1, k =>
    match (i.inUnits k).nearest? tie with
    | some n => trimZeros 18 ⟨n, k⟩
    | none => search tie i grids (k - 1)

/-- The shortest decimal that rounds to a positive double, and the nearest such one. Seventeen
digits are always enough. -/
def shortest (tie : Tie) (b : Binary) : Digits :=
  let i := Interval.ofBinary b
  search tie i 17 i.magnitude

end SimCompiler.Decimal
