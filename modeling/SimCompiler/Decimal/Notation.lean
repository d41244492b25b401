import SimCompiler.Decimal.Shortest

/-!
# Writing floating point numbers

Numbers of moderate size are written out, with at least one digit after the point. Others are
written with a power of ten. A format says where the line is drawn and how an exponent looks.
-/
namespace SimCompiler.Decimal

structure Format where
  /-- The smallest and the largest power of ten of a leading digit that is written out. -/
  plainFrom : Int
  plainTo : Int
  /-- Whether a positive exponent has a sign. -/
  plusSign : Bool
  tie : Tie
  nan : String
  infinity : String
deriving DecidableEq, Repr

namespace Format

/-- Writes out a number whose leading digit stands for `10 ^ magnitude`. -/
def plain (digits : String) (magnitude : Int) : String :=
  if magnitude < 0 then
    "0." ++ "".pushn '0' (-magnitude - 1).toNat ++ digits
  else
    let whole := magnitude.toNat + 1
    let padded := digits.pushn '0' (whole - digits.length)
    let fraction := (padded.drop whole).toString
    (padded.take whole).toString ++ "." ++ (if fraction.isEmpty then "0" else fraction)

def scientific (f : Format) (digits : String) (magnitude : Int) : String :=
  let first := (digits.take 1).toString
  let rest := (digits.drop 1).toString
  first ++ (if rest.isEmpty then "" else "." ++ rest) ++ "e" ++
    (if f.plusSign && 0 < magnitude then "+" else "") ++ toString magnitude

/-- The text of a positive number. -/
def positive (f : Format) (d : Digits) : String :=
  let digits := toString d.digits
  let magnitude := d.exponent + digits.length - 1
  if f.plainFrom ≤ magnitude && magnitude ≤ f.plainTo then plain digits magnitude
  else f.scientific digits magnitude

/-- The text of a double. The sign of zero is kept. -/
def render (f : Format) (x : Float) : String :=
  let bits := x.toBits
  let negative := bits.toNat / Nat.pow 2 63 = 1
  let fraction := bits.toNat % Nat.pow 2 52
  let biased := bits.toNat / Nat.pow 2 52 % Nat.pow 2 11
  let sign := if negative then "-" else ""
  if biased = 2047 then
    if fraction = 0 then sign ++ f.infinity else f.nan
  else if biased = 0 ∧ fraction = 0 then sign ++ "0.0"
  else sign ++ f.positive (shortest f.tie (Binary.ofBits bits))

end Format

end SimCompiler.Decimal
