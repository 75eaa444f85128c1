/-
# The fewest digits that read back

The shortest decimal of a positive double: of all decimals that round to it, one on
the coarsest decimal grid, and on that grid the nearest one.  The reals that round to
`m * 2 ^ e` form an interval that reaches half way to both neighbours, its ends
included exactly when `m` is even; below a power of two the lower neighbour is twice
as close.  If any point of a grid lies in the interval, one of the two grid
neighbours of the number does, so only these are tried.
-/
import Picklist.Number.Binary64

namespace Picklist

/-- The decimal `digits * 10 ^ exponent`. -/
structure Decimal where
  digits : Nat
  exponent : Int
  deriving DecidableEq, Repr

namespace Binary64

/-- Quarters of a unit in the last place from the number down to the lower end of its
rounding interval. -/
def lowerGap (x : Binary64) : Nat :=
  if x.significand = significandBound / 2 && x.exponent ≠ minExponent then 1 else 2

/-- Whether `c * 10 ^ p` rounds to `x`.  All three numbers are compared in quarters of
the last place of `x`, scaled to integers. -/
def covers (x : Binary64) (c : Nat) (p : Int) : Bool :=
  let unit := Nat.pow 10 p.toNat * Nat.pow 2 (2 - x.exponent).toNat
  let quarter := Nat.pow 2 (x.exponent - 2).toNat * Nat.pow 10 (-p).toNat
  let low := (4 * x.significand - x.lowerGap) * quarter
  let high := (4 * x.significand + 2) * quarter
  if x.significand % 2 = 0 then low ≤ c * unit && c * unit ≤ high
  else low < c * unit && c * unit < high

/-- The neighbour of `x` on the grid of multiples of `10 ^ p` that rounds to `x`; of two
such neighbours the nearer one, and the even one when `x` is half way. -/
def onGrid? (x : Binary64) (p : Int) : Option Nat :=
  let unit := Nat.pow 10 p.toNat * Nat.pow 2 (2 - x.exponent).toNat
  let value :=
    4 * x.significand * (Nat.pow 2 (x.exponent - 2).toNat * Nat.pow 10 (-p).toNat)
  let below := value / unit
  match x.covers below p, x.covers (below + 1) p with
  | true, true => some (roundHalfEven value unit)
  | true, false => some below
  | false, true => some (below + 1)
  | false, false => none

/-- The coarsest grid with a hit, from `10 ^ p` downwards over `steps` grids. -/
def coarsest (x : Binary64) : Nat → Int → Decimal
  | 0, p => ⟨(x.onGrid? p).getD 0, p⟩
  | steps + 1, p =>
    match x.onGrid? p with
    | some c => ⟨c, p⟩
    | none => coarsest x steps (p - 1)

/-- A power of ten above the magnitude: `log10 2` is just below `30103 / 100000`. -/
def decimalCeiling (x : Binary64) : Int :=
  (x.exponent + x.significand.log2 + 1) * 30103 / 100000 + 2

/-- The shortest decimal that reads back as the magnitude of a nonzero double.
Seventeen digits always suffice, so twenty-one grids do. -/
def shortest (x : Binary64) : Decimal :=
  coarsest x 21 x.decimalCeiling

end Binary64

end Picklist
