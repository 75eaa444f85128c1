/-
# Finite binary64 numbers

A double is a sign and a magnitude `significand * 2 ^ exponent`.  Every double is
made by rounding an exact quotient of naturals once, to nearest with ties to the
even significand (`Binary64.ofQuotient?`); the products and quotients that reading
a decimal needs, and the conversion of an integer, are instances of that rule.
-/

namespace Picklist

/-! ## Rounding quotients -/

/-- The natural nearest to `n / d`; a half goes to the even neighbour. -/
def roundHalfEven (n d : Nat) : Nat :=
  let q := n / d
  let twice := 2 * (n % d)
  if twice < d then q
  else if d < twice then q + 1
  else q + q % 2

/-! ## Doubles -/

/-- A finite double: `significand * 2 ^ exponent`, negated when `negative`.  The
values made by `Binary64.ofQuotient?` have at most 53 significant bits and the
least exponent that keeps all of them; zero has a sign. -/
structure Binary64 where
  negative : Bool
  significand : Nat
  exponent : Int
  deriving DecidableEq, Repr

namespace Binary64

/-- The significand stays below this bound. -/
def significandBound : Nat := Nat.pow 2 53

/-- The exponent of the last bit of a subnormal number. -/
def minExponent : Int := -1074

/-- The exponent of the last bit of the largest finite number. -/
def maxExponent : Int := 971

/-- The quotient `n / (d * 2 ^ e)` as a numerator and a denominator. -/
def scaled (n d : Nat) (e : Int) : Nat × Nat :=
  (n * Nat.pow 2 (-e).toNat, d * Nat.pow 2 e.toNat)

/-- The double nearest to `n / d`, ties to even, or nothing when that is beyond the
largest finite double.  The first guess for the exponent leaves 53 or 54 bits
before the point, so it is at most one too small. -/
def ofQuotient? (negative : Bool) (n d : Nat) : Option Binary64 :=
  if n = 0 then some ⟨negative, 0, minExponent⟩
  else
    let guess : Int := n.log2 - d.log2 - 53
    let (a, b) := scaled n d guess
    let fitted := if a / b < significandBound then guess else guess + 1
    let e := max minExponent fitted
    let (a, b) := scaled n d e
    let m := roundHalfEven a b
    if m < significandBound then
      if e ≤ maxExponent then some ⟨negative, m, e⟩ else none
    else
      if e + 1 ≤ maxExponent then some ⟨negative, m / 2, e + 1⟩ else none

/-- Positive or negative zero. -/
def zero (negative : Bool) : Binary64 := ⟨negative, 0, minExponent⟩

/-- Whether the number is a zero of either sign. -/
def isZero (x : Binary64) : Bool := x.significand == 0

/-- Numeric equality: both zeros are equal, otherwise sign and magnitude decide. -/
def same (x y : Binary64) : Bool := x = y || (x.isZero && y.isZero)

/-- The magnitude as an exact quotient of naturals. -/
def quotient (x : Binary64) : Nat × Nat :=
  (x.significand * Nat.pow 2 x.exponent.toNat, Nat.pow 2 (-x.exponent).toNat)

/-- The rounded product of two doubles. -/
def mul? (x y : Binary64) : Option Binary64 :=
  let (a, b) := x.quotient
  let (c, d) := y.quotient
  ofQuotient? (x.negative != y.negative) (a * c) (b * d)

/-- The rounded quotient of a double by a nonzero one. -/
def div? (x y : Binary64) : Option Binary64 :=
  let (a, b) := x.quotient
  let (c, d) := y.quotient
  ofQuotient? (x.negative != y.negative) (a * d) (b * c)

/-- The double with the opposite sign. -/
def neg (x : Binary64) : Binary64 := { x with negative := !x.negative }

/-- The double nearest to an integer; the integers of this library are far below
the largest double, beyond which the answer is a zero. -/
def ofInt (n : Int) : Binary64 :=
  (ofQuotient? (decide (n < 0)) n.natAbs 1).getD (zero (decide (n < 0)))

theorem same_self (x : Binary64) : x.same x = true := by
  simp [same]

end Binary64

end Picklist
