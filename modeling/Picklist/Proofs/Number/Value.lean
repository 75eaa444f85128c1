/-
# The values of doubles

A double has at most 53 significant bits and the least exponent that keeps all of them.  In this
form a magnitude is written in one way only, so numeric equality of doubles is equality of the
rationals that they stand for.

* `Binary64.Proper` : the form;
* `Binary64.value` : the rational that a double stands for;
* `Binary64.magnitude_inj` : a magnitude has one significand and one exponent;
* `Binary64.same_iff_value_eq` : numeric equality is equality of values.
-/
import Picklist.Number.Binary64
import Mathlib.Algebra.Order.Field.Power
import Mathlib.Data.Rat.Cast.Order
import Mathlib.Tactic.FieldSimp
import Mathlib.Tactic.Linarith
import Mathlib.Tactic.NormNum

namespace Picklist

namespace Binary64

/-! ## Proper doubles -/

/-- The significand has at most 53 bits, and fewer only where the exponent is the least one. -/
structure Proper (x : Binary64) : Prop where
  bound : x.significand < 2 ^ 53
  least : minExponent ≤ x.exponent
  most : x.exponent ≤ maxExponent
  normal : 2 ^ 52 ≤ x.significand ∨ x.exponent = minExponent

instance (x : Binary64) : Decidable x.Proper :=
  decidable_of_iff
    (x.significand < 2 ^ 53 ∧ minExponent ≤ x.exponent ∧ x.exponent ≤ maxExponent ∧
      (2 ^ 52 ≤ x.significand ∨ x.exponent = minExponent))
    ⟨fun h => ⟨h.1, h.2.1, h.2.2.1, h.2.2.2⟩, fun h => ⟨h.bound, h.least, h.most, h.normal⟩⟩

theorem proper_zero (negative : Bool) : (zero negative).Proper :=
  ⟨by norm_num [zero], le_rfl, by simp [zero, minExponent, maxExponent], .inr rfl⟩

/-! ## Values -/

/-- The magnitude as a rational. -/
def magnitude (x : Binary64) : ℚ := x.significand * 2 ^ x.exponent

/-- The rational that a double stands for. -/
def value (x : Binary64) : ℚ := if x.negative then -x.magnitude else x.magnitude

variable {x y : Binary64}

theorem magnitude_nonneg (x : Binary64) : 0 ≤ x.magnitude :=
  mul_nonneg (Nat.cast_nonneg _) (zpow_nonneg (by norm_num) _)

theorem magnitude_eq_zero_iff : x.magnitude = 0 ↔ x.isZero = true := by
  have hpow : (2 : ℚ) ^ x.exponent ≠ 0 := zpow_ne_zero _ (by norm_num)
  rw [magnitude, mul_eq_zero, or_iff_left hpow, Nat.cast_eq_zero, isZero, beq_iff_eq]

/-- Of two equal magnitudes the one with the smaller exponent has the larger significand. -/
theorem significand_eq_of_magnitude_eq (h : x.magnitude = y.magnitude)
    (he : x.exponent ≤ y.exponent) :
    x.significand = y.significand * 2 ^ (y.exponent - x.exponent).toNat := by
  have hpow : (2 : ℚ) ^ x.exponent ≠ 0 := zpow_ne_zero _ (by norm_num)
  have hsplit : (2 : ℚ) ^ y.exponent =
      2 ^ (y.exponent - x.exponent).toNat * 2 ^ x.exponent := by
    rw [← zpow_natCast, ← zpow_add₀ (by norm_num)]
    congr 1
    omega
  rw [magnitude, magnitude, hsplit, ← mul_assoc] at h
  exact_mod_cast mul_right_cancel₀ hpow h

/-- Proper doubles with the same magnitude have the same exponent. -/
theorem exponent_le_of_magnitude_eq (hx : x.Proper) (hy : y.Proper)
    (h : x.magnitude = y.magnitude) : y.exponent ≤ x.exponent := by
  by_contra hlt
  have hsig := significand_eq_of_magnitude_eq h (by omega)
  -- the larger exponent is not the least one, so its significand has all 53 bits
  have hnormal : 2 ^ 52 ≤ y.significand := hy.normal.resolve_right fun he => by
    have := hx.least
    omega
  have htwo : 2 ^ 1 ≤ 2 ^ (y.exponent - x.exponent).toNat :=
    Nat.pow_le_pow_right (by norm_num) (by omega)
  have hbound := hx.bound
  have hprod : 2 ^ 52 * 2 ^ 1 ≤ y.significand * 2 ^ (y.exponent - x.exponent).toNat :=
    Nat.mul_le_mul hnormal htwo
  omega

/-- A magnitude has one significand and one exponent. -/
theorem magnitude_inj (hx : x.Proper) (hy : y.Proper) :
    x.magnitude = y.magnitude ↔ x.significand = y.significand ∧ x.exponent = y.exponent := by
  constructor
  · intro h
    have he : x.exponent = y.exponent := le_antisymm
      (exponent_le_of_magnitude_eq hy hx h.symm) (exponent_le_of_magnitude_eq hx hy h)
    have hsig := significand_eq_of_magnitude_eq h he.le
    rw [he, sub_self, Int.toNat_zero, pow_zero, mul_one] at hsig
    exact ⟨hsig, he⟩
  · rintro ⟨hsig, he⟩
    rw [magnitude, magnitude, hsig, he]

/-- Doubles have the same value when they have the same sign and magnitude, or are zeros. -/
theorem value_eq_iff : x.value = y.value ↔
    (x.negative = y.negative ∧ x.magnitude = y.magnitude) ∨
      (x.magnitude = 0 ∧ y.magnitude = 0) := by
  have hx := magnitude_nonneg x
  have hy := magnitude_nonneg y
  unfold value
  cases x.negative <;> cases y.negative
  · simp only [Bool.false_eq_true, if_false, true_and]
    exact ⟨.inl, fun h => h.elim id fun h => h.1.trans h.2.symm⟩
  · simp only [Bool.false_eq_true, if_false, if_true, false_and, false_or]
    exact ⟨fun h => by constructor <;> linarith, fun h => by rw [h.1, h.2, neg_zero]⟩
  · simp only [Bool.false_eq_true, Bool.true_eq_false, if_false, if_true, false_and, false_or]
    exact ⟨fun h => by constructor <;> linarith, fun h => by rw [h.1, h.2, neg_zero]⟩
  · simp only [if_true, true_and, neg_inj]
    exact ⟨.inl, fun h => h.elim id fun h => h.1.trans h.2.symm⟩

/-- **Numeric equality is equality of values.** -/
theorem same_iff_value_eq (hx : x.Proper) (hy : y.Proper) :
    x.same y = true ↔ x.value = y.value := by
  rw [value_eq_iff, same, Bool.or_eq_true, Bool.and_eq_true, decide_eq_true_eq,
    magnitude_inj hx hy, magnitude_eq_zero_iff, magnitude_eq_zero_iff]
  refine or_congr_left ?_
  cases x
  cases y
  simp only [mk.injEq]

end Binary64

end Picklist
