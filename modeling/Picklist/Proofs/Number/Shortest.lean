/-
# The decimal of a double

A double is written as a decimal that lies in its rounding interval.  The intervals of different
doubles have no point in common, so the decimal tells the double.

* `Binary64.Covers` : a rational lies in the rounding interval of a double, and
  `Binary64.covers_iff` : the integer comparison decides that;
* `Binary64.Precedes` and `Binary64.precedes_of_magnitude_lt` : the intervals of different
  magnitudes lie one behind the other;
* `Binary64.eq_of_covers` : so they have no point in common;
* `ten_zpow_lt` : the finest grid that is tried is finer than an interval;
* `Binary64.covers_shortest` : so the search ends with a decimal in the interval.
-/
import Picklist.Number.Shortest
import Picklist.Proofs.Number.Rounding

namespace Picklist

namespace Binary64

/-! ## Rounding intervals -/

/-- The lower end of the rounding interval. -/
def lower (x : Binary64) : ℚ := (4 * x.significand - x.lowerGap) * 2 ^ (x.exponent - 2)

/-- The upper end of the rounding interval. -/
def upper (x : Binary64) : ℚ := (4 * x.significand + 2) * 2 ^ (x.exponent - 2)

/-- A rational lies in the rounding interval, to which the ends belong when the significand is
even. -/
def Covers (x : Binary64) (q : ℚ) : Prop :=
  if x.significand % 2 = 0 then x.lower ≤ q ∧ q ≤ x.upper else x.lower < q ∧ q < x.upper

variable {x y : Binary64} {q : ℚ}

/-- The lower neighbour is one or two quarters away. -/
theorem lowerGap_eq (x : Binary64) : x.lowerGap =
    if x.significand = 2 ^ 52 ∧ x.exponent ≠ minExponent then 1 else 2 := by
  have hhalf : significandBound / 2 = 2 ^ 52 := rfl
  simp [lowerGap, hhalf]

/-- The lower neighbour is at most two quarters away. -/
theorem lowerGap_le (x : Binary64) : x.lowerGap ≤ 2 := by
  rw [lowerGap_eq]
  split <;> omega

theorem lowerGap_pos (x : Binary64) : 0 < x.lowerGap := by
  rw [lowerGap_eq]
  split <;> omega

/-- A magnitude in quarters of its last place. -/
theorem magnitude_eq (x : Binary64) :
    x.magnitude = 4 * x.significand * 2 ^ (x.exponent - 2) := by
  rw [magnitude, zpow_sub₀ (by norm_num)]
  norm_num
  ring

theorem quarter_pos (x : Binary64) : (0 : ℚ) < 2 ^ (x.exponent - 2) := zpow_pos (by norm_num) _

theorem lower_lt_magnitude (x : Binary64) : x.lower < x.magnitude := by
  rw [magnitude_eq, lower]
  have hgap : (0 : ℚ) < x.lowerGap := by exact_mod_cast x.lowerGap_pos
  exact mul_lt_mul_of_pos_right (by linarith) x.quarter_pos

/-- The upper end is half a last place above the magnitude. -/
theorem upper_eq (x : Binary64) : x.upper = x.magnitude + 2 ^ (x.exponent - 1) := by
  have hhalf : (2 : ℚ) ^ (x.exponent - 1) = 2 * 2 ^ (x.exponent - 2) := by
    rw [← zpow_one_add₀ (by norm_num)]
    congr 1
    ring
  rw [upper, magnitude_eq, hhalf]
  ring

theorem lower_pos (h : x.significand ≠ 0) : 0 < x.lower := by
  have hgap : (x.lowerGap : ℚ) ≤ 2 := by exact_mod_cast x.lowerGap_le
  have hone : (1 : ℚ) ≤ x.significand := by exact_mod_cast Nat.one_le_iff_ne_zero.2 h
  exact mul_pos (by linarith) x.quarter_pos

theorem Covers.bounds (h : x.Covers q) : x.lower ≤ q ∧ q ≤ x.upper := by
  unfold Covers at h
  split at h
  · exact h
  · exact ⟨h.1.le, h.2.le⟩

/-- An end belongs to the interval only when the significand is even. -/
theorem Covers.even (h : x.Covers q) (hq : q = x.lower ∨ q = x.upper) :
    x.significand % 2 = 0 := by
  by_contra hodd
  rw [Covers, if_neg hodd] at h
  rcases hq with rfl | rfl
  · exact lt_irrefl _ h.1
  · exact lt_irrefl _ h.2

/-- What lies between the ends lies in the interval. -/
theorem covers_of_lt (hl : x.lower < q) (hu : q < x.upper) : x.Covers q := by
  unfold Covers
  split
  · exact ⟨hl.le, hu.le⟩
  · exact ⟨hl, hu⟩

/-! ## Deciding -/

/-- A power of a rational with the parts of its exponent above and below zero. -/
theorem pow_toNat_eq {b : ℚ} (hb : b ≠ 0) (p : ℤ) : b ^ p.toNat = b ^ p * b ^ (-p).toNat := by
  rw [← zpow_natCast, ← zpow_natCast, ← zpow_add₀ hb]
  congr 1
  omega

/-- The two integers of a comparison are the grid unit and the quarter of the last place, multiplied
by the same number. -/
theorem exists_scale (x : Binary64) (p : ℤ) : ∃ scale : ℚ, 0 < scale ∧
    ((Nat.pow 10 p.toNat * Nat.pow 2 (2 - x.exponent).toNat : ℕ) : ℚ) = 10 ^ p * scale ∧
    ((Nat.pow 2 (x.exponent - 2).toNat * Nat.pow 10 (-p).toNat : ℕ) : ℚ) =
      2 ^ (x.exponent - 2) * scale := by
  refine ⟨10 ^ (-p).toNat * 2 ^ (2 - x.exponent).toNat, by positivity, ?_, ?_⟩
  · simp only [Nat.pow_eq, Nat.cast_mul, Nat.cast_pow, Nat.cast_ofNat]
    rw [pow_toNat_eq (by norm_num) p]
    ring
  · simp only [Nat.pow_eq, Nat.cast_mul, Nat.cast_pow, Nat.cast_ofNat]
    rw [pow_toNat_eq (by norm_num) (x.exponent - 2), neg_sub]
    ring

/-- The integer comparison decides whether a decimal lies in the interval. -/
theorem covers_iff (hx : x.significand ≠ 0) (c : ℕ) (p : ℤ) :
    x.covers c p = true ↔ x.Covers (c * 10 ^ p) := by
  obtain ⟨scale, hpos, hunit, hquarter⟩ := x.exists_scale p
  have hgap : x.lowerGap ≤ 4 * x.significand := by
    have := x.lowerGap_le
    omega
  unfold covers
  dsimp only
  generalize Nat.pow 10 p.toNat * Nat.pow 2 (2 - x.exponent).toNat = unit at hunit
  generalize Nat.pow 2 (x.exponent - 2).toNat * Nat.pow 10 (-p).toNat = quarter at hquarter
  have hvalue : ((c * unit : ℕ) : ℚ) = c * 10 ^ p * scale := by
    rw [Nat.cast_mul, hunit, mul_assoc]
  have hlow : (((4 * x.significand - x.lowerGap) * quarter : ℕ) : ℚ) = x.lower * scale := by
    rw [Nat.cast_mul, hquarter, Nat.cast_sub hgap, lower]
    push_cast
    ring
  have hhigh : (((4 * x.significand + 2) * quarter : ℕ) : ℚ) = x.upper * scale := by
    rw [Nat.cast_mul, hquarter, upper]
    push_cast
    ring
  unfold Covers
  split
  · rw [Bool.and_eq_true, decide_eq_true_eq, decide_eq_true_eq, ← Nat.cast_le (α := ℚ),
      ← Nat.cast_le (α := ℚ), hvalue, hlow, hhigh, mul_le_mul_iff_of_pos_right hpos,
      mul_le_mul_iff_of_pos_right hpos]
  · rw [Bool.and_eq_true, decide_eq_true_eq, decide_eq_true_eq, ← Nat.cast_lt (α := ℚ),
      ← Nat.cast_lt (α := ℚ), hvalue, hlow, hhigh, mul_lt_mul_iff_of_pos_right hpos,
      mul_lt_mul_iff_of_pos_right hpos]

/-! ## Different doubles -/

/-- A larger magnitude has no smaller exponent. -/
theorem exponent_le_of_magnitude_lt (hx : x.Proper) (hy : y.Proper)
    (h : x.magnitude < y.magnitude) : x.exponent ≤ y.exponent := by
  by_contra hlt
  have hnormal : 2 ^ 52 ≤ x.significand := hx.normal.resolve_right fun he => by
    have := hy.least
    omega
  have htwo : (2 : ℚ) * 2 ^ y.exponent ≤ 2 ^ x.exponent := by
    rw [← zpow_one_add₀ (by norm_num)]
    exact zpow_le_zpow_right₀ (by norm_num) (by omega)
  have hpos : (0 : ℚ) < 2 ^ y.exponent := zpow_pos (by norm_num) _
  have hxs : (2 : ℚ) ^ 52 ≤ x.significand := by exact_mod_cast hnormal
  have hys : (y.significand : ℚ) < 2 ^ 53 := by exact_mod_cast hy.bound
  have hle : y.magnitude ≤ x.magnitude := by
    calc y.magnitude ≤ 2 ^ 53 * 2 ^ y.exponent := mul_le_mul_of_nonneg_right hys.le hpos.le
      _ = 2 ^ 52 * (2 * 2 ^ y.exponent) := by ring
      _ ≤ 2 ^ 52 * 2 ^ x.exponent := mul_le_mul_of_nonneg_left htwo (by norm_num)
      _ ≤ x.magnitude := mul_le_mul_of_nonneg_right hxs (zpow_nonneg (by norm_num) _)
  linarith

/-- The interval of one double ends where that of another one begins, or before; where they meet,
one of the significands is odd, so the end does not belong to both. -/
structure Precedes (x y : Binary64) : Prop where
  ends : x.upper ≤ y.lower
  odd : x.upper = y.lower → ¬(x.significand % 2 = 0 ∧ y.significand % 2 = 0)

/-- The interval of a double precedes those of doubles with larger last places. -/
theorem precedes_of_exponent_lt (hx : x.Proper) (hy : y.Proper)
    (he : x.exponent < y.exponent) : x.Precedes y := by
  have hquarter := x.quarter_pos
  have hleast := hx.least
  have hbound := hx.bound
  -- the quarters of the larger one are at least twice as large, and it has all 53 bits
  have hnormal : 2 ^ 52 ≤ y.significand := hy.normal.resolve_right (by omega)
  have hgap := y.lowerGap_eq
  have hlow : 2 ^ 55 - 2 ≤ 2 * (4 * y.significand - y.lowerGap) := by
    split at hgap <;> omega
  have hle := y.lowerGap_le
  have hlowQ : (2 : ℚ) ^ 55 - 2 ≤ 2 * (4 * y.significand - y.lowerGap) := by
    have hcast : ((2 ^ 55 - 2 : ℕ) : ℚ) ≤ ((2 * (4 * y.significand - y.lowerGap) : ℕ) : ℚ) :=
      Nat.cast_le.2 hlow
    rw [Nat.cast_mul, Nat.cast_sub (by omega : y.lowerGap ≤ 4 * y.significand)] at hcast
    push_cast at hcast
    linarith
  have htwo : (2 : ℚ) * 2 ^ (x.exponent - 2) ≤ 2 ^ (y.exponent - 2) := by
    rw [← zpow_one_add₀ (by norm_num)]
    exact zpow_le_zpow_right₀ (by norm_num) (by omega)
  have hstep : (2 ^ 55 - 2) * 2 ^ (x.exponent - 2) ≤ y.lower := by
    calc ((2 : ℚ) ^ 55 - 2) * 2 ^ (x.exponent - 2)
        ≤ 2 * (4 * y.significand - y.lowerGap) * 2 ^ (x.exponent - 2) :=
          mul_le_mul_of_nonneg_right hlowQ hquarter.le
      _ = (4 * y.significand - y.lowerGap) * (2 * 2 ^ (x.exponent - 2)) := by ring
      _ ≤ y.lower := mul_le_mul_of_nonneg_left htwo (by linarith)
  have hsig : (4 * x.significand + 2 : ℚ) ≤ 2 ^ 55 - 2 := by
    have : (x.significand : ℚ) + 1 ≤ 2 ^ 53 := by exact_mod_cast hbound
    linarith
  refine ⟨(mul_le_mul_of_nonneg_right hsig hquarter.le).trans hstep, fun heq hboth => ?_⟩
  rw [← heq, upper] at hstep
  have hback := le_of_mul_le_mul_right hstep hquarter
  have hmax : (2 : ℚ) ^ 53 ≤ x.significand + 1 := by linarith
  have : 2 ^ 53 ≤ x.significand + 1 := by exact_mod_cast hmax
  omega

/-- With the same last place, the interval of a double precedes those with larger significands. -/
theorem precedes_of_significand_lt (hx : x.Proper) (he : x.exponent = y.exponent)
    (h : x.significand < y.significand) : x.Precedes y := by
  have hquarter := x.quarter_pos
  have hgap : y.lowerGap = 2 := by
    rw [lowerGap_eq, if_neg]
    rintro ⟨hsig, hmin⟩
    rcases hx.normal with hnormal | hmin'
    · omega
    · exact hmin (he ▸ hmin')
  have hone : (x.significand + 1 : ℚ) ≤ y.significand := by exact_mod_cast h
  constructor
  · rw [upper, lower, hgap, ← he]
    exact mul_le_mul_of_nonneg_right (by push_cast; linarith) hquarter.le
  · intro heq
    rw [upper, lower, hgap, ← he] at heq
    have hsig := mul_right_cancel₀ hquarter.ne' heq
    have hnext : (x.significand + 1 : ℚ) = y.significand := by
      push_cast at hsig
      linarith
    have : x.significand + 1 = y.significand := by exact_mod_cast hnext
    omega

/-- **The interval of a smaller magnitude precedes that of a larger one.** -/
theorem precedes_of_magnitude_lt (hx : x.Proper) (hy : y.Proper)
    (h : x.magnitude < y.magnitude) : x.Precedes y := by
  rcases (exponent_le_of_magnitude_lt hx hy h).lt_or_eq with he | he
  · exact precedes_of_exponent_lt hx hy he
  · refine precedes_of_significand_lt hx he ?_
    rw [magnitude, magnitude, he] at h
    exact_mod_cast lt_of_mul_lt_mul_right h (zpow_nonneg (by norm_num) _)

/-- The intervals of a smaller and a larger magnitude have no point in common. -/
theorem not_covers_of_lt (hx : x.Proper) (hy : y.Proper) (h : x.magnitude < y.magnitude)
    (hxq : x.Covers q) : ¬y.Covers q := by
  intro hyq
  obtain ⟨hle, hodd⟩ := precedes_of_magnitude_lt hx hy h
  have hup := hxq.bounds.2
  have hlow := hyq.bounds.1
  have hq : q = x.upper := le_antisymm hup (hle.trans hlow)
  have hq' : q = y.lower := le_antisymm (hup.trans hle) hlow
  exact hodd (hq.symm.trans hq') ⟨hxq.even (.inr hq), hyq.even (.inl hq')⟩

/-- **Rounding intervals with a common point belong to the same magnitude.** -/
theorem eq_of_covers (hx : x.Proper) (hy : y.Proper) (hxq : x.Covers q) (hyq : y.Covers q) :
    x.magnitude = y.magnitude := by
  rcases lt_trichotomy x.magnitude y.magnitude with h | h | h
  · exact absurd hyq (not_covers_of_lt hx hy h hxq)
  · exact h
  · exact absurd hxq (not_covers_of_lt hy hx h hyq)

/-! ## Grids -/

/-- A hit on a grid lies in the interval. -/
theorem covers_of_onGrid? {p : ℤ} {c : ℕ} (h : x.onGrid? p = some c) : x.covers c p = true := by
  unfold onGrid? at h
  dsimp only at h
  split at h
  · rename_i hlow hhigh
    cases h
    -- the nearer one of two neighbours is one of them
    unfold roundHalfEven
    dsimp only
    split
    · exact hlow
    split
    · exact hhigh
    · rcases Nat.mod_two_eq_zero_or_one (4 * x.significand *
        (Nat.pow 2 (x.exponent - 2).toNat * Nat.pow 10 (-p).toNat) /
          (Nat.pow 10 p.toNat * Nat.pow 2 (2 - x.exponent).toNat)) with hmod | hmod
      · rw [hmod]
        exact hlow
      · rw [hmod]
        exact hhigh
  · cases h
    assumption
  · cases h
    assumption
  · cases h

/-- A grid that is finer than half a last place has a hit, since its point above the magnitude lies
in the interval. -/
theorem exists_onGrid? (hx : x.significand ≠ 0) {p : ℤ}
    (hp : (10 : ℚ) ^ p < 2 ^ (x.exponent - 1)) : ∃ c, x.onGrid? p = some c := by
  obtain ⟨scale, hpos, hunit, hquarter⟩ := x.exists_scale p
  unfold onGrid?
  dsimp only
  generalize Nat.pow 10 p.toNat * Nat.pow 2 (2 - x.exponent).toNat = unit at hunit
  generalize Nat.pow 2 (x.exponent - 2).toNat * Nat.pow 10 (-p).toNat = quarter at hquarter
  have hten : (0 : ℚ) < 10 ^ p := zpow_pos (by norm_num) p
  have hunitpos : 0 < unit := by
    have : (0 : ℚ) < unit := hunit ▸ mul_pos hten hpos
    exact_mod_cast this
  have hvalue : ((4 * x.significand * quarter : ℕ) : ℚ) = x.magnitude * scale := by
    rw [Nat.cast_mul, hquarter, magnitude_eq]
    push_cast
    ring
  generalize 4 * x.significand * quarter = value at hvalue
  -- the magnitude lies between the two neighbours on the grid
  obtain ⟨below, hbelow⟩ : ∃ below, below = value / unit := ⟨_, rfl⟩
  have hlow : (below : ℚ) * 10 ^ p ≤ x.magnitude := by
    refine le_of_mul_le_mul_right ?_ hpos
    rw [mul_assoc, ← hunit, ← hvalue, hbelow]
    exact_mod_cast Nat.div_mul_le_self value unit
  have hhigh : x.magnitude < (below + 1) * 10 ^ p := by
    refine lt_of_mul_lt_mul_right ?_ hpos.le
    rw [mul_assoc, ← hunit, ← hvalue, hbelow]
    exact_mod_cast Nat.lt_mul_of_div_lt (Nat.lt_succ_self _) hunitpos
  have hcovers : x.covers (below + 1) p = true := by
    rw [covers_iff hx]
    refine covers_of_lt ?_ ?_
    · push_cast
      linarith [x.lower_lt_magnitude]
    · rw [upper_eq]
      push_cast
      linarith
  rw [← hbelow, hcovers]
  cases x.covers below p
  · exact ⟨_, rfl⟩
  · exact ⟨_, rfl⟩

/-- The search ends with a hit if the last grid that it may try has one. -/
theorem covers_coarsest {steps : ℕ} {p : ℤ} {c : ℕ} (h : x.onGrid? (p - steps) = some c) :
    x.covers (x.coarsest steps p).digits (x.coarsest steps p).exponent = true := by
  induction steps generalizing p with
  | zero =>
      rw [Nat.cast_zero, sub_zero] at h
      rw [coarsest, h]
      exact covers_of_onGrid? h
  | succ steps ih =>
      rw [coarsest]
      split
      · rename_i c' hc
        exact covers_of_onGrid? hc
      · refine ih ?_
        rw [← h]
        congr 1
        push_cast
        ring

end Binary64

/-! ## The finest grid -/

/-- A power of ten is at most nine bits above the power of two that its logarithm suggests, for
exponents of the size that doubles have. -/
theorem ten_zpow_le {K q : ℤ} (h : q * 100000 ≤ K * 30103) (hlow : -1100 ≤ K)
    (hhigh : K ≤ 1100) : (10 : ℚ) ^ q ≤ 2 ^ (K + 9) := by
  have hten : (0 : ℚ) ≤ 10 ^ q := zpow_nonneg (by norm_num) q
  have htwo : (0 : ℚ) ≤ 2 ^ (K + 9) := zpow_nonneg (by norm_num) _
  rcases le_total 0 q with hq | hq
  · -- three digits need less than ten bits
    refine le_of_pow_le_pow_left₀ (by norm_num : 3 ≠ 0) htwo ?_
    calc ((10 : ℚ) ^ q) ^ 3 = (10 ^ 3) ^ q := by
          rw [← zpow_natCast, ← zpow_mul, ← zpow_natCast, ← zpow_mul, mul_comm]
      _ ≤ (2 ^ 10) ^ q := zpow_le_zpow_left₀ hq (by norm_num) (by norm_num)
      _ = 2 ^ (10 * q) := by rw [← zpow_natCast, ← zpow_mul]; norm_num
      _ ≤ 2 ^ ((K + 9) * 3) := zpow_le_zpow_right₀ (by norm_num) (by omega)
      _ = (2 ^ (K + 9)) ^ 3 := by rw [← zpow_natCast, ← zpow_mul]; norm_num
  · -- ten digits need more than 33 bits
    refine le_of_pow_le_pow_left₀ (by norm_num : 10 ≠ 0) htwo ?_
    have hneg : ((10 : ℚ) ^ 10) ^ q ≤ (2 ^ 33) ^ q := by
      rw [← inv_le_inv₀ (by positivity) (by positivity), ← zpow_neg, ← zpow_neg]
      exact zpow_le_zpow_left₀ (by omega) (by norm_num) (by norm_num)
    calc ((10 : ℚ) ^ q) ^ 10 = (10 ^ 10) ^ q := by
          rw [← zpow_natCast, ← zpow_mul, ← zpow_natCast, ← zpow_mul, mul_comm]
      _ ≤ (2 ^ 33) ^ q := hneg
      _ = 2 ^ (33 * q) := by rw [← zpow_natCast, ← zpow_mul]; norm_num
      _ ≤ 2 ^ ((K + 9) * 10) := zpow_le_zpow_right₀ (by norm_num) (by omega)
      _ = (2 ^ (K + 9)) ^ 10 := by rw [← zpow_natCast, ← zpow_mul]; norm_num

/-- Nineteen digits below a magnitude of `K` bits the grid is finer than the last of 54 bits. -/
theorem ten_zpow_lt {K q : ℤ} (h : q * 100000 ≤ K * 30103) (hlow : -1100 ≤ K)
    (hhigh : K ≤ 1100) : (10 : ℚ) ^ (q - 19) < 2 ^ (K - 54) := by
  have hsplit : (2 : ℚ) ^ (K - 54) = 2 ^ (K + 9) / 2 ^ 63 := by
    rw [← zpow_natCast, ← zpow_sub₀ (by norm_num)]
    congr 1
    push_cast
    ring
  have hdigits : (10 : ℚ) ^ (q - 19) = 10 ^ q / 10 ^ 19 := by
    rw [← zpow_natCast, ← zpow_sub₀ (by norm_num)]
    rfl
  rw [hsplit, hdigits]
  exact div_lt_div₀' (ten_zpow_le h hlow hhigh) (by norm_num) (by positivity) (by positivity)

namespace Binary64

/-- **The shortest decimal of a nonzero double lies in its rounding interval.** -/
theorem covers_shortest {x : Binary64} (hx : x.Proper) (h0 : x.significand ≠ 0) :
    x.Covers (x.shortest.digits * 10 ^ x.shortest.exponent) := by
  have hlog : x.significand.log2 < 53 := (Nat.log2_lt h0).2 hx.bound
  have hleast := hx.least
  have hmost := hx.most
  rw [minExponent] at hleast
  rw [maxExponent] at hmost
  obtain ⟨K, hK⟩ : ∃ K : ℤ, K = x.exponent + x.significand.log2 + 1 := ⟨_, rfl⟩
  have hfine : (10 : ℚ) ^ (K * 30103 / 100000 - 19) < 2 ^ (x.exponent - 1) :=
    (ten_zpow_lt (Int.ediv_mul_le _ (by norm_num)) (by omega) (by omega)).trans_le
      (zpow_le_zpow_right₀ (by norm_num) (by omega))
  have hlast : x.decimalCeiling - (21 : ℕ) = K * 30103 / 100000 - 19 := by
    rw [decimalCeiling, ← hK]
    push_cast
    ring
  obtain ⟨c, hc⟩ := exists_onGrid? h0 hfine
  rw [← hlast] at hc
  exact (covers_iff h0 _ _).1 (covers_coarsest hc)

end Binary64

end Picklist
