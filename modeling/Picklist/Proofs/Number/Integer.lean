/-
# Integers as doubles

Numbers compare by value after they were rounded to doubles.  From `2 ^ 53` on, neighbouring
doubles are further apart than neighbouring integers, so rounding merges some of them.

* `gap` and `RoundsTo` : the distance of the doubles around an integer, and the one that it is
  rounded to, said without any computation;
* `value_ofInt` : the double of an integer has this value;
* `sameValue_int_iff` : two integers have the same value when they are rounded to the same one;
* `sameValue_int_iff_eq` : that is equality while one of them is below `2 ^ 53`.
-/
import Picklist.Number.Basic
import Picklist.Proofs.Number.Rounding

namespace Picklist

/-! ## Rounding integers -/

/-- The integers that a number of a document can be: those of 64 bits, signed or unsigned. -/
def Fits (n : ℤ) : Prop := -2 ^ 63 ≤ n ∧ n < 2 ^ 64

instance (n : ℤ) : Decidable (Fits n) := inferInstanceAs (Decidable (_ ∧ _))

/-- The distance of neighbouring doubles that are integers and have as many bits as `n`. -/
def gap (n : ℤ) : ℕ := 2 ^ (n.natAbs.log2 - 52)

/-- An integer is rounded to the nearest multiple of the gap, and to the even one of two. -/
structure RoundsTo (n r : ℤ) : Prop where
  grid : (gap n : ℤ) ∣ r
  near : 2 * |n - r| ≤ gap n
  tie : 2 * |n - r| = gap n → 2 * (gap n : ℤ) ∣ r

theorem gap_pos (n : ℤ) : (0 : ℤ) < gap n := by
  exact_mod_cast Nat.pow_pos (by norm_num : 0 < 2)

/-- Integers below `2 ^ 53` have no gaps. -/
theorem gap_of_lt {n : ℤ} (h : n.natAbs < 2 ^ 53) : gap n = 1 := by
  have hlog : n.natAbs.log2 - 52 = 0 := by
    rcases eq_or_ne n.natAbs 0 with h0 | h0
    · rw [h0]
      rfl
    · have := (Nat.log2_lt h0).2 h
      omega
  rw [gap, hlog, pow_zero]

namespace RoundsTo

variable {n r r' : ℤ}

theorem neg (h : RoundsTo n r) : RoundsTo (-n) (-r) := by
  have hgap : gap (-n) = gap n := by rw [gap, Int.natAbs_neg, gap]
  have hdist : |-n - -r| = |n - r| := by rw [neg_sub_neg, abs_sub_comm]
  refine ⟨?_, ?_, ?_⟩
  · rw [hgap, dvd_neg]
    exact h.grid
  · rw [hgap, hdist]
    exact h.near
  · rw [hgap, hdist, dvd_neg]
    exact h.tie

/-- Of two multiples of the gap, the larger one is not nearest too. -/
theorem le (h : RoundsTo n r) (h' : RoundsTo n r') : r' ≤ r := by
  by_contra hnot
  have hlt : r < r' := by omega
  obtain ⟨a, ha⟩ := h.grid
  obtain ⟨b, hb⟩ := h'.grid
  have hpos := gap_pos n
  have hab : a + 1 ≤ b := by
    rw [ha, hb] at hlt
    exact lt_of_mul_lt_mul_left hlt hpos.le
  have hstep : r + gap n ≤ r' := by
    rw [ha, hb]
    calc (gap n : ℤ) * a + gap n = gap n * (a + 1) := by ring
      _ ≤ gap n * b := mul_le_mul_of_nonneg_left hab hpos.le
  have hnear := h.near
  have hnear' := h'.near
  have hlow := le_abs_self (n - r)
  have hhigh := neg_abs_le (n - r')
  -- both are at half a gap, so both would have to be even
  have hr' : r' = r + gap n := by linarith
  have htie := h.tie (by linarith)
  have htie' := h'.tie (by linarith)
  rw [hr'] at htie'
  have hdvd : 2 * (gap n : ℤ) ∣ gap n := (Int.dvd_add_right htie).1 htie'
  exact absurd (Int.le_of_dvd hpos hdvd) (by linarith)

theorem unique (h : RoundsTo n r) (h' : RoundsTo n r') : r = r' :=
  le_antisymm (h'.le h) (h.le h')

/-- An integer below `2 ^ 53` is rounded to itself. -/
theorem eq_of_lt (h : RoundsTo n r) (hn : n.natAbs < 2 ^ 53) : r = n := by
  have hnear := h.near
  rw [gap_of_lt hn] at hnear
  have habs := abs_nonneg (n - r)
  have hzero : |n - r| = 0 := by omega
  exact (sub_eq_zero.1 (abs_eq_zero.1 hzero)).symm

/-- An integer from `2 ^ 53` on is not rounded below it. -/
theorem le_of_le (h : RoundsTo n r) (hn : 2 ^ 53 ≤ n) : 2 ^ 53 ≤ r := by
  have hne : n.natAbs ≠ 0 := by omega
  have hlog : 53 ≤ n.natAbs.log2 := (Nat.le_log2 hne).2 (by omega)
  obtain ⟨k, hk⟩ := Nat.exists_eq_add_of_le hlog
  have hgap : (gap n : ℤ) = 2 ^ (k + 1) := by
    rw [gap, hk, show 53 + k - 52 = k + 1 by omega]
    exact_mod_cast rfl
  have hlow : (2 : ℤ) ^ 52 * gap n ≤ n := by
    have hself := Nat.log2_self_le hne
    rw [hk] at hself
    rw [hgap, ← pow_add, show 52 + (k + 1) = 53 + k by omega]
    have habs : ((n.natAbs : ℕ) : ℤ) = n := by omega
    rw [← habs]
    exact_mod_cast hself
  -- the power of two below the integer is a multiple of the gap, and rounding does not pass it
  obtain ⟨a, ha⟩ := h.grid
  have hpos := gap_pos n
  have hnear := h.near
  have hdist := le_abs_self (n - r)
  have hlt : (2 ^ 52 - 1) * (gap n : ℤ) < gap n * a := by
    rw [← ha]
    linarith
  have hle : 2 ^ 52 ≤ a := by
    have := lt_of_mul_lt_mul_left (by rw [mul_comm] at hlt; exact hlt) hpos.le
    omega
  have htwo : (2 : ℤ) ≤ gap n := by
    rw [hgap, pow_succ]
    have : (1 : ℤ) ≤ 2 ^ k := one_le_pow₀ (by norm_num)
    linarith
  calc (2 : ℤ) ^ 53 = 2 * 2 ^ 52 := by norm_num
    _ ≤ gap n * a := mul_le_mul htwo hle (by norm_num) hpos.le
    _ = r := ha.symm

/-- An integer that is at least `2 ^ 53` away from zero is rounded to one that is so too. -/
theorem le_natAbs_of_le (h : RoundsTo n r) (hn : 2 ^ 53 ≤ n.natAbs) : 2 ^ 53 ≤ r.natAbs := by
  rcases le_total 0 n with hsign | hsign
  · have := h.le_of_le (by omega)
    omega
  · have := h.neg.le_of_le (by omega)
    omega

end RoundsTo

/-! ## The double of an integer -/

namespace Binary64

/-- An integer counted in units of its last place. -/
theorem ratio_one (n : ℕ) (e : ℤ) : ratio n 1 e = n / 2 ^ e := by
  rw [ratio, Nat.cast_one, div_one]

/-- The last place of an integer leaves 53 bits before the point. -/
theorem FitsAt.eq_log2 {n : ℕ} {e : ℤ} (h : FitsAt n 1 e) (hn : n ≠ 0) :
    e = n.log2 - 52 := by
  have hpow : (0 : ℚ) < 2 ^ e := zpow_pos (by norm_num) e
  have hlow : (2 : ℚ) ^ (n.log2 : ℤ) ≤ n := by exact_mod_cast Nat.log2_self_le hn
  have hhigh : (n : ℚ) < 2 ^ (n.log2 + 1 : ℤ) := by exact_mod_cast Nat.lt_log2_self
  have hbound : (n.log2 : ℤ) < 53 + e := by
    have h53 := h.bound
    rw [ratio_one, div_lt_iff₀ hpow, ← zpow_natCast, ← zpow_add₀ (by norm_num)] at h53
    exact (zpow_lt_zpow_iff_right₀ (by norm_num)).1 (hlow.trans_lt h53)
  rcases h.normal with h52 | hmin
  · rw [ratio_one, le_div_iff₀ hpow, ← zpow_natCast, ← zpow_add₀ (by norm_num)] at h52
    have := (zpow_lt_zpow_iff_right₀ (by norm_num)).1 (h52.trans_lt hhigh)
    push_cast at this
    omega
  · -- the least place is far below the bits of an integer
    rw [hmin, minExponent] at hbound
    omega

/-- A natural of at most 52 bits is not rounded, since its last place is below the units. -/
theorem roundsTo_of_log2_lt {n m : ℕ} (hlog : n.log2 < 52)
    (h : Nearest (ratio n 1 (n.log2 - 52)) m) :
    (m : ℚ) * 2 ^ (n.log2 - 52 : ℤ) = n ∧ RoundsTo n n := by
  have hpow : (2 : ℚ) ^ (n.log2 - 52 : ℤ) = ((2 ^ (52 - n.log2) : ℕ) : ℚ)⁻¹ := by
    rw [Nat.cast_pow, Nat.cast_ofNat, ← zpow_natCast, ← zpow_neg]
    congr 1
    omega
  have hm : m = n * 2 ^ (52 - n.log2) := by
    rw [ratio_one, hpow, div_inv_eq_mul, ← Nat.cast_mul] at h
    exact h.eq_of_natCast
  refine ⟨?_, ⟨?_, ?_, ?_⟩⟩
  · rw [hm, hpow, Nat.cast_mul, mul_assoc, mul_inv_cancel₀ (by positivity), mul_one]
  · rw [gap, Int.natAbs_natCast, show n.log2 - 52 = 0 by omega]
    exact one_dvd _
  · rw [sub_self, abs_zero, mul_zero]
    exact (gap_pos n).le
  · rw [sub_self, abs_zero, mul_zero]
    exact fun h => absurd h (gap_pos n).ne

/-- A natural of more bits is rounded to a multiple of its gap. -/
theorem roundsTo_of_le_log2 {n m : ℕ} (hlog : 52 ≤ n.log2)
    (h : Nearest (ratio n 1 (n.log2 - 52)) m) :
    (m : ℚ) * 2 ^ (n.log2 - 52 : ℤ) = (m * gap n : ℕ) ∧ RoundsTo n (m * gap n : ℕ) := by
  have hgap : gap n = 2 ^ (n.log2 - 52) := by rw [gap, Int.natAbs_natCast]
  have hpow : (2 : ℚ) ^ (n.log2 - 52 : ℤ) = gap n := by
    rw [hgap, Nat.cast_pow, Nat.cast_ofNat, ← zpow_natCast]
    congr 1
    omega
  have hpos : (0 : ℚ) < gap n := by exact_mod_cast gap_pos n
  rw [ratio_one, hpow] at h
  -- distances in units of the gap are distances
  have hdist : |(n : ℚ) / gap n - m| * gap n = (|(n : ℤ) - (m * gap n : ℕ)| : ℤ) := by
    push_cast
    rw [← abs_of_pos hpos, ← abs_mul, abs_of_pos hpos, sub_mul, div_mul_cancel₀ _ hpos.ne']
  refine ⟨by rw [hpow, Nat.cast_mul], ⟨?_, ?_, ?_⟩⟩
  · push_cast
    exact dvd_mul_left _ _
  · have hnear : 2 * (|(n : ℚ) / gap n - m| * gap n) ≤ gap n := by
      have := mul_le_mul_of_nonneg_right h.near hpos.le
      linarith
    rw [hdist] at hnear
    exact_mod_cast hnear
  · intro htie
    have hhalf : |(n : ℚ) / gap n - m| * gap n = 1 / 2 * gap n := by
      rw [hdist]
      have : (2 * |(n : ℤ) - (m * gap n : ℕ)| : ℚ) = gap n := by exact_mod_cast htie
      linarith
    obtain ⟨k, rfl⟩ := (h.tie (mul_right_cancel₀ hpos.ne' hhalf)).two_dvd
    exact ⟨k, by push_cast; ring⟩

/-- Rounding a natural to the nearest multiple of its last place is rounding it in the sense of
`RoundsTo`. -/
theorem roundsTo_natCast {n m : ℕ} (h : Nearest (ratio n 1 (n.log2 - 52)) m) :
    ∃ r : ℕ, (m : ℚ) * 2 ^ (n.log2 - 52 : ℤ) = r ∧ RoundsTo n r := by
  rcases Nat.lt_or_ge n.log2 52 with hlog | hlog
  · exact ⟨n, roundsTo_of_log2_lt hlog h⟩
  · exact ⟨m * gap n, roundsTo_of_le_log2 hlog h⟩

variable {n : ℤ}

/-- The double of an integer other than zero. -/
theorem rounded_ofInt (h : Fits n) (hn : n ≠ 0) :
    Rounded (decide (n < 0)) n.natAbs 1 (ofInt n) := by
  have habs : n.natAbs ≠ 0 := Int.natAbs_ne_zero.2 hn
  obtain ⟨hsome, hnone⟩ := ofQuotient?_spec (decide (n < 0)) habs one_ne_zero
  unfold ofInt
  cases hx : ofQuotient? (decide (n < 0)) n.natAbs 1 with
  | some x => exact hsome x hx
  | none =>
      have hplace := (fitsAt_lastPlace habs one_ne_zero).eq_log2 habs
      have hlog : n.natAbs.log2 < 65 := (Nat.log2_lt habs).2 (by
        have := h.1
        have := h.2
        omega)
      have := hnone hx
      rw [hplace, maxExponent] at this
      omega

theorem proper_ofInt (n : ℤ) : (ofInt n).Proper := by
  unfold ofInt
  cases hx : ofQuotient? (decide (n < 0)) n.natAbs 1 with
  | none => exact proper_zero _
  | some x => exact proper_of_ofQuotient? one_ne_zero hx

/-- The double of an integer has the value that the integer is rounded to. -/
theorem value_ofInt (h : Fits n) : ∃ r : ℤ, RoundsTo n r ∧ (ofInt n).value = r := by
  rcases eq_or_ne n 0 with rfl | hn
  · exact ⟨0, ⟨dvd_zero _, by simp, fun _ => dvd_zero _⟩, by
      simp [ofInt, ofQuotient?, value, magnitude]⟩
  · have hround := rounded_ofInt h hn
    obtain ⟨e, m, hfits, hnearest, hmagnitude⟩ := hround.nearest
    obtain rfl := hfits.eq_log2 (Int.natAbs_ne_zero.2 hn)
    obtain ⟨r, hr, hto⟩ := roundsTo_natCast hnearest
    rw [hr] at hmagnitude
    rw [value, hmagnitude, hround.sign]
    rcases lt_or_ge n 0 with hsign | hsign
    · refine ⟨-r, ?_, ?_⟩
      · have := hto.neg
        rwa [show -((n.natAbs : ℕ) : ℤ) = n by omega] at this
      · rw [if_pos (decide_eq_true hsign)]
        push_cast
        rfl
    · refine ⟨r, ?_, ?_⟩
      · rwa [show ((n.natAbs : ℕ) : ℤ) = n by omega] at hto
      · rw [if_neg (by simpa using hsign)]
        push_cast
        rfl

end Binary64

/-! ## Comparing integers by value -/

namespace Number

variable {a b : ℤ}

/-- Two integers have the same value when they are rounded to the same double. -/
theorem sameValue_int_iff (ha : Fits a) (hb : Fits b) :
    (int a).sameValue (.int b) = true ↔ ∃ r, RoundsTo a r ∧ RoundsTo b r := by
  obtain ⟨r, hr, hvalue⟩ := Binary64.value_ofInt ha
  obtain ⟨r', hr', hvalue'⟩ := Binary64.value_ofInt hb
  have hdouble : (Binary64.ofInt a).same (.ofInt b) = true ↔ r = r' := by
    rw [Binary64.same_iff_value_eq (Binary64.proper_ofInt a) (Binary64.proper_ofInt b),
      hvalue, hvalue', Int.cast_inj]
  rw [sameValue, Bool.or_eq_true]
  change (a == b) = true ∨ (Binary64.ofInt a).same (.ofInt b) = true ↔ _
  rw [beq_iff_eq, hdouble]
  constructor
  · rintro (rfl | rfl)
    · exact ⟨r, hr, hr⟩
    · exact ⟨r, hr, hr'⟩
  · rintro ⟨x, hx, hx'⟩
    exact .inr ((hr.unique hx).trans (hx'.unique hr'))

/-- Comparing by value is equality when one of the integers is below `2 ^ 53`. -/
theorem sameValue_int_iff_eq (ha : Fits a) (hb : Fits b)
    (h : a.natAbs < 2 ^ 53 ∨ b.natAbs < 2 ^ 53) :
    (int a).sameValue (.int b) = true ↔ a = b := by
  rw [sameValue_int_iff ha hb]
  constructor
  · rintro ⟨r, hr, hr'⟩
    have hboth : a.natAbs < 2 ^ 53 ∧ b.natAbs < 2 ^ 53 := by
      rcases h with h | h
      · have hra := hr.eq_of_lt h
        by_contra hnot
        have := hr'.le_natAbs_of_le (by omega)
        omega
      · have hrb := hr'.eq_of_lt h
        by_contra hnot
        have := hr.le_natAbs_of_le (by omega)
        omega
    exact (hr.eq_of_lt hboth.1).symm.trans (hr'.eq_of_lt hboth.2)
  · rintro rfl
    obtain ⟨r, hr, -⟩ := Binary64.value_ofInt ha
    exact ⟨r, hr, hr⟩

end Number

end Picklist
