/-
# Rounding to doubles

A quotient is rounded in two steps: first its last place is chosen, the power of two that leaves
53 bits before the point, and then the quotient is rounded to a multiple of it, to the nearest
one, and to the even one of two.

* `Nearest` : what rounding to a natural gives;
* `Binary64.FitsAt` : a last place that suits a quotient, and `Binary64.fitsAt_lastPlace` : the
  one that is chosen does;
* `Binary64.ofQuotient?_spec` : the double that a quotient is rounded to is proper, and its
  magnitude is the nearest multiple of the last place.
-/
import Picklist.Proofs.Number.Value
import Mathlib.Algebra.Order.Field.Basic
import Mathlib.Algebra.Ring.Parity
import Mathlib.Tactic.GCongr
import Mathlib.Tactic.Positivity
import Mathlib.Tactic.Ring

namespace Picklist

/-! ## Rounding to naturals -/

/-- The natural is nearest to the rational, and even if another one is as near. -/
structure Nearest (q : ℚ) (m : ℕ) : Prop where
  near : |q - m| ≤ 1 / 2
  tie : |q - m| = 1 / 2 → Even m

namespace Nearest

variable {q : ℚ} {m c : ℕ}

theorem le (h : Nearest q m) (hc : c ≤ q) : c ≤ m := by
  have hlow := (abs_le.1 h.near).2
  have hlt : (c : ℚ) < (m + 1 : ℕ) := by
    push_cast
    linarith
  exact Nat.lt_succ_iff.1 (by exact_mod_cast hlt)

theorem ge (h : Nearest q m) (hc : q ≤ c) : m ≤ c := by
  have hhigh := (abs_le.1 h.near).1
  have hlt : (m : ℚ) < (c + 1 : ℕ) := by
    push_cast
    linarith
  exact Nat.lt_succ_iff.1 (by exact_mod_cast hlt)

theorem eq_of_natCast (h : Nearest c m) : m = c :=
  le_antisymm (h.ge le_rfl) (h.le le_rfl)

end Nearest

/-- A quotient of naturals is rounded to the nearest natural. -/
theorem nearest_roundHalfEven (n : ℕ) {d : ℕ} (hd : 0 < d) :
    Nearest (n / d) (roundHalfEven n d) := by
  have hd' : (0 : ℚ) < d := by exact_mod_cast hd
  obtain ⟨t, ht⟩ : ∃ t : ℚ, t = (n % d : ℕ) / d := ⟨_, rfl⟩
  have hq : (n : ℚ) / d = (n / d : ℕ) + t := by
    have hsum : ((n / d : ℕ) : ℚ) * d + (n % d : ℕ) = n := by exact_mod_cast Nat.div_add_mod' n d
    rw [ht, add_div' _ _ _ hd'.ne', hsum]
  have hnonneg : 0 ≤ t := ht ▸ div_nonneg (Nat.cast_nonneg _) hd'.le
  have hone : t < 1 := by
    rw [ht, div_lt_one hd']
    exact_mod_cast Nat.mod_lt n hd
  unfold roundHalfEven
  dsimp only
  split
  · rename_i hlt
    have hhalf : t < 1 / 2 := by
      rw [ht, div_lt_iff₀ hd']
      have : (2 * (n % d : ℕ) : ℚ) < d := by exact_mod_cast hlt
      linarith
    have habs : |(n : ℚ) / d - (n / d : ℕ)| = t := by
      rw [hq, add_sub_cancel_left, abs_of_nonneg hnonneg]
    exact ⟨by rw [habs]; exact hhalf.le, fun h => absurd (habs ▸ h) hhalf.ne⟩
  split
  · rename_i hlt
    have hhalf : 1 / 2 < t := by
      rw [ht, lt_div_iff₀ hd']
      have : (d : ℚ) < 2 * (n % d : ℕ) := by exact_mod_cast hlt
      linarith
    have habs : |(n : ℚ) / d - (n / d + 1 : ℕ)| = 1 - t := by
      rw [hq, Nat.cast_succ, add_sub_add_left_eq_sub, abs_sub_comm, abs_of_pos (by linarith)]
    exact ⟨by rw [habs]; linarith, fun h => absurd (habs ▸ h) (by linarith)⟩
  · -- half way between two naturals, of which the even one is taken
    have htwice : 2 * (n % d) = d := by omega
    have hhalf : t = 1 / 2 := by
      rw [ht, div_eq_iff hd'.ne']
      have : (2 * (n % d : ℕ) : ℚ) = d := by exact_mod_cast htwice
      linarith
    have heven : Even (n / d + n / d % 2) := by
      rw [Nat.even_iff]
      omega
    refine ⟨?_, fun _ => heven⟩
    rcases Nat.mod_two_eq_zero_or_one (n / d) with h | h <;> rw [hq, hhalf, h] <;> norm_num

namespace Binary64

/-! ## The last place -/

/-- The quotient counted in units of the last place `2 ^ e`. -/
def ratio (n d : ℕ) (e : ℤ) : ℚ := n / d / 2 ^ e

/-- Scaling a quotient gives a quotient with that value. -/
theorem div_scaled (n d : ℕ) (e : ℤ) :
    ((scaled n d e).1 : ℚ) / (scaled n d e).2 = ratio n d e := by
  have hsplit : (2 : ℚ) ^ e = 2 ^ e.toNat / 2 ^ (-e).toNat := by
    rw [← zpow_natCast, ← zpow_natCast, ← zpow_sub₀ (by norm_num)]
    congr 1
    omega
  simp only [scaled, ratio, hsplit, Nat.pow_eq, Nat.cast_mul, Nat.cast_pow, Nat.cast_ofNat]
  rw [div_div_div_eq]

theorem scaled_pos (n : ℕ) {d : ℕ} (hd : 0 < d) (e : ℤ) : 0 < (scaled n d e).2 :=
  Nat.mul_pos hd (Nat.pow_pos (by norm_num))

/-- A place that leaves 53 bits before the point, or the least one. -/
structure FitsAt (n d : ℕ) (e : ℤ) : Prop where
  least : minExponent ≤ e
  bound : ratio n d e < 2 ^ 53
  normal : 2 ^ 52 ≤ ratio n d e ∨ e = minExponent

/-- The place that rounding chooses. -/
def lastPlace (n d : ℕ) : ℤ :=
  let guess : ℤ := n.log2 - d.log2 - 53
  let (a, b) := scaled n d guess
  max minExponent (if a / b < significandBound then guess else guess + 1)

/-- A quotient lies between the powers of two that the lengths of its parts suggest. -/
theorem ratio_guess_bounds {n d : ℕ} (hn : n ≠ 0) (hd : d ≠ 0) :
    2 ^ 52 < ratio n d (n.log2 - d.log2 - 53) ∧ ratio n d (n.log2 - d.log2 - 53) < 2 ^ 54 := by
  have hd' : (0 : ℚ) < d := by exact_mod_cast Nat.pos_of_ne_zero hd
  have hnlow : (2 : ℚ) ^ (n.log2 : ℤ) ≤ n := by exact_mod_cast Nat.log2_self_le hn
  have hnhigh : (n : ℚ) < 2 ^ (n.log2 + 1 : ℤ) := by exact_mod_cast Nat.lt_log2_self
  have hdlow : (2 : ℚ) ^ (d.log2 : ℤ) ≤ d := by exact_mod_cast Nat.log2_self_le hd
  have hdhigh : (d : ℚ) < 2 ^ (d.log2 + 1 : ℤ) := by exact_mod_cast Nat.lt_log2_self
  have hpow : (0 : ℚ) < 2 ^ ((n.log2 : ℤ) - d.log2 - 53) := zpow_pos (by norm_num) _
  rw [ratio, div_div, lt_div_iff₀ (by positivity), div_lt_iff₀ (by positivity)]
  have hlow : (2 : ℚ) ^ 52 * (2 ^ (d.log2 + 1 : ℤ) * 2 ^ ((n.log2 : ℤ) - d.log2 - 53)) =
      2 ^ (n.log2 : ℤ) := by
    rw [← zpow_add₀ (by norm_num), ← zpow_natCast, ← zpow_add₀ (by norm_num)]
    congr 1
    push_cast
    ring
  have hhigh : (2 : ℚ) ^ 54 * (2 ^ (d.log2 : ℤ) * 2 ^ ((n.log2 : ℤ) - d.log2 - 53)) =
      2 ^ (n.log2 + 1 : ℤ) := by
    rw [← zpow_add₀ (by norm_num), ← zpow_natCast, ← zpow_add₀ (by norm_num)]
    congr 1
    push_cast
    ring
  constructor
  · calc (2 : ℚ) ^ 52 * (d * 2 ^ ((n.log2 : ℤ) - d.log2 - 53))
        < 2 ^ 52 * (2 ^ (d.log2 + 1 : ℤ) * 2 ^ ((n.log2 : ℤ) - d.log2 - 53)) := by gcongr
      _ = 2 ^ (n.log2 : ℤ) := hlow
      _ ≤ n := hnlow
  · calc (n : ℚ) < 2 ^ (n.log2 + 1 : ℤ) := hnhigh
      _ = 2 ^ 54 * (2 ^ (d.log2 : ℤ) * 2 ^ ((n.log2 : ℤ) - d.log2 - 53)) := hhigh.symm
      _ ≤ 2 ^ 54 * (d * 2 ^ ((n.log2 : ℤ) - d.log2 - 53)) := by gcongr

/-- The next place halves the count. -/
theorem ratio_succ (n d : ℕ) (e : ℤ) : ratio n d (e + 1) = ratio n d e / 2 := by
  rw [ratio, ratio, zpow_add_one₀ (by norm_num), div_div _ ((2 : ℚ) ^ e)]

/-- A larger place gives a smaller count. -/
theorem ratio_anti (n d : ℕ) {e e' : ℤ} (h : e ≤ e') : ratio n d e' ≤ ratio n d e := by
  have hpow : (2 : ℚ) ^ e ≤ 2 ^ e' := zpow_le_zpow_right₀ (by norm_num) h
  have hpos : (0 : ℚ) < 2 ^ e := zpow_pos (by norm_num) _
  have hnonneg : (0 : ℚ) ≤ n / d := div_nonneg (Nat.cast_nonneg _) (Nat.cast_nonneg _)
  exact div_le_div_of_nonneg_left hnonneg hpos hpow

/-- The place that is chosen fits. -/
theorem fitsAt_lastPlace {n d : ℕ} (hn : n ≠ 0) (hd : d ≠ 0) :
    FitsAt n d (lastPlace n d) := by
  obtain ⟨hlow, hhigh⟩ := ratio_guess_bounds hn hd
  generalize hguess : (n.log2 : ℤ) - d.log2 - 53 = guess at hlow hhigh
  have hpos := scaled_pos n (Nat.pos_of_ne_zero hd) guess
  have hpos' : (0 : ℚ) < (scaled n d guess).2 := by exact_mod_cast hpos
  have hsmall : (scaled n d guess).1 / (scaled n d guess).2 < significandBound ↔
      ratio n d guess < 2 ^ 53 := by
    rw [Nat.div_lt_iff_lt_mul hpos, ← div_scaled, div_lt_iff₀ hpos']
    change _ < 2 ^ 53 * _ ↔ _
    exact_mod_cast Iff.rfl
  have hplace : lastPlace n d =
      max minExponent (if ratio n d guess < 2 ^ 53 then guess else guess + 1) := by
    simp only [lastPlace, hguess, hsmall]
  -- the exponent before the least one is taken into account
  obtain ⟨e, he, hbound, hnormal⟩ : ∃ e, lastPlace n d = max minExponent e ∧
      ratio n d e < 2 ^ 53 ∧ 2 ^ 52 ≤ ratio n d e := by
    by_cases h : ratio n d guess < 2 ^ 53
    · exact ⟨guess, by rw [hplace, if_pos h], h, hlow.le⟩
    · refine ⟨guess + 1, by rw [hplace, if_neg h], ?_, ?_⟩ <;> rw [ratio_succ] <;> linarith
  rw [he]
  refine ⟨le_max_left _ _, (ratio_anti n d (le_max_right _ _)).trans_lt hbound, ?_⟩
  rcases max_choice minExponent e with h | h
  · exact .inr h
  · exact .inl (h.symm ▸ hnormal)

/-! ## The double of a quotient -/

/-- Rounding in terms of the last place. -/
theorem ofQuotient?_eq (negative : Bool) {n d : ℕ} (hn : n ≠ 0) :
    ofQuotient? negative n d =
      let e := lastPlace n d
      let m := roundHalfEven (scaled n d e).1 (scaled n d e).2
      if m < significandBound then
        if e ≤ maxExponent then some ⟨negative, m, e⟩ else none
      else if e + 1 ≤ maxExponent then some ⟨negative, m / 2, e + 1⟩ else none := by
  rw [ofQuotient?, if_neg hn]
  rfl

/-- What a quotient is rounded to: a double with the given sign, whose magnitude is the nearest
multiple of a place that fits. -/
structure Rounded (negative : Bool) (n d : ℕ) (x : Binary64) : Prop where
  proper : x.Proper
  sign : x.negative = negative
  nearest : ∃ e m, FitsAt n d e ∧ Nearest (ratio n d e) m ∧ x.magnitude = m * 2 ^ e

/-- A nonzero quotient is rounded to the nearest multiple of a last place that fits; it has no
double only when that place reaches the largest one. -/
theorem ofQuotient?_spec (negative : Bool) {n d : ℕ} (hn : n ≠ 0) (hd : d ≠ 0) :
    (∀ x, ofQuotient? negative n d = some x → Rounded negative n d x) ∧
      (ofQuotient? negative n d = none → maxExponent ≤ lastPlace n d) := by
  have hfits := fitsAt_lastPlace hn hd
  have hnearest := nearest_roundHalfEven (scaled n d (lastPlace n d)).1
    (scaled_pos n (Nat.pos_of_ne_zero hd) (lastPlace n d))
  rw [div_scaled] at hnearest
  rw [ofQuotient?_eq negative hn]
  dsimp only
  generalize lastPlace n d = e at hfits hnearest
  generalize roundHalfEven (scaled n d e).1 (scaled n d e).2 = m at hnearest
  have hle : m ≤ 2 ^ 53 := hnearest.ge (by exact_mod_cast hfits.bound.le)
  have hnormal : 2 ^ 52 ≤ m ∨ e = minExponent :=
    hfits.normal.imp_left fun h => hnearest.le (by exact_mod_cast h)
  have hbound : significandBound = 2 ^ 53 := rfl
  rw [hbound]
  constructor
  · intro x hx
    split at hx
    · rename_i hm
      split at hx
      · rename_i he
        cases hx
        exact ⟨⟨hm, hfits.least, he, hnormal⟩, rfl, e, m, hfits, hnearest, rfl⟩
      · cases hx
    · rename_i hm
      split at hx
      · rename_i he
        cases hx
        -- all 53 bits are set and one more is needed, so the place moves up by one
        obtain rfl : m = 2 ^ 53 := by omega
        have hleast : minExponent ≤ e + 1 := hfits.least.trans (by omega)
        refine ⟨⟨by norm_num, hleast, he, .inl (by norm_num)⟩, rfl, e,
          2 ^ 53, hfits, hnearest, ?_⟩
        rw [magnitude, zpow_add_one₀ (by norm_num)]
        push_cast
        ring
      · cases hx
  · intro h
    split at h
    · split at h
      · cases h
      · omega
    · split at h
      · cases h
      · omega

/-- A double that a quotient is rounded to is proper. -/
theorem proper_of_ofQuotient? {negative : Bool} {n d : ℕ} {x : Binary64} (hd : d ≠ 0)
    (h : ofQuotient? negative n d = some x) : x.Proper := by
  rcases eq_or_ne n 0 with rfl | hn
  · rw [ofQuotient?, if_pos rfl, Option.some.injEq] at h
    exact h ▸ proper_zero negative
  · exact ((ofQuotient?_spec negative hn hd).1 x h).proper

end Binary64

end Picklist
