/-
# Written numbers

Every number is written as a numeral, and reading takes exactly this numeral off the front of a
text when nothing that could belong to it follows.  The numeral has the sign of the number, it is
without fraction and exponent only for integers, and its magnitude tells the number.

* `Numeral.Stops` : what may follow a numeral;
* `Numeral.magnitude` : the rational that a numeral writes;
* `Decimal.writes_chars` : a decimal is written as a numeral of its value;
* `Number.WrittenAs` and `Number.exists_numeral` : the numeral that is written of a number;
* `Number.eq_of_text_append` : different numbers have different texts, whatever follows.
-/
import Picklist.Number.Text
import Picklist.Proofs.Number.Shortest

namespace Picklist

namespace Numeral

/-! ## Reading what was written -/

/-- Nothing that could belong to a numeral stands at the front of a text. -/
def Stops (r : List Char) : Prop :=
  ∀ c, r.head? = some c → c.isDigit = false ∧ c ≠ '.' ∧ c ≠ 'e' ∧ c ≠ 'E'

/-- The front of a text is no digit. -/
def NoDigit (r : List Char) : Prop := ∀ c, r.head? = some c → c.isDigit = false

theorem stops_nil : Stops [] := nofun

/-- A character that belongs to no numeral stops one. -/
theorem stops_cons {c : Char} (h : c.isDigit = false ∧ c ≠ '.' ∧ c ≠ 'e' ∧ c ≠ 'E')
    (r : List Char) : Stops (c :: r) := by
  intro d hd
  obtain rfl : c = d := Option.some.inj hd
  exact h

theorem noDigit_cons {c : Char} (h : c.isDigit = false) (r : List Char) : NoDigit (c :: r) := by
  intro d hd
  obtain rfl : c = d := Option.some.inj hd
  exact h

variable {cs r : List Char}

theorem Stops.noDigit (h : Stops r) : NoDigit r := fun c hc => (h c hc).1

/-- Digits are read up to what is no digit. -/
theorem digits?_append (hne : cs ≠ []) (hcs : ∀ c ∈ cs, c.isDigit = true) (hr : NoDigit r) :
    digits? (cs ++ r) = some (cs.map digitValue, r) := by
  have htake : r.takeWhile Char.isDigit = [] := by
    cases r with
    | nil => rfl
    | cons c rest => rw [List.takeWhile_cons, hr c rfl]; rfl
  have hdrop : r.dropWhile Char.isDigit = r := by
    cases r with
    | nil => rfl
    | cons c rest => rw [List.dropWhile_cons, hr c rfl]; rfl
  cases cs with
  | nil => exact absurd rfl hne
  | cons c rest =>
      rw [List.forall_mem_cons] at hcs
      rw [List.cons_append, digits?, if_pos hcs.1, List.takeWhile_append_of_pos hcs.2,
        List.dropWhile_append_of_pos hcs.2, htake, hdrop, List.append_nil]
      rfl

/-- Digits before the point; only a single one may be zero at the front. -/
theorem whole?_append (hne : cs ≠ []) (hcs : ∀ c ∈ cs, c.isDigit = true)
    (hlead : (cs.map digitValue).head? ≠ some 0 ∨ cs.length = 1) (hr : NoDigit r) :
    whole? (cs ++ r) = some (cs.map digitValue, r) := by
  have hnot : ¬((cs.map digitValue).head? = some 0 ∧ (cs.map digitValue).length ≠ 1) := by
    rw [List.length_map]
    tauto
  rw [whole?, digits?_append hne hcs hr]
  exact if_neg hnot

/-- A point and the digits behind it. -/
theorem fraction?_append (hne : cs ≠ []) (hcs : ∀ c ∈ cs, c.isDigit = true) (hr : NoDigit r) :
    fraction? ('.' :: (cs ++ r)) = some (cs.map digitValue, r) :=
  digits?_append hne hcs hr

theorem fraction?_none (h : ∀ c, r.head? = some c → c ≠ '.') : fraction? r = some ([], r) := by
  unfold fraction?
  split
  · exact absurd rfl (h '.' rfl)
  · rfl

/-- An exponent with its sign. -/
theorem exponent?_append (negative : Bool) (hne : cs ≠ []) (hcs : ∀ c ∈ cs, c.isDigit = true)
    (hr : NoDigit r) :
    exponent? ('e' :: (if negative then '-' else '+') :: (cs ++ r)) =
      some (some (if negative then -(digitsValue (cs.map digitValue) : ℤ)
        else digitsValue (cs.map digitValue)), r) := by
  cases negative <;> simp [exponent?, digits?_append hne hcs hr]

theorem exponent?_none (h : Stops r) : exponent? r = some (none, r) := by
  cases r with
  | nil => rfl
  | cons c rest =>
      have hc := (h c rfl).2.2
      simp [exponent?, hc]

/-- A text that reading takes for the parts of a numeral behind its sign, whatever follows. -/
def Body (cs : List Char) (n : Numeral) : Prop :=
  ∀ r, Stops r → ∃ afterWhole afterFraction,
    whole? (cs ++ r) = some (n.whole, afterWhole) ∧
      fraction? afterWhole = some (n.fraction, afterFraction) ∧
      exponent? afterFraction = some (n.exponent, r)

/-- A text with a minus sign in front, or without one. -/
def signed (negative : Bool) (cs : List Char) : List Char :=
  if negative then '-' :: cs else cs

/-- The sign is taken off a text that begins with a digit. -/
theorem sign_signed (negative : Bool) {cs : List Char} {ds : List Nat} {r : List Char}
    (h : whole? cs = some (ds, r)) : sign (signed negative cs) = (negative, cs) := by
  cases negative with
  | true => rfl
  | false =>
      rw [signed, if_neg Bool.false_ne_true]
      unfold sign
      split
      · cases h
      · rfl

/-- A numeral is read off its sign and its body. -/
theorem Body.read?_eq {n : Numeral} (h : Body cs n) (negative : Bool) (hr : Stops r) :
    read? (signed negative cs ++ r) = some ({ n with negative := negative }, r) := by
  obtain ⟨afterWhole, afterFraction, hwhole, hfraction, hexponent⟩ := h r hr
  have happend : signed negative cs ++ r = signed negative (cs ++ r) := by
    cases negative <;> rfl
  rw [happend, read?, sign_signed negative hwhole]
  simp only [hwhole, hfraction, hexponent, Option.bind_eq_bind, Option.bind_some]

/-- Digits alone are a body. -/
theorem body_digits (hne : cs ≠ []) (hcs : ∀ c ∈ cs, c.isDigit = true)
    (hlead : (cs.map digitValue).head? ≠ some 0 ∨ cs.length = 1) (negative : Bool) :
    Body cs ⟨negative, cs.map digitValue, [], none⟩ := fun r hr =>
  ⟨r, r, whole?_append hne hcs hlead hr.noDigit, fraction?_none fun c hc => (hr c hc).2.1,
    exponent?_none hr⟩

/-- Digits, a point and digits are a body. -/
theorem body_point (cs ds : List Char) (hne : cs ≠ []) (hcs : ∀ c ∈ cs, c.isDigit = true)
    (hlead : (cs.map digitValue).head? ≠ some 0 ∨ cs.length = 1) (hne' : ds ≠ [])
    (hds : ∀ c ∈ ds, c.isDigit = true) (negative : Bool) :
    Body (cs ++ '.' :: ds) ⟨negative, cs.map digitValue, ds.map digitValue, none⟩ := by
  intro r hr
  refine ⟨'.' :: (ds ++ r), r, ?_, fraction?_append hne' hds hr.noDigit, exponent?_none hr⟩
  rw [List.append_assoc]
  exact whole?_append hne hcs hlead (noDigit_cons rfl _)

/-- A digit, more digits behind a point if there are any, and an exponent are a body. -/
theorem body_exponent {c : Char} {ds es : List Char} (hc : c.isDigit = true)
    (hds : ∀ d ∈ ds, d.isDigit = true) (hne : es ≠ []) (hes : ∀ d ∈ es, d.isDigit = true)
    (below negative : Bool) :
    Body (c :: ((if ds = [] then [] else '.' :: ds) ++
      'e' :: (if below then '-' else '+') :: es))
      ⟨negative, [digitValue c], ds.map digitValue,
        some (if below then -(digitsValue (es.map digitValue) : ℤ)
          else digitsValue (es.map digitValue))⟩ := by
  intro r hr
  have hexponent := exponent?_append below hne hes hr.noDigit
  have hdigit : ∀ d ∈ [c], d.isDigit = true := List.forall_mem_singleton.2 hc
  by_cases hnil : ds = []
  · subst hnil
    refine ⟨_, _, ?_, fraction?_none fun d hd => ?_, hexponent⟩
    · exact whole?_append (List.cons_ne_nil c []) hdigit (.inr rfl) (noDigit_cons rfl _)
    · rintro rfl
      cases hd
  · refine ⟨_, _, ?_, fraction?_append hnil hds (noDigit_cons (c := 'e') rfl _), hexponent⟩
    rw [if_neg hnil]
    have hwhole := whole?_append (List.cons_ne_nil c []) hdigit (.inr rfl)
      (noDigit_cons (c := '.') rfl (ds ++ 'e' :: (if below then '-' else '+') :: (es ++ r)))
    simpa using hwhole

/-! ## What a numeral writes -/

/-- The rational that a numeral writes, without its sign. -/
def magnitude (n : Numeral) : ℚ :=
  digitsValue (n.whole ++ n.fraction) * 10 ^ (n.exponent.getD 0 - n.fraction.length)

/-- The natural that is written by the values of digits. -/
theorem digitsValue_map (cs : List Char) :
    digitsValue (cs.map digitValue) = Nat.ofDigitChars 10 cs 0 := by
  rw [digitsValue, List.foldl_map, Nat.ofDigitChars_eq_foldl]
  simp only [Nat.mul_comm, digitValue]

/-- The rational that digits, with a part of them behind the point, and an exponent write. -/
theorem magnitude_eq (negative : Bool) (cs ds : List Char) (e : Option ℤ) :
    magnitude ⟨negative, cs.map digitValue, ds.map digitValue, e⟩ =
      Nat.ofDigitChars 10 (cs ++ ds) 0 * 10 ^ (e.getD 0 - ds.length) := by
  rw [magnitude, ← List.map_append, digitsValue_map, List.length_map]

/-- The digits of a natural are digits. -/
theorem isDigit_toDigits (n : ℕ) : ∀ c ∈ Nat.toDigits 10 n, c.isDigit = true := fun _ hc =>
  Nat.isDigit_of_mem_toDigits (by decide) (by decide) hc

/-- A positive natural does not begin with a zero. -/
theorem head?_toDigits {n : ℕ} (hn : 0 < n) :
    ((Nat.toDigits 10 n).map digitValue).head? ≠ some 0 := by
  induction n using Nat.strong_induction_on with
  | _ n ih =>
      rcases Nat.lt_or_ge n 10 with hlt | hge
      · rw [Nat.toDigits_of_lt_base hlt]
        have hdigit : digitValue n.digitChar = n := Nat.toNat_digitChar_sub_48_of_lt_ten hlt
        simp only [List.map_cons, List.head?_cons, hdigit]
        simpa using hn.ne'
      · rw [Nat.toDigits_of_base_le (by decide) hge, List.map_append]
        have hfront := ih (n / 10) (by omega) (by omega)
        cases hdigits : Nat.toDigits 10 (n / 10) with
        | nil => exact absurd hdigits Nat.toDigits_ne_nil
        | cons c rest =>
            rw [hdigits] at hfront
            exact hfront

/-- The digits of a natural can stand in front. -/
theorem lead_toDigits (n : ℕ) :
    ((Nat.toDigits 10 n).map digitValue).head? ≠ some 0 ∨ (Nat.toDigits 10 n).length = 1 := by
  rcases Nat.eq_zero_or_pos n with rfl | hn
  · exact .inr rfl
  · exact .inl (head?_toDigits hn)

/-! ## Four layouts -/

/-- A text is the body of a numeral with a fraction or an exponent, and the numeral writes the
rational. -/
def Writes (cs : List Char) (q : ℚ) : Prop :=
  ∃ n : Numeral, Body cs n ∧ (n.fraction ≠ [] ∨ n.exponent ≠ none) ∧ n.magnitude = q

theorem isDigit_zeros (k : ℕ) : ∀ c ∈ List.replicate k '0', c.isDigit = true := fun c hc => by
  rw [List.eq_of_mem_replicate hc]
  rfl

section Layouts

variable (hne : cs ≠ []) (hcs : ∀ c ∈ cs, c.isDigit = true)
  (hhead : (cs.map digitValue).head? ≠ some 0)
include hne hcs hhead

/-- Zeros between the digits and the point. -/
theorem writes_zeros (k : ℕ) : Writes (cs ++ List.replicate k '0' ++ ['.', '0'])
    (Nat.ofDigitChars 10 cs 0 * 10 ^ (k : ℤ)) := by
  have hlead : ((cs ++ List.replicate k '0').map digitValue).head? ≠ some 0 := by
    rw [List.map_append, List.head?_append_of_ne_nil _ (by simpa using hne)]
    exact hhead
  refine ⟨_, body_point (cs ++ List.replicate k '0') ['0'] (by simp [hne])
    (List.forall_mem_append.2 ⟨hcs, isDigit_zeros k⟩) (.inl hlead) (by simp) (by simp) false,
    .inl (by simp), ?_⟩
  have hzeros : cs ++ List.replicate k '0' ++ ['0'] = cs ++ List.replicate (k + 1) '0' := by
    rw [List.append_assoc, ← List.replicate_succ']
  rw [magnitude_eq, hzeros, Nat.ofDigitChars_append, Nat.ofDigitChars_replicate_zero]
  push_cast
  rw [Option.getD_none, zero_sub, zpow_neg, List.length_singleton, Nat.cast_one, zpow_one,
    zpow_natCast, pow_succ]
  field_simp

/-- The point between the digits. -/
theorem writes_inside {k : ℕ} (hk : 0 < k) (hlt : k < cs.length) :
    Writes (cs.take k ++ '.' :: cs.drop k)
      (Nat.ofDigitChars 10 cs 0 * 10 ^ ((k : ℤ) - cs.length)) := by
  have hdrop : cs.drop k ≠ [] := by
    rw [Ne, List.drop_eq_nil_iff]
    omega
  have htake : cs.take k ≠ [] := by
    rw [Ne, List.take_eq_nil_iff]
    exact not_or.2 ⟨hk.ne', hne⟩
  have hlead : ((cs.take k).map digitValue).head? ≠ some 0 := by
    rwa [List.map_take, List.head?_take, if_neg hk.ne']
  refine ⟨_, body_point _ _ htake (fun c hc => hcs c (List.mem_of_mem_take hc)) (.inl hlead) hdrop
    (fun c hc => hcs c (List.mem_of_mem_drop hc)) false, .inl (by simpa using hdrop), ?_⟩
  rw [magnitude_eq, List.take_append_drop, List.length_drop, Option.getD_none,
    Nat.cast_sub hlt.le, zero_sub, neg_sub]

omit hhead in
/-- The point and zeros before the digits. -/
theorem writes_before (k : ℕ) : Writes (['0'] ++ '.' :: (List.replicate k '0' ++ cs))
    (Nat.ofDigitChars 10 cs 0 * 10 ^ (-(k + cs.length : ℕ) : ℤ)) := by
  refine ⟨_, body_point ['0'] (List.replicate k '0' ++ cs) (by simp) (by simp)
    (.inr rfl) (by simp [hne]) (List.forall_mem_append.2 ⟨isDigit_zeros k, hcs⟩) false,
    .inl (by simp [hne]), ?_⟩
  have hzeros : ['0'] ++ (List.replicate k '0' ++ cs) = List.replicate (k + 1) '0' ++ cs := by
    rw [List.replicate_succ, List.cons_append, List.cons_append, List.nil_append]
  rw [magnitude_eq, hzeros, Nat.ofDigitChars_append, Nat.ofDigitChars_replicate_zero,
    Nat.mul_zero, Option.getD_none, List.length_append, List.length_replicate, zero_sub]

omit hhead in
/-- The point behind the first digit, and an exponent. -/
theorem writes_exponent (lead : ℤ) :
    Writes (cs.take 1 ++ ((if cs.drop 1 = [] then [] else '.' :: cs.drop 1) ++
        'e' :: (if lead < 0 then '-' else '+') :: Nat.toDigits 10 lead.natAbs))
      (Nat.ofDigitChars 10 cs 0 * 10 ^ (lead + 1 - cs.length)) := by
  obtain ⟨c, rest, rfl⟩ := List.exists_cons_of_ne_nil hne
  rw [List.forall_mem_cons] at hcs
  have hbody := body_exponent hcs.1 hcs.2 Nat.toDigits_ne_nil
    (isDigit_toDigits lead.natAbs) (decide (lead < 0)) false
  simp only [decide_eq_true_eq, digitsValue_map, Nat.ofDigitChars_ten_toDigits] at hbody
  have hlead : (if lead < 0 then -(lead.natAbs : ℤ) else lead.natAbs) = lead := by
    split <;> omega
  rw [hlead] at hbody
  refine ⟨_, hbody, .inr (by simp), ?_⟩
  have hparts := magnitude_eq false [c] rest (some lead)
  rw [List.map_singleton] at hparts
  rw [hparts, Option.getD_some, List.length_cons, List.singleton_append]
  congr 2
  push_cast
  ring

end Layouts

end Numeral

/-! ## Decimals -/

namespace Decimal

open Numeral

/-- The characters of a decimal. -/
def chars (d : Decimal) : List Char :=
  let cs := Nat.toDigits 10 d.digits
  let lead : ℤ := d.exponent + cs.length - 1
  if -5 ≤ lead ∧ lead < 16 then
    if 0 ≤ d.exponent then cs ++ List.replicate d.exponent.toNat '0' ++ ['.', '0']
    else if 0 ≤ lead then cs.take (lead.toNat + 1) ++ '.' :: cs.drop (lead.toNat + 1)
    else ['0'] ++ '.' :: (List.replicate (-lead - 1).toNat '0' ++ cs)
  else
    cs.take 1 ++ ((if cs.drop 1 = [] then [] else '.' :: cs.drop 1) ++
      'e' :: (if lead < 0 then '-' else '+') :: Nat.toDigits 10 lead.natAbs)

/-- A decimal is written with these characters. -/
theorem toList_text (d : Decimal) : d.text.toList = d.chars := by
  have hlength : (toString d.digits).length = (Nat.toDigits 10 d.digits).length := by
    rw [← String.length_toList]
    simp
  unfold text chars
  dsimp only
  rw [hlength]
  split
  · split
    · simp
    split
    · simp
    · simp
  · have hempty : ((toString d.digits).drop 1).toString.isEmpty = true ↔
        (Nat.toDigits 10 d.digits).drop 1 = [] := by
      rw [String.isEmpty_iff, ← String.toList_inj]
      simp
    simp only [hempty]
    split <;> split <;> simp_all

/-- A positive decimal is written as a numeral of its value. -/
theorem writes_chars {d : Decimal} (hd : 0 < d.digits) :
    Writes d.chars (d.digits * 10 ^ d.exponent) := by
  have hcs := isDigit_toDigits d.digits
  have hvalue : Nat.ofDigitChars 10 (Nat.toDigits 10 d.digits) 0 = d.digits :=
    Nat.ofDigitChars_ten_toDigits
  have hhead := head?_toDigits hd
  have hne : Nat.toDigits 10 d.digits ≠ [] := Nat.toDigits_ne_nil
  unfold chars
  dsimp only
  generalize Nat.toDigits 10 d.digits = cs at hcs hvalue hhead hne
  rw [← hvalue]
  have hpos : 0 < cs.length := List.length_pos_iff.2 hne
  split
  · split
    · rename_i hexp
      obtain ⟨k, hk⟩ := Int.eq_ofNat_of_zero_le hexp
      rw [hk, Int.toNat_natCast]
      exact writes_zeros hne hcs hhead k
    split
    · rename_i hexp hlead
      have hk : d.exponent =
          (((d.exponent + cs.length - 1).toNat + 1 : ℕ) : ℤ) - cs.length := by
        push_cast
        omega
      have hwrites := writes_inside hne hcs hhead
        (Nat.succ_pos (d.exponent + cs.length - 1).toNat) (by omega)
      rwa [← hk] at hwrites
    · rename_i hexp hlead
      have hk : d.exponent =
          -(((-(d.exponent + cs.length - 1) - 1).toNat + cs.length : ℕ) : ℤ) := by
        push_cast
        omega
      have hwrites := writes_before hne hcs (-(d.exponent + cs.length - 1) - 1).toNat
      rwa [← hk] at hwrites
  · have hwrites := writes_exponent hne hcs (d.exponent + cs.length - 1)
    have hk : d.exponent + cs.length - 1 + 1 - cs.length = d.exponent := by ring
    rwa [hk] at hwrites

end Decimal

/-! ## Numbers -/

namespace Number

open Numeral

/-- The double of a number is proper. -/
def Proper : Number → Prop
  | .int _ => True
  | .double x => x.Proper

instance : DecidablePred Proper
  | .int _ => isTrue trivial
  | .double x => inferInstanceAs (Decidable x.Proper)

/-- A numeral is what is written of a number: it has its sign, an integer has no fraction and no
exponent, and a double has one of them, and a magnitude in its rounding interval. -/
def WrittenAs : Number → Numeral → Prop
  | .int k, n => n.negative = decide (k < 0) ∧ n.fraction = [] ∧ n.exponent = none ∧
      n.magnitude = k.natAbs
  | .double x, n => n.negative = x.negative ∧ (n.fraction ≠ [] ∨ n.exponent ≠ none) ∧
      if x.isZero then n.magnitude = 0 else x.Covers n.magnitude

/-- The text of an integer: its sign and its digits. -/
theorem toList_text_int (k : ℤ) :
    (Number.text (.int k)).toList = signed (decide (k < 0)) (Nat.toDigits 10 k.natAbs) := by
  change (Int.repr k).toList = _
  cases k with
  | ofNat m => simp [Int.repr, signed]
  | negSucc m => simp [Int.repr, signed, Int.negSucc_lt_zero]

/-- The text of a double: its sign and its decimal. -/
theorem toList_text_double (x : Binary64) :
    (Number.text (.double x)).toList = signed x.negative
      (if x.isZero then ['0', '.', '0'] else x.shortest.chars) := by
  change (Binary64.text x).toList = _
  rw [Binary64.text, ← Decimal.toList_text]
  cases x.negative <;> cases x.isZero <;> simp [signed]

/-- The shortest decimal of a nonzero double is positive. -/
theorem digits_shortest_pos {x : Binary64} (hx : x.Proper) (h0 : x.significand ≠ 0) :
    0 < x.shortest.digits := by
  have hlow := (Binary64.covers_shortest hx h0).bounds.1
  have hpos := (Binary64.lower_pos h0).trans_le hlow
  by_contra hzero
  rw [Nat.eq_zero_of_not_pos hzero, Nat.cast_zero, zero_mul] at hpos
  exact lt_irrefl _ hpos

/-- What is written of the magnitude of a double. -/
theorem writes_double {x : Binary64} (hx : x.Proper) : ∃ q,
    Writes (if x.isZero then ['0', '.', '0'] else x.shortest.chars) q ∧
      if x.isZero then q = 0 else x.Covers q := by
  cases hzero : x.isZero with
  | true =>
      refine ⟨0, ⟨_, body_point ['0'] ['0'] (by simp) (by simp) (.inr rfl)
        (by simp) (by simp) false, .inl (by simp), ?_⟩, rfl⟩
      rw [magnitude_eq]
      simp [Nat.ofDigitChars]
  | false =>
      have h0 : x.significand ≠ 0 := by simpa [Binary64.isZero] using hzero
      exact ⟨_, Decimal.writes_chars (digits_shortest_pos hx h0), Binary64.covers_shortest hx h0⟩

/-- **A number is written as a numeral**, which reading takes off the front of a text when nothing
follows that could belong to it. -/
theorem exists_numeral {a : Number} (ha : a.Proper) : ∃ n : Numeral, a.WrittenAs n ∧
    ∀ r, Stops r → Numeral.read? (a.text.toList ++ r) = some (n, r) := by
  cases a with
  | int k =>
      have hbody := body_digits Nat.toDigits_ne_nil (isDigit_toDigits k.natAbs)
        (lead_toDigits k.natAbs) (decide (k < 0))
      refine ⟨⟨decide (k < 0), (Nat.toDigits 10 k.natAbs).map digitValue, [], none⟩,
        ⟨rfl, rfl, rfl, ?_⟩, fun r hr => ?_⟩
      · have hparts := magnitude_eq (decide (k < 0)) (Nat.toDigits 10 k.natAbs) [] none
        rw [List.map_nil] at hparts
        rw [hparts, List.append_nil, Nat.ofDigitChars_ten_toDigits]
        simp
      · rw [toList_text_int]
        exact hbody.read?_eq (decide (k < 0)) hr
  | double x =>
      obtain ⟨q, ⟨n, hbody, hkind, rfl⟩, hq⟩ := writes_double ha
      refine ⟨{ n with negative := x.negative }, ⟨rfl, hkind, hq⟩, fun r hr => ?_⟩
      rw [toList_text_double]
      exact hbody.read?_eq x.negative hr

/-! ## Different numbers -/

/-- Integers that are written as the same numeral are equal. -/
theorem int_eq_of_writtenAs {k l : ℤ} {n : Numeral} (h : (int k).WrittenAs n)
    (h' : (int l).WrittenAs n) : k = l := by
  obtain ⟨hsign, -, -, hvalue⟩ := h
  obtain ⟨hsign', -, -, hvalue'⟩ := h'
  have habs : k.natAbs = l.natAbs := by exact_mod_cast hvalue.symm.trans hvalue'
  have hneg : k < 0 ↔ l < 0 := by simpa using hsign.symm.trans hsign'
  omega

/-- Proper doubles that are written as the same numeral are equal. -/
theorem double_eq_of_writtenAs {x y : Binary64} (hx : x.Proper) (hy : y.Proper) {n : Numeral}
    (h : (double x).WrittenAs n) (h' : (double y).WrittenAs n) : x = y := by
  obtain ⟨hsign, -, hvalue⟩ := h
  obtain ⟨hsign', -, hvalue'⟩ := h'
  have hmagnitude : x.magnitude = y.magnitude := by
    -- the interval of a nonzero double does not reach zero
    have hpos : ∀ z : Binary64, z.isZero = false → z.Covers n.magnitude → n.magnitude ≠ 0 := by
      intro z hz hcovers
      have hsig : z.significand ≠ 0 := by simpa [Binary64.isZero] using hz
      exact ((Binary64.lower_pos hsig).trans_le hcovers.bounds.1).ne'
    cases hx0 : x.isZero <;> cases hy0 : y.isZero <;>
      simp only [hx0, hy0, if_true, Bool.false_eq_true, if_false] at hvalue hvalue'
    · exact Binary64.eq_of_covers hx hy hvalue hvalue'
    · exact absurd hvalue' (hpos x hx0 hvalue)
    · exact absurd hvalue (hpos y hy0 hvalue')
    · rw [Binary64.magnitude_eq_zero_iff.2 hx0, Binary64.magnitude_eq_zero_iff.2 hy0]
  obtain ⟨hsig, hexp⟩ := (Binary64.magnitude_inj hx hy).1 hmagnitude
  cases x
  cases y
  simp_all

/-- Numbers that are written as the same numeral are equal. -/
theorem eq_of_writtenAs {a b : Number} (ha : a.Proper) (hb : b.Proper) {n : Numeral}
    (h : a.WrittenAs n) (h' : b.WrittenAs n) : a = b := by
  cases a with
  | int k =>
      cases b with
      | int l => rw [int_eq_of_writtenAs h h']
      | double y => exact absurd h'.2.1 (not_or.2 ⟨not_not_intro h.2.1, not_not_intro h.2.2.1⟩)
  | double x =>
      cases b with
      | int l => exact absurd h.2.1 (not_or.2 ⟨not_not_intro h'.2.1, not_not_intro h'.2.2.1⟩)
      | double y => rw [double_eq_of_writtenAs ha hb h h']

/-- **Different numbers have different texts**, whatever stops them. -/
theorem eq_of_text_append {a b : Number} (ha : a.Proper) (hb : b.Proper) {r r' : List Char}
    (hr : Stops r) (hr' : Stops r') (h : a.text.toList ++ r = b.text.toList ++ r') :
    a = b ∧ r = r' := by
  obtain ⟨n, hn, hread⟩ := exists_numeral ha
  obtain ⟨n', hn', hread'⟩ := exists_numeral hb
  have hboth := (hread r hr).symm.trans ((congrArg Numeral.read? h).trans (hread' r' hr'))
  obtain ⟨rfl, rfl⟩ := Prod.mk.inj (Option.some.inj hboth)
  exact ⟨eq_of_writtenAs ha hb hn hn', rfl⟩

end Number

end Picklist
