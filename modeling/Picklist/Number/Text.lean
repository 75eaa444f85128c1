/-
# Number text

Reading and writing numbers.

* `Numeral.read?` takes the longest numeral at the front of a text: sign, digits
  without a superfluous leading zero, optional fraction, optional exponent.
* `Numeral.value?` is its number.  A numeral without fraction and exponent is an
  integer while 64 bits hold it.  Any other one is a double: the leading digits that
  64 bits hold, times or divided by a power of ten, each step rounded once; a value
  beyond the largest double has no number.
* `Number.text` writes a number so that it reads back: integers in full, doubles with
  the fewest digits, positionally between `10 ^ -5` and `10 ^ 16`.
-/
import Picklist.Number.Basic
import Picklist.Number.Shortest

namespace Picklist

/-! ## Numerals -/

/-- The parts of a number as written; digits are values below ten. -/
structure Numeral where
  negative : Bool
  whole : List Nat
  fraction : List Nat
  exponent : Option Int
  deriving DecidableEq, Repr

/-- The value of a decimal digit. -/
def digitValue (c : Char) : Nat := c.toNat - '0'.toNat

/-- The natural written by a list of digits. -/
def digitsValue (ds : List Nat) : Nat := ds.foldl (fun n d => n * 10 + d) 0

namespace Numeral

/-- One digit or more from the front of a text. -/
def digits? (cs : List Char) : Option (List Nat × List Char) :=
  match cs with
  | c :: rest =>
    if c.isDigit then
      some (digitValue c :: (rest.takeWhile Char.isDigit).map digitValue,
        rest.dropWhile Char.isDigit)
    else none
  | [] => none

/-- An optional minus sign at the front of a text. -/
def sign (cs : List Char) : Bool × List Char :=
  match cs with
  | '-' :: rest => (true, rest)
  | _ => (false, cs)

/-- The digits before the point: `0` alone or a run that does not begin with it. -/
def whole? (cs : List Char) : Option (List Nat × List Char) := do
  let (ds, rest) ← digits? cs
  if ds.head? = some 0 ∧ ds.length ≠ 1 then none else some (ds, rest)

/-- The fraction: nothing, or a point and one digit or more. -/
def fraction? (cs : List Char) : Option (List Nat × List Char) :=
  match cs with
  | '.' :: rest => digits? rest
  | _ => some ([], cs)

/-- The exponent: nothing, or its letter, an optional sign and one digit or more. -/
def exponent? (cs : List Char) : Option (Option Int × List Char) :=
  let power (negative : Bool) (rest : List Char) : Option (Option Int × List Char) := do
    let (ds, rest) ← digits? rest
    let n : Int := digitsValue ds
    some (some (if negative then -n else n), rest)
  match cs with
  | c :: rest =>
    if c = 'e' ∨ c = 'E' then
      match rest with
      | '+' :: rest => power false rest
      | '-' :: rest => power true rest
      | _ => power false rest
    else some (none, cs)
  | [] => some (none, [])

/-- The longest numeral at the front of a text, and what follows it. -/
def read? (cs : List Char) : Option (Numeral × List Char) := do
  let (negative, cs) := sign cs
  let (whole, cs) ← whole? cs
  let (fraction, cs) ← fraction? cs
  let (exponent, cs) ← exponent? cs
  some (⟨negative, whole, fraction, exponent⟩, cs)

/-! ## What reading consumes -/

theorem length_dropWhile_le (p : Char → Bool) (cs : List Char) :
    (cs.dropWhile p).length ≤ cs.length :=
  (List.dropWhile_sublist p).length_le

theorem digits?_shorter {cs rest : List Char} {ds : List Nat}
    (h : digits? cs = some (ds, rest)) : rest.length < cs.length := by
  unfold digits? at h
  split at h
  · split at h
    · cases h
      exact Nat.lt_succ_of_le (length_dropWhile_le _ _)
    · cases h
  · cases h

theorem sign_le (cs : List Char) : (sign cs).2.length ≤ cs.length := by
  unfold sign
  split <;> simp

theorem whole?_shorter {cs rest : List Char} {ds : List Nat}
    (h : whole? cs = some (ds, rest)) : rest.length < cs.length := by
  unfold whole? at h
  obtain ⟨⟨ds', rest'⟩, hd, h⟩ := Option.bind_eq_some_iff.1 h
  dsimp only at h
  split at h
  · cases h
  · cases h
    exact digits?_shorter hd

theorem fraction?_le {cs rest : List Char} {ds : List Nat}
    (h : fraction? cs = some (ds, rest)) : rest.length ≤ cs.length := by
  unfold fraction? at h
  split at h
  · have := digits?_shorter h
    simp only [List.length_cons]
    omega
  · cases h
    exact Nat.le_refl _

theorem exponent?_le {cs rest : List Char} {e : Option Int}
    (h : exponent? cs = some (e, rest)) : rest.length ≤ cs.length := by
  unfold exponent? at h
  dsimp only at h
  split at h
  · split at h
    · split at h <;>
      · obtain ⟨⟨ds, rest'⟩, hd, h⟩ := Option.bind_eq_some_iff.1 h
        cases h
        have := digits?_shorter hd
        simp only [List.length_cons] at *
        omega
    · cases h
      exact Nat.le_refl _
  · cases h
    exact Nat.le_refl _

/-- A numeral is never empty. -/
theorem read?_shorter {cs rest : List Char} {n : Numeral}
    (h : read? cs = some (n, rest)) : rest.length < cs.length := by
  unfold read? at h
  dsimp only at h
  obtain ⟨⟨w, cs₁⟩, hw, h⟩ := Option.bind_eq_some_iff.1 h
  obtain ⟨⟨f, cs₂⟩, hf, h⟩ := Option.bind_eq_some_iff.1 h
  obtain ⟨⟨e, cs₃⟩, he, h⟩ := Option.bind_eq_some_iff.1 h
  cases h
  have h₀ := sign_le cs
  have h₁ : cs₁.length < (sign cs).2.length := whole?_shorter hw
  have h₂ : cs₂.length ≤ cs₁.length := fraction?_le hf
  have h₃ : cs₃.length ≤ cs₂.length := exponent?_le he
  show cs₃.length < cs.length
  omega

/-! ## The value of a numeral -/

/-- Appends digits to a significand while 64 bits hold the result; also the digits
left over. -/
def absorb (significand : Nat) : List Nat → Nat × List Nat
  | [] => (significand, [])
  | d :: ds =>
    if significand * 10 + d < Nat.pow 2 64 then absorb (significand * 10 + d) ds
    else (significand, d :: ds)

/-- The double nearest to `10 ^ k`, for `k` up to 308. -/
def powerOfTen (k : Nat) : Binary64 :=
  (Binary64.ofQuotient? false (Nat.pow 10 k) 1).getD (.zero false)

/-- Divides by `10 ^ k`, by at most 308 powers at a time. -/
def divideByPower (x : Binary64) (k : Nat) : Binary64 :=
  if k ≤ 308 then (x.div? (powerOfTen k)).getD (.zero x.negative)
  else if x.isZero then x
  else divideByPower ((x.div? (powerOfTen 308)).getD (.zero x.negative)) (k - 308)
termination_by k

/-- The double for `significand * 10 ^ exponent`: the significand is rounded first, the
product or quotient second. -/
def scale? (significand : Nat) (exponent : Int) : Option Binary64 :=
  let x := Binary64.ofInt significand
  if exponent < 0 then some (divideByPower x (-exponent).toNat)
  else if exponent ≤ 308 then x.mul? (powerOfTen exponent.toNat)
  else if x.isZero then some x
  else none

/-- The number a numeral stands for; none when it is beyond the largest double. -/
def value? (n : Numeral) : Option Number :=
  let (whole, spill) := absorb 0 n.whole
  let signed (x : Binary64) : Number := .double (if n.negative then x.neg else x)
  if n.fraction = [] ∧ n.exponent = none ∧ spill = [] then
    if ¬n.negative then some (.int whole)
    else if 0 < whole ∧ whole ≤ Nat.pow 2 63 then some (.int (-whole))
    else some (signed (.ofInt whole))
  else
    let (significand, dropped) := absorb whole n.fraction
    let shift : Int := spill.length - (n.fraction.length - dropped.length : Nat)
    (scale? significand (shift + n.exponent.getD 0)).map signed

end Numeral

/-! ## Writing -/

namespace Decimal

/-- A decimal with a point: positional between `10 ^ -5` and `10 ^ 16`, with at least
one digit on each side of the point, otherwise one digit before the point and a signed
exponent. -/
def text (d : Decimal) : String :=
  let ds := toString d.digits
  let lead : Int := d.exponent + ds.length - 1
  let zeros (n : Int) : String := String.ofList (List.replicate n.toNat '0')
  if -5 ≤ lead ∧ lead < 16 then
    if 0 ≤ d.exponent then ds ++ zeros d.exponent ++ ".0"
    else if 0 ≤ lead then
      (ds.take (lead.toNat + 1)).toString ++ "." ++ (ds.drop (lead.toNat + 1)).toString
    else "0." ++ zeros (-lead - 1) ++ ds
  else
    let tail := (ds.drop 1).toString
    let mantissa := (ds.take 1).toString ++ (if tail.isEmpty then "" else "." ++ tail)
    mantissa ++ "e" ++ (if lead < 0 then "-" else "+") ++ toString lead.natAbs

end Decimal

/-- The text of a double: the fewest digits that read back. -/
def Binary64.text (x : Binary64) : String :=
  (if x.negative then "-" else "") ++
    (if x.isZero then "0.0" else x.shortest.text)

/-- The text of a number. -/
def Number.text : Number → String
  | .int n => toString n
  | .double x => x.text

end Picklist
