/-
# Hexadecimal digits
-/

namespace Picklist

namespace Hex

/-- The value of a digit of either case. -/
def value? (c : Char) : Option Nat :=
  if '0' ≤ c ∧ c ≤ '9' then some (c.toNat - '0'.toNat)
  else if 'a' ≤ c ∧ c ≤ 'f' then some (c.toNat - 'a'.toNat + 10)
  else if 'A' ≤ c ∧ c ≤ 'F' then some (c.toNat - 'A'.toNat + 10)
  else none

/-- The number written by a list of digits. -/
def number? (digits : List Char) : Option Nat :=
  digits.foldlM (fun n c => (value? c).map (n * 16 + ·)) 0

/-- The lower-case digits of a number. -/
def digits (n : Nat) : List Char := Nat.toDigits 16 n

end Hex

end Picklist
