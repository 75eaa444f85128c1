/-
# Numbers of a document

A number is an exact integer or a double, and the two kinds never meet under strict
equality.  `Number.sameValue` also compares them after rounding to doubles.
-/
import Picklist.Number.Binary64

namespace Picklist

/-- An integer of 64 bits (signed or unsigned) or a finite double. -/
inductive Number where
  | int (value : Int)
  | double (value : Binary64)
  deriving DecidableEq, Repr

namespace Number

/-- Strict equality: the same integer, or numerically equal doubles. -/
def same : Number → Number → Bool
  | .int a, .int b => a == b
  | .double x, .double y => x.same y
  | _, _ => false

/-- The number rounded to a double. -/
def toDouble : Number → Binary64
  | .int n => .ofInt n
  | .double x => x

/-- Equality by value: strictly equal, or equal after rounding to doubles. -/
def sameValue (a b : Number) : Bool :=
  a.same b || a.toDouble.same b.toDouble

/-- Whether the number is a zero of any kind. -/
def isZero (n : Number) : Bool := n.toDouble.isZero

@[simp] theorem same_self (n : Number) : n.same n = true := by
  cases n <;> simp [same, Binary64.same_self]

@[simp] theorem sameValue_self (n : Number) : n.sameValue n = true := by
  simp [sameValue]

end Number

end Picklist
