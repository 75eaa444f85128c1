/-
# Scalars

The values that columns, constants and request parameters hold.  Equality (`==`) is
strict: kinds never mix, and an integer differs from a double.  `Scalar.sameValue` also
compares numbers by value.
-/
import Picklist.Decoder
import Picklist.Json.Writer

namespace Picklist

/-- A JSON value that is no container. -/
inductive Scalar where
  | null
  | bool (value : Bool)
  | num (value : Number)
  | text (value : String)
  deriving Inhabited, Repr

namespace Scalar

/-! ## Comparing -/

/-- Strict equality. -/
def same : Scalar → Scalar → Bool
  | .null, .null => true
  | .bool a, .bool b => a == b
  | .num a, .num b => a.same b
  | .text a, .text b => a == b
  | _, _ => false

instance : BEq Scalar := ⟨same⟩

/-- Strict equality, except that numbers compare by value. -/
def sameValue : Scalar → Scalar → Bool
  | .num a, .num b => a.sameValue b
  | a, b => a == b

@[simp] theorem same_self (s : Scalar) : s.same s = true := by
  cases s <;> simp [same]

@[simp] theorem sameValue_self (s : Scalar) : s.sameValue s = true := by
  cases s with
  | num n => exact Number.sameValue_self n
  | null => exact same_self .null
  | bool b => exact same_self (.bool b)
  | text t => exact same_self (.text t)

/-- Whether a scalar counts as given: `null`, `false`, zeros and the empty text do
not. -/
def truthy : Scalar → Bool
  | .null => false
  | .bool b => b
  | .num n => !n.isZero
  | .text s => !s.isEmpty

/-! ## As JSON and as text -/

/-- The scalar that a JSON value is, if it is no container. -/
def ofJson? : Json → Option Scalar
  | .null => some .null
  | .bool b => some (.bool b)
  | .num n => some (.num n)
  | .str s => some (.text s)
  | .arr _ => none
  | .obj _ => none

/-- The scalar as a JSON value. -/
def toJson : Scalar → Json
  | .null => .null
  | .bool b => .bool b
  | .num n => .num n
  | .text s => .str s

/-- The text, if the scalar is one. -/
def asText? : Scalar → Option String
  | .text s => some s
  | _ => none

/-- How the scalar shows in names and messages: a text as itself, any other value as
its JSON. -/
def display : Scalar → String
  | .text s => s
  | s => s.toJson.compact

@[simp] theorem ofJson?_toJson (s : Scalar) : ofJson? s.toJson = some s := by
  cases s <;> rfl

/-! ## Reading -/

/-- The scalar that a reader finds; sequences, maps, bytes and wrapped values are none,
and a number has to be finite. -/
def ofFound : Found → Except Problem Scalar
  | .null => .ok .null
  | .bool b => .ok (.bool b)
  | .num n => .ok (.num n)
  | .text s => .ok (.text s)
  | .notFinite name => .error (.notFinite name)
  | found =>
    .error (.wrongType found "a scalar literal (null, bool, number or string)")

/-- Reads a scalar. -/
def read : Decoder Scalar := fun d =>
  match d.found? with
  | some f => ofFound f
  | none => .error .malformed

end Scalar

end Picklist
