/-
# JSON values

A JSON value keeps the order of an object's members.  Equality (`==`) does not look at
that order, compares integers exactly, doubles numerically, and never an integer with a
double.  Objects that come from a document have distinct names; `Json.Distinct` says so.
-/
import Picklist.Members
import Picklist.Number.Basic

namespace Picklist

/-- A JSON value; the members of an object stand in order. -/
inductive Json where
  | null
  | bool (value : Bool)
  | num (value : Number)
  | str (value : String)
  | arr (items : List Json)
  | obj (members : List (String × Json))
  deriving Inhabited, Repr

namespace Json

/-! ## Equality up to the order of members -/

mutual

/-- Equality that ignores the order of members: two objects are equal when they have
equally many members and each member of the one has an equal in the other. -/
def same : Json → Json → Bool
  | .null, .null => true
  | .bool a, .bool b => a == b
  | .num a, .num b => a.same b
  | .str a, .str b => a == b
  | .arr xs, .arr ys => sameItems xs ys
  | .obj ms, .obj ns => ms.length == ns.length && sameMembers ms ns
  | _, _ => false

/-- Items are compared place by place. -/
def sameItems : List Json → List Json → Bool
  | [], [] => true
  | x :: xs, y :: ys => x.same y && sameItems xs ys
  | _, _ => false

/-- Each member of the first list has an equal one in the second. -/
def sameMembers : List (String × Json) → List (String × Json) → Bool
  | [], _ => true
  | (name, value) :: rest, ns =>
    (match ns.lookup name with
      | some other => value.same other
      | none => false) && sameMembers rest ns

end

instance : BEq Json := ⟨same⟩

/-! ## Distinct names -/

mutual

/-- No object in the value repeats a name. -/
def Distinct : Json → Prop
  | .arr items => DistinctItems items
  | .obj members => (members.map Prod.fst).Nodup ∧ DistinctMembers members
  | _ => True

/-- No object in any of the items repeats a name. -/
def DistinctItems : List Json → Prop
  | [] => True
  | x :: xs => x.Distinct ∧ DistinctItems xs

/-- No object in any of the member values repeats a name. -/
def DistinctMembers : List (String × Json) → Prop
  | [] => True
  | (_, value) :: rest => value.Distinct ∧ DistinctMembers rest

end

mutual

/-- The value with the repeated members of every object merged: a name keeps its first
position and takes its last value. -/
def merged : Json → Json
  | .arr items => .arr (mergedItems items)
  | .obj members => .obj (Members.merge (mergedMembers members))
  | other => other

/-- Merges inside every item. -/
def mergedItems : List Json → List Json
  | [] => []
  | x :: xs => x.merged :: mergedItems xs

/-- Merges inside every member value. -/
def mergedMembers : List (String × Json) → List (String × Json)
  | [] => []
  | (name, value) :: rest => (name, value.merged) :: mergedMembers rest

end

/-! ## Truthiness -/

/-- Whether a value counts as set: `null`, `false`, zeros and the empty text do not. -/
def truthy : Json → Bool
  | .null => false
  | .bool b => b
  | .num n => !n.isZero
  | .str s => !s.isEmpty
  | .arr _ => true
  | .obj _ => true

end Json

end Picklist
