/-
# Enumerations

An enumeration maps symbols to entries, in the order of first insertion; pick lists show
its values in that order.

* An entry is bare, or an object with an explicit `val` or without one.
* `Enumeration.values` has one scalar per symbol: the explicit value, or the symbol
  itself.
-/
import Picklist.Scalar

namespace Picklist

namespace Enumeration

/-! ## Entries -/

/-- An entry of an enumeration: any value but an object, or an object taken apart into
its explicit value and its other members. -/
inductive Entry where
  | bare (value : Json)
  | described (val : Option Scalar) (other : List (String × Json))

namespace Entry

/-- Equality of entries; the order of the other members does not matter. -/
instance : BEq Entry where
  beq
    | .bare a, .bare b => a == b
    | .described v ms, .described w ns => v == w && Json.obj ms == Json.obj ns
    | _, _ => false

/-- The entry of a symbol that is its own value. -/
def plain : Entry := .bare (.bool true)

/-- The entry with an explicit value and nothing else. -/
def ofValue (v : Scalar) : Entry := .described (some v) []

/-- The value of a symbol with this entry. -/
def value (e : Entry) (symbol : String) : Scalar :=
  match e with
  | .described (some v) _ => v
  | _ => .text symbol

/-- The explicit value of an object: a scalar `val` that is not `null`. -/
def explicit? (members : List (String × Json)) : Option Scalar :=
  match members.lookup "val" with
  | some .null => none
  | some j => Scalar.ofJson? j
  | none => none

/-- The entry that a JSON value is. -/
def ofJson : Json → Entry
  | .obj members =>
    match explicit? members with
    | some v => .described (some v) (Members.withdraw "val" members)
    | none => .described none members
  | j => .bare j

/-- The entry as JSON; an explicit value comes last. -/
def toJson : Entry → Json
  | .bare j => j
  | .described (some v) other => .obj (Members.put "val" v.toJson other)
  | .described none other => .obj other

end Entry

end Enumeration

/-- Symbols with their entries, in order of first insertion. -/
structure Enumeration where
  entries : Members Enumeration.Entry
  deriving BEq

namespace Enumeration

/-- The enumeration without symbols. -/
def empty : Enumeration := ⟨[]⟩

/-- Sets the entry of a symbol, in its place if it has one. -/
def insert (e : Enumeration) (symbol : String) (entry : Entry) : Enumeration :=
  ⟨e.entries.put symbol entry⟩

/-- The number of symbols. -/
def size (e : Enumeration) : Nat := e.entries.length

/-- Whether there are no symbols. -/
def isEmpty (e : Enumeration) : Bool := e.entries.isEmpty

/-- The value of every symbol, in order. -/
def values (e : Enumeration) : List Scalar :=
  e.entries.map fun (symbol, entry) => entry.value symbol

/-- The enumeration as JSON. -/
def toJson (e : Enumeration) : Json :=
  .obj (e.entries.map fun (symbol, entry) => (symbol, entry.toJson))

/-- Reads an enumeration. -/
def read : Decoder Enumeration :=
  Document.foldMembers "an enum definition map"
    (fun e symbol d => d.asJson.map fun j => e.insert symbol (.ofJson j)) empty

end Enumeration

end Picklist
