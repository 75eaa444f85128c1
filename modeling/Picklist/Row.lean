/-
# Rows of a value list

A row shows one value and says which element of which entity it belongs to.
-/
import Picklist.Scalar

namespace Picklist

/-- One row of a value list. -/
structure Row where
  value : Scalar
  entityName : String
  fieldName : String
  deriving BEq, Repr, Inhabited

namespace Row

/-- The row as JSON. -/
def toJson (r : Row) : Json :=
  .obj [("value", r.value.toJson), ("entityName", .str r.entityName),
    ("fieldName", .str r.fieldName)]

/-! ## Reading rows -/

/-- What is known of a row while its members are read. -/
structure Draft where
  value : Option Scalar
  entityName : Option String
  fieldName : Option String

/-- Reads one member of a row; unknown members are passed over. -/
def step (s : Draft) (name : String) (d : Document) : Except Problem Draft :=
  match name with
  | "value" => do return { s with value := ← once name s.value Scalar.read d }
  | "entityName" => do
    return { s with entityName := ← once name s.entityName Document.asText d }
  | "fieldName" => do
    return { s with fieldName := ← once name s.fieldName Document.asText d }
  | _ => do
    d.skip
    return s

/-- Reads a row: an object, or a sequence of its three parts. -/
def read (medium : Medium) : Decoder Row
  | .arr items closed => do
    let expected := "struct ValueHelpRow with 3 elements"
    let (value, items) ← Document.nextItem Scalar.read expected 0 closed items
    let (entityName, items) ← Document.nextItem Document.asText expected 1 closed items
    let (fieldName, items) ← Document.nextItem Document.asText expected 2 closed items
    Document.endItems medium 3 closed items
    return ⟨value, entityName, fieldName⟩
  | d => do
    let s ← d.foldMembers "struct ValueHelpRow" step ⟨none, none, none⟩
    let value ← required "value" s.value
    let entityName ← required "entityName" s.entityName
    let fieldName ← required "fieldName" s.fieldName
    return ⟨value, entityName, fieldName⟩

end Row

end Picklist
