/-
# Elements

An element is a column of an entity: whether it belongs to the key, its type, its inline
enumeration, and its annotations.
-/
import Picklist.Annotation.Basic
import Picklist.Enumeration

namespace Picklist

/-! ## Types of elements -/

/-- A reference to a type: its name, or anything else as it is. -/
inductive TypeRef where
  | named (name : String)
  | other (value : Json)
  deriving BEq

namespace TypeRef

/-- The built-in text type. -/
def text : TypeRef := .named "cds.String"

/-- The name, if the type is referred to by name. -/
def name? : TypeRef → Option String
  | .named n => some n
  | .other _ => none

/-- Whether the name is that of a built-in type. -/
def isBuiltin (t : TypeRef) : Bool := t.name?.any fun n => n.startsWith "cds."

/-- The reference as JSON. -/
def toJson : TypeRef → Json
  | .named n => .str n
  | .other j => j

/-- How the reference shows: a name as itself, anything else as its JSON. -/
def display : TypeRef → String
  | .named n => n
  | .other j => j.compact

/-- The reference that a JSON value is. -/
def ofJson : Json → TypeRef
  | .str n => .named n
  | j => .other j

/-- Reads a type reference. -/
def read : Decoder TypeRef := fun d => d.asJson.map ofJson

@[simp] theorem toJson_ofJson (j : Json) : (ofJson j).toJson = j := by
  cases j <;> rfl

end TypeRef

/-! ## Elements -/

/-- A column of an entity. -/
structure Element where
  key : Bool
  type? : Option TypeRef
  enum? : Option Enumeration
  annotations : Annotations
  deriving BEq

/-- The members of a record for an optional value: one, or none. -/
def optionalMember {α : Type} (name : String) (toJson : α → Json) (value : Option α) :
    List (String × Json) :=
  match value with
  | some a => [(name, toJson a)]
  | none => []

namespace Element

/-- The element of a type, without anything else. -/
def ofType (t : TypeRef) : Element := ⟨false, some t, none, .empty⟩

/-- Whether one of the two markers is present, whatever its value: the element is
*marked*, and asks for a value list. -/
def isMarked (e : Element) : Bool :=
  e.annotations.contains .enumValueHelp || e.annotations.contains .enumValueHelpFixedValues

/-- Whether the marker for fixed values is present, whatever its value. -/
def wantsFixedValues (e : Element) : Bool := e.annotations.contains .enumValueHelpFixedValues

/-- The element as members of an object; `key` is written only when it is set. -/
def members (e : Element) : List (String × Json) :=
  (if e.key then [("key", .bool true)] else []) ++ optionalMember "type" TypeRef.toJson e.type?
    ++ optionalMember "enum" Enumeration.toJson e.enum? ++ e.annotations.members

/-- The element as JSON. -/
def toJson (e : Element) : Json := .obj e.members

/-! ## Reading elements -/

/-- What is known of an element while its members are read. -/
structure Draft where
  key : Option Bool
  type? : Option (Option TypeRef)
  enum? : Option (Option Enumeration)
  annotations : Annotations

/-- Reads one member of an element. -/
def step (s : Draft) (name : String) (d : Document) : Except Problem Draft :=
  match name with
  | "key" => do return { s with key := ← once name s.key Document.asBool d }
  | "type" => do
    return { s with type? := ← once name s.type? (Document.optional TypeRef.read) d }
  | "enum" => do
    return { s with enum? := ← once name s.enum? (Document.optional Enumeration.read) d }
  | _ => do return { s with annotations := s.annotations.put name (← d.asJson) }

/-- Reads an element; `null` stands for no type and no enumeration. -/
def read : Decoder Element := fun d => do
  let s ← d.foldMembers "struct Field" step ⟨none, none, none, .empty⟩
  return ⟨s.key.getD false, s.type?.getD none, s.enum?.getD none, s.annotations⟩

end Element

end Picklist
