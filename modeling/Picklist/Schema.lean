/-
# Schemas

A schema holds definitions by qualified name, free metadata, and whatever else a document
has at its top.

* `Schema.read` reads a schema, `Schema.toJson` is its written form.
* `Schema.enumOf?` is the enumeration of an element: its own, or that of its named type.
* `Schema.owningService?` is the service right above a name.
-/
import Picklist.Definition
import Picklist.QualifiedName

namespace Picklist

/-- Definitions by name, metadata, and all other top-level members. -/
structure Schema where
  definitions : Dict String Definition
  metadata : Dict String Json
  extra : Dict String Json
  deriving BEq

namespace Schema

/-- The schema without definitions. -/
def empty : Schema := ⟨.empty, .empty, .empty⟩

instance : Inhabited Schema := ⟨empty⟩

/-! ## Definitions -/

/-- The names of all definitions. -/
def names (s : Schema) : List String := s.definitions.keys

/-- The definition of a name. -/
def get? (s : Schema) (name : String) : Option Definition := s.definitions.get? name

/-- Whether a name is defined. -/
def contains (s : Schema) (name : String) : Bool := s.definitions.contains name

/-- Sets the definition of a name. -/
def insert (s : Schema) (name : String) (d : Definition) : Schema :=
  { s with definitions := s.definitions.insert name d }

/-- Removes a definition. -/
def erase (s : Schema) (name : String) : Schema :=
  { s with definitions := s.definitions.erase name }

/-- Defines a name unless it is defined already. -/
def insertIfAbsent (s : Schema) (name : String) (d : Definition) : Schema :=
  if s.contains name then s else s.insert name d

/-- The entities by name. -/
def entities (s : Schema) : List (String × Definition) :=
  s.definitions.entries.filter fun (_, d) => d.isEntity

/-- The entity of a name. -/
def entity? (s : Schema) (name : String) : Option Definition :=
  (s.get? name).filter Definition.isEntity

/-! ## Elements and owners -/

/-- An element of a definition. -/
def element? (s : Schema) (name element : String) : Option Element := do
  (← s.get? name).elements.get? element

/-- The enumeration of an element: its own, otherwise that of its named type. -/
def enumOf? (s : Schema) (e : Element) : Option Enumeration :=
  match e.enum? with
  | some enum => some enum
  | none => do
    let name ← (← e.type?).name?
    (← s.get? name).enum?

/-- The service right above a name. -/
def owningService? (s : Schema) (name : String) : Option String := do
  let owner ← QualifiedName.owner? name
  if (s.get? owner).any Definition.isService then some owner else none

/-! ## Metadata -/

/-- Whether a metadata key counts as set. -/
def flag (s : Schema) (key : String) : Bool := (s.metadata.get? key).any Json.truthy

/-- Sets a metadata key to true. -/
def setFlag (s : Schema) (key : String) : Schema :=
  { s with metadata := s.metadata.insert key (.bool true) }

/-! ## Writing and reading -/

/-- The schema as JSON, as it is written to a text; empty metadata is not written. -/
def toJson (s : Schema) : Json :=
  .obj (("definitions", .obj (s.definitions.mapValues fun _ d => d.toJson).entries)
    :: (if s.metadata.isEmpty then [] else [("meta", .obj s.metadata.entries)])
    ++ s.extra.entries)

/-- The schema as a JSON value, in which repeated members are merged. -/
def toValue (s : Schema) : Json := s.toJson.merged

/-- The text of a saved schema. -/
def save (s : Schema) : String := s.toJson.pretty

/-- What is known of a schema while its members are read. -/
structure Draft where
  definitions? : Option (Dict String Definition)
  metadata? : Option (Dict String Json)
  extra : Dict String Json

/-- Reads one member of a schema. -/
def step (s : Draft) (name : String) (d : Document) : Except Problem Draft :=
  match name with
  | "definitions" => do
    return { s with
      definitions? := ← once name s.definitions? (Document.asDict Definition.read) d }
  | "meta" => do
    return { s with metadata? := ← once name s.metadata? (Document.asDict Document.asJson) d }
  | _ => do return { s with extra := s.extra.insert name (← d.asJson) }

/-- Reads a schema. -/
def read : Decoder Schema := fun d => do
  let s ← d.foldMembers "struct Schema" step ⟨none, none, .empty⟩
  return ⟨s.definitions?.getD .empty, s.metadata?.getD .empty, s.extra⟩

end Schema

end Picklist
