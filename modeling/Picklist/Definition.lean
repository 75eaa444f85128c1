/-
# Definitions

A definition is a named node of a schema.  Entities have elements, types may have an
enumeration, services have neither.
-/
import Picklist.Element
import Picklist.Query

namespace Picklist

/-! ## Kinds -/

/-- What a definition defines; any word may be a kind. -/
inductive Kind where
  | action
  | aspect
  | context
  | entity
  | event
  | function
  | service
  | type
  | other (word : String)
  deriving DecidableEq, Repr

namespace Kind

/-- The kinds that have a meaning. -/
def known : List Kind :=
  [.action, .aspect, .context, .entity, .event, .function, .service, .type]

/-- The word of a kind. -/
def text : Kind → String
  | .action => "action"
  | .aspect => "aspect"
  | .context => "context"
  | .entity => "entity"
  | .event => "event"
  | .function => "function"
  | .service => "service"
  | .type => "type"
  | .other w => w

/-- The kind that a word is. -/
def ofText (w : String) : Kind :=
  (known.find? fun k => k.text = w).getD (.other w)

/-- Whether the kind has no meaning of its own. -/
def isOther : Kind → Bool
  | .other _ => true
  | _ => false

/-- Reads a kind. -/
def read : Decoder Kind := fun d => (d.asWord (known.map text) "DefinitionKind").map ofText

end Kind

/-! ## Definitions -/

/-- A node of a schema. -/
structure Definition where
  kind : Kind
  doc? : Option String
  type? : Option TypeRef
  enum? : Option Enumeration
  query? : Option Query
  elements : Dict String Element
  annotations : Annotations
  deriving BEq

namespace Definition

/-- The definition of a kind, without anything else. -/
def ofKind (kind : Kind) : Definition := ⟨kind, none, none, none, none, .empty, .empty⟩

/-- An entity with the given elements. -/
def entity (elements : Dict String Element) : Definition :=
  { ofKind .entity with elements := elements }

/-- A service. -/
def service : Definition := ofKind .service

/-- A type with an enumeration. -/
def enumType (type : TypeRef) (enum : Enumeration) : Definition :=
  { ofKind .type with type? := some type, enum? := some enum }

/-! ## Questions -/

/-- Whether the definition is an entity. -/
def isEntity (d : Definition) : Bool := d.kind = .entity

/-- Whether the definition is a service. -/
def isService (d : Definition) : Bool := d.kind = .service

/-- Whether the entity was derived and not authored. -/
def isAutoexposed (d : Definition) : Bool := d.annotations.truthy .autoexposed

/-- Whether the entity is a union of others. -/
def isUnion (d : Definition) : Bool := d.query?.any Query.isUnion

/-- Whether one of the two markers on the definition itself counts as set. -/
def hasMarker (d : Definition) : Bool :=
  d.annotations.truthy .enumValueHelp || d.annotations.truthy .enumValueHelpFixedValues

/-- Whether value lists are wanted: the definition has a marker or a marked element, and
is no union. -/
def wantsValueLists (d : Definition) : Bool :=
  !d.isUnion && (d.hasMarker || d.elements.values.any Element.isMarked)

/-- The names of the marked elements. -/
def markedElements (d : Definition) : List String :=
  (d.elements.entries.filter fun (_, e) => e.isMarked).map Prod.fst

/-! ## Writing -/

/-- The definition as members of an object; what is absent is not written. -/
def members (d : Definition) : List (String × Json) :=
  ("kind", .str d.kind.text) :: optionalMember "doc" Json.str d.doc?
    ++ optionalMember "type" TypeRef.toJson d.type?
    ++ optionalMember "enum" Enumeration.toJson d.enum?
    ++ optionalMember "query" Query.toJson d.query?
    ++ (if d.elements.isEmpty then []
      else [("elements", .obj (d.elements.mapValues fun _ e => e.toJson).entries)])
    ++ d.annotations.members

/-- The definition as JSON. -/
def toJson (d : Definition) : Json := .obj d.members

/-! ## Reading -/

/-- What is known of a definition while its members are read. -/
structure Draft where
  kind? : Option Kind
  doc? : Option (Option String)
  type? : Option (Option TypeRef)
  enum? : Option (Option Enumeration)
  query? : Option (Option Query)
  elements? : Option (Dict String Element)
  annotations : Annotations

/-- Nothing is known yet. -/
def Draft.empty : Draft := ⟨none, none, none, none, none, none, .empty⟩

/-- Reads one member of a definition. -/
def step (s : Draft) (name : String) (d : Document) : Except Problem Draft :=
  match name with
  | "kind" => do return { s with kind? := ← once name s.kind? Kind.read d }
  | "doc" => do
    return { s with doc? := ← once name s.doc? (Document.optional Document.asText) d }
  | "type" => do
    return { s with type? := ← once name s.type? (Document.optional TypeRef.read) d }
  | "enum" => do
    return { s with enum? := ← once name s.enum? (Document.optional Enumeration.read) d }
  | "query" => do
    return { s with query? := ← once name s.query? (Document.optional Query.read) d }
  | "elements" => do
    return { s with elements? := ← once name s.elements? (Document.asDict Element.read) d }
  | _ => do return { s with annotations := s.annotations.put name (← d.asJson) }

/-- Reads a definition, which needs a kind; `null` stands for no text, type, enumeration
and query. -/
def read : Decoder Definition := fun d => do
  let s ← d.foldMembers "struct Definition" step .empty
  let kind ← required "kind" s.kind?
  return ⟨kind, s.doc?.getD none, s.type?.getD none, s.enum?.getD none,
    s.query?.getD none, s.elements?.getD .empty, s.annotations⟩

end Definition

end Picklist
