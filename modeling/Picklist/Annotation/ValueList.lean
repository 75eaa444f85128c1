/-
# Value-list descriptors

A value-list descriptor links an element to a collection that lists its values.  Its
parameters say which properties of the element and of the collection correspond, and
which properties of the collection are fixed.

* `ValueList.toJson` writes a descriptor, `ValueList.read` reads one.
* `ValueList.forElement` is the descriptor that points an element at the shared list.
-/
import Picklist.Decoder
import Picklist.Json.Writer

namespace Picklist

namespace ValueList

/-! ## Parameters -/

/-- The kinds of parameters. -/
inductive ParameterKind where
  | inOut
  | input
  | output
  | displayOnly
  | constant
  deriving DecidableEq, Repr

/-- A parameter of a descriptor.  `localProperty` belongs to the element's entity,
`listProperty` to the collection. -/
inductive Parameter where
  | inOut (localProperty listProperty : String)
  | input (localProperty listProperty : String)
  | output (localProperty listProperty : String)
  | displayOnly (listProperty : String)
  | constant (listProperty value : String)
  deriving DecidableEq, Repr

namespace ParameterKind

/-- All kinds. -/
def all : List ParameterKind := [.inOut, .input, .output, .displayOnly, .constant]

/-- The type name that marks a parameter of a kind. -/
def word : ParameterKind → String
  | .inOut => "Common.ValueListParameterInOut"
  | .input => "Common.ValueListParameterIn"
  | .output => "Common.ValueListParameterOut"
  | .displayOnly => "Common.ValueListParameterDisplayOnly"
  | .constant => "Common.ValueListParameterConstant"

/-- The members of a parameter of a kind, in order. -/
def members : ParameterKind → List String
  | .inOut => ["LocalDataProperty", "ValueListProperty"]
  | .input => ["LocalDataProperty", "ValueListProperty"]
  | .output => ["LocalDataProperty", "ValueListProperty"]
  | .displayOnly => ["ValueListProperty"]
  | .constant => ["ValueListProperty", "Constant"]

/-- How messages call a parameter of a kind. -/
def title : ParameterKind → String
  | .inOut => "struct variant ValueListParameter::InOut"
  | .input => "struct variant ValueListParameter::In"
  | .output => "struct variant ValueListParameter::Out"
  | .displayOnly => "struct variant ValueListParameter::DisplayOnly"
  | .constant => "struct variant ValueListParameter::Constant"

/-- The parameter whose members have the given texts. -/
def build (kind : ParameterKind) (member : String → Except Problem String) :
    Except Problem Parameter :=
  match kind with
  | .inOut => do
    return .inOut (← member "LocalDataProperty") (← member "ValueListProperty")
  | .input => do
    return .input (← member "LocalDataProperty") (← member "ValueListProperty")
  | .output => do
    return .output (← member "LocalDataProperty") (← member "ValueListProperty")
  | .displayOnly => do return .displayOnly (← member "ValueListProperty")
  | .constant => do
    return .constant (← member "ValueListProperty") (← member "Constant")

/-- Reads the type name of a parameter. -/
def read : Decoder ParameterKind
  | .str w =>
    match all.find? fun k => k.word = w with
    | some k => .ok k
    | none => .error (.unknownVariant w (all.map word))
  | d => .error (d.mismatch "variant identifier")

end ParameterKind

namespace Parameter

/-- The member that holds the type name. -/
def typeMember : String := "$Type"

/-- The parameter as JSON: its type name, then its members. -/
def toJson : Parameter → Json
  | .inOut l v => object .inOut [("LocalDataProperty", l), ("ValueListProperty", v)]
  | .input l v => object .input [("LocalDataProperty", l), ("ValueListProperty", v)]
  | .output l v => object .output [("LocalDataProperty", l), ("ValueListProperty", v)]
  | .displayOnly v => object .displayOnly [("ValueListProperty", v)]
  | .constant v c => object .constant [("ValueListProperty", v), ("Constant", c)]
where
  object (kind : ParameterKind) (members : List (String × String)) : Json :=
    .obj ((typeMember, .str kind.word) :: members.map fun (n, t) => (n, .str t))

/-! ## Reading parameters -/

/-- Collects the texts of the members of a kind; other members are passed over. -/
def collect (kind : ParameterKind) (found : List (String × String)) :
    List (String × Json) → Except Problem (List (String × String))
  | [] => .ok found
  | (name, value) :: rest =>
    if name ∈ kind.members then
      match found.lookup name with
      | some _ => .error (.repeated name)
      | none => do
        let t ← Document.asText (.ofJson value)
        collect kind ((name, t) :: found) rest
    else collect kind found rest

/-- A parameter from its members. -/
def ofMembers (kind : ParameterKind) (members : List (String × Json)) :
    Except Problem Parameter := do
  let found ← collect kind [] members
  kind.build fun name => required name (found.lookup name)

/-- One item or several, in words. -/
def counted (n : Nat) : String :=
  toString n ++ (if n = 1 then " element" else " elements")

/-- A parameter from the texts of its members in order. -/
def ofItems (kind : ParameterKind) (items : List Json) : Except Problem Parameter := do
  let texts ← (items.take kind.members.length).mapM fun j => Document.asText (.ofJson j)
  let expected := kind.members.length
  if items.length < expected then
    .error (.wrongLength items.length (kind.title ++ " with " ++ counted expected))
  else if expected < items.length then
    .error (.wrongLength items.length (counted expected ++ " in sequence"))
  else
    let found := kind.members.zip texts
    kind.build fun name => required name (found.lookup name)

/-- What is known of a parameter while its members are read: its kind, which is read at
once, and all other members, last first. -/
structure Draft where
  kind : Option ParameterKind
  members : List (String × Json)

/-- Reads one member of a parameter. -/
def step (s : Draft) (name : String) (d : Document) : Except Problem Draft :=
  if name = typeMember then do
    return { s with kind := ← once typeMember s.kind ParameterKind.read d }
  else do
    return { s with members := (name, ← d.asJson) :: s.members }

/-- Reads a parameter: an object that names its type in any place, or a sequence of the
type name and the texts of the members in order. -/
def read : Decoder Parameter
  | .arr [] closed => .error (if closed then .missing typeMember else .malformed)
  | .arr (kind :: items) closed => do
    let kind ← ParameterKind.read kind
    let items ← Document.asList Document.asJson (.arr items closed)
    ofItems kind items
  | .obj members closed => do
    let s ← Document.foldMembers "" step ⟨none, []⟩ (.obj members closed)
    let kind ← required typeMember s.kind
    ofMembers kind s.members.reverse
  | d => .error (d.mismatch "internally tagged enum ValueListParameter")

end Parameter

end ValueList

/-! ## Descriptors -/

/-- A value-list descriptor; members that are not understood are kept in `extra`. -/
structure ValueList where
  path : String
  parameters : List ValueList.Parameter
  extra : Dict String Json
  deriving BEq

namespace ValueList

/-- The descriptor that points an element of an entity at the shared list. -/
def forElement (path entity element : String) : ValueList :=
  { path := path
    parameters :=
      [.inOut element "value", .constant "entityName" entity, .constant "fieldName" element]
    extra := .empty }

/-- The constant that a descriptor binds to a property of the collection. -/
def constant? (l : ValueList) (property : String) : Option String :=
  l.parameters.findSome? fun
    | .constant p c => if p = property then some c else none
    | _ => none

/-- The first pair of properties that correspond in both directions. -/
def inOut? (l : ValueList) : Option (String × String) :=
  l.parameters.findSome? fun
    | .inOut a b => some (a, b)
    | _ => none

/-- The descriptor as JSON. -/
def toJson (l : ValueList) : Json :=
  .obj (("CollectionPath", .str l.path) ::
    ("Parameters", .arr (l.parameters.map Parameter.toJson)) :: l.extra.entries)

/-- What is known of a descriptor while its members are read. -/
structure Draft where
  path : Option String
  parameters : Option (List Parameter)
  extra : Dict String Json

/-- Reads one member of a descriptor. -/
def step (s : Draft) (name : String) (d : Document) : Except Problem Draft :=
  match name with
  | "CollectionPath" => do
    return { s with path := ← once name s.path Document.asText d }
  | "Parameters" => do
    return { s with
      parameters := ← once name s.parameters (Document.asList Parameter.read) d }
  | _ => do return { s with extra := s.extra.insert name (← d.asJson) }

/-- Reads a descriptor; it needs a path, and has no parameters when none are given. -/
def read : Decoder ValueList := fun d => do
  let s ← d.foldMembers "struct ValueList" step ⟨none, none, .empty⟩
  let path ← required "CollectionPath" s.path
  return ⟨path, s.parameters.getD [], s.extra⟩

end ValueList

end Picklist
