/-
# Annotations of a node

Definitions and elements carry annotations: recognised ones, held by key, and all others,
held by name.

* `Annotation.ofJson` takes a value in by its shape.  A descriptor is held as one only if
  writing it gives the value back, so nothing that was authored is lost.
* `Annotations.put` files a named value under its key, if it has one.
* `Annotations.members` is the written form: recognised keys in their order, then the
  other names in theirs.
-/
import Picklist.Annotation.Key
import Picklist.Annotation.ValueList

namespace Picklist

/-- The value of a recognised annotation. -/
inductive Annotation where
  | flag (value : Bool)
  | text (value : String)
  | list (value : ValueList)
  | raw (value : Json)
  deriving BEq

namespace Annotation

/-- The annotation value by its shape alone. -/
def ofShape : Json → Annotation
  | .bool b => .flag b
  | .str s => .text s
  | j => .raw j

/-- The descriptor that an object is, if writing it loses nothing. -/
def list? (j : Json) : Option ValueList :=
  match ValueList.read (.ofJson j) with
  | .ok l => if l.toJson.merged == j then some l else none
  | .error _ => none

/-- Takes in the value of a recognised annotation. -/
def ofJson (key : AnnotationKey) (j : Json) : Annotation :=
  match key, j with
  | .valueList, .obj members =>
    match list? (.obj members) with
    | some l => .list l
    | none => .raw (.obj members)
  | _, j => ofShape j

/-- The annotation value as JSON. -/
def toJson : Annotation → Json
  | .flag b => .bool b
  | .text s => .str s
  | .list l => l.toJson.merged
  | .raw j => j

/-- Whether the annotation counts as set. -/
def truthy : Annotation → Bool
  | .flag b => b
  | .text s => !s.isEmpty
  | .list _ => true
  | .raw j => j.truthy

@[simp] theorem truthy_toJson (a : Annotation) : a.toJson.truthy = a.truthy := by
  cases a <;> rfl

end Annotation

/-- The annotations of a node: recognised ones, and all others by name. -/
structure Annotations where
  known : Dict AnnotationKey Annotation
  extra : Dict String Json
  deriving BEq

namespace Annotations

/-- No annotations. -/
def empty : Annotations := ⟨.empty, .empty⟩

instance : Inhabited Annotations := ⟨empty⟩

/-! ## Recognised annotations -/

/-- The value of a key. -/
def get? (a : Annotations) (key : AnnotationKey) : Option Annotation := a.known.get? key

/-- Whether a key is present, whatever its value. -/
def contains (a : Annotations) (key : AnnotationKey) : Bool := a.known.contains key

/-- Whether a key is present and counts as set. -/
def truthy (a : Annotations) (key : AnnotationKey) : Bool :=
  (a.get? key).any Annotation.truthy

/-- The descriptor, if there is one that is held as such. -/
def valueList? (a : Annotations) : Option ValueList :=
  match a.get? .valueList with
  | some (.list l) => some l
  | _ => none

/-- Sets the value of a key. -/
def insert (a : Annotations) (key : AnnotationKey) (value : Annotation) : Annotations :=
  { a with known := a.known.insert key value }

/-- Sets a key to a truth value. -/
def setFlag (a : Annotations) (key : AnnotationKey) (flag : Bool) : Annotations :=
  a.insert key (.flag flag)

/-- Sets a key to a text. -/
def setText (a : Annotations) (key : AnnotationKey) (text : String) : Annotations :=
  a.insert key (.text text)

/-! ## Annotations by name -/

/-- Files a named value under its key, or under its name when that is no key. -/
def put (a : Annotations) (name : String) (value : Json) : Annotations :=
  match AnnotationKey.ofText? name with
  | some key => a.insert key (.ofJson key value)
  | none => { a with extra := a.extra.insert name value }

/-- Whether there are no annotations. -/
def isEmpty (a : Annotations) : Bool := a.known.isEmpty && a.extra.isEmpty

/-- The annotations as members of their node. -/
def members (a : Annotations) : List (String × Json) :=
  a.known.entries.map (fun (key, value) => (key.text, value.toJson)) ++ a.extra.entries

/-- The annotations as JSON. -/
def toJson (a : Annotations) : Json := .obj a.members

/-- Reads annotations that stand alone. -/
def read : Decoder Annotations :=
  Document.foldMembers "a map of annotations"
    (fun a name d => d.asJson.map (a.put name)) empty

end Annotations

end Picklist
