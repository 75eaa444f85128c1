/-
# Reading typed values off documents

The readers that all records share.  They go through a document in its own order and
stop at the first problem, so a wrong shape is reported even when the text goes wrong
further on.

* `Document.foldMembers` goes through the members of an object; an object that is cut
  off is malformed, but only after all members that it shows.
* `once` reads a member that may occur only once, `required` a member that must occur.
-/
import Picklist.Dict
import Picklist.Json.Document
import Picklist.Problem

namespace Picklist

/-- A reader of values of one type. -/
abbrev Decoder (α : Type) := Document → Except Problem α

/-! ## Members of a record -/

/-- Reads a member that may occur once. -/
def once {α : Type} (name : String) (slot : Option α) (read : Decoder α) (d : Document) :
    Except Problem (Option α) :=
  match slot with
  | some _ => .error (.repeated name)
  | none => (read d).map some

/-- A member that has to occur. -/
def required {α : Type} (name : String) (slot : Option α) : Except Problem α :=
  match slot with
  | some a => .ok a
  | none => .error (.missing name)

/-- Whether a document comes from a text or from a value that was read before.  It decides
which of two problems a surplus shows as. -/
inductive Medium where
  | text
  | value
  deriving DecidableEq, Repr

namespace Document

/-! ## Wrong shapes -/

/-- What a reader finds in a document that is not what it expects; a container is not
looked into. -/
def found? : Document → Option Found
  | .null => some .null
  | .bool b => some (.bool b)
  | .num n => some (.num n)
  | .str s => some (.text s)
  | .arr _ _ => some .sequence
  | .obj _ _ => some .map
  | .unstorable _ => none
  | .broken => none

/-- The problem of a document that is not what was expected. -/
def mismatch (d : Document) (expected : String) : Problem :=
  match d.found? with
  | some f => .wrongType f expected
  | none => .malformed

/-! ## Scalars and raw values -/

/-- A truth value. -/
def asBool : Decoder Bool
  | .bool b => .ok b
  | d => .error (d.mismatch "a boolean")

/-- A text. -/
def asText : Decoder String
  | .str s => .ok s
  | d => .error (d.mismatch "a string")

/-- Any value at all, kept as it is. -/
def asJson : Decoder Json := fun d =>
  match d.toJson? with
  | some j => .ok j
  | none => .error .malformed

/-- Nothing for `null`, otherwise a value of the type. -/
def optional {α : Type} (read : Decoder α) : Decoder (Option α)
  | .null => .ok none
  | d => (read d).map some

/-- Passes over a document, which only has to be well formed. -/
def skip (d : Document) : Except Problem Unit :=
  if d.wellFormed then .ok () else .error .malformed

/-- A word of an open vocabulary: any text, or an object whose only member has a known
word as its name and `null` as its value. -/
def asWord (known : List String) (type : String) : Decoder String := fun d =>
  match d, d.toJson? with
  | _, none => .error .malformed
  | .str w, _ => .ok w
  | .obj [(.str w, .null)] _, _ => if w ∈ known then .ok w else .error (.noVariant type)
  | _, _ => .error (.noVariant type)

/-! ## Containers -/

/-- The items of a sequence. -/
def asList {α : Type} (read : Decoder α) : Decoder (List α)
  | .arr items closed => do
    let xs ← items.mapM read
    if closed then pure xs else .error .malformed
  | d => .error (d.mismatch "a sequence")

/-- The next item of a sequence that has to have one; `done` items have been read. -/
def nextItem {α : Type} (read : Decoder α) (expected : String) (done : Nat)
    (closed : Bool) : List Document → Except Problem (α × List Document)
  | [] => .error (if closed then .wrongLength done expected else .malformed)
  | x :: rest => do return (← read x, rest)

/-- Checks that a sequence of `done` items and the given ones ends here. -/
def endItems (medium : Medium) (done : Nat) (closed : Bool) (items : List Document) :
    Except Problem Unit :=
  match items, medium with
  | [], _ => if closed then .ok () else .error .malformed
  | _, .text => .error .malformed
  | _, .value => .error (.wrongLength (done + items.length) "fewer elements in array")

/-- Reads one member after the other. -/
def stepMembers {σ : Type} (step : σ → String → Document → Except Problem σ) :
    σ → List (Document × Document) → Except Problem σ
  | s, [] => .ok s
  | s, (key, value) :: rest =>
    match key with
    | .str name => step s name value >>= fun s => stepMembers step s rest
    | _ => .error .malformed

/-- Nothing at all, written as `null`. -/
def asNothing : Decoder Unit
  | .null => .ok ()
  | d => .error (d.mismatch "unit")

/-- A variant of a closed choice: its name alone, or an object whose only member has that
name and holds the content.  `read` gets the name, which is a known one, and the content. -/
def asVariant {α : Type} (medium : Medium) (known : List String)
    (read : String → Option Document → Except Problem α) : Decoder α :=
  let named (word : String) (content : Option Document) : Except Problem α :=
    if word ∈ known then read word content else .error (.unknownVariant word known)
  fun d =>
    match d, medium with
    | .str word, _ => named word none
    | .obj [(.str word, content)] _, .value => named word (some content)
    | .obj _ _, .value => .error .notSingleMember
    | d, .value => .error (d.mismatch "string or map")
    | .obj ((.str word, content) :: rest) closed, .text => do
      let a ← named word (some content)
      if rest.isEmpty && closed then pure a else .error .malformed
    | _, .text => .error .malformed

/-- Goes through the members of an object in order. -/
def foldMembers {σ : Type} (expected : String)
    (step : σ → String → Document → Except Problem σ) (start : σ) : Decoder σ
  | .obj members closed => do
    let s ← stepMembers step start members
    if closed then pure s else .error .malformed
  | d => .error (d.mismatch expected)

/-- A dictionary whose values are all of one type; the last value of a key counts. -/
def asDict {α : Type} (read : Decoder α) : Decoder (Dict String α) :=
  foldMembers "a map" (fun d name value => (read value).map (d.insert name)) .empty

end Document

/-! ## Whole texts and values -/

namespace Reading

/-- Reads a whole text: what follows the first value is malformed. -/
def decode {α : Type} (r : Reading) (read : Decoder α) : Except Problem α := do
  let a ← read r.root
  if r.complete then pure a else .error .malformed

end Reading

end Picklist
