/-
# Documents as they are read

A `Document` is what a text or a value offers to a reader, in reading order.  It may
stop early: a container that is not closed ends where the text went wrong, and `broken`
stands for a value that has no well-formed text.  A value that is well formed but cannot
be kept (a number beyond all doubles, half a surrogate pair, too deep a nesting) is
`unstorable`; it is harmless only where it is passed over.

* `Document.toJson?` is the value of a document, if all of it can be kept.
* `Document.ofJson` is the document of a value; `toJson?_ofJson` says that nothing is
  lost when the value has distinct names.
* `Document.wellFormed` says whether the text can be passed over.
-/
import Picklist.Json.Basic

namespace Picklist

/-- A value as offered to a reader.  The names of an object are documents too, since a
text may put anything where a name belongs. -/
inductive Document where
  | null
  | bool (value : Bool)
  | num (value : Number)
  | str (value : String)
  | arr (items : List Document) (closed : Bool)
  | obj (members : List (Document × Document)) (closed : Bool)
  | unstorable (value : Document)
  | broken
  deriving Inhabited, Repr

namespace Document

/-! ## From and to values -/

mutual

/-- The document of a value. -/
def ofJson : Json → Document
  | .null => .null
  | .bool b => .bool b
  | .num n => .num n
  | .str s => .str s
  | .arr items => .arr (ofItems items) true
  | .obj members => .obj (ofMembers members) true

/-- The documents of items. -/
def ofItems : List Json → List Document
  | [] => []
  | x :: xs => ofJson x :: ofItems xs

/-- The documents of members. -/
def ofMembers : List (String × Json) → List (Document × Document)
  | [] => []
  | (name, value) :: rest => (.str name, ofJson value) :: ofMembers rest

end

mutual

/-- The value of a document; a repeated name keeps its first position and takes its
last value. -/
def toJson? : Document → Option Json
  | .null => some .null
  | .bool b => some (.bool b)
  | .num n => some (.num n)
  | .str s => some (.str s)
  | .arr items closed =>
    match toItems? items, closed with
    | some xs, true => some (.arr xs)
    | _, _ => none
  | .obj members closed =>
    match toMembers? members, closed with
    | some ms, true => some (.obj (Members.merge ms))
    | _, _ => none
  | .unstorable _ => none
  | .broken => none

/-- The values of items, if all can be kept. -/
def toItems? : List Document → Option (List Json)
  | [] => some []
  | x :: xs =>
    match toJson? x, toItems? xs with
    | some y, some ys => some (y :: ys)
    | _, _ => none

/-- The named values of members, if all can be kept. -/
def toMembers? : List (Document × Document) → Option (List (String × Json))
  | [] => some []
  | (key, value) :: rest =>
    match key, toJson? value, toMembers? rest with
    | .str name, some v, some ms => some ((name, v) :: ms)
    | _, _, _ => none

end

/-! ## Passing over -/

mutual

/-- Whether a document is well formed to its end, so that it can be passed over; what
cannot be kept does no harm. -/
def wellFormed : Document → Bool
  | .arr items closed => wellFormedItems items && closed
  | .obj members closed => wellFormedMembers members && closed
  | .unstorable value => wellFormed value
  | .broken => false
  | _ => true

/-- Whether all items can be passed over. -/
def wellFormedItems : List Document → Bool
  | [] => true
  | x :: xs => wellFormed x && wellFormedItems xs

/-- Whether all members can be passed over. -/
def wellFormedMembers : List (Document × Document) → Bool
  | [] => true
  | (key, value) :: rest => wellFormed key && wellFormed value && wellFormedMembers rest

end

end Document

/-- A whole text: its first value, and whether nothing but blanks follows it. -/
structure Reading where
  root : Document
  complete : Bool
  deriving Inhabited, Repr

namespace Reading

/-- A value is a complete reading of itself. -/
def ofJson (j : Json) : Reading := ⟨.ofJson j, true⟩

/-- The value of a whole text. -/
def toJson? (r : Reading) : Option Json :=
  if r.complete then r.root.toJson? else none

end Reading

end Picklist
