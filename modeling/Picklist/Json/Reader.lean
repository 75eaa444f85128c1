/-
# Reading JSON texts

`Json.read` assembles the tokens of a text into a `Reading`.  It goes through the tokens
once and keeps the places that wait for a value (`Hole`) on a stack.  At the first token
that does not fit, all open containers end unclosed, so that the part before it can still
be looked at in order.
-/
import Picklist.Json.Document
import Picklist.Json.Token

namespace Picklist

namespace Json

/-! ## States -/

/-- A place in an open container that waits for a value; earlier items and members
stand last first. -/
inductive Hole where
  | item (before : List Document)
  | member (before : List (Document × Document)) (key : Document)

/-- What may come next. -/
inductive Focus where
  | value
  | arrayStart
  | arrayNext (before : List Document)
  | objectStart
  | objectName (before : List (Document × Document))
  | objectColon (before : List (Document × Document)) (key : Document)
  | objectNext (before : List (Document × Document))

/-- The outcome of one token: reading goes on, the outermost value is complete, or it
ends here. -/
inductive Progress where
  | more (holes : List Hole) (focus : Focus)
  | complete (root : Document)
  | cut (root : Document)

/-! ## Filling holes -/

/-- A container inside `holes` others, kept only within the depth limit. -/
def sealed (limit : Nat) (holes : List Hole) (d : Document) : Document :=
  if holes.length < limit then d else .unstorable d

/-- Puts a value into the innermost hole. -/
def deliver (d : Document) : List Hole → Progress
  | [] => .complete d
  | .item before :: holes => .more holes (.arrayNext (d :: before))
  | .member before key :: holes => .more holes (.objectNext ((key, d) :: before))

/-- Ends all open containers unclosed around a value. -/
def unwind (limit : Nat) (d : Document) : List Hole → Document
  | [] => d
  | .item before :: holes =>
    unwind limit (sealed limit holes (.arr (d :: before).reverse false)) holes
  | .member before key :: holes =>
    unwind limit (sealed limit holes (.obj ((key, d) :: before).reverse false)) holes

/-- What has been read when no token follows or the next one does not fit. -/
def abandon (limit : Nat) (holes : List Hole) (focus : Focus) : Document :=
  let cutObject (before : List (Document × Document)) : Document :=
    sealed limit holes (.obj before.reverse false)
  let inner : Document :=
    match focus with
    | .value => .broken
    | .arrayStart => sealed limit holes (.arr [] false)
    | .arrayNext before => sealed limit holes (.arr before.reverse false)
    | .objectStart => cutObject []
    | .objectName before => cutObject before
    | .objectColon before key => cutObject ((key, .broken) :: before)
    | .objectNext before => cutObject before
  unwind limit inner holes

/-! ## One token -/

/-- The scalar of a token. -/
def scalar? : Token → Option Document
  | .null => some .null
  | .bool b => some (.bool b)
  | .num (some n) => some (.num n)
  | .num none => some (.unstorable (.num (.int 0)))
  | .str (some s) => some (.str s)
  | .str none => some (.unstorable (.str ""))
  | _ => none

/-- What a token that begins a value shows of it. -/
def glimpse? : Token → Option Document
  | .beginArray => some (.arr [] false)
  | .beginObject => some (.obj [] false)
  | t => scalar? t

/-- A token where a value is expected. -/
def stepValue (limit : Nat) (holes : List Hole) (t : Token) (focus : Focus) : Progress :=
  match t with
  | .beginArray => .more holes .arrayStart
  | .beginObject => .more holes .objectStart
  | t =>
    match scalar? t with
    | some d => deliver d holes
    | none => .cut (abandon limit holes focus)

/-- A token where the name of a member is expected.  Anything but a string ends the
object there, with that token in the place of the name. -/
def stepName (limit : Nat) (holes : List Hole) (before : List (Document × Document))
    (t : Token) : Progress :=
  match t with
  | .str (some name) => .more holes (.objectColon before (.str name))
  | .str none => .more holes (.objectColon before (.unstorable (.str "")))
  | t =>
    match glimpse? t with
    | some d => .cut (abandon limit holes (.objectColon before d))
    | none => .cut (abandon limit holes (.objectName before))

/-- One token. -/
def step (limit : Nat) (holes : List Hole) (focus : Focus) (t : Token) : Progress :=
  match focus, t with
  | .value, t => stepValue limit holes t .value
  | .arrayStart, .endArray => deliver (sealed limit holes (.arr [] true)) holes
  | .arrayStart, t => stepValue limit (.item [] :: holes) t .value
  | .arrayNext before, .comma => .more (.item before :: holes) .value
  | .arrayNext before, .endArray =>
    deliver (sealed limit holes (.arr before.reverse true)) holes
  | .objectStart, .endObject => deliver (sealed limit holes (.obj [] true)) holes
  | .objectStart, t => stepName limit holes [] t
  | .objectName before, t => stepName limit holes before t
  | .objectColon before key, .colon => .more (.member before key :: holes) .value
  | .objectNext before, .comma => .more holes (.objectName before)
  | .objectNext before, .endObject =>
    deliver (sealed limit holes (.obj before.reverse true)) holes
  | focus, _ => .cut (abandon limit holes focus)

/-! ## Whole texts -/

/-- Goes through the tokens. -/
def assemble (limit : Nat) (holes : List Hole) (focus : Focus) : List Token → Reading
  | [] => ⟨abandon limit holes focus, true⟩
  | t :: rest =>
    match step limit holes focus t with
    | .more holes focus => assemble limit holes focus rest
    | .complete root => ⟨root, rest.isEmpty⟩
    | .cut root => ⟨root, false⟩

/-- Nesting beyond this many containers cannot be kept. -/
def depthLimit : Nat := 127

/-- Reads a text in which at most `limit` containers may be nested. -/
def readWithin (limit : Nat) (text : String) : Reading :=
  assemble limit [] .value (Token.scan text.toList)

/-- Reads a text. -/
def read (text : String) : Reading := readWithin depthLimit text

end Json

end Picklist
