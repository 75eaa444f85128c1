/-
# Filters

A filter is the flat token sequence of a request's condition, with nested groups.  It
knows no precedence and is never validated; the only question asked of it is which
constant it binds to a column (`Picklist.Filter.Binding`).

* `Token.ofJson` reads any JSON value as a token, `Filter.ofJson?` an array as a filter.
* `Filter.and` joins two filters flat, `Filter.or` as two groups.
-/
import Picklist.Scalar

namespace Picklist

namespace Filter

/-! ## Tokens -/

/-- An operator; only three words have a meaning of their own. -/
inductive Operator where
  | eq
  | and
  | or
  | word (text : String)
  deriving DecidableEq, Repr

/-- A segment of a reference: a name, or anything else as it is. -/
inductive Segment where
  | name (text : String)
  | other (value : Json)
  deriving Repr

/-- A token of a filter.  A node is an object that is neither a reference nor a value,
its entries in order. -/
inductive Token where
  | ref (path : List Segment)
  | val (value : Scalar)
  | op (operator : Operator)
  | bare (value : Scalar)
  | group (tokens : List Token)
  | node (entries : List (String × Token))
  deriving Inhabited, Repr

namespace Operator

/-- The operator that a word is. -/
def ofWord (w : String) : Operator :=
  if w = "=" then .eq
  else if w = "and" then .and
  else if w = "or" then .or
  else .word w

/-- The word of an operator. -/
def text : Operator → String
  | .eq => "="
  | .and => "and"
  | .or => "or"
  | .word w => w

theorem text_ofWord (w : String) : (ofWord w).text = w := by
  unfold ofWord
  split
  · simp_all [text]
  · split
    · simp_all [text]
    · split <;> simp_all [text]

end Operator

namespace Segment

/-- The segment that a JSON value is. -/
def ofJson : Json → Segment
  | .str s => .name s
  | j => .other j

end Segment

namespace Token

/-- A reference to a column. -/
def field (name : String) : Token := .ref [.name name]

/-- An operator given by its word. -/
def word (w : String) : Token := .op (.ofWord w)

/-- The leading name of a path; a reference that begins otherwise names no column. -/
def head? : List Segment → Option String
  | .name s :: _ => some s
  | _ => none

mutual

/-- The token that a JSON value is: an array is a group, a text an operator, an object
with an array `ref` a reference, one with a scalar `val` a value, any other object a
node, and any other scalar stands bare. -/
def ofJson : Json → Token
  | .null => .bare .null
  | .bool b => .bare (.bool b)
  | .num n => .bare (.num n)
  | .str w => word w
  | .arr items => .group (ofItems items)
  | .obj members =>
    match members.lookup "ref" with
    | some (.arr path) => .ref (path.map Segment.ofJson)
    | _ =>
      match (members.lookup "val").bind Scalar.ofJson? with
      | some s => .val s
      | none => .node (ofMembers members)

/-- The tokens of items. -/
def ofItems : List Json → List Token
  | [] => []
  | x :: xs => ofJson x :: ofItems xs

/-- The named tokens of members. -/
def ofMembers : List (String × Json) → List (String × Token)
  | [] => []
  | (name, value) :: rest => (name, ofJson value) :: ofMembers rest

end

/-- Reads a token. -/
def read : Decoder Token := fun d => d.asJson.map ofJson

end Token

end Filter

/-! ## Filters -/

/-- A whole filter: its top-level token sequence. -/
structure Filter where
  tokens : List Filter.Token
  deriving Inhabited, Repr

namespace Filter

/-- The filter without tokens. -/
def empty : Filter := ⟨[]⟩

/-- The condition that a column equals a constant. -/
def eq (column : String) (value : Scalar) : Filter :=
  ⟨[.field column, .op .eq, .val value]⟩

/-- The filter that a JSON array is. -/
def ofJson? : Json → Option Filter
  | .arr items => some ⟨Token.ofItems items⟩
  | _ => none

/-- Reads a filter. -/
def read : Decoder Filter := fun d => do
  match ofJson? (← d.asJson) with
  | some f => pure f
  | none => .error .notFilter

/-- Whether a filter has no tokens. -/
def isEmpty (f : Filter) : Bool := f.tokens.isEmpty

/-- Both conditions, written one after the other; an empty one adds nothing. -/
def and (a b : Filter) : Filter :=
  if a.isEmpty then b
  else if b.isEmpty then a
  else ⟨a.tokens ++ .op .and :: b.tokens⟩

/-- Either condition, each in a group of its own. -/
def or (a b : Filter) : Filter :=
  ⟨[.group a.tokens, .op .or, .group b.tokens]⟩

/-- The filter with all its tokens inside `times` groups. -/
def nest (f : Filter) : Nat → Filter
  | 0 => f
  | times + 1 => ⟨[.group (nest f times).tokens]⟩

end Filter

end Picklist
