/-
# Writing JSON

Two layouts of one grammar: `Json.compact` puts nothing between the parts, and
`Json.pretty` puts every item and member on a line of its own, two spaces deeper than
its container.  Members are written in order, repeated ones included.
-/
import Picklist.Json.Basic
import Picklist.Number.Text
import Picklist.Text.Hex

namespace Picklist

namespace Json

/-! ## Quoted text -/

/-- How a character stands between quotes: the quote, the backslash and the characters
below the blank are escaped, all others stand for themselves. -/
def escape (c : Char) : List Char :=
  if c = '"' then ['\\', '"']
  else if c = '\\' then ['\\', '\\']
  else if c = '\n' then ['\\', 'n']
  else if c = '\r' then ['\\', 'r']
  else if c = '\t' then ['\\', 't']
  else if c.toNat = 8 then ['\\', 'b']
  else if c.toNat = 12 then ['\\', 'f']
  else if c.toNat < 16 then ['\\', 'u', '0', '0', '0'] ++ Hex.digits c.toNat
  else if c.toNat < 32 then ['\\', 'u', '0', '0'] ++ Hex.digits c.toNat
  else [c]

/-- The text between quotes. -/
def quote (s : String) : String :=
  String.ofList ('"' :: (s.toList.flatMap escape ++ ['"']))

/-! ## One line -/

/-- The text of a truth value. -/
def boolText (b : Bool) : String := if b then "true" else "false"

mutual

/-- The value on one line, without blanks. -/
def compact : Json → String
  | .null => "null"
  | .bool b => boolText b
  | .num n => n.text
  | .str s => quote s
  | .arr items => "[" ++ compactItems items ++ "]"
  | .obj members => "\x7b" ++ compactMembers members ++ "\x7d"

/-- The items with commas between them. -/
def compactItems : List Json → String
  | [] => ""
  | [x] => x.compact
  | x :: rest => x.compact ++ "," ++ compactItems rest

/-- The members with commas between them. -/
def compactMembers : List (String × Json) → String
  | [] => ""
  | [(name, value)] => quote name ++ ":" ++ value.compact
  | (name, value) :: rest =>
    quote name ++ ":" ++ value.compact ++ "," ++ compactMembers rest

end

/-! ## One line per item -/

/-- A new line with two blanks per level. -/
def newline (level : Nat) : String :=
  String.ofList ('\n' :: List.replicate (2 * level) ' ')

mutual

/-- The value over several lines, inside `level` containers. -/
def layout (level : Nat) : Json → String
  | .null => "null"
  | .bool b => boolText b
  | .num n => n.text
  | .str s => quote s
  | .arr [] => "[]"
  | .arr (x :: rest) => "[" ++ layoutItems (level + 1) (x :: rest) ++ newline level ++ "]"
  | .obj [] => "\x7b\x7d"
  | .obj (m :: rest) =>
    "\x7b" ++ layoutMembers (level + 1) (m :: rest) ++ newline level ++ "\x7d"

/-- Every item on a line of its own, with commas between them. -/
def layoutItems (level : Nat) : List Json → String
  | [] => ""
  | [x] => newline level ++ layout level x
  | x :: rest => newline level ++ layout level x ++ "," ++ layoutItems level rest

/-- Every member on a line of its own, with commas between them. -/
def layoutMembers (level : Nat) : List (String × Json) → String
  | [] => ""
  | [(name, value)] => newline level ++ quote name ++ ": " ++ layout level value
  | (name, value) :: rest =>
    newline level ++ quote name ++ ": " ++ layout level value ++ ","
      ++ layoutMembers level rest

end

/-- The value over several lines, two blanks per level, without a final line end. -/
def pretty (j : Json) : String := layout 0 j

end Json

end Picklist
