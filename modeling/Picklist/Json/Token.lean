/-
# Tokens of a JSON text

`Json.Token.scan` splits a text into punctuation and scalars.  It ends with `bad` at the first
place where no token begins or a token goes wrong.  Numbers beyond all doubles and strings
with half a surrogate pair are tokens without a value.
-/
import Picklist.Number.Text
import Picklist.Text.Hex

namespace Picklist

namespace Json

/-- A token; a scalar that cannot be kept has no value. -/
inductive Token where
  | beginArray
  | endArray
  | beginObject
  | endObject
  | comma
  | colon
  | null
  | bool (value : Bool)
  | num (value : Option Number)
  | str (value : Option String)
  | bad
  deriving Repr

namespace Token

/-! ## Strings -/

/-- A character of a string, or a UTF-16 unit given by number. -/
inductive Piece where
  | char (c : Char)
  | unit (n : Nat)
  deriving Repr

/-- The character that a letter after a backslash stands for. -/
def shortEscape? (c : Char) : Option Char :=
  if c = '"' ∨ c = '\\' ∨ c = '/' then some c
  else if c = 'b' then some (Char.ofNat 8)
  else if c = 'f' then some (Char.ofNat 12)
  else if c = 'n' then some '\n'
  else if c = 'r' then some '\r'
  else if c = 't' then some '\t'
  else none

/-- The pieces of a string up to its closing quote, after those in `done` (last first),
and the text behind the quote.  Characters below the blank must be escaped. -/
def pieces? (done : List Piece) : List Char → Option (List Piece × List Char)
  | [] => none
  | '"' :: rest => some (done.reverse, rest)
  | '\\' :: 'u' :: a :: b :: c :: d :: rest =>
    match Hex.number? [a, b, c, d] with
    | some n => pieces? (.unit n :: done) rest
    | none => none
  | '\\' :: c :: rest =>
    match shortEscape? c with
    | some e => pieces? (.char e :: done) rest
    | none => none
  | c :: rest => if c.toNat < 32 then none else pieces? (.char c :: done) rest

/-- What stands behind a string is shorter than the text of the string. -/
theorem pieces?_shorter {done ps : List Piece} {cs rest : List Char}
    (h : pieces? done cs = some (ps, rest)) : rest.length < cs.length := by
  fun_induction pieces? done cs <;> simp_all <;> omega

/-- Whether a unit is the first half of a surrogate pair. -/
def isLead (n : Nat) : Bool := 0xD800 ≤ n && n < 0xDC00

/-- Whether a unit is the second half of a surrogate pair. -/
def isTrail (n : Nat) : Bool := 0xDC00 ≤ n && n < 0xE000

/-- The characters of a string; two halves of a pair that stand together are one
character, and a half that stands alone has none. -/
def join? : List Piece → Option (List Char)
  | [] => some []
  | .char c :: rest => (join? rest).map (c :: ·)
  | .unit n :: rest =>
    if isTrail n then none
    else if isLead n then
      match rest with
      | .unit m :: rest =>
        if isTrail m then
          (join? rest).map (Char.ofNat (0x10000 + (n - 0xD800) * 0x400 + (m - 0xDC00)) :: ·)
        else none
      | _ => none
    else (join? rest).map (Char.ofNat n :: ·)

/-! ## Scanning -/

/-- Blanks between tokens. -/
def isBlank (c : Char) : Bool := c = ' ' || c = '\n' || c = '\t' || c = '\r'

/-- Splits a text into tokens. -/
def scan (cs : List Char) : List Token :=
  match cs with
  | [] => []
  | ' ' :: rest => scan rest
  | '\n' :: rest => scan rest
  | '\t' :: rest => scan rest
  | '\r' :: rest => scan rest
  | '[' :: rest => .beginArray :: scan rest
  | ']' :: rest => .endArray :: scan rest
  | '{' :: rest => .beginObject :: scan rest
  | '}' :: rest => .endObject :: scan rest
  | ',' :: rest => .comma :: scan rest
  | ':' :: rest => .colon :: scan rest
  | 'n' :: 'u' :: 'l' :: 'l' :: rest => .null :: scan rest
  | 't' :: 'r' :: 'u' :: 'e' :: rest => .bool true :: scan rest
  | 'f' :: 'a' :: 'l' :: 's' :: 'e' :: rest => .bool false :: scan rest
  | '"' :: rest =>
    match _closed : pieces? [] rest with
    | some (ps, rest') => .str ((join? ps).map String.ofList) :: scan rest'
    | none => [.bad]
  | c :: rest =>
    match _read : Numeral.read? (c :: rest) with
    | some (n, rest') => .num n.value? :: scan rest'
    | none => [.bad]
termination_by cs.length
decreasing_by
  all_goals first
    | (simp; done)
    | (simp; omega)
    | (have shorter := pieces?_shorter _closed; simp; omega)
    | (have shorter := Numeral.read?_shorter _read; simpa using shorter)

end Token

end Json

end Picklist
