/-
# TOML strings

The four forms of strings: basic and literal, each on one line or on several.  Every
reader gets the text behind the opening quotes and gives the string and what stands
behind the closing quotes.
-/
import Picklist.Text.Hex

namespace Picklist

namespace Toml

/-! ## Characters -/

/-- Blanks within a line. -/
def isBlank (c : Char) : Bool := c = ' ' || c = '\t'

/-- Characters that may stand for themselves in strings and comments: all but controls,
the tab excepted. -/
def isPlain (c : Char) : Bool := c = '\t' || (32 ≤ c.toNat && c.toNat ≠ 127)

/-- The character with a number given by hexadecimal digits. -/
def numbered? (digits : List Char) : Option Char := do
  let n ← Hex.number? digits
  if n.isValidChar then some (Char.ofNat n) else none

/-- The character that a letter after a backslash stands for. -/
def lettered? (c : Char) : Option Char :=
  if c = '"' ∨ c = '\\' then some c
  else if c = 'b' then some (Char.ofNat 8)
  else if c = 't' then some '\t'
  else if c = 'n' then some '\n'
  else if c = 'f' then some (Char.ofNat 12)
  else if c = 'r' then some '\r'
  else if c = 'e' then some (Char.ofNat 27)
  else none

/-- The character of an escape, given what follows the backslash, and what follows the
escape. -/
def escape? : List Char → Option (Char × List Char)
  | 'x' :: a :: b :: rest => (numbered? [a, b]).map (·, rest)
  | 'u' :: a :: b :: c :: d :: rest => (numbered? [a, b, c, d]).map (·, rest)
  | 'U' :: a :: b :: c :: d :: e :: f :: g :: h :: rest =>
    (numbered? [a, b, c, d, e, f, g, h]).map (·, rest)
  | c :: rest => (lettered? c).map (·, rest)
  | [] => none

/-- An escape is never empty. -/
theorem escape?_shorter {cs rest : List Char} {c : Char}
    (h : escape? cs = some (c, rest)) : rest.length < cs.length := by
  unfold escape? at h
  split at h
  all_goals
    first
    | cases h
    | obtain ⟨_, _, h⟩ := Option.map_eq_some_iff.1 h
      cases h
      simp only [List.length_cons]
      omega

/-! ## Strings on one line -/

/-- A basic string, with the characters in `done` before it, last first. -/
def basic? (done : List Char) (cs : List Char) : Option (String × List Char) :=
  match cs with
  | [] => none
  | '"' :: rest => some (String.ofList done.reverse, rest)
  | '\\' :: rest =>
    match _escaped : escape? rest with
    | some (c, rest') => basic? (c :: done) rest'
    | none => none
  | c :: rest => if isPlain c then basic? (c :: done) rest else none
termination_by cs.length
decreasing_by
  · have shorter := escape?_shorter _escaped
    simp only [List.length_cons]
    omega
  · simp

/-- A literal string. -/
def literal? (done : List Char) : List Char → Option (String × List Char)
  | [] => none
  | '\'' :: rest => some (String.ofList done.reverse, rest)
  | c :: rest => if isPlain c then literal? (c :: done) rest else none

/-! ## Strings on several lines -/

/-- A line end right behind the opening quotes does not belong to the string. -/
def dropLineEnd : List Char → List Char
  | '\n' :: rest => rest
  | '\r' :: '\n' :: rest => rest
  | cs => cs

/-- Whether a text begins with a line end. -/
def atLineEnd : List Char → Bool
  | '\n' :: _ => true
  | '\r' :: '\n' :: _ => true
  | _ => false

/-- What stands behind blanks and line ends. -/
def dropSpace : List Char → List Char
  | '\n' :: rest => dropSpace rest
  | '\r' :: '\n' :: rest => dropSpace rest
  | c :: rest => if isBlank c then dropSpace rest else c :: rest
  | [] => []

theorem length_dropSpace_le (cs : List Char) : (dropSpace cs).length ≤ cs.length := by
  fun_induction dropSpace cs <;> simp_all <;> omega

/-- The end of a string that is closed by three quotes, of which the first has been seen:
up to two more quotes belong to the string.  Gives these, and what stands behind. -/
def closing? (quote : Char) (cs : List Char) : Option (List Char × List Char) :=
  let more := (cs.takeWhile (· = quote)).length
  if more < 2 then none
  else
    let kept := min (more - 2) 2
    some (List.replicate kept quote, cs.drop (2 + kept))

/-- A basic string on several lines.  A backslash at the end of a line takes away all
blanks and line ends up to the next other character. -/
def basicLines? (done : List Char) (cs : List Char) : Option (String × List Char) :=
  match cs with
  | [] => none
  | '"' :: rest =>
    match closing? '"' rest with
    | some (kept, rest) => some (String.ofList (done.reverse ++ kept), rest)
    | none => basicLines? ('"' :: done) rest
  | '\\' :: rest =>
    if atLineEnd (rest.dropWhile isBlank) then basicLines? done (dropSpace rest)
    else
      match _escaped : escape? rest with
      | some (c, rest') => basicLines? (c :: done) rest'
      | none => none
  | '\n' :: rest => basicLines? ('\n' :: done) rest
  | '\r' :: '\n' :: rest => basicLines? ('\n' :: '\r' :: done) rest
  | c :: rest => if isPlain c then basicLines? (c :: done) rest else none
termination_by cs.length
decreasing_by
  · simp
  · have shorter := length_dropSpace_le rest
    simp only [List.length_cons]
    omega
  · have shorter := escape?_shorter _escaped
    simp only [List.length_cons]
    omega
  · simp
  · simp only [List.length_cons]
    omega
  · simp

/-- A literal string on several lines. -/
def literalLines? (done : List Char) : List Char → Option (String × List Char)
  | [] => none
  | '\'' :: rest =>
    match closing? '\'' rest with
    | some (kept, rest) => some (String.ofList (done.reverse ++ kept), rest)
    | none => literalLines? ('\'' :: done) rest
  | '\n' :: rest => literalLines? ('\n' :: done) rest
  | '\r' :: '\n' :: rest => literalLines? ('\n' :: '\r' :: done) rest
  | c :: rest => if isPlain c then literalLines? (c :: done) rest else none

end Toml

end Picklist
