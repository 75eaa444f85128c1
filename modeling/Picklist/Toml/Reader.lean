/-
# Reading TOML

`Toml.read?` reads a whole document.  It goes through the text line by line; inside
brackets and braces line ends and comments may stand between any two tokens but the parts
of a key.  The recursion is bounded by `fuel`, which every nesting and every item uses up
and which exceeds the length of the text.
-/
import Picklist.Toml.Basic
import Picklist.Toml.Scalar
import Picklist.Toml.Text

namespace Picklist

namespace Toml

/-! ## Between tokens -/

/-- What stands behind blanks. -/
def dropBlanks (cs : List Char) : List Char := cs.dropWhile isBlank

/-- What stands behind blanks, line ends and comments. -/
def dropTrivia? (inComment : Bool) : List Char → Option (List Char)
  | [] => some []
  | '\n' :: rest => dropTrivia? false rest
  | '\r' :: '\n' :: rest => dropTrivia? false rest
  | c :: rest =>
    if inComment then
      if isPlain c then dropTrivia? true rest else none
    else if c = '#' then dropTrivia? true rest
    else if isBlank c then dropTrivia? false rest
    else some (c :: rest)

/-- Whether nothing but blanks and a comment stands up to the end of the line. -/
def endsLine (cs : List Char) : Bool :=
  match dropBlanks cs with
  | [] => true
  | '#' :: _ => true
  | rest => atLineEnd rest

/-! ## Keys -/

/-- Characters of keys without quotes. -/
def isBare (c : Char) : Bool := c.isAlphanum || c = '_' || c = '-'

/-- A single key. -/
def simpleKey? (cs : List Char) : Option (String × List Char) :=
  match cs with
  | '"' :: rest => basic? [] rest
  | '\'' :: rest => literal? [] rest
  | _ =>
    if (cs.takeWhile isBare).isEmpty then none
    else some (String.ofList (cs.takeWhile isBare), cs.dropWhile isBare)

/-- Keys with dots have at most this many parts. -/
def partLimit : Nat := 80

/-- A key, dots included: its path, its last part, and what stands behind it and the
blanks that follow. -/
def key? (fuel : Nat) (path : List String) (cs : List Char) :
    Option (List String × String × List Char) :=
  match fuel with
  | 0 => none
  | fuel + 1 => do
    let (part, cs) ← simpleKey? cs
    match dropBlanks cs with
    | '.' :: rest =>
      if path.length + 1 < partLimit then key? fuel (path ++ [part]) (dropBlanks rest)
      else none
    | rest => some (path, part, rest)

/-! ## Values -/

/-- Arrays and inline tables nest at most this deep. -/
def depthLimit : Nat := 80

/-- Characters of a word: all but blanks, line ends and the marks of the grammar. -/
def inWord (c : Char) : Bool := !(" \t\r\n#=,[]\x7b\x7d".toList.contains c)

/-- Whether a word goes on behind blanks. -/
def goesOn : List Char → Bool
  | [] => false
  | c :: _ => inWord c && c ≠ '"' && c ≠ '\''

/-- A word with all that follows it behind blanks, and what stands behind it; quotes belong
to a word unless they begin a part of it. -/
def word (cs : List Char) : List Char × List Char :=
  let part := cs.takeWhile inWord
  match _blanks : cs.dropWhile inWord with
  | c :: rest =>
    let blanks := rest.takeWhile isBlank
    let more := rest.dropWhile isBlank
    if isBlank c && goesOn more then
      let (tail, rest) := word more
      (part ++ c :: blanks ++ tail, rest)
    else (part, c :: rest)
  | [] => (part, [])
termination_by cs.length
decreasing_by
  have first := (List.dropWhile_sublist (p := inWord) (l := cs)).length_le
  have second := (List.dropWhile_sublist (p := isBlank) (l := rest)).length_le
  simp only [_blanks, List.length_cons] at first
  omega

/-- The value that a word is. -/
def ofWord? (w : List Char) : Option Toml :=
  if w = "true".toList then some (.bool true)
  else if w = "false".toList then some (.bool false)
  else if isNumber w || isDateTime w then some .other
  else none

/-- A word and its value. -/
def word? (cs : List Char) : Option (Toml × List Char) :=
  let (w, rest) := word cs
  (ofWord? w).map (·, rest)

/-- A string of any form as a value. -/
def string? (cs : List Char) : Option (Toml × List Char) :=
  let text (r : Option (String × List Char)) : Option (Toml × List Char) :=
    r.map fun (s, rest) => (.text s, rest)
  match cs with
  | '"' :: '"' :: '"' :: rest => text (basicLines? [] (dropLineEnd rest))
  | '"' :: rest => text (basic? [] rest)
  | '\'' :: '\'' :: '\'' :: rest => text (literalLines? [] (dropLineEnd rest))
  | '\'' :: rest => text (literal? [] rest)
  | _ => none

mutual

/-- A value inside fewer than `depth` containers. -/
def value? (fuel depth : Nat) (cs : List Char) : Option (Toml × List Char) :=
  match fuel with
  | 0 => none
  | fuel + 1 =>
    match cs, depth with
    | '"' :: _, _ => string? cs
    | '\'' :: _, _ => string? cs
    | '[' :: rest, depth + 1 => do
      let (items, rest) ← items? fuel depth [] (← dropTrivia? false rest)
      some (.array items false, rest)
    | '{' :: rest, depth + 1 => do
      let (entries, rest) ← entries? fuel depth [] (← dropTrivia? false rest)
      some (.table entries .defined, rest)
    | _, _ => word? cs

/-- The items of an array up to its closing bracket; a comma may stand behind the last. -/
def items? (fuel depth : Nat) (done : List Toml) (cs : List Char) :
    Option (List Toml × List Char) :=
  match fuel with
  | 0 => none
  | fuel + 1 =>
    match cs with
    | ']' :: rest => some (done.reverse, rest)
    | _ => do
      let (v, cs) ← value? fuel depth cs
      match ← dropTrivia? false cs with
      | ',' :: rest => items? fuel depth (v :: done) (← dropTrivia? false rest)
      | ']' :: rest => some ((v :: done).reverse, rest)
      | _ => none

/-- The entries of an inline table up to its closing brace; a comma may stand behind the
last. -/
def entries? (fuel depth : Nat) (done : Entries) (cs : List Char) :
    Option (Entries × List Char) :=
  match fuel with
  | 0 => none
  | fuel + 1 =>
    match cs with
    | '}' :: rest => some (done, rest)
    | _ => do
      let (path, key, cs) ← key? fuel [] cs
      let cs ← after? '=' (← dropTrivia? false cs)
      let (v, cs) ← value? fuel depth (← dropTrivia? false cs)
      let done ← assign? key v path done
      match ← dropTrivia? false cs with
      | ',' :: rest => entries? fuel depth done (← dropTrivia? false rest)
      | '}' :: rest => some (done, rest)
      | _ => none

end

/-! ## Lines -/

/-- One statement, and what stands behind it. -/
def statement? (fuel : Nat) (cs : List Char) : Option (Statement × List Char) :=
  match cs with
  | '[' :: '[' :: rest => do
    let (path, key, rest) ← key? fuel [] (dropBlanks rest)
    let rest ← after? ']' (← after? ']' rest)
    some (.header path key true, rest)
  | '[' :: rest => do
    let (path, key, rest) ← key? fuel [] (dropBlanks rest)
    let rest ← after? ']' rest
    some (.header path key false, rest)
  | _ => do
    let (path, key, rest) ← key? fuel [] cs
    let rest ← after? '=' rest
    let (value, rest) ← value? fuel depthLimit (dropBlanks rest)
    some (.assign path key value, rest)

/-- The statements of a text, each on a line of its own. -/
def statements? (fuel : Nat) (done : List Statement) (cs : List Char) :
    Option (List Statement) :=
  match fuel with
  | 0 => none
  | fuel + 1 => do
    match ← dropTrivia? false cs with
    | [] => some done.reverse
    | cs =>
      let (s, rest) ← statement? fuel cs
      if endsLine rest then statements? fuel (s :: done) rest else none

/-- A text without the mark that may stand at its beginning. -/
def dropMark : List Char → List Char
  | c :: rest => if c.toNat = 0xFEFF then rest else c :: rest
  | [] => []

/-- The entries of a document's top table. -/
def read? (text : String) : Option Entries := do
  let cs := dropMark text.toList
  execute? [] [] (← statements? (2 * cs.length + 2) [] cs)

end Toml

end Picklist
