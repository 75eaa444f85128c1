/-
# TOML numbers and dates

Whether a word is a number or a date.  Settings hold neither, so where such a word is passed
over only its form matters.  Dates are checked in full.  Numbers are checked as far as it
takes to recognise them: an integer of another base may have no digits at all, and one
that is recognised by an underscore may end in anything (`isUnread`).
-/

namespace Picklist

namespace Toml

/-! ## Numbers -/

/-- Digits, with single underscores between them. -/
def isRun (isDigit : Char → Bool) : List Char → Bool
  | [] => false
  | [c] => isDigit c
  | c :: '_' :: rest => isDigit c && isRun isDigit rest
  | c :: rest => isDigit c && isRun isDigit rest

/-- A text without its sign. -/
def unsigned : List Char → List Char
  | '+' :: rest => rest
  | '-' :: rest => rest
  | cs => cs

/-- Digits and underscores. -/
def inRun (c : Char) : Bool := c.isDigit || c = '_'

/-- Hexadecimal digits. -/
def isHexadecimal (c : Char) : Bool :=
  c.isDigit || ('a' ≤ c && c ≤ 'f') || ('A' ≤ c && c ≤ 'F')

/-- Octal digits. -/
def isOctal (c : Char) : Bool := '0' ≤ c && c ≤ '7'

/-- Binary digits. -/
def isBinary (c : Char) : Bool := c = '0' || c = '1'

/-- The digits before the point, without a superfluous leading zero. -/
def isWhole (cs : List Char) : Bool :=
  isRun Char.isDigit cs && (cs.head? ≠ some '0' || cs.length = 1)

/-- An exponent, or nothing. -/
def isExponent : List Char → Bool
  | [] => true
  | c :: rest => (c = 'e' || c = 'E') && isRun Char.isDigit (unsigned rest)

/-- A fraction and an exponent, each of which may be absent. -/
def isTail : List Char → Bool
  | '.' :: rest =>
    isRun Char.isDigit (rest.takeWhile inRun) && isExponent (rest.dropWhile inRun)
  | cs => isExponent cs

/-- A decimal number behind its sign. -/
def isDecimal (cs : List Char) : Bool :=
  isWhole (cs.takeWhile inRun) && isTail (cs.dropWhile inRun)

/-- Whether every underscore has a hexadecimal digit on both sides; `behind` says whether
the text stands behind such a digit. -/
def joins (behind : Bool) : List Char → Bool
  | [] => true
  | '_' :: rest => behind && rest.head?.any isHexadecimal && joins false rest
  | c :: rest => joins (isHexadecimal c) rest

/-- An integer that is recognised by an underscore behind its first digits.  It is read
only where its value is used, so of all that follows only the neighbours of underscores
count; blanks and the marks of a fraction or an exponent make it something else. -/
def isUnread (cs : List Char) : Bool :=
  let tail := cs.dropWhile Char.isDigit
  tail.head? = some '_' && cs.head? ≠ some '0'
    && !(tail.any fun c => c = ' ' || c = '.' || c = 'e' || c = 'E') && joins false cs

/-- The digits of an integer of another base, of which there may be none. -/
def isBased (isDigit : Char → Bool) (cs : List Char) : Bool := cs.isEmpty || isRun isDigit cs

/-- A number. -/
def isNumber : List Char → Bool
  | '0' :: 'x' :: rest => isBased isHexadecimal rest
  | '0' :: 'o' :: rest => isBased isOctal rest
  | '0' :: 'b' :: rest => isBased isBinary rest
  | cs =>
    let magnitude := unsigned cs
    magnitude = ['i', 'n', 'f'] || magnitude = ['n', 'a', 'n']
      || isDecimal magnitude || isUnread magnitude

/-! ## Dates and times -/

/-- The number of the first digits of a text, and what follows them. -/
def fixed? (count : Nat) (cs : List Char) : Option (Nat × List Char) :=
  let ds := cs.take count
  if ds.length = count && ds.all Char.isDigit then
    some (ds.foldl (fun n c => n * 10 + (c.toNat - '0'.toNat)) 0, cs.drop count)
  else none

/-- What follows a character. -/
def after? (c : Char) : List Char → Option (List Char)
  | [] => none
  | d :: rest => if d = c then some rest else none

/-- The number of days of a month. -/
def daysIn (year month : Nat) : Nat :=
  if month = 2 then
    if (year % 4 = 0 && year % 100 ≠ 0) || year % 400 = 0 then 29 else 28
  else if month = 4 || month = 6 || month = 9 || month = 11 then 30
  else 31

/-- What follows a date. -/
def date? (cs : List Char) : Option (List Char) := do
  let (year, cs) ← fixed? 4 cs
  let (month, cs) ← fixed? 2 (← after? '-' cs)
  let (day, cs) ← fixed? 2 (← after? '-' cs)
  if 1 ≤ month && month ≤ 12 && 1 ≤ day && day ≤ daysIn year month then some cs else none

/-- What follows the hours and minutes of a time. -/
def clock? (cs : List Char) : Option (List Char) := do
  let (hour, cs) ← fixed? 2 cs
  let (minute, cs) ← fixed? 2 (← after? ':' cs)
  if hour < 24 && minute < 60 then some cs else none

/-- What follows the seconds of a time, which may be absent. -/
def seconds? (cs : List Char) : Option (List Char) :=
  match cs with
  | ':' :: rest => do
    let (second, rest) ← fixed? 2 rest
    if second ≤ 60 then
      match rest with
      | '.' :: rest =>
        if (rest.takeWhile Char.isDigit).isEmpty then none
        else some (rest.dropWhile Char.isDigit)
      | _ => some rest
    else none
  | _ => some cs

/-- What follows a time. -/
def time? (cs : List Char) : Option (List Char) := do seconds? (← clock? cs)

/-- An offset from universal time, or nothing. -/
def isOffset : List Char → Bool
  | [] => true
  | ['Z'] => true
  | ['z'] => true
  | '+' :: rest => clock? rest = some []
  | '-' :: rest => clock? rest = some []
  | _ => false

/-- A date, a time, or both. -/
def isDateTime (cs : List Char) : Bool :=
  match date? cs with
  | some [] => true
  | some (c :: rest) =>
    (c = 'T' || c = 't' || c = ' ') && (time? rest).any isOffset
  | none => time? cs = some []

end Toml

end Picklist
