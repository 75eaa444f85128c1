/-
# Places in messages

A message may end with the place it speaks of, a line and a column.  Such an ending is
understood, so that it is written in one way only.
-/

namespace Picklist

/-- A message, and the line and column it speaks of, if it ends with them. -/
structure PlacedMessage where
  text : String
  place : Option (Nat × Nat)
  deriving DecidableEq, Repr

namespace PlacedMessage

/-- The number at the end of a text, of at most 64 bits; texts are given backwards. -/
def number? (backwards : List Char) : Option (Nat × List Char) :=
  let ds := (backwards.takeWhile Char.isDigit).reverse
  let n := ds.foldl (fun n c => n * 10 + (c.toNat - '0'.toNat)) 0
  if ds.isEmpty || Nat.pow 2 64 ≤ n then none else some (n, backwards.dropWhile Char.isDigit)

/-- A text without a word at its end; texts are given backwards. -/
def without? (word : String) (backwards : List Char) : Option (List Char) :=
  let back := word.toList.reverse
  if back.isPrefixOf backwards then some (backwards.drop back.length) else none

/-- Takes the place off the end of a message. -/
def ofText (s : String) : PlacedMessage :=
  let found : Option PlacedMessage := do
    let (column, rest) ← number? s.toList.reverse
    let rest ← without? " column " rest
    let (line, rest) ← number? rest
    let rest ← without? " at line " rest
    some ⟨String.ofList rest.reverse, some (line, column)⟩
  found.getD ⟨s, none⟩

/-- The message with its place behind it; lines are counted from one, and line zero is no
place. -/
def display (m : PlacedMessage) : String :=
  match m.place with
  | some (line + 1, column) =>
    m.text ++ " at line " ++ toString (line + 1) ++ " column " ++ toString column
  | _ => m.text

end PlacedMessage

end Picklist
