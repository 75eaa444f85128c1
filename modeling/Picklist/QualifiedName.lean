/-
# Qualified names

Definitions are named by segments with dots between them.  `QualifiedName.owner?` is all
but the last segment, `QualifiedName.below?` what follows an owner, when that is a single
segment.
-/

namespace Picklist

namespace QualifiedName

/-- A name below an owner. -/
def join (owner name : String) : String := owner ++ "." ++ name

/-- Whether a name has a single segment. -/
def isSingle (name : String) : Bool := !name.toList.contains '.'

/-- The name without its last segment, if it has several. -/
def owner? (name : String) : Option String :=
  match name.toList.reverse.dropWhile (· ≠ '.') with
  | [] => none
  | _ :: rest => some (String.ofList rest.reverse)

/-- What a name adds to an owner, if that is a single segment. -/
def below? (owner name : String) : Option String :=
  let front := owner.toList ++ ['.']
  if front.isPrefixOf name.toList then
    let rest := String.ofList (name.toList.drop front.length)
    if isSingle rest then some rest else none
  else none

end QualifiedName

end Picklist
