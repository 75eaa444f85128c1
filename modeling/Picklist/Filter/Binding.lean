/-
# The constant a filter binds to a column

A binding is a reference to the column, an equals sign and a value, next to each other in
one sequence.  `Filter.constant?` is the value of the first binding from left to right,
where a group is searched at its place, and so are the groups that stand directly in the
entries of a node.  Connectives have no meaning here: a binding inside one of several
alternatives counts as if it held for the whole filter.
-/
import Picklist.Filter.Basic

namespace Picklist

namespace Filter

/-- The value bound to a column by the three tokens at the front of a sequence. -/
def bindingAt? (column : String) : List Token → Option Scalar
  | .ref path :: .op .eq :: .val value :: _ =>
    if Token.head? path = some column then some value else none
  | _ => none

mutual

/-- The value of the first binding of a column in a sequence. -/
def find? (column : String) : List Token → Option Scalar
  | [] => none
  | t :: rest =>
    match bindingAt? column (t :: rest) with
    | some v => some v
    | none =>
      match findWithin? column t with
      | some v => some v
      | none => find? column rest

/-- The value of the first binding inside one token. -/
def findWithin? (column : String) : Token → Option Scalar
  | .group tokens => find? column tokens
  | .node entries => findAmong? column entries
  | _ => none

/-- The value of the first binding inside the groups among the entries of a node. -/
def findAmong? (column : String) : List (String × Token) → Option Scalar
  | [] => none
  | (_, t) :: rest =>
    match findGroup? column t with
    | some v => some v
    | none => findAmong? column rest

/-- The value of the first binding inside a group; other tokens are not searched. -/
def findGroup? (column : String) : Token → Option Scalar
  | .group tokens => find? column tokens
  | _ => none

end

/-- The constant that a filter binds to a column. -/
def constant? (f : Filter) (column : String) : Option Scalar := find? column f.tokens

end Filter

end Picklist
