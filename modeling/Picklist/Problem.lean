/-
# Why a document has no value of a type

A document is malformed, or it is well formed as far as it was read and has the wrong
shape.  `Problem.message?` words the second kind; the first has no words of its own.
-/
import Picklist.Number.Text
import Picklist.Text.Place
import Picklist.Text.Quoted

namespace Picklist

/-- What a reader finds in the place of a value. -/
inductive Found where
  | null
  | bool (value : Bool)
  | num (value : Number)
  | notFinite (name : String)
  | text (value : String)
  | sequence
  | map
  | bytes
  | present
  | bareVariant
  deriving Repr

/-- Why a document cannot be read as a value of a type. -/
inductive Problem where
  | malformed
  | wrongType (found : Found) (expected : String)
  | missing (member : String)
  | repeated (member : String)
  | wrongLength (length : Nat) (expected : String)
  | unknownVariant (word : String) (known : List String)
  | noVariant (type : String)
  | notSingleMember
  | notFinite (name : String)
  | notFilter
  | custom (message : PlacedMessage)
  deriving Repr

namespace Found

/-- What was found, in words. -/
def describe : Found → String
  | .null => "null"
  | .bool b => "boolean `" ++ (if b then "true" else "false") ++ "`"
  | .num (.int n) => "integer `" ++ toString n ++ "`"
  | .num (.double x) => "floating point `" ++ x.text ++ "`"
  | .notFinite name => "floating point `" ++ name ++ "`"
  | .text s => "string " ++ quoted s
  | .sequence => "sequence"
  | .map => "map"
  | .bytes => "byte array"
  | .present => "Option value"
  | .bareVariant => "unit variant"

end Found

namespace Problem

/-- The words that may stand in a place: one, two, or a list of more. -/
def oneOf (words : List String) : String :=
  let ticked := words.map fun w => "`" ++ w ++ "`"
  match ticked with
  | [a] => a
  | [a, b] => a ++ " or " ++ b
  | more => "one of " ++ ", ".intercalate more

/-- The problem in words; a malformed document has none. -/
def message? : Problem → Option String
  | .malformed => none
  | .wrongType found expected =>
    some ("invalid type: " ++ found.describe ++ ", expected " ++ expected)
  | .missing member => some ("missing field `" ++ member ++ "`")
  | .repeated member => some ("duplicate field `" ++ member ++ "`")
  | .wrongLength length expected =>
    some ("invalid length " ++ toString length ++ ", expected " ++ expected)
  | .unknownVariant word known =>
    some ("unknown variant `" ++ word ++ "`, expected " ++ oneOf known)
  | .noVariant type => some ("data did not match any variant of untagged enum " ++ type)
  | .notSingleMember => some "invalid value: map, expected map with a single key"
  | .notFinite name => some ("non-finite number " ++ name)
  | .notFilter => some "filter must be a JSON array"
  | .custom m => some m.display

end Problem

end Picklist
