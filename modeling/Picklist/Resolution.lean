/-
# Resolving requests

A read request on the value list names an entity and an element, in its filter or in its
parameters.  `Resolution.rows?` gives the values of that element's enumeration, or nothing
when the request cannot be answered; the host then keeps what it has.
-/
import Picklist.Filter.Binding
import Picklist.Row
import Picklist.Schema

namespace Picklist

/-- A read request: what is read, its filter and its parameters. -/
structure Request where
  target : String
  filter : Option Filter
  data : Dict String Scalar

namespace Request

/-- The constant that the filter binds to a column. -/
def bound? (r : Request) (column : String) : Option Scalar :=
  r.filter.bind fun f => f.constant? column

/-- The constant of a column: the one in the filter if it counts as given, otherwise the
parameter of that name if it counts as given. -/
def constant? (r : Request) (column : String) : Option Scalar :=
  match (r.bound? column).filter Scalar.truthy with
  | some v => some v
  | none => (r.data.get? column).filter Scalar.truthy

end Request

namespace Resolution

/-- The enumeration of an element given by names. -/
def enumeration? (s : Schema) (entity element : String) : Option Enumeration := do
  s.enumOf? (← s.element? entity element)

/-- Whether a value passes the filter's condition on the value column, which counts only
when its constant counts as given. -/
def admits (r : Request) (v : Scalar) : Bool :=
  match (r.bound? "value").filter Scalar.truthy with
  | some wanted => v.sameValue wanted
  | none => true

/-- The rows that answer a request. -/
def rows? (s : Schema) (r : Request) : Option (List Row) := do
  let entity := (← r.constant? "entityName").display
  let element := (← r.constant? "fieldName").display
  let enum ← enumeration? s entity element
  return (enum.values.filter (admits r)).map fun v => ⟨v, entity, element⟩

/-- Replaces the rows by those that answer the request, if there is an answer; also says
whether there was one. -/
def apply (s : Schema) (rows : List Row) (r : Request) : Bool × List Row :=
  match rows? s r with
  | some answer => (true, answer)
  | none => (false, rows)

end Resolution

end Picklist
