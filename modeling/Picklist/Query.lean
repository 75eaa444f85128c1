/-
# Queries

Of the query behind an entity only the set operation is understood; all else is kept as
it is.
-/
import Picklist.Decoder

namespace Picklist

/-- A set operation; any word may be one. -/
inductive SetOp where
  | union
  | intersect
  | except
  | other (word : String)
  deriving DecidableEq, Repr

namespace SetOp

/-- The operations that have a meaning. -/
def known : List SetOp := [.union, .intersect, .except]

/-- The word of an operation. -/
def text : SetOp → String
  | .union => "union"
  | .intersect => "intersect"
  | .except => "except"
  | .other w => w

/-- The operation that a word is. -/
def ofText (w : String) : SetOp :=
  (known.find? fun op => op.text = w).getD (.other w)

/-- Reads an operation. -/
def read : Decoder SetOp := fun d => (d.asWord (known.map text) "SetOp").map ofText

end SetOp

/-- A set query: its operation, and all other members as they are. -/
structure SetQuery where
  op? : Option SetOp
  extra : Dict String Json
  deriving BEq

namespace SetQuery

/-- The set query as JSON. -/
def toJson (q : SetQuery) : Json :=
  .obj ((q.op?.toList.map fun op => ("op", .str op.text)) ++ q.extra.entries)

/-- What is known of a set query while its members are read. -/
structure Draft where
  op? : Option (Option SetOp)
  extra : Dict String Json

/-- Reads one member of a set query. -/
def step (s : Draft) (name : String) (d : Document) : Except Problem Draft :=
  match name with
  | "op" => do return { s with op? := ← once name s.op? (Document.optional SetOp.read) d }
  | _ => do return { s with extra := s.extra.insert name (← d.asJson) }

/-- Reads a set query. -/
def read : Decoder SetQuery := fun d => do
  let s ← d.foldMembers "struct SetQuery" step ⟨none, .empty⟩
  return ⟨s.op?.getD none, s.extra⟩

end SetQuery

/-- A query: its set operation, if it is one, and all other members as they are. -/
structure Query where
  set? : Option SetQuery
  extra : Dict String Json
  deriving BEq

namespace Query

/-- The union of the given queries. -/
def union (args : List Json) : Query :=
  ⟨some ⟨some .union, Dict.empty.insert "args" (.arr args)⟩, .empty⟩

/-- Whether the query is a union. -/
def isUnion (q : Query) : Bool := q.set?.any fun s => s.op? = some .union

/-- The query as JSON. -/
def toJson (q : Query) : Json :=
  .obj ((q.set?.toList.map fun s => ("SET", s.toJson)) ++ q.extra.entries)

/-- What is known of a query while its members are read. -/
structure Draft where
  set? : Option (Option SetQuery)
  extra : Dict String Json

/-- Reads one member of a query. -/
def step (s : Draft) (name : String) (d : Document) : Except Problem Draft :=
  match name with
  | "SET" => do
    return { s with set? := ← once name s.set? (Document.optional SetQuery.read) d }
  | _ => do return { s with extra := s.extra.insert name (← d.asJson) }

/-- Reads a query. -/
def read : Decoder Query := fun d => do
  let s ← d.foldMembers "struct Query" step ⟨none, .empty⟩
  return ⟨s.set?.getD none, s.extra⟩

end Query

end Picklist
