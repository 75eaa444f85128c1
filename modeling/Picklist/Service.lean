/-
# Services

A service exposes entities and keeps, for each entity name, the handlers that run after a
read, in the order in which they were added.

* `Service.ofSchema` exposes the entities right below the service's name.
* `Service.dispatch` runs the handlers of an entity over the rows of a read.
* `Service.register` adds the value-list handler to each service that wants it.
-/
import Picklist.Resolution

namespace Picklist

/-- What runs after a read: it gets the rows so far and gives the rows to go on with. -/
abbrev ReadHandler := List Row → Request → List Row

/-- Services that run application code, and all others. -/
inductive ServiceKind where
  | application
  | other
  deriving DecidableEq, Repr

namespace ServiceKind

/-- The name of a kind. -/
def text : ServiceKind → String
  | .application => "Application"
  | .other => "Other"

end ServiceKind

/-- A running service. -/
structure Service where
  name : String
  kind : ServiceKind
  entities : Dict String Unit
  handlers : Dict String (List ReadHandler)

namespace Service

/-! ## Making services -/

/-- The service that exposes the given entities. -/
def ofEntities (name : String) (kind : ServiceKind) (entities : List String) : Service :=
  ⟨name, kind, .setOf entities, .empty⟩

/-- The service that exposes every entity right below its name. -/
def ofSchema (s : Schema) (name : String) (kind : ServiceKind) : Service :=
  ofEntities name kind (s.entities.filterMap fun (n, _) => QualifiedName.below? name n)

/-! ## Questions -/

/-- Whether an entity is exposed. -/
def exposes (s : Service) (entity : String) : Bool := s.entities.contains entity

/-- The full name of an entity. -/
def qualified (s : Service) (entity : String) : String := QualifiedName.join s.name entity

/-- The handlers of an entity in order. -/
def handlersOf (s : Service) (entity : String) : List ReadHandler :=
  (s.handlers.get? entity).getD []

/-! ## Handlers -/

/-- Adds a handler after those of an entity. -/
def afterRead (s : Service) (entity : String) (handler : ReadHandler) : Service :=
  { s with handlers := s.handlers.insert entity (s.handlersOf entity ++ [handler]) }

/-- Runs the handlers of an entity in order. -/
def dispatch (s : Service) (entity : String) (rows : List Row) (r : Request) : List Row :=
  (s.handlersOf entity).foldl (fun rows handler => handler rows r) rows

/-- The handler that answers from the enumerations of a schema. -/
def valueListHandler (schema : Schema) : ReadHandler :=
  fun rows r => (Resolution.apply schema rows r).2

/-- Whether a service serves the value list of a name to applications. -/
def wantsHandler (list : String) (s : Service) : Bool :=
  s.kind = .application && s.exposes list

/-- Adds the value-list handler to each service that wants it; also gives their names. -/
def register (schema : Schema) (list : String) (services : List Service) :
    List Service × List String :=
  (services.map fun s =>
      if s.wantsHandler list then s.afterRead list (valueListHandler schema) else s,
    (services.filter fun s => s.wantsHandler list).map name)

/-! ## Listing -/

/-- Parts in braces with commas between them. -/
def braced (parts : List String) : String := "\x7b" ++ ", ".intercalate parts ++ "\x7d"

/-- The service on one line: name, kind, entities, and the number of handlers of each
entity. -/
def describe (s : Service) : String :=
  let entities := s.entities.keys.map quoted
  let handlers := s.handlers.entries.map fun (entity, list) =>
    quoted entity ++ ": " ++ toString list.length
  "Service \x7b name: " ++ quoted s.name ++ ", kind: " ++ s.kind.text ++ ", entities: "
    ++ braced entities ++ ", handlers: " ++ braced handlers ++ " \x7d"

end Service

end Picklist
