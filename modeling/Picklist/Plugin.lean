/-
# The plugin

The plugin ties the parts together for a host that loads a schema and then serves it:
each loaded schema is enriched, and when the services are up, those that expose the value
list get its handler, once.
-/
import Picklist.Enrichment
import Picklist.Fault
import Picklist.Json.Reader
import Picklist.Service

namespace Picklist

/-- The version of the plugin. -/
def version : String := "0.4.2"

/-- The plugin: its settings, and whether services have been served. -/
structure Plugin where
  settings : Settings
  served : Bool

namespace Plugin

/-- A plugin that has not served yet. -/
def ofSettings (settings : Settings) : Plugin := ⟨settings, false⟩

/-- A plugin with the settings in a text. -/
def read (text : String) : Except Fault Plugin :=
  match Settings.read text with
  | .ok settings => .ok (.ofSettings settings)
  | .error e => .error (.ofSettings e)

/-- The name of the value list inside each service. -/
def valueList (p : Plugin) : String := p.settings.entity

/-- What happens once a schema is loaded: it is enriched. -/
def onLoaded (p : Plugin) (s : Schema) : Schema × Enrichment.Report :=
  Enrichment.run p.settings s

/-- Reads and enriches a schema. -/
def load (p : Plugin) (r : Reading) : Except SchemaError Schema :=
  match r.decode Schema.read with
  | .ok s => .ok (p.onLoaded s).1
  | .error problem => .error (.decode problem)

/-- Reads and enriches the schema in a text. -/
def loadText (p : Plugin) (text : String) : Except SchemaError Schema := p.load (Json.read text)

/-- Reads and enriches the schema that a value is. -/
def loadValue (p : Plugin) (j : Json) : Except SchemaError Schema := p.load (.ofJson j)

/-- What happens once the services are up: those that want the value-list handler get it,
the first time only.  Also gives their names. -/
def onServed (p : Plugin) (s : Schema) (services : List Service) :
    Plugin × List Service × List String :=
  if p.served then (p, services, [])
  else
    let (services, names) := Service.register s p.valueList services
    ({ p with served := true }, services, names)

end Plugin

end Picklist
