/-
# Enrichment

Enrichment wires one shared value list into a schema.  It defines the value-list entity,
points every marked element of every eligible entity at it, and defines a projection of
it in every service that owns an eligible entity.  What was authored under one of these
names stays.  A metadata key records that it ran; while that key counts as set, nothing
happens.

* `Enrichment.run` gives the enriched schema and a report of what was done.
-/
import Picklist.Schema
import Picklist.Settings.Basic

namespace Picklist

namespace Enrichment

/-! ## Reports -/

/-- What was done to one marked element. -/
structure AnnotatedElement where
  entity : String
  element : String
  fixedValues : Bool
  listAdded : Bool
  deriving DecidableEq, Repr

/-- What one run did. -/
structure Report where
  /-- The schema had been enriched before, so nothing was done. -/
  skipped : Bool := false
  /-- The value-list entity was defined. -/
  createdList : Bool := false
  /-- The eligible entities. -/
  entities : List String := []
  /-- Their marked elements. -/
  elements : List AnnotatedElement := []
  /-- The services that got a projection. -/
  services : List String := []
  deriving DecidableEq, Repr

/-! ## What is defined -/

/-- A text column of the value list; the shared entity marks it as not computed. -/
def column (shared : Bool) (annotations : Annotations) : Element :=
  { Element.ofType .text with
    annotations := if shared then annotations.setFlag .coreComputed false else annotations }

/-- The columns of the value list: the value, which is the key, and the names of the
entity and the element whose value it is. -/
def columns (settings : Settings) (shared : Bool) : Dict String Element :=
  let value := column shared (Annotations.empty.setText .title settings.title)
  Dict.ofList [
    ("value", { value with key := true }),
    ("entityName", column shared .empty),
    ("fieldName", column shared .empty)]

/-- The shared value-list entity. -/
def listEntity (settings : Settings) : Definition :=
  { Definition.entity (columns settings true) with
    doc? := some settings.doc
    annotations := (Annotations.empty.setFlag .readonly true).setFlag .persistenceSkip true }

/-- The projection of the value list in a service. -/
def projection (settings : Settings) : Definition :=
  { Definition.entity (columns settings false) with
    annotations := (Annotations.empty.setFlag .autoexpose true).setFlag .readonly true }

/-! ## What is annotated -/

/-- Whether the elements of a definition are annotated: it is an authored entity that
wants value lists. -/
def isEligible (d : Definition) : Bool :=
  d.isEntity && !d.isAutoexposed && d.wantsValueLists

/-- Whether an element gets the flag for fixed values. -/
def needsFixedValues (e : Element) : Bool :=
  e.wantsFixedValues && !e.annotations.truthy .valueListWithFixedValues

/-- Whether an element gets a descriptor. -/
def needsList (e : Element) : Bool := !e.annotations.truthy .valueList

/-- Points a marked element of an entity at the value list. -/
def annotateElement (settings : Settings) (entity name : String) (e : Element) : Element :=
  if e.isMarked then
    let flagged :=
      if needsFixedValues e then e.annotations.setFlag .valueListWithFixedValues true
      else e.annotations
    let annotations :=
      if needsList e then
        flagged.insert .valueList (.list (.forElement settings.entity entity name))
      else flagged
    { e with annotations := annotations }
  else e

/-- Annotates an entity and its marked elements. -/
def annotateEntity (settings : Settings) (name : String) (d : Definition) : Definition :=
  { d with
    elements := d.elements.mapValues (annotateElement settings name)
    annotations :=
      if settings.markProcessed then d.annotations.setFlag .enumValueHelpProcessed true
      else d.annotations }

/-- Annotates all eligible entities. -/
def annotateAll (settings : Settings) (s : Schema) : Schema :=
  { s with
    definitions := s.definitions.mapValues fun name d =>
      if isEligible d then annotateEntity settings name d else d }

/-- What is reported of the marked elements of an entity. -/
def reportElements (name : String) (d : Definition) : List AnnotatedElement :=
  (d.elements.entries.filter fun (_, e) => e.isMarked).map fun (element, e) =>
    ⟨name, element, needsFixedValues e, needsList e⟩

/-! ## A run -/

/-- Defines a projection below each of the services. -/
def project (settings : Settings) (services : List String) (s : Schema) : Schema :=
  services.foldl
    (fun s service => s.insert (QualifiedName.join service settings.entity)
      (projection settings)) s

/-- Enriches a schema that has not been enriched before. -/
def enrich (settings : Settings) (s : Schema) : Schema × Report :=
  let listed := s.insertIfAbsent settings.entity (listEntity settings)
  let eligible := listed.definitions.entries.filter fun (_, d) => isEligible d
  let annotated := annotateAll settings listed
  let owners := Dict.setOf (eligible.filterMap fun (name, _) => annotated.owningService? name)
  let services := owners.keys.filter fun service =>
    !annotated.contains (QualifiedName.join service settings.entity)
  let projected := project settings services annotated
  (projected.setFlag settings.metaKey,
    { createdList := !s.contains settings.entity
      entities := eligible.map Prod.fst
      elements := eligible.flatMap fun (name, d) => reportElements name d
      services := services })

/-- Enriches a schema, unless its metadata say that this was done before. -/
def run (settings : Settings) (s : Schema) : Schema × Report :=
  if s.flag settings.metaKey then (s, { skipped := true }) else enrich settings s

end Enrichment

end Picklist
