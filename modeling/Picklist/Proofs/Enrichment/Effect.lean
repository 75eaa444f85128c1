/-
# What enrichment changes

`WiredElement` and `WiredEntity` say what enrichment makes of a marked element and of an
eligible entity, member by member.

* `get?_annotated`, `mem_services` and `get?_enrich` : the definition of each name after each
  phase of a run;
* `exactEffect_run` : a run wires every eligible entity, defines the value-list entity and the
  missing projections, sets its metadata key, and changes nothing else.
-/
import Picklist.Proofs.Enrichment.Eligible
import Picklist.Proofs.QualifiedName

namespace Picklist

namespace Enrichment

/-! ## Elements -/

/-- What enrichment makes of a marked element: it sets two annotations, unless they count
as set, and nothing else. -/
structure WiredElement (list entity name : String) (e e' : Element) : Prop where
  key : e'.key = e.key
  type : e'.type? = e.type?
  enum : e'.enum? = e.enum?
  fixedValues : e'.annotations.get? .valueListWithFixedValues =
    if e.annotations.contains .enumValueHelpFixedValues = true ∧
        e.annotations.truthy .valueListWithFixedValues = false
    then some (.flag true) else e.annotations.get? .valueListWithFixedValues
  valueList : e'.annotations.get? .valueList =
    if e.annotations.truthy .valueList = false
    then some (.list (.forElement list entity name)) else e.annotations.get? .valueList
  others : ∀ k, k ≠ .valueListWithFixedValues → k ≠ .valueList →
    e'.annotations.get? k = e.annotations.get? k
  extra : e'.annotations.extra = e.annotations.extra

/-- The annotations of an element after its flag was set. -/
theorem get?_flagged (e : Element) (k : AnnotationKey) :
    (if needsFixedValues e then e.annotations.setFlag .valueListWithFixedValues true
      else e.annotations).get? k =
      if needsFixedValues e = true ∧ k = .valueListWithFixedValues then some (.flag true)
      else e.annotations.get? k := by
  cases needsFixedValues e with
  | false => simp
  | true => simp [Annotations.setFlag, Annotations.get?_insert]

/-- The annotations of a marked element after a run. -/
theorem get?_annotateElement (settings : Settings) (entity name : String) {e : Element}
    (h : e.isMarked = true) (k : AnnotationKey) :
    (annotateElement settings entity name e).annotations.get? k =
      if needsList e = true ∧ k = .valueList then
        some (.list (.forElement settings.entity entity name))
      else if needsFixedValues e = true ∧ k = .valueListWithFixedValues then some (.flag true)
      else e.annotations.get? k := by
  rw [annotateElement, if_pos h, ← get?_flagged e k]
  cases needsList e with
  | false => simp
  | true => simp [Annotations.get?_insert]

/-- An element that is not marked stays as it is. -/
theorem annotateElement_of_not_marked (settings : Settings) (entity name : String)
    {e : Element} (h : ¬Marked e) : annotateElement settings entity name e = e := by
  rw [annotateElement, if_neg ((isMarked_iff e).not.2 h)]

/-- A marked element is wired up. -/
theorem wiredElement_annotateElement (settings : Settings) (entity name : String)
    {e : Element} (h : Marked e) :
    WiredElement settings.entity entity name e (annotateElement settings entity name e) := by
  have hm : e.isMarked = true := (isMarked_iff e).2 h
  refine ⟨?_, ?_, ?_, ?_, ?_, ?_, ?_⟩
  · rw [annotateElement, if_pos hm]
  · rw [annotateElement, if_pos hm]
  · rw [annotateElement, if_pos hm]
  · rw [get?_annotateElement settings entity name hm]
    simp [needsFixedValues, Element.wantsFixedValues]
  · rw [get?_annotateElement settings entity name hm]
    simp [needsList]
  · intro k hfixed hlist
    rw [get?_annotateElement settings entity name hm]
    simp [hfixed, hlist]
  · rw [annotateElement, if_pos hm]
    cases needsList e <;> cases needsFixedValues e <;> rfl

/-! ## Entities -/

/-- What enrichment makes of an eligible entity: its marked elements are wired up, it is
marked as processed if the settings say so, and nothing else changes. -/
structure WiredEntity (settings : Settings) (name : String) (d d' : Definition) : Prop where
  kind : d'.kind = d.kind
  doc : d'.doc? = d.doc?
  type : d'.type? = d.type?
  enum : d'.enum? = d.enum?
  query : d'.query? = d.query?
  marked : ∀ element e, d.elements.get? element = some e → Marked e →
    ∃ e', d'.elements.get? element = some e' ∧
      WiredElement settings.entity name element e e'
  unmarked : ∀ element e, d.elements.get? element = some e → ¬Marked e →
    d'.elements.get? element = some e
  absent : ∀ element, d.elements.get? element = none → d'.elements.get? element = none
  processed : d'.annotations.get? .enumValueHelpProcessed =
    if settings.markProcessed = true then some (.flag true)
    else d.annotations.get? .enumValueHelpProcessed
  others : ∀ k, k ≠ .enumValueHelpProcessed →
    d'.annotations.get? k = d.annotations.get? k
  extra : d'.annotations.extra = d.annotations.extra

/-- The annotations of an entity after a run. -/
theorem get?_annotateEntity (settings : Settings) (name : String) (d : Definition)
    (k : AnnotationKey) :
    (annotateEntity settings name d).annotations.get? k =
      if settings.markProcessed = true ∧ k = .enumValueHelpProcessed then some (.flag true)
      else d.annotations.get? k := by
  unfold annotateEntity
  cases settings.markProcessed with
  | false => simp
  | true => simp [Annotations.setFlag, Annotations.get?_insert]

/-- The elements of an entity after a run. -/
theorem get?_elements_annotateEntity (settings : Settings) (name : String) (d : Definition)
    (element : String) :
    (annotateEntity settings name d).elements.get? element =
      (d.elements.get? element).map (annotateElement settings name element) :=
  Dict.get?_mapValues _ d.elements element

/-- An entity is wired up. -/
theorem wiredEntity_annotateEntity (settings : Settings) (name : String) (d : Definition) :
    WiredEntity settings name d (annotateEntity settings name d) := by
  refine ⟨rfl, rfl, rfl, rfl, rfl, ?_, ?_, ?_, ?_, ?_, ?_⟩
  · intro element e hget hmark
    refine ⟨annotateElement settings name element e, ?_,
      wiredElement_annotateElement settings name element hmark⟩
    rw [get?_elements_annotateEntity, hget, Option.map_some]
  · intro element e hget hmark
    rw [get?_elements_annotateEntity, hget, Option.map_some,
      annotateElement_of_not_marked settings name element hmark]
  · intro element hget
    rw [get?_elements_annotateEntity, hget, Option.map_none]
  · rw [get?_annotateEntity]
    simp
  · intro k hk
    rw [get?_annotateEntity]
    simp [hk]
  · unfold annotateEntity
    cases settings.markProcessed <;> rfl

/-! ## Definitions -/

/-- What a run makes of a definition that was there before. -/
def wired (settings : Settings) (name : String) (d : Definition) : Definition :=
  if isEligible d then annotateEntity settings name d else d

@[simp] theorem kind_wired (settings : Settings) (name : String) (d : Definition) :
    (wired settings name d).kind = d.kind := by
  unfold wired
  split <;> rfl

/-- Annotating all entities changes each definition in its place. -/
theorem get?_annotateAll (settings : Settings) (s : Schema) (n : String) :
    (annotateAll settings s).get? n = (s.get? n).map (wired settings n) :=
  Dict.get?_mapValues _ s.definitions n

/-- Projections are defined below the services, and nothing else changes. -/
theorem get?_project (settings : Settings) (services : List String) (s : Schema)
    (n : String) :
    (project settings services s).get? n =
      if n ∈ services.map (QualifiedName.join · settings.entity) then
        some (projection settings)
      else s.get? n := by
  unfold project
  induction services generalizing s with
  | nil => simp
  | cons service rest ih =>
      rw [List.foldl_cons, ih, Schema.get?_insert]
      by_cases hn : n = QualifiedName.join service settings.entity
      · simp [hn]
      · simp [hn]

/-! ## The services that get a projection -/

/-- A service that owns an eligible entity. -/
def Owns (s : Schema) (service : String) : Prop :=
  ∃ n d, s.get? n = some d ∧ Eligible d ∧ s.owningService? n = some service

/-- The schema with the value-list entity and all annotations, before projections. -/
def annotated (settings : Settings) (s : Schema) : Schema :=
  annotateAll settings (s.insertIfAbsent settings.entity (listEntity settings))

/-- The value-list entity is left as it was defined. -/
theorem wired_listEntity (settings : Settings) (name : String) :
    wired settings name (listEntity settings) = listEntity settings := by
  rw [wired, (isEligible_eq_false_iff _).2 (not_eligible_listEntity settings)]
  rfl

/-- The definitions before projections. -/
theorem get?_annotated (settings : Settings) (s : Schema) (n : String) :
    (annotated settings s).get? n =
      if n = settings.entity ∧ s.get? settings.entity = none then some (listEntity settings)
      else (s.get? n).map (wired settings n) := by
  rw [annotated, get?_annotateAll, Schema.get?_insertIfAbsent]
  split
  · rw [Option.map_some, wired_listEntity]
  · rfl

/-- Owners are the same before and after annotating. -/
theorem owningService?_annotated (settings : Settings) (s : Schema) (n : String) :
    (annotated settings s).owningService? n = s.owningService? n := by
  have h : ∀ owner, ((annotated settings s).get? owner).any Definition.isService =
      (s.get? owner).any Definition.isService := by
    intro owner
    rw [get?_annotated]
    split
    · rename_i hv
      rw [hv.1, hv.2]
      rfl
    · rw [Option.any_map]
      congr 1
      funext d
      simp [Definition.isService]
  unfold Schema.owningService?
  simp only [h]

/-- The entities that a run collects are the eligible definitions that were there before. -/
theorem mem_eligible {settings : Settings} {s : Schema} {n : String} {d : Definition} :
    (n, d) ∈ ((s.insertIfAbsent settings.entity (listEntity settings)).definitions.entries.filter
        fun e => isEligible e.2) ↔ s.get? n = some d ∧ Eligible d := by
  rw [List.mem_filter, ← Dict.get?_eq_some_iff, isEligible_iff]
  change (s.insertIfAbsent settings.entity (listEntity settings)).get? n = some d ∧ _ ↔ _
  rw [Schema.get?_insertIfAbsent]
  refine and_congr_left fun helig => ?_
  split
  · rename_i hv
    -- the new entity is not eligible, so an eligible definition is none that was added
    refine ⟨fun h => absurd helig ?_, fun h => by rw [hv.1, hv.2] at h; cases h⟩
    cases h
    exact not_eligible_listEntity settings
  · rfl

/-- A name is free before projections when it was free and is not that of the value list. -/
theorem get?_annotated_eq_none_iff {settings : Settings} {s : Schema} {n : String} :
    (annotated settings s).get? n = none ↔ s.get? n = none ∧ n ≠ settings.entity := by
  rw [get?_annotated]
  split
  · rename_i hv
    simp [hv.1]
  · rename_i hv
    rw [Option.map_eq_none_iff]
    exact ⟨fun h => ⟨h, fun hn => hv ⟨hn, hn ▸ h⟩⟩, And.left⟩

/-- The services in the report are those that own an eligible entity and have no definition
in the place of the projection. -/
theorem mem_services {settings : Settings} {s : Schema} {service : String} :
    service ∈ (enrich settings s).2.services ↔
      Owns s service ∧ s.get? (QualifiedName.join service settings.entity) = none := by
  change service ∈ ((Dict.setOf _).keys.filter fun service =>
    !(annotated settings s).contains (QualifiedName.join service settings.entity)) ↔ _
  rw [List.mem_filter, Dict.mem_keys_setOf, List.mem_filterMap, Bool.not_eq_true',
    Schema.contains_eq_false_iff, get?_annotated_eq_none_iff]
  -- no projection has the name of the value list, so that name is no exception
  refine and_congr ⟨?_, ?_⟩ (and_iff_left (QualifiedName.join_ne_right _ _))
  · rintro ⟨⟨n, d⟩, hmem, hown⟩
    obtain ⟨hget, helig⟩ := mem_eligible.1 hmem
    exact ⟨n, d, hget, helig, (owningService?_annotated settings s n).symm.trans hown⟩
  · rintro ⟨n, d, hget, helig, hown⟩
    exact ⟨(n, d), mem_eligible.2 ⟨hget, helig⟩,
      (owningService?_annotated settings s n).trans hown⟩

/-! ## A whole run -/

section Run

variable {settings : Settings} {s : Schema} {n : String}

/-- The definitions after a run. -/
theorem get?_enrich (settings : Settings) (s : Schema) (n : String) :
    (enrich settings s).1.get? n =
      if n ∈ (enrich settings s).2.services.map (QualifiedName.join · settings.entity) then
        some (projection settings)
      else (annotated settings s).get? n :=
  get?_project settings (enrich settings s).2.services (annotated settings s) n

/-- A run on a schema that is not marked enriches it. -/
theorem run_of_not_flag (h : s.flag settings.metaKey = false) :
    run settings s = enrich settings s := by
  rw [run, h]
  rfl

/-- A run on a schema that its metadata key marks is skipped. -/
theorem run_of_flag (h : s.flag settings.metaKey = true) :
    run settings s = (s, { skipped := true }) := by
  rw [run, if_pos h]

/-- A name that was defined keeps its definition, wired up if it was eligible. -/
theorem get?_enrich_of_some {d : Definition} (h : s.get? n = some d) :
    (enrich settings s).1.get? n = some (wired settings n d) := by
  -- a name that is defined is neither that of a projection nor that of the value list
  rw [get?_enrich, if_neg, get?_annotated, if_neg, h, Option.map_some]
  · rintro ⟨rfl, hnone⟩
    rw [hnone] at h
    cases h
  · intro hmem
    obtain ⟨service, hs, rfl⟩ := List.mem_map.1 hmem
    rw [(mem_services.1 hs).2] at h
    cases h

/-- The value-list entity is defined when its name was free. -/
theorem get?_enrich_entity (h : s.get? settings.entity = none) :
    (enrich settings s).1.get? settings.entity = some (listEntity settings) := by
  rw [get?_enrich, if_neg, get?_annotated, if_pos ⟨rfl, h⟩]
  intro hmem
  obtain ⟨service, -, hs⟩ := List.mem_map.1 hmem
  exact QualifiedName.join_ne_right service settings.entity hs

/-- A projection is defined in each service that owns an eligible entity, when its name was
free. -/
theorem get?_enrich_join {service : String} (hown : Owns s service)
    (h : s.get? (QualifiedName.join service settings.entity) = none) :
    (enrich settings s).1.get? (QualifiedName.join service settings.entity) =
      some (projection settings) := by
  rw [get?_enrich, if_pos]
  exact List.mem_map_of_mem (mem_services.2 ⟨hown, h⟩)

/-- No other name is defined. -/
theorem get?_enrich_eq_none (h : s.get? n = none) (hlist : n ≠ settings.entity)
    (hown : ∀ service, Owns s service → n ≠ QualifiedName.join service settings.entity) :
    (enrich settings s).1.get? n = none := by
  rw [get?_enrich, if_neg]
  · exact get?_annotated_eq_none_iff.2 ⟨h, hlist⟩
  · intro hmem
    obtain ⟨service, hs, rfl⟩ := List.mem_map.1 hmem
    exact hown service (mem_services.1 hs).1 rfl

/-- Defining projections changes only definitions. -/
theorem metadata_project (settings : Settings) (services : List String) (s : Schema) :
    (project settings services s).metadata = s.metadata ∧
      (project settings services s).extra = s.extra := by
  unfold project
  induction services generalizing s with
  | nil => exact ⟨rfl, rfl⟩
  | cons service rest ih => exact ih (s.insert _ _)

/-- A run sets its key in the metadata, and changes no other member of the schema besides
the definitions. -/
theorem metadata_enrich (settings : Settings) (s : Schema) :
    (enrich settings s).1.metadata = s.metadata.insert settings.metaKey (.bool true) ∧
      (enrich settings s).1.extra = s.extra := by
  have h := metadata_project settings (enrich settings s).2.services (annotated settings s)
  have hlisted : (annotated settings s).metadata = s.metadata ∧
      (annotated settings s).extra = s.extra := by
    unfold annotated annotateAll Schema.insertIfAbsent
    split <;> exact ⟨rfl, rfl⟩
  constructor
  · change Dict.insert (project settings (enrich settings s).2.services
      (annotated settings s)).metadata _ _ = _
    rw [h.1, hlisted.1]
  · exact h.2.trans hlisted.2

end Run

/-- What a run does to a schema that is not marked: eligible entities are wired up, the
value-list entity and the projections are defined where their names are free, the metadata
key is set, and nothing else changes. -/
structure ExactEffect (settings : Settings) (s s' : Schema) : Prop where
  eligible : ∀ n d, s.get? n = some d → Eligible d →
    ∃ d', s'.get? n = some d' ∧ WiredEntity settings n d d'
  ineligible : ∀ n d, s.get? n = some d → ¬Eligible d → s'.get? n = some d
  entity : s.get? settings.entity = none →
    ∃ d, s'.get? settings.entity = some d ∧ IsListEntity settings d
  projections : ∀ service, Owns s service →
    s.get? (QualifiedName.join service settings.entity) = none →
    ∃ d, s'.get? (QualifiedName.join service settings.entity) = some d ∧ IsProjection settings d
  undefined : ∀ n, s.get? n = none → n ≠ settings.entity →
    (∀ service, Owns s service → n ≠ QualifiedName.join service settings.entity) →
    s'.get? n = none
  flag : s'.metadata.get? settings.metaKey = some (.bool true)
  metadata : ∀ key, key ≠ settings.metaKey → s'.metadata.get? key = s.metadata.get? key
  extra : s'.extra = s.extra

/-- **Exact effect of a run.**  A run on a schema that is not marked does what
`ExactEffect` says, and so nothing else. -/
theorem exactEffect_run (settings : Settings) (s : Schema)
    (h : s.flag settings.metaKey = false) :
    ExactEffect settings s (run settings s).1 := by
  rw [run_of_not_flag h]
  refine ⟨?_, ?_, ?_, ?_, ?_, ?_, ?_, ?_⟩
  · intro n d hget helig
    refine ⟨annotateEntity settings n d, ?_, wiredEntity_annotateEntity settings n d⟩
    rw [get?_enrich_of_some hget, wired, (isEligible_iff d).2 helig, if_pos rfl]
  · intro n d hget helig
    rw [get?_enrich_of_some hget, wired, if_neg ((isEligible_iff d).not.2 helig)]
  · intro hnone
    exact ⟨_, get?_enrich_entity hnone, isListEntity_iff.2 rfl⟩
  · intro service hown hnone
    exact ⟨_, get?_enrich_join hown hnone, isProjection_iff.2 rfl⟩
  · intro n hnone hlist hown
    exact get?_enrich_eq_none hnone hlist hown
  · rw [(metadata_enrich settings s).1, Dict.get?_insert_self]
  · intro key hkey
    rw [(metadata_enrich settings s).1, Dict.get?_insert_of_ne _ _ hkey]
  · exact (metadata_enrich settings s).2

/-! ## An enriched shop -/

/-- An element with an enumeration that asks for a value list with fixed values. -/
def status : Element :=
  { Element.ofType .text with
    enum? := some ((Enumeration.empty.insert "OPEN" (.ofValue (.text "O"))).insert "CLOSED"
      .plain)
    annotations := Annotations.empty.insert .enumValueHelpFixedValues (.flag false) }

/-- An entity with one marked element. -/
def orders : Definition := Definition.entity (Dict.empty.insert "status" status)

/-- A schema with a service that owns the entity. -/
def shop : Schema :=
  (Schema.empty.insert "Sales" Definition.service).insert "Sales.Orders" orders

theorem get?_shop_orders : shop.get? "Sales.Orders" = some orders := by
  rw [shop, Schema.get?_insert, if_pos rfl]

theorem eligible_orders : Eligible orders :=
  (isEligible_iff orders).1 (by decide)

theorem owns_sales : Owns shop "Sales" :=
  ⟨"Sales.Orders", orders, get?_shop_orders, eligible_orders, by decide⟩

/-- A run on the shop wires its entity up, so that the marked element points at the value list,
and defines the value list and a projection of it. -/
theorem exactEffect_run_shop :
    shop.flag ({} : Settings).metaKey = false ∧
      (∃ d' e' l, (run {} shop).1.get? "Sales.Orders" = some d' ∧
        WiredEntity {} "Sales.Orders" orders d' ∧
        d'.elements.get? "status" = some e' ∧ e'.annotations.get? .valueList = some (.list l) ∧
        l.path = "EnumValueHelpView" ∧
        l.parameters = [.inOut "status" "value", .constant "entityName" "Sales.Orders",
          .constant "fieldName" "status"] ∧ l.extra = .empty) ∧
      (∃ d, (run {} shop).1.get? "EnumValueHelpView" = some d ∧ IsListEntity {} d) ∧
      ∃ d, (run {} shop).1.get? "Sales.EnumValueHelpView" = some d ∧ IsProjection {} d := by
  have hnew : shop.flag ({} : Settings).metaKey = false := by decide
  have effect := exactEffect_run {} shop hnew
  refine ⟨hnew, ?_, effect.entity (by rfl), effect.projections "Sales" owns_sales (by rfl)⟩
  obtain ⟨d', hget, hwired⟩ := effect.eligible _ _ get?_shop_orders eligible_orders
  obtain ⟨e', helement, hstatus⟩ := hwired.marked "status" status (by rfl) (.inr (by decide))
  refine ⟨d', e', _, hget, hwired, helement, ?_, ValueList.path_forElement _ _ _,
    ValueList.parameters_forElement _ _ _, ValueList.extra_forElement _ _ _⟩
  rw [hstatus.valueList, if_pos (by decide)]

end Enrichment

end Picklist
