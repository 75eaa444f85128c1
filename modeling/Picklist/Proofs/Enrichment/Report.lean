/-
# What a run reports

A run puts its report together while it changes the schema.  `Accounts` compares the schema before
the run with the one after it, and says what each part of the report tells of the two.

* `ascending_elements` and `mem_elements_iff` : the reported elements are in order, and they are
  the marked elements of the eligible entities;
* `needsFixedValues_iff` and `needsList_iff` : a marked element needs an annotation when
  annotating changes it;
* `defined_iff` : which names a run defines;
* `accounts_run` : the report of a run accounts for every change, and that of a skipped one is
  empty.
-/
import Picklist.Proofs.Enrichment.Runs

namespace Picklist

/-! ## Order -/

theorem Dict.pairwise_keys {α : Type} (d : Dict String α) : d.keys.Pairwise (· < ·) :=
  List.pairwise_map.2 (d.ascending.imp compareOfLessAndEq_eq_lt.1)

namespace Enrichment

/-- Two reported elements are in order: by their entities, and those of one entity by their
names. -/
def AnnotatedElement.Before (a b : AnnotatedElement) : Prop :=
  a.entity < b.entity ∨ (a.entity = b.entity ∧ a.element < b.element)

theorem ascending_entities (settings : Settings) (s : Schema) :
    (enrich settings s).2.entities.Pairwise (· < ·) :=
  List.pairwise_map.2 ((ascending_collected settings s).imp compareOfLessAndEq_eq_lt.1)

/-- The reported elements of one entity are in order. -/
theorem ascending_reportElements (name : String) (d : Definition) :
    (reportElements name d).Pairwise AnnotatedElement.Before := by
  rw [reportElements, List.pairwise_map]
  refine (d.elements.ascending.filter _).imp fun h => ?_
  exact .inr ⟨rfl, compareOfLessAndEq_eq_lt.1 h⟩

theorem entity_of_mem_reportElements {name : String} {d : Definition} {a : AnnotatedElement}
    (h : a ∈ reportElements name d) : a.entity = name := by
  obtain ⟨e, -, rfl⟩ := List.mem_map.1 h
  rfl

/-- The elements of a report are in order. -/
theorem ascending_elements (settings : Settings) (s : Schema) :
    (enrich settings s).2.elements.Pairwise AnnotatedElement.Before := by
  rw [elements_enrich, List.pairwise_flatMap]
  refine ⟨fun e _ => ascending_reportElements e.1 e.2, ?_⟩
  refine (ascending_collected settings s).imp fun {e f} h a ha b hb => .inl ?_
  rw [entity_of_mem_reportElements ha, entity_of_mem_reportElements hb]
  exact compareOfLessAndEq_eq_lt.1 h

theorem ascending_services (settings : Settings) (s : Schema) :
    (enrich settings s).2.services.Pairwise (· < ·) :=
  (Dict.pairwise_keys _).filter _

/-! ## Reported elements -/

section Elements

variable {settings : Settings} {s : Schema} {n element : String} {d : Definition} {e : Element}

/-- An element is a marked one of an eligible entity. -/
def MarkedIn (s : Schema) (n element : String) : Prop :=
  ∃ d e, s.get? n = some d ∧ Eligible d ∧ d.elements.get? element = some e ∧ Marked e

/-- The reported elements are the marked ones of the eligible entities, each with what it
needs. -/
theorem mem_elements_iff {a : AnnotatedElement} :
    a ∈ (enrich settings s).2.elements ↔
      ∃ d e, s.get? a.entity = some d ∧ Eligible d ∧ d.elements.get? a.element = some e ∧
        Marked e ∧ a.fixedValues = needsFixedValues e ∧ a.listAdded = needsList e := by
  rw [elements_enrich, List.mem_flatMap]
  constructor
  · rintro ⟨⟨n, d⟩, hmem, ha⟩
    obtain ⟨hget, helig⟩ := mem_eligible.1 hmem
    obtain ⟨⟨element, e⟩, he, rfl⟩ := List.mem_map.1 ha
    obtain ⟨hentry, hmark⟩ := List.mem_filter.1 he
    exact ⟨d, e, hget, helig, Dict.get?_eq_some_iff.2 hentry, (isMarked_iff e).1 hmark, rfl, rfl⟩
  · obtain ⟨n, element, fixedValues, listAdded⟩ := a
    rintro ⟨d, e, hget, helig, he, hmark, rfl, rfl⟩
    refine ⟨(n, d), mem_eligible.2 ⟨hget, helig⟩, ?_⟩
    refine List.mem_map.2 ⟨(element, e), List.mem_filter.2 ⟨?_, (isMarked_iff e).2 hmark⟩, rfl⟩
    exact Dict.get?_eq_some_iff.1 he

/-- Setting an annotation when needed changes it when needed: an annotation that does not count as
set differs from a value that does. -/
theorem needs_iff_ne {a : Annotations} {key : AnnotationKey} {v : Annotation} {needs : Bool}
    (hv : v.truthy = true) (hneeds : needs = true → a.truthy key = false) :
    needs = true ↔ (if needs = true then some v else a.get? key) ≠ a.get? key := by
  cases needs with
  | false => simp
  | true =>
      refine iff_of_true rfl fun hsame => ?_
      have hunset := hneeds rfl
      rw [Annotations.truthy, ← hsame, if_pos rfl, Option.any_some, hv] at hunset
      cases hunset

/-- A marked element needs the flag for fixed values when annotating changes the flag. -/
theorem needsFixedValues_iff (settings : Settings) (n element : String) (hmark : Marked e) :
    needsFixedValues e = true ↔
      (annotateElement settings n element e).annotations.get? .valueListWithFixedValues ≠
        e.annotations.get? .valueListWithFixedValues := by
  rw [get?_annotateElement settings n element ((isMarked_iff e).2 hmark)]
  simp only [reduceCtorEq, and_false, and_true, if_false]
  refine needs_iff_ne rfl fun hneeds => ?_
  rw [needsFixedValues, Bool.and_eq_true, Bool.not_eq_true'] at hneeds
  exact hneeds.2

/-- A marked element needs a descriptor when annotating changes its descriptor. -/
theorem needsList_iff (settings : Settings) (n element : String) (hmark : Marked e) :
    needsList e = true ↔
      (annotateElement settings n element e).annotations.get? .valueList ≠
        e.annotations.get? .valueList := by
  rw [get?_annotateElement settings n element ((isMarked_iff e).2 hmark)]
  simp only [reduceCtorEq, and_false, and_true, if_false]
  refine needs_iff_ne rfl fun hneeds => ?_
  rwa [needsList, Bool.not_eq_true'] at hneeds

/-- The value of an annotation of an element of a schema, if all three are there. -/
def annotation? (s : Schema) (n element : String) (key : AnnotationKey) : Option Annotation :=
  (s.element? n element).bind fun e => e.annotations.get? key

/-- The annotations of an element before a run. -/
theorem annotation?_of_get? (hget : s.get? n = some d) (he : d.elements.get? element = some e)
    (key : AnnotationKey) : annotation? s n element key = e.annotations.get? key := by
  rw [annotation?, Schema.element?, hget]
  change (d.elements.get? element).bind _ = _
  rw [he, Option.bind_some]

/-- The annotations of an element of an eligible entity after a run. -/
theorem annotation?_enrich (hget : s.get? n = some d) (helig : Eligible d)
    (he : d.elements.get? element = some e) (key : AnnotationKey) :
    annotation? (enrich settings s).1 n element key =
      (annotateElement settings n element e).annotations.get? key := by
  have hnow : (enrich settings s).1.get? n = some (annotateEntity settings n d) ∧ Eligible _ :=
    eligible_enrich_iff.2 ⟨d, hget, helig, rfl⟩
  refine annotation?_of_get? hnow.1 ?_ key
  rw [get?_elements_annotateEntity, he, Option.map_some]

end Elements

/-! ## Defined names -/

/-- The names that a run defines are that of the value list, if it is free, and those of the
projections in the reported services. -/
theorem defined_iff {settings : Settings} {s : Schema} {n : String} :
    (s.get? n = none ∧ (enrich settings s).1.get? n ≠ none) ↔
      (n = settings.entity ∧ s.get? settings.entity = none) ∨
        ∃ service ∈ (enrich settings s).2.services,
          n = QualifiedName.join service settings.entity := by
  constructor
  · rintro ⟨hnone, hdefined⟩
    by_contra hno
    rw [not_or, not_exists] at hno
    refine hdefined (get?_enrich_eq_none hnone (fun hn => hno.1 ⟨hn, hn ▸ hnone⟩) ?_)
    rintro service hown rfl
    exact hno.2 service ⟨mem_services.2 ⟨hown, hnone⟩, rfl⟩
  · rintro (⟨rfl, hnone⟩ | ⟨service, hservice, rfl⟩)
    · exact ⟨hnone, get?_enrich_ne_none (.inl rfl)⟩
    · obtain ⟨hown, hnone⟩ := mem_services.1 hservice
      exact ⟨hnone, get?_enrich_ne_none (.inr ⟨service, hown, rfl⟩)⟩

/-! ## The whole report -/

/-- A report accounts for all that differs between two schemas.  It lists the eligible entities,
and their marked elements, in strict order, so none of them twice; it says of each element which
of its two annotations changed; it tells which names were defined; and every definition that
changed is that of a listed entity. -/
structure Accounts (settings : Settings) (s s' : Schema) (report : Report) : Prop where
  skipped : report.skipped = false
  createdList : report.createdList = true ↔ s.get? settings.entity = none
  entities : ∀ n, n ∈ report.entities ↔ EligibleName s n
  entities_ascending : report.entities.Pairwise (· < ·)
  elements : ∀ n element,
    (∃ a ∈ report.elements, a.entity = n ∧ a.element = element) ↔ MarkedIn s n element
  elements_ascending : report.elements.Pairwise AnnotatedElement.Before
  fixedValues : ∀ a ∈ report.elements, a.fixedValues = true ↔
    annotation? s' a.entity a.element .valueListWithFixedValues ≠
      annotation? s a.entity a.element .valueListWithFixedValues
  listAdded : ∀ a ∈ report.elements, a.listAdded = true ↔
    annotation? s' a.entity a.element .valueList ≠ annotation? s a.entity a.element .valueList
  services_ascending : report.services.Pairwise (· < ·)
  defined : ∀ n, (s.get? n = none ∧ s'.get? n ≠ none) ↔
    (n = settings.entity ∧ report.createdList = true) ∨
      ∃ service ∈ report.services, n = QualifiedName.join service settings.entity
  changed : ∀ n d, s.get? n = some d → s'.get? n ≠ some d → n ∈ report.entities

/-- The report of an enrichment accounts for all that it changed. -/
theorem accounts_enrich (settings : Settings) (s : Schema) :
    Accounts settings s (enrich settings s).1 (enrich settings s).2 := by
  have hcreated : (enrich settings s).2.createdList = true ↔ s.get? settings.entity = none := by
    rw [createdList_enrich, Bool.not_eq_true', Schema.contains_eq_false_iff]
  have hentities : ∀ n, n ∈ (enrich settings s).2.entities ↔ EligibleName s n := by
    intro n
    rw [entities_enrich, List.mem_map]
    constructor
    · rintro ⟨⟨n, d⟩, hmem, rfl⟩
      exact ⟨d, mem_eligible.1 hmem⟩
    · rintro ⟨d, hd⟩
      exact ⟨(n, d), mem_eligible.2 hd, rfl⟩
  refine ⟨rfl, hcreated, hentities, ascending_entities settings s, ?_,
    ascending_elements settings s, ?_, ?_, ascending_services settings s, fun n => ?_, ?_⟩
  · intro n element
    constructor
    · rintro ⟨a, ha, rfl, rfl⟩
      obtain ⟨d, e, hget, helig, he, hmark, -, -⟩ := mem_elements_iff.1 ha
      exact ⟨d, e, hget, helig, he, hmark⟩
    · rintro ⟨d, e, hget, helig, he, hmark⟩
      exact ⟨⟨n, element, needsFixedValues e, needsList e⟩,
        mem_elements_iff.2 ⟨d, e, hget, helig, he, hmark, rfl, rfl⟩, rfl, rfl⟩
  · intro a ha
    obtain ⟨d, e, hget, helig, he, hmark, hfixed, -⟩ := mem_elements_iff.1 ha
    rw [hfixed, annotation?_enrich hget helig he, annotation?_of_get? hget he]
    exact needsFixedValues_iff settings a.entity a.element hmark
  · intro a ha
    obtain ⟨d, e, hget, helig, he, hmark, -, hlist⟩ := mem_elements_iff.1 ha
    rw [hlist, annotation?_enrich hget helig he, annotation?_of_get? hget he]
    exact needsList_iff settings a.entity a.element hmark
  · rw [hcreated]
    exact defined_iff
  · intro n d hget hchanged
    rw [get?_enrich_of_some hget] at hchanged
    by_cases helig : Eligible d
    · exact (hentities n).2 ⟨d, hget, helig⟩
    · rw [wired, if_neg ((isEligible_iff d).not.2 helig)] at hchanged
      exact absurd rfl hchanged

/-- **A run accounts for every change.**  The report of a run on a schema that is not marked
accounts for all that differs between that schema and the one after the run.  A schema that is
marked stays as it is, and nothing is reported of it but that. -/
theorem accounts_run (settings : Settings) (s : Schema) :
    (s.flag settings.metaKey = false →
      Accounts settings s (run settings s).1 (run settings s).2) ∧
      (s.flag settings.metaKey = true →
        run settings s =
          (s, { skipped := true
                createdList := false
                entities := []
                elements := []
                services := [] })) := by
  refine ⟨fun h => ?_, run_of_flag⟩
  rw [run_of_not_flag h]
  exact accounts_enrich settings s

/-- In the shop the report tells that the marked element got a descriptor, and that the value list
and one projection were defined; once the shop is marked it tells nothing. -/
theorem accounts_run_shop :
    shop.flag ({} : Settings).metaKey = false ∧
      annotation? (run {} shop).1 "Sales.Orders" "status" .valueList ≠
        annotation? shop "Sales.Orders" "status" .valueList ∧
      (run {} shop).1.get? "EnumValueHelpView" ≠ none ∧
      (run {} shop).1.get? "Sales.EnumValueHelpView" ≠ none ∧
      (shop.setFlag ({} : Settings).metaKey).flag ({} : Settings).metaKey = true ∧
      (run {} (shop.setFlag ({} : Settings).metaKey)).2.elements = [] := by
  have hnew : shop.flag ({} : Settings).metaKey = false := by decide
  have hmarked : (shop.setFlag ({} : Settings).metaKey).flag ({} : Settings).metaKey = true := by
    decide
  have h := (accounts_run {} shop).1 hnew
  have hmem : ⟨"Sales.Orders", "status", true, true⟩ ∈ (run {} shop).2.elements := by decide
  refine ⟨hnew, (h.listAdded _ hmem).1 rfl, ?_, ?_, hmarked, ?_⟩
  · exact ((h.defined _).2 (.inl ⟨rfl, by decide⟩)).2
  · exact ((h.defined _).2 (.inr ⟨"Sales", by decide, rfl⟩)).2
  · rw [(accounts_run {} _).2 hmarked]

end Enrichment

end Picklist
