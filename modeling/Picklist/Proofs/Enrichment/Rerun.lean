/-
# A second run

Every write of a run makes the condition for writing it false: a flag that was set counts as
set, so does a descriptor, and what was defined is no longer absent.  So a second run changes
nothing, even when nothing in the metadata tells that there was a first one.

* `annotateElement_annotateElement` and `wired_wired` : annotating twice is annotating once;
* `isEligible_wired` and `owns_enrich_iff` : a run leaves what is eligible and who owns it;
* `run_unmarked_run` : a second run only sets its metadata key, and reports that there was
  nothing to do.
-/
import Picklist.Proofs.Enrichment.Effect

namespace Picklist

attribute [ext] Schema Enrichment.Report

/-! ## Writing the same again -/

namespace Annotations

/-- Whether a key counts as set depends on its value alone. -/
theorem truthy_congr {a b : Annotations} {key : AnnotationKey} (h : a.get? key = b.get? key) :
    a.truthy key = b.truthy key :=
  congrArg (Option.any Annotation.truthy) h

theorem setFlag_setFlag (a : Annotations) (key : AnnotationKey) (flag : Bool) :
    (a.setFlag key flag).setFlag key flag = a.setFlag key flag := by
  simp only [setFlag, insert, Dict.insert_insert]

end Annotations

namespace Enrichment

/-! ## Elements -/

/-- Annotating an element neither marks it nor unmarks it. -/
@[simp] theorem isMarked_annotateElement (settings : Settings) (entity name : String)
    (e : Element) : (annotateElement settings entity name e).isMarked = e.isMarked := by
  cases hm : e.isMarked with
  | false => rw [annotateElement, hm, if_neg Bool.false_ne_true, hm]
  | true =>
      have h : ∀ k, k ≠ .valueListWithFixedValues → k ≠ .valueList →
          (annotateElement settings entity name e).annotations.contains k =
            e.annotations.contains k := by
        intro k hfixed hlist
        apply Annotations.contains_congr
        rw [get?_annotateElement settings entity name hm]
        simp [hfixed, hlist]
      rw [Element.isMarked, h _ (by decide) (by decide), h _ (by decide) (by decide)]
      exact hm

/-- An annotated element has a descriptor. -/
theorem needsList_annotateElement (settings : Settings) (entity name : String) {e : Element}
    (h : e.isMarked = true) : needsList (annotateElement settings entity name e) = false := by
  unfold needsList
  rw [Bool.not_eq_false', Annotations.truthy, get?_annotateElement settings entity name h]
  cases hlist : needsList e with
  | true => rfl
  | false => simpa [needsList, Annotations.truthy] using hlist

/-- An annotated element has the flag for fixed values, if it wants them. -/
theorem needsFixedValues_annotateElement (settings : Settings) (entity name : String)
    {e : Element} (h : e.isMarked = true) :
    needsFixedValues (annotateElement settings entity name e) = false := by
  have hwants : (annotateElement settings entity name e).wantsFixedValues =
      e.wantsFixedValues := by
    apply Annotations.contains_congr
    rw [get?_annotateElement settings entity name h]
    simp
  have hget : (annotateElement settings entity name e).annotations.get?
      .valueListWithFixedValues = if needsFixedValues e = true then some (.flag true)
        else e.annotations.get? .valueListWithFixedValues := by
    rw [get?_annotateElement settings entity name h]
    simp
  rw [needsFixedValues, hwants, Annotations.truthy, hget]
  cases hfixed : needsFixedValues e with
  | true => exact Bool.and_false _
  | false => simpa [needsFixedValues, Annotations.truthy] using hfixed

/-- An element that needs nothing stays as it is. -/
theorem annotateElement_eq_self (settings : Settings) (entity name : String) {e : Element}
    (hlist : needsList e = false) (hfixed : needsFixedValues e = false) :
    annotateElement settings entity name e = e := by
  simp [annotateElement, hlist, hfixed]

/-- What was annotated is not annotated again, whatever the settings. -/
theorem annotateElement_annotateElement (settings settings' : Settings)
    (entity name : String) (e : Element) :
    annotateElement settings' entity name (annotateElement settings entity name e) =
      annotateElement settings entity name e := by
  cases hm : e.isMarked with
  | false => simp [annotateElement, hm]
  | true =>
      exact annotateElement_eq_self settings' entity name
        (needsList_annotateElement settings entity name hm)
        (needsFixedValues_annotateElement settings entity name hm)

/-! ## Definitions -/

/-- Annotating an entity leaves whether it is eligible. -/
theorem isEligible_annotateEntity (settings : Settings) (name : String) (d : Definition) :
    isEligible (annotateEntity settings name d) = isEligible d := by
  have htruthy : ∀ k, k ≠ .enumValueHelpProcessed →
      (annotateEntity settings name d).annotations.truthy k = d.annotations.truthy k := by
    intro k hk
    apply Annotations.truthy_congr
    rw [get?_annotateEntity]
    simp [hk]
  have hmarked : (annotateEntity settings name d).elements.values.any Element.isMarked =
      d.elements.values.any Element.isMarked := by
    simp [annotateEntity, Dict.values, Dict.mapValues, Function.comp_def]
  rw [isEligible, Definition.isAutoexposed, Definition.wantsValueLists, Definition.hasMarker,
    hmarked, htruthy _ (by decide), htruthy _ (by decide), htruthy _ (by decide)]
  rfl

@[simp] theorem isEligible_wired (settings : Settings) (name : String) (d : Definition) :
    isEligible (wired settings name d) = isEligible d := by
  cases h : isEligible d with
  | false => simp [wired, h]
  | true => rw [wired, if_pos h, isEligible_annotateEntity, h]

/-- Annotating an entity twice is annotating it once, when both times it is marked as
processed or not. -/
theorem annotateEntity_annotateEntity {settings settings' : Settings}
    (hmark : settings'.markProcessed = settings.markProcessed) (name : String)
    (d : Definition) :
    annotateEntity settings' name (annotateEntity settings name d) =
      annotateEntity settings name d := by
  have helements : (d.elements.mapValues (annotateElement settings name)).mapValues
      (annotateElement settings' name) =
        d.elements.mapValues (annotateElement settings name) := by
    apply Dict.ext_get?
    intro element
    rw [Dict.get?_mapValues, Dict.get?_mapValues, Option.map_map]
    congr 1
    funext e
    exact annotateElement_annotateElement settings settings' name element e
  unfold annotateEntity
  rw [helements, hmark]
  cases settings.markProcessed with
  | false => rfl
  | true => simp [Annotations.setFlag_setFlag]

/-- What was wired up is not wired up again. -/
theorem wired_wired {settings settings' : Settings}
    (hmark : settings'.markProcessed = settings.markProcessed) (name : String)
    (d : Definition) :
    wired settings' name (wired settings name d) = wired settings name d := by
  rw [wired, isEligible_wired]
  cases h : isEligible d with
  | false => simp
  | true => simp [wired, h, annotateEntity_annotateEntity hmark]

/-! ## Schemas -/

section Run

variable {settings settings' : Settings} {s : Schema} {n : String}

/-- A definition after a run was there before, or the run defined it: then its name was free,
and it is not eligible. -/
theorem get?_enrich_cases {d' : Definition} (h : (enrich settings s).1.get? n = some d') :
    (∃ d, s.get? n = some d ∧ d' = wired settings n d) ∨
      (s.get? n = none ∧ (d' = listEntity settings ∨ d' = projection settings)) := by
  cases hget : s.get? n with
  | some d =>
      rw [get?_enrich_of_some hget, Option.some.injEq] at h
      exact .inl ⟨d, rfl, h.symm⟩
  | none =>
      right
      refine ⟨rfl, ?_⟩
      rw [get?_enrich, get?_annotated, hget] at h
      split at h
      · exact .inr (Option.some.inj h).symm
      · split at h
        · exact .inl (Option.some.inj h).symm
        · cases h

/-- Nothing that a run defines is eligible. -/
theorem not_eligible_of_new {d' : Definition} (hnew : s.get? n = none)
    (h : (enrich settings s).1.get? n = some d') : ¬Eligible d' := by
  rcases get?_enrich_cases h with ⟨d, hget, -⟩ | ⟨-, rfl | rfl⟩
  · rw [hnew] at hget
    cases hget
  · exact not_eligible_listEntity settings
  · exact not_eligible_projection settings

/-- The eligible definitions after a run are those from before, wired up. -/
theorem eligible_enrich_iff {d' : Definition} :
    ((enrich settings s).1.get? n = some d' ∧ Eligible d') ↔
      ∃ d, s.get? n = some d ∧ Eligible d ∧ d' = annotateEntity settings n d := by
  constructor
  · rintro ⟨h, helig⟩
    rcases get?_enrich_cases h with ⟨d, hget, rfl⟩ | ⟨hnone, -⟩
    · rw [← isEligible_iff, isEligible_wired] at helig
      exact ⟨d, hget, (isEligible_iff d).1 helig, if_pos helig⟩
    · exact absurd helig (not_eligible_of_new hnone h)
  · rintro ⟨d, hget, helig, rfl⟩
    have hd := (isEligible_iff d).2 helig
    refine ⟨?_, (isEligible_iff _).1 ((isEligible_annotateEntity settings n d).trans hd)⟩
    rw [get?_enrich_of_some hget, wired, if_pos hd]

/-- A definition is a service after a run when it was one before. -/
theorem isService_enrich (settings : Settings) (s : Schema) (n : String) :
    ((enrich settings s).1.get? n).any Definition.isService =
      (s.get? n).any Definition.isService := by
  cases hget : s.get? n with
  | some d =>
      rw [get?_enrich_of_some hget]
      simp [Definition.isService]
  | none =>
      cases h : (enrich settings s).1.get? n with
      | none => rfl
      | some d' =>
          rcases get?_enrich_cases h with ⟨d, hd, -⟩ | ⟨-, rfl | rfl⟩
          · rw [hget] at hd
            cases hd
          · rfl
          · rfl

/-- A run leaves the owner of every name. -/
theorem owningService?_enrich (settings : Settings) (s : Schema) (n : String) :
    (enrich settings s).1.owningService? n = s.owningService? n := by
  unfold Schema.owningService?
  simp only [isService_enrich]

/-- A run leaves which services own an eligible entity. -/
theorem owns_enrich_iff {service : String} :
    Owns (enrich settings s).1 service ↔ Owns s service := by
  simp only [Owns, owningService?_enrich]
  constructor
  · rintro ⟨n, d', hget, helig, hown⟩
    obtain ⟨d, hd, hde, -⟩ := eligible_enrich_iff.1 ⟨hget, helig⟩
    exact ⟨n, d, hd, hde, hown⟩
  · rintro ⟨n, d, hget, helig, hown⟩
    obtain ⟨h, h'⟩ := eligible_enrich_iff.2 ⟨d, hget, helig, rfl⟩
    exact ⟨n, _, h, h', hown⟩

/-- A run that was not skipped found its metadata key not set. -/
theorem flag_of_not_skipped (h : (run settings s).2.skipped = false) :
    s.flag settings.metaKey = false := by
  cases hflag : s.flag settings.metaKey with
  | false => rfl
  | true =>
      rw [run, hflag] at h
      cases h

/-- A run leaves no name free that it defines. -/
theorem get?_enrich_ne_none (h : n = settings.entity ∨
    ∃ service, Owns s service ∧ n = QualifiedName.join service settings.entity) :
    (enrich settings s).1.get? n ≠ none := by
  cases hget : s.get? n with
  | some d =>
      rw [get?_enrich_of_some hget]
      simp
  | none =>
      rcases h with rfl | ⟨service, hown, rfl⟩
      · rw [get?_enrich_entity hget]
        simp
      · rw [get?_enrich_join hown hget]
        simp

/-- What a run left is not wired up by another run that marks entities likewise. -/
theorem wired_get?_enrich (hmark : settings'.markProcessed = settings.markProcessed)
    {d' : Definition} (h : (enrich settings s).1.get? n = some d') :
    wired settings' n d' = d' := by
  rcases get?_enrich_cases h with ⟨d, -, rfl⟩ | ⟨hnone, -⟩
  · exact wired_wired hmark n d
  · rw [wired, (isEligible_eq_false_iff d').2 (not_eligible_of_new hnone h)]
    rfl

end Run

/-! ## The report of a run -/

/-- The eligible definitions that a run collects, in the order of their names. -/
def collected (settings : Settings) (s : Schema) : List (String × Definition) :=
  (s.insertIfAbsent settings.entity (listEntity settings)).definitions.entries.filter
    fun e => isEligible e.2

theorem createdList_enrich (settings : Settings) (s : Schema) :
    (enrich settings s).2.createdList = !s.contains settings.entity := rfl

/-- The report lists the names of what was collected. -/
theorem entities_enrich (settings : Settings) (s : Schema) :
    (enrich settings s).2.entities = (collected settings s).map Prod.fst := rfl

/-- The report lists the marked elements of what was collected. -/
theorem elements_enrich (settings : Settings) (s : Schema) :
    (enrich settings s).2.elements =
      (collected settings s).flatMap fun e => reportElements e.1 e.2 := rfl

/-- What is collected is in the order of names. -/
theorem ascending_collected (settings : Settings) (s : Schema) :
    (collected settings s).Pairwise fun a b => compare a.1 b.1 = .lt :=
  (s.insertIfAbsent settings.entity (listEntity settings)).definitions.ascending.filter _

/-- What is reported of a marked element that had all it needs. -/
def AnnotatedElement.settled (a : AnnotatedElement) : AnnotatedElement :=
  { a with fixedValues := false, listAdded := false }

/-- An annotated entity has the same marked elements, and they need nothing. -/
theorem reportElements_annotateEntity (settings : Settings) (name : String)
    (d : Definition) :
    reportElements name (annotateEntity settings name d) =
      (reportElements name d).map AnnotatedElement.settled := by
  unfold reportElements annotateEntity Dict.mapValues
  rw [List.filter_map, List.map_map, List.map_map]
  simp only [Function.comp_def, isMarked_annotateElement]
  apply List.map_congr_left
  rintro ⟨element, e⟩ he
  have hm : e.isMarked = true := (List.mem_filter.1 he).2
  simp [AnnotatedElement.settled, needsList_annotateElement settings name element hm,
    needsFixedValues_annotateElement settings name element hm]

/-! ## The second run -/

/-- The schema without a metadata key. -/
def clearFlag (s : Schema) (key : String) : Schema :=
  { s with metadata := s.metadata.erase key }

/-- Clearing a metadata key leaves all definitions. -/
theorem get?_clearFlag (s : Schema) (key n : String) : (clearFlag s key).get? n = s.get? n := rfl

theorem owns_clearFlag {s : Schema} {key service : String} :
    Owns (clearFlag s key) service ↔ Owns s service := Iff.rfl

section Rerun

variable {settings settings' : Settings}

/-- A second run collects what the first one did, wired up. -/
theorem collected_rerun (settings settings' : Settings) (s : Schema) (key : String) :
    collected settings' (clearFlag (enrich settings s).1 key) =
      (collected settings s).map fun e => (e.1, annotateEntity settings e.1 e.2) := by
  refine Dict.eq_of_mem_iff (ascending_collected _ _) ?_ ?_
  · rw [List.pairwise_map]
    exact ascending_collected settings s
  · rintro ⟨n, d'⟩
    rw [collected, mem_eligible, get?_clearFlag, eligible_enrich_iff, List.mem_map]
    constructor
    · rintro ⟨d, hget, helig, rfl⟩
      exact ⟨(n, d), mem_eligible.2 ⟨hget, helig⟩, rfl⟩
    · rintro ⟨⟨m, d⟩, hmem, heq⟩
      cases heq
      obtain ⟨hget, helig⟩ := mem_eligible.1 hmem
      exact ⟨d, hget, helig, rfl⟩

/-- A second run defines no projections. -/
theorem services_rerun (hentity : settings'.entity = settings.entity) (s : Schema)
    (key : String) :
    (enrich settings' (clearFlag (enrich settings s).1 key)).2.services = [] := by
  rw [List.eq_nil_iff_forall_not_mem]
  intro service hmem
  obtain ⟨hown, hfree⟩ := mem_services.1 hmem
  rw [owns_clearFlag, owns_enrich_iff] at hown
  rw [get?_clearFlag, hentity] at hfree
  exact get?_enrich_ne_none (.inr ⟨service, hown, rfl⟩) hfree

/-- A second run leaves all definitions. -/
theorem definitions_rerun (hentity : settings'.entity = settings.entity)
    (hmark : settings'.markProcessed = settings.markProcessed) (s : Schema) (key : String) :
    (enrich settings' (clearFlag (enrich settings s).1 key)).1.definitions =
      (clearFlag (enrich settings s).1 key).definitions := by
  apply Schema.definitions_eq_of_get?
  intro n
  rw [get?_clearFlag]
  cases h : (enrich settings s).1.get? n with
  | some d' =>
      rw [get?_enrich_of_some ((get?_clearFlag _ key n).trans h), wired_get?_enrich hmark h]
  | none =>
      -- a name that is free after the first run is none of those that a run defines
      refine get?_enrich_eq_none ((get?_clearFlag _ key n).trans h) ?_ ?_
      · intro hn
        exact get?_enrich_ne_none (.inl (hn.trans hentity)) h
      · rintro service hown hn
        rw [owns_clearFlag, owns_enrich_iff] at hown
        rw [hentity] at hn
        exact get?_enrich_ne_none (.inr ⟨service, hown, hn⟩) h

/-- A run that leaves all definitions only sets its metadata key. -/
theorem enrich_eq_setFlag {s : Schema}
    (h : (enrich settings s).1.definitions = s.definitions) :
    (enrich settings s).1 = s.setFlag settings.metaKey := by
  obtain ⟨hmeta, hextra⟩ := metadata_enrich settings s
  exact Schema.ext h hmeta hextra

/-- The report of a second run: the same entities and elements, and nothing was done. -/
theorem report_rerun (hentity : settings'.entity = settings.entity) (s : Schema)
    (key : String) :
    (enrich settings' (clearFlag (enrich settings s).1 key)).2 =
      { entities := (enrich settings s).2.entities
        elements := (enrich settings s).2.elements.map AnnotatedElement.settled } := by
  have hcreated : (enrich settings' (clearFlag (enrich settings s).1 key)).2.createdList =
      false := by
    rw [createdList_enrich, Bool.not_eq_false', ← Bool.not_eq_false,
      Schema.contains_eq_false_iff, get?_clearFlag]
    exact get?_enrich_ne_none (.inl hentity)
  have hentities : (enrich settings' (clearFlag (enrich settings s).1 key)).2.entities =
      (enrich settings s).2.entities := by
    rw [entities_enrich, collected_rerun, entities_enrich, List.map_map]
    rfl
  have helements : (enrich settings' (clearFlag (enrich settings s).1 key)).2.elements =
      (enrich settings s).2.elements.map AnnotatedElement.settled := by
    rw [elements_enrich, collected_rerun, elements_enrich, List.flatMap_map, List.map_flatMap]
    simp only [reportElements_annotateEntity]
  ext1
  · rfl
  · exact hcreated
  · exact hentities
  · exact helements
  · exact services_rerun hentity s key

/-- **A second run changes nothing.**  After a run that was not skipped, another run with the
same value-list entity, which also marks entities as processed or not, only sets its own
metadata key once that is cleared, and reports the same entities and elements with nothing
done to them; and with the same metadata key it is skipped. -/
theorem run_unmarked_run {s : Schema} (hfirst : (run settings s).2.skipped = false)
    (hentity : settings'.entity = settings.entity)
    (hmark : settings'.markProcessed = settings.markProcessed) :
    let first := run settings s
    let unmarked := clearFlag first.1 settings'.metaKey
    run settings' unmarked =
        (unmarked.setFlag settings'.metaKey,
          { skipped := false
            createdList := false
            entities := first.2.entities
            elements := first.2.elements.map AnnotatedElement.settled
            services := [] }) ∧
      (settings'.metaKey = settings.metaKey →
        run settings' first.1 = (first.1, { skipped := true })) := by
  intro first unmarked
  have hflag : s.flag settings.metaKey = false := flag_of_not_skipped hfirst
  have hrun : first = enrich settings s := run_of_not_flag hflag
  constructor
  · have hcleared : unmarked.flag settings'.metaKey = false := by
      simp [unmarked, clearFlag, Schema.flag]
    rw [run_of_not_flag hcleared]
    simp only [unmarked, hrun]
    exact Prod.ext (enrich_eq_setFlag (definitions_rerun hentity hmark s settings'.metaKey))
      (report_rerun hentity s settings'.metaKey)
  · intro hkey
    have hset : first.1.flag settings'.metaKey = true := by
      rw [hrun, hkey, Schema.flag, (metadata_enrich settings s).1, Dict.get?_insert_self]
      rfl
    rw [run, hset, if_pos rfl]

end Rerun

/-- In the shop, a second run with another title and another metadata key reports the same
element and leaves all definitions. -/
theorem run_unmarked_run_shop :
    (run {} shop).2.skipped = false ∧ (run {} shop).2.services = ["Sales"] ∧
      let second := run { title := "Choice", metaKey := "again" }
        (clearFlag (run {} shop).1 "again")
      second.1.definitions = (run {} shop).1.definitions ∧
        second.2.elements = [⟨"Sales.Orders", "status", false, false⟩] ∧
        second.2.services = [] := by
  have hfirst : (run {} shop).2.skipped = false := by decide
  have hentity : ({ title := "Choice", metaKey := "again" } : Settings).entity =
      ({} : Settings).entity := rfl
  have h := (run_unmarked_run hfirst hentity rfl).1
  refine ⟨hfirst, by decide, ?_⟩
  intro second
  simp only [second, h]
  exact ⟨rfl, by decide, trivial⟩

end Enrichment

end Picklist
