/-
# Authored flags for fixed values

A field may say itself whether its values are fixed.  The flag that enrichment sets is meant for
fields that say nothing, but the check behind it asks whether the annotation counts as set, not
whether it is there: a field whose annotation is there and does not count as set gets the flag
as well.

* `Overridden` : exactly when a run replaces an authored annotation;
* `get?_annotateElement_fixedValues` and `get?_wired_fixedValues` : what an element and what a
  definition make of it;
* `fixedValues_run` : after a run the annotation is the authored one if and only if it is not
  overridden, and otherwise it is the flag;
* `not_fixedValues_kept` : so a run does not keep all of them.
-/
import Picklist.Proofs.Enrichment.Effect

namespace Picklist

namespace Enrichment

/-! ## One element -/

/-- A run replaces the authored annotation `v` of an element `e` of a definition `d`: the run is
not skipped, the definition is eligible, the element asks for fixed values, and the annotation
does not count as set. -/
structure Overridden (settings : Settings) (s : Schema) (d : Definition) (e : Element)
    (v : Annotation) : Prop where
  notSkipped : s.flag settings.metaKey = false
  eligible : Eligible d
  fixedValues : e.annotations.contains .enumValueHelpFixedValues = true
  unset : v.truthy = false

variable {e : Element} {v : Annotation}

theorem truthy_of_get? {a : Annotations} {key : AnnotationKey} (h : a.get? key = some v) :
    a.truthy key = v.truthy := by
  rw [Annotations.truthy, h, Option.any_some]

/-- Annotating an element replaces its flag when the element asks for fixed values and the flag
does not count as set, whatever it is. -/
theorem get?_annotateElement_fixedValues (settings : Settings) (entity name : String)
    (hv : e.annotations.get? .valueListWithFixedValues = some v) :
    (annotateElement settings entity name e).annotations.get? .valueListWithFixedValues =
      if e.annotations.contains .enumValueHelpFixedValues = true ∧ v.truthy = false
      then some (.flag true) else some v := by
  by_cases hm : Marked e
  · have hw := (wiredElement_annotateElement settings entity name hm).fixedValues
    rw [hw, truthy_of_get? hv, hv]
  · have hfixed : ¬(e.annotations.contains .enumValueHelpFixedValues = true ∧
        v.truthy = false) := fun h => hm (.inr h.1)
    rw [annotateElement_of_not_marked settings entity name hm, hv, if_neg hfixed]

/-! ## A whole run -/

variable {settings : Settings} {s : Schema} {n name : String} {d : Definition}

/-- What becomes of the flag of an element when its definition is wired up, or left alone. -/
theorem get?_wired_fixedValues (settings : Settings) (n : String)
    (he : d.elements.get? name = some e)
    (hv : e.annotations.get? .valueListWithFixedValues = some v) :
    ∃ e', (wired settings n d).elements.get? name = some e' ∧
      e'.annotations.get? .valueListWithFixedValues =
        if isEligible d = true ∧
          e.annotations.contains .enumValueHelpFixedValues = true ∧ v.truthy = false
        then some (.flag true) else some v := by
  unfold wired
  split
  · rename_i helig
    refine ⟨annotateElement settings n name e, ?_, ?_⟩
    · rw [get?_elements_annotateEntity, he, Option.map_some]
    · rw [get?_annotateElement_fixedValues settings n name hv]
      simp only [helig, true_and]
  · rename_i helig
    exact ⟨e, he, by rw [if_neg fun h => helig h.1, hv]⟩

/-- **Authored flags for fixed values.**  After a run, a field that came with the annotation has
it with the same value, unless it is overridden; then, and only then, the value is another one,
namely the flag.  In particular, no run replaces an annotation that counts as set, or that of a
field that does not ask for fixed values. -/
theorem fixedValues_run (hd : s.get? n = some d) (he : d.elements.get? name = some e)
    (hv : e.annotations.get? .valueListWithFixedValues = some v) :
    ∃ d' e', (run settings s).1.get? n = some d' ∧ d'.elements.get? name = some e' ∧
      (e'.annotations.get? .valueListWithFixedValues = some v ↔
        ¬Overridden settings s d e v) ∧
      (Overridden settings s d e v →
        e'.annotations.get? .valueListWithFixedValues = some (.flag true)) := by
  cases hflag : s.flag settings.metaKey with
  | true =>
      have hkept : ¬Overridden settings s d e v := fun h => by
        rw [h.notSkipped] at hflag
        cases hflag
      rw [run_of_flag hflag]
      exact ⟨d, e, hd, he, iff_of_true hv hkept, fun h => absurd h hkept⟩
  | false =>
      obtain ⟨e', he', hget⟩ := get?_wired_fixedValues settings n he hv
      rw [run_of_not_flag hflag]
      refine ⟨_, e', get?_enrich_of_some hd, he', ?_⟩
      by_cases hover : Overridden settings s d e v
      · rw [hget, if_pos ⟨(isEligible_iff d).2 hover.eligible, hover.fixedValues, hover.unset⟩]
        -- the flag counts as set, so it is not what was there
        have hne : some (.flag true) ≠ some v := fun h => by
          cases h
          cases hover.unset
        exact ⟨iff_of_false hne (not_not_intro hover), fun _ => rfl⟩
      · rw [hget, if_neg fun h => hover ⟨hflag, (isEligible_iff d).1 h.1, h.2.1, h.2.2⟩]
        exact ⟨iff_of_true rfl hover, fun h => absurd h hover⟩

/-! ## A field that opts out -/

/-- An element that asks for fixed values and says itself that its values are not fixed. -/
def optedOut : Element :=
  { Element.ofType .text with
    annotations := (Annotations.empty.setFlag .enumValueHelpFixedValues true).setFlag
      .valueListWithFixedValues false }

/-- An entity with this element. -/
def undecided : Definition := Definition.entity (Dict.empty.insert "status" optedOut)

/-- A schema with this entity. -/
def optedOutShop : Schema := Schema.empty.insert "Orders" undecided

theorem get?_optedOutShop : optedOutShop.get? "Orders" = some undecided := by
  rw [optedOutShop, Schema.get?_insert, if_pos rfl]

theorem get?_elements_undecided : undecided.elements.get? "status" = some optedOut := by
  simp [undecided, Definition.entity]

/-- The element says that its values are not fixed. -/
theorem get?_annotations_optedOut :
    optedOut.annotations.get? .valueListWithFixedValues = some (.flag false) := rfl

/-- A run with the settings by default overrides what the element says. -/
theorem overridden_optedOut :
    Overridden {} optedOutShop undecided optedOut (.flag false) :=
  ⟨by decide, (isEligible_iff undecided).1 (by decide), rfl, rfl⟩

/-- The flag of the element is set by a run. -/
theorem fixedValues_run_optedOut :
    optedOutShop.get? "Orders" = some undecided ∧
      ∃ d' e', (run {} optedOutShop).1.get? "Orders" = some d' ∧
        d'.elements.get? "status" = some e' ∧
        e'.annotations.get? .valueListWithFixedValues = some (.flag true) := by
  obtain ⟨d', e', hd', he', -, hflag⟩ := @fixedValues_run _ _ {} _ _ _ _ get?_optedOutShop
    get?_elements_undecided get?_annotations_optedOut
  exact ⟨get?_optedOutShop, d', e', hd', he', hflag overridden_optedOut⟩

/-- Not every authored annotation is kept. -/
theorem not_fixedValues_kept :
    ¬∀ (settings : Settings) (s : Schema) (n : String) (d : Definition) (name : String)
      (e : Element) (v : Annotation), s.get? n = some d → d.elements.get? name = some e →
      e.annotations.get? .valueListWithFixedValues = some v →
      ∃ d' e', (run settings s).1.get? n = some d' ∧ d'.elements.get? name = some e' ∧
        e'.annotations.get? .valueListWithFixedValues = some v := by
  intro h
  obtain ⟨d', e', hd', he', hv'⟩ := h {} _ _ _ _ _ _ get?_optedOutShop
    get?_elements_undecided get?_annotations_optedOut
  have hrun : (run {} optedOutShop).1.get? "Orders" = some (wired {} "Orders" undecided) := by
    rw [run_of_not_flag overridden_optedOut.notSkipped, get?_enrich_of_some get?_optedOutShop]
  obtain ⟨e'', he'', hget⟩ := get?_wired_fixedValues {} "Orders" get?_elements_undecided
    get?_annotations_optedOut
  rw [hrun, Option.some.injEq] at hd'
  rw [← hd', he'', Option.some.injEq] at he'
  rw [← he', hget, if_pos ⟨(isEligible_iff _).2 overridden_optedOut.eligible, rfl, rfl⟩] at hv'
  cases hv'

end Enrichment

end Picklist
