/-
# Which definitions enrichment wires up

`Eligible` says in plain terms which definitions are wired up, and `Marked` which of their
elements.

* `isEligible_iff` : the check that enrichment makes decides `Eligible`;
* `not_eligible_listEntity`, `not_eligible_projection` : nothing that enrichment defines is
  eligible.
-/
import Picklist.Proofs.Enrichment.Defined

namespace Picklist

namespace Enrichment

/-! ## Eligible definitions -/

/-- An element is marked when it carries one of the two markers, with any value. -/
def Marked (e : Element) : Prop :=
  e.annotations.contains .enumValueHelp = true ∨
    e.annotations.contains .enumValueHelpFixedValues = true

/-- A definition is a union when its query is a set query with that operation. -/
def IsUnion (d : Definition) : Prop :=
  ∃ q set, d.query? = some q ∧ q.set? = some set ∧ set.op? = some .union

/-- A definition is eligible when it is an authored entity, no union, and it has a marker
that counts as set or a marked element. -/
structure Eligible (d : Definition) : Prop where
  entity : d.kind = .entity
  authored : d.annotations.truthy .autoexposed = false
  noUnion : ¬IsUnion d
  marked : d.annotations.truthy .enumValueHelp = true ∨
    d.annotations.truthy .enumValueHelpFixedValues = true ∨
    ∃ name e, d.elements.get? name = some e ∧ Marked e

theorem isMarked_iff (e : Element) : e.isMarked = true ↔ Marked e := by
  rw [Element.isMarked, Bool.or_eq_true, Marked]

/-- The union check decides `IsUnion`. -/
theorem isUnion_iff (d : Definition) : d.isUnion = true ↔ IsUnion d := by
  simp only [Definition.isUnion, Query.isUnion, IsUnion, Option.any_eq_true,
    decide_eq_true_eq]
  constructor
  · rintro ⟨q, hq, set, hset, hop⟩
    exact ⟨q, set, hq, hset, hop⟩
  · rintro ⟨q, set, hq, hset, hop⟩
    exact ⟨q, hq, set, hset, hop⟩

/-- Some element is marked when some name has a marked element. -/
theorem any_isMarked_iff (d : Definition) :
    d.elements.values.any Element.isMarked = true ↔
      ∃ name e, d.elements.get? name = some e ∧ Marked e := by
  simp only [Dict.values, List.any_map, List.any_eq_true, Function.comp_apply, isMarked_iff]
  constructor
  · rintro ⟨⟨name, e⟩, hmem, hmark⟩
    exact ⟨name, e, Dict.get?_eq_some_iff.2 hmem, hmark⟩
  · rintro ⟨name, e, hget, hmark⟩
    exact ⟨(name, e), Dict.get?_eq_some_iff.1 hget, hmark⟩

/-- The check that enrichment makes decides `Eligible`. -/
theorem isEligible_iff (d : Definition) : isEligible d = true ↔ Eligible d := by
  unfold isEligible Definition.wantsValueLists Definition.isEntity Definition.isAutoexposed
    Definition.hasMarker
  simp only [Bool.and_eq_true, Bool.not_eq_true', Bool.or_eq_true, decide_eq_true_eq,
    ← Bool.not_eq_true, isUnion_iff, any_isMarked_iff]
  constructor
  · rintro ⟨⟨hkind, hauto⟩, hunion, hmark⟩
    exact ⟨hkind, Bool.not_eq_true _ ▸ hauto, hunion, or_assoc.1 hmark⟩
  · intro h
    exact ⟨⟨h.entity, Bool.not_eq_true _ ▸ h.authored⟩, h.noUnion, or_assoc.2 h.marked⟩

theorem isEligible_eq_false_iff (d : Definition) : isEligible d = false ↔ ¬Eligible d := by
  rw [← isEligible_iff, Bool.not_eq_true]

/-! ## What enrichment defines is not eligible -/

/-- No column of a value list is marked. -/
theorem HasColumns.not_marked {settings : Settings} {shared : Bool}
    {elements : Dict String Element} (h : HasColumns settings shared elements) {name : String}
    {e : Element} (hget : elements.get? name = some e) : ¬Marked e := by
  have bare : ∀ {k}, k ≠ .title → k ≠ .coreComputed → e.annotations.contains k ≠ true := by
    intro k htitle hcomputed hk
    have hnone : e.annotations.get? k = none := h.get?_annotations hget htitle hcomputed
    rw [Annotations.contains_congr (b := .empty) hnone] at hk
    cases hk
  exact not_or.2 ⟨bare (by decide) (by decide), bare (by decide) (by decide)⟩

theorem not_eligible_listEntity (settings : Settings) : ¬Eligible (listEntity settings) := by
  rintro ⟨-, -, -, h | h | ⟨name, e, hget, hmark⟩⟩
  · cases h
  · cases h
  · exact (hasColumns_columns settings true).not_marked hget hmark

theorem not_eligible_projection (settings : Settings) : ¬Eligible (projection settings) := by
  rintro ⟨-, -, -, h | h | ⟨name, e, hget, hmark⟩⟩
  · cases h
  · cases h
  · exact (hasColumns_columns settings false).not_marked hget hmark

end Enrichment

end Picklist
