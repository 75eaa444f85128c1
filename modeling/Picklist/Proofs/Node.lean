/-
# Annotations and definitions after a change

* `Annotations.get?_insert` : the value of each key after one was set;
* `Schema.get?_insert` and `Schema.get?_insertIfAbsent` : the definition of each name after
  one was set.
-/
import Picklist.Proofs.Dict
import Picklist.Schema

namespace Picklist

/-! ## Annotations after a change -/

namespace Annotations

theorem get?_insert (a : Annotations) (key other : AnnotationKey) (value : Annotation) :
    (a.insert key value).get? other = if other = key then some value else a.get? other :=
  Dict.get?_insert a.known key other value

@[simp] theorem get?_insert_self (a : Annotations) (key : AnnotationKey) (value : Annotation) :
    (a.insert key value).get? key = some value :=
  Dict.get?_insert_self a.known key value

theorem get?_insert_of_ne (a : Annotations) {key other : AnnotationKey} (value : Annotation)
    (h : other ≠ key) : (a.insert key value).get? other = a.get? other :=
  Dict.get?_insert_of_ne a.known value h

theorem contains_congr {a b : Annotations} {key : AnnotationKey}
    (h : a.get? key = b.get? key) : a.contains key = b.contains key :=
  congrArg Option.isSome h

end Annotations

/-! ## Definitions after a change -/

namespace Schema

theorem contains_eq_false_iff {s : Schema} {name : String} :
    s.contains name = false ↔ s.get? name = none :=
  Dict.contains_eq_false_iff

theorem definitions_eq_of_get? {s t : Schema} (h : ∀ name, s.get? name = t.get? name) :
    s.definitions = t.definitions :=
  Dict.ext_get? h

theorem get?_insert (s : Schema) (name other : String) (d : Definition) :
    (s.insert name d).get? other = if other = name then some d else s.get? other :=
  Dict.get?_insert s.definitions name other d

/-- `insertIfAbsent` defines one name, unless it is defined. -/
theorem get?_insertIfAbsent (s : Schema) (name other : String) (d : Definition) :
    (s.insertIfAbsent name d).get? other =
      if other = name ∧ s.get? name = none then some d else s.get? other := by
  unfold insertIfAbsent
  cases hc : s.contains name with
  | true =>
      have hsome : s.get? name ≠ none := by
        rw [Ne, ← contains_eq_false_iff, hc]
        simp
      simp [hsome]
  | false =>
      have hnone : s.get? name = none := contains_eq_false_iff.1 hc
      simp [get?_insert, hnone]

end Schema

end Picklist
