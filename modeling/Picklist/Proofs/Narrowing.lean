/-
# Narrowing an answer

A request that leaves the value column free is answered with all values of an enumeration.  Joining
a condition on the value to its filter narrows the answer: the rows that stay are those of that
value, in their order.  Only the first condition on the value counts, so further ones that are
joined behind it change nothing.

* `Request.narrow` : a request with a condition on the value joined to its filter;
* `Request.bound?_narrow` : what its filter binds;
* `Resolution.rows?_filter` : the answer to a request that asks for the same element and admits
  fewer values;
* `Resolution.rows?_narrowAll` : narrowing is selecting, and further conditions change nothing.
-/
import Picklist.Proofs.Filter.Combine
import Picklist.Proofs.Resolution

namespace Picklist

/-! ## Conditions on the value -/

namespace Filter

/-- The two ways to join filters. -/
inductive Connective where
  | and
  | or

/-- Two filters, joined in one of the two ways. -/
def join : Connective → Filter → Filter → Filter
  | .and => Filter.and
  | .or => Filter.or

/-- In either way the constant is that of the first filter, otherwise that of the second one. -/
theorem constant?_join (c : Connective) (a b : Filter) (column : String) :
    (join c a b).constant? column = (a.constant? column).or (b.constant? column) := by
  cases c with
  | and => exact constant?_and a b column
  | or => exact constant?_or a b column

end Filter

namespace Request

open Picklist.Filter

/-- The request with a condition on the value joined behind its filter; a request without a filter
has the empty one. -/
def narrow (r : Request) (c : Connective) (v : Scalar) : Request :=
  { r with filter := some (join c (r.filter.getD .empty) (Filter.eq "value" v)) }

/-- The request with several conditions on the value, one joined behind the other. -/
def narrowAll (r : Request) (conditions : List (Connective × Scalar)) : Request :=
  conditions.foldl (fun r condition => r.narrow condition.1 condition.2) r

variable {r : Request} {column : String} {v : Scalar}

/-- The filter binds what it bound before, otherwise the value. -/
theorem bound?_narrow (r : Request) (c : Connective) (v : Scalar) (column : String) :
    (r.narrow c v).bound? column =
      (r.bound? column).or (if "value" = column then some v else none) := by
  have hbefore : (r.filter.getD .empty).constant? column = r.bound? column := by
    unfold bound?
    cases r.filter with
    | none => exact constant?_empty column
    | some f => rfl
  rw [bound?, narrow, Option.bind_some, constant?_join, constant?_eq, hbefore]

/-- A condition on the value is none on another column. -/
theorem constant?_narrow (h : column ≠ "value") (c : Connective) :
    (r.narrow c v).constant? column = r.constant? column := by
  have hbound : (r.narrow c v).bound? column = r.bound? column := by
    rw [bound?_narrow, if_neg h.symm, Option.or_none]
  unfold constant?
  rw [hbound]
  rfl

/-- A request that leaves the value free binds it once it is narrowed. -/
theorem bound?_narrow_of_free (h : r.bound? "value" = none) (c : Connective) :
    (r.narrow c v).bound? "value" = some v := by
  rw [bound?_narrow, h, if_pos rfl, Option.none_or]

/-- A request that binds the value binds it to the same when it is narrowed further. -/
theorem bound?_narrow_of_bound {w : Scalar} (h : r.bound? "value" = some w) (c : Connective) :
    (r.narrow c v).bound? "value" = some w := by
  rw [bound?_narrow, h, Option.some_or]

end Request

/-! ## Answers -/

namespace Resolution

open Picklist.Filter

variable {s : Schema} {r r' : Request} {v : Scalar}

/-- A request that asks for the same element as another one, and admits a value only if it passes a
further test, is answered with the rows whose values pass the test. -/
theorem rows?_filter (test : Scalar → Bool)
    (hconstant : ∀ column, column ≠ "value" → r'.constant? column = r.constant? column)
    (hadmits : ∀ v, admits r' v = (test v && admits r v)) :
    rows? s r' = (rows? s r).map fun rows => rows.filter fun row => test row.value := by
  have hvalues : ∀ (values : List Scalar) (entity element : String),
      (values.filter (admits r')).map (fun v => (⟨v, entity, element⟩ : Row)) =
        ((values.filter (admits r)).map fun v => ⟨v, entity, element⟩).filter
          fun row => test row.value := by
    intro values entity element
    rw [List.filter_map, List.filter_filter, funext hadmits]
    rfl
  unfold rows?
  rw [hconstant _ (by decide), hconstant _ (by decide)]
  cases r.constant? "entityName" with
  | none => rfl
  | some entity =>
      cases r.constant? "fieldName" with
      | none => rfl
      | some element =>
          simp only [Option.bind_eq_bind, Option.bind_some, hvalues]
          cases enumeration? s entity.display element.display <;> rfl

/-- A request that leaves the value free admits all values. -/
theorem admits_of_free (h : r.bound? "value" = none) (u : Scalar) : admits r u = true := by
  rw [admits, h]
  rfl

/-- A request that binds the value to one that counts as given admits only the same value. -/
theorem admits_of_bound (h : r.bound? "value" = some v) (hv : v.truthy = true) (u : Scalar) :
    admits r u = u.sameValue v := by
  rw [admits, h, Option.filter_some, if_pos hv]

/-- Narrowing a request that leaves the value free selects the rows of the value. -/
theorem rows?_narrow_of_free (h : r.bound? "value" = none) (hv : v.truthy = true)
    (c : Connective) :
    rows? s (r.narrow c v) =
      (rows? s r).map fun rows => rows.filter fun row => row.value.sameValue v := by
  have hadmits : ∀ u, admits (r.narrow c v) u = (u.sameValue v && admits r u) := by
    intro u
    rw [admits_of_bound (Request.bound?_narrow_of_free h c) hv, admits_of_free h, Bool.and_true]
  exact rows?_filter _ (fun _ h => Request.constant?_narrow h c) hadmits

/-- Narrowing a request that binds the value changes nothing. -/
theorem rows?_narrow_of_bound {w : Scalar} (h : r.bound? "value" = some w) (c : Connective) :
    rows? s (r.narrow c v) = rows? s r := by
  have hadmits : ∀ u, admits (r.narrow c v) u = (true && admits r u) := by
    intro u
    rw [admits, admits, Request.bound?_narrow_of_bound h c, h, Bool.true_and]
  rw [rows?_filter (fun _ => true) (fun _ h => Request.constant?_narrow h c) hadmits]
  simp

/-- Any number of further conditions change nothing. -/
theorem rows?_narrowAll_of_bound {w : Scalar} (h : r.bound? "value" = some w)
    (conditions : List (Connective × Scalar)) : rows? s (r.narrowAll conditions) = rows? s r := by
  induction conditions generalizing r with
  | nil => rfl
  | cons condition rest ih =>
      have hnext := Request.bound?_narrow_of_bound (v := condition.2) h condition.1
      have hrest : rows? s ((r.narrow condition.1 condition.2).narrowAll rest) =
          rows? s (r.narrow condition.1 condition.2) := ih hnext
      exact hrest.trans (rows?_narrow_of_bound h condition.1)

/-- **Narrowing is selecting.**  Let the filter of a request leave the value column free.  Joined to
a condition on a value that counts as given, by `and` or by `or`, the request is answered if and
only if it was before, and then with the rows of that value, in their order; further conditions on
the value that are joined behind change nothing.  And a row whose value counts as given stays when
the request is narrowed to that value. -/
theorem rows?_narrowAll (s : Schema) {r : Request} (hfree : r.bound? "value" = none) :
    (∀ v : Scalar, v.truthy = true → ∀ (c : Connective) (further : List (Connective × Scalar)),
      rows? s ((r.narrow c v).narrowAll further) =
        (rows? s r).map fun rows => rows.filter fun row => row.value.sameValue v) ∧
      ∀ rows, rows? s r = some rows → ∀ row ∈ rows, row.value.truthy = true →
        ∀ c : Connective, ∃ narrowed, rows? s (r.narrow c row.value) = some narrowed ∧
          row ∈ narrowed := by
  constructor
  · intro v hv c further
    have hbound : (r.narrow c v).bound? "value" = some v := Request.bound?_narrow_of_free hfree c
    rw [rows?_narrowAll_of_bound hbound, rows?_narrow_of_free hfree hv]
  · intro rows hrows row hrow hv c
    refine ⟨rows.filter fun other => other.value.sameValue row.value, ?_, ?_⟩
    · rw [rows?_narrow_of_free hfree hv, hrows, Option.map_some]
    · exact List.mem_filter.2 ⟨hrow, Scalar.sameValue_self row.value⟩

/-- A request for the formats of the catalog whose filter begins a condition on the value, but does
not finish it. -/
def unfinished : Request :=
  { target := "Values"
    filter := some ⟨[.field "value", .op .eq]⟩
    data := (Dict.empty.insert "entityName" (.text "Books")).insert "fieldName"
      (.text "format") }

/-- Narrowed to one format and then joined to a condition on the other one, the request is answered
with the first. -/
theorem rows?_narrowAll_catalog :
    unfinished.bound? "value" = none ∧
      rows? catalog ((unfinished.narrow .and (.text "PB")).narrowAll
        [(.or, .text "hardcover"), (.and, .null)]) = some [⟨.text "PB", "Books", "format"⟩] ∧
      ∃ narrowed, rows? catalog (unfinished.narrow .or (.text "hardcover")) = some narrowed ∧
        ⟨.text "hardcover", "Books", "format"⟩ ∈ narrowed := by
  have hfree : unfinished.bound? "value" = none := rfl
  obtain ⟨hnarrow, hstays⟩ := rows?_narrowAll catalog hfree
  refine ⟨hfree, hnarrow _ rfl .and _, ?_⟩
  exact hstays _ rfl ⟨.text "hardcover", "Books", "format"⟩ (.head _) rfl .or

end Resolution

end Picklist
