/-
# Combined filters

Two filters are combined flat, with a connective between their tokens, or as two groups with a
connective between them.  A connective is no part of a binding, so no binding stands across it:
neither does one come into being there, nor is one lost.

* `find?_append_op` : a sequence is searched before a connective, then behind it;
* `Condition` : expressions of comparisons, with their filters and their comparisons in order;
* `constant?_combined` : the constant of two combined filters is that of the first one that has
  any, so the constant of an expression is that of its leftmost comparison with the column.
-/
import Picklist.Proofs.Filter.Seam

namespace Picklist

namespace Filter

/-! ## Across a connective -/

/-- A sequence is searched before an operator other than the equals sign, then behind it. -/
theorem find?_append_op (column : String) {o : Operator} (ho : o ≠ .eq) (as bs : List Token) :
    find? column (as ++ .op o :: bs) = (find? column as).or (find? column bs) := by
  have hop : findWithin? column (.op o) = none := rfl
  rw [find?_around (not_counts_op ho), hop, Option.none_or]

/-! ## Two filters -/

theorem isEmpty_iff {f : Filter} : f.isEmpty = true ↔ f = empty := by
  cases f
  simp [isEmpty, empty]

@[simp] theorem empty_and (a : Filter) : empty.and a = a := rfl

@[simp] theorem and_empty (a : Filter) : a.and empty = a := by
  unfold and
  split
  · rename_i ha
    exact (isEmpty_iff.1 ha).symm
  · rfl

theorem and_of_ne_empty {a b : Filter} (ha : a ≠ empty) (hb : b ≠ empty) :
    a.and b = ⟨a.tokens ++ .op .and :: b.tokens⟩ := by
  rw [and, if_neg (mt isEmpty_iff.1 ha), if_neg (mt isEmpty_iff.1 hb)]

theorem and_ne_empty {a b : Filter} (ha : a ≠ empty) (hb : b ≠ empty) : a.and b ≠ empty := by
  rw [and_of_ne_empty ha hb]
  simp [empty]

/-- Joining three filters gives the same tokens in either way. -/
protected theorem and_assoc (a b c : Filter) : (a.and b).and c = a.and (b.and c) := by
  by_cases ha : a = empty
  · simp [ha]
  by_cases hb : b = empty
  · simp [hb]
  by_cases hc : c = empty
  · simp [hc]
  rw [and_of_ne_empty (and_ne_empty ha hb) hc, and_of_ne_empty ha (and_ne_empty hb hc),
    and_of_ne_empty ha hb, and_of_ne_empty hb hc]
  simp

@[simp] theorem constant?_empty (column : String) : empty.constant? column = none := rfl

/-- Both conditions bind what the first one binds, otherwise what the second one binds. -/
theorem constant?_and (a b : Filter) (column : String) :
    (a.and b).constant? column = (a.constant? column).or (b.constant? column) := by
  by_cases ha : a = empty
  · simp [ha]
  by_cases hb : b = empty
  · simp [hb]
  rw [and_of_ne_empty ha hb]
  exact find?_append_op column (by decide) a.tokens b.tokens

/-- Either condition binds what the first one binds, otherwise what the second one binds. -/
theorem constant?_or (a b : Filter) (column : String) :
    (a.or b).constant? column = (a.constant? column).or (b.constant? column) := by
  have hseam := find?_append_op column (o := .or) (by decide) [.group a.tokens] [.group b.tokens]
  have hgroup : ∀ tokens, find? column [.group tokens] = find? column tokens := by
    intro tokens
    rw [find?_cons]
    exact Option.or_none
  rw [hgroup, hgroup] at hseam
  exact hseam

theorem constant?_eq (a column : String) (v : Scalar) :
    (eq a v).constant? column = if a = column then some v else none := by
  by_cases h : a = column <;>
    simp [constant?, eq, find?, bindingAt?, findWithin?, Token.field, Token.head?, h]

/-! ## Expressions -/

/-- An expression of comparisons, joined by `and` and `or`. -/
inductive Condition where
  | eq (column : String) (value : Scalar)
  | and (a b : Condition)
  | or (a b : Condition)

namespace Condition

/-- The filter that an expression builds. -/
def filter : Condition → Filter
  | .eq column value => Filter.eq column value
  | .and a b => a.filter.and b.filter
  | .or a b => a.filter.or b.filter

/-- The comparisons of an expression from left to right, each a column and its constant. -/
def comparisons : Condition → List (String × Scalar)
  | .eq column value => [(column, value)]
  | .and a b => a.comparisons ++ b.comparisons
  | .or a b => a.comparisons ++ b.comparisons

/-- The constant of an expression is that of its leftmost comparison with the column. -/
theorem constant?_filter (c : Condition) (column : String) :
    c.filter.constant? column = c.comparisons.lookup column := by
  induction c with
  | eq a v =>
      rw [filter, constant?_eq, comparisons, List.lookup_cons]
      by_cases h : a = column
      · simp [h]
      · have hne : (column == a) = false := beq_eq_false_iff_ne.2 (Ne.symm h)
        simp [h, hne]
  | and a b iha ihb => rw [filter, constant?_and, iha, ihb, comparisons, List.lookup_append]
  | or a b iha ihb => rw [filter, constant?_or, iha, ihb, comparisons, List.lookup_append]

end Condition

/-- **Combining filters.**  The constant of two filters that are joined by `and` or by `or` is
that of the first one if it has any, and otherwise that of the second one.  So the constant of an
expression of comparisons is that of its leftmost comparison with the column, whatever the
connectives and the nesting.  As token sequences, filters joined by `and` may be nested in either
way, and the empty filter adds nothing on either side. -/
theorem constant?_combined (column : String) :
    (∀ a b : Filter,
      (a.and b).constant? column = (a.constant? column).or (b.constant? column) ∧
        (a.or b).constant? column = (a.constant? column).or (b.constant? column)) ∧
      (∀ c : Condition, c.filter.constant? column = c.comparisons.lookup column) ∧
      (∀ a b c : Filter, ((a.and b).and c).tokens = (a.and (b.and c)).tokens) ∧
      ∀ a : Filter, (empty.and a).tokens = a.tokens ∧ (a.and empty).tokens = a.tokens := by
  refine ⟨fun a b => ⟨constant?_and a b column, constant?_or a b column⟩,
    fun c => c.constant?_filter column, fun a b c => ?_, fun a => ⟨?_, ?_⟩⟩
  · rw [Filter.and_assoc]
  · rw [empty_and]
  · rw [and_empty]

/-- The leftmost comparison counts, also when it stands in a group of its own behind an
unfinished one. -/
example :
    ((⟨[.field "status", .op .eq]⟩ : Filter).and
      ((Filter.eq "status" (.text "A")).or (Filter.eq "status" (.text "B")))).constant? "status" =
        some (.text "A") := by rfl

end Filter

end Picklist
