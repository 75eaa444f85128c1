/-
# Integers in the value filter

A condition on the value selects the rows whose value is the same as its constant.  For integers
that is meant to be numeric equality, but the comparison also accepts integers that are rounded to
the same double.

* `Scalar.truthy_int` : an integer other than zero counts as given, so its condition selects;
* `Resolution.mem_rows_int_iff` : the integers among the rows of an answer;
* `Resolution.integers_compared` : which integers have the same value, which ones a condition
  selects, and the range in which that is equality;
* `Resolution.not_integers_exact` : beyond this range it is not.
-/
import Picklist.Proofs.Narrowing
import Picklist.Proofs.Number.Integer

namespace Picklist

/-! ## Integers that count as given -/

theorem RoundsTo.ne_zero {n r : ℤ} (h : RoundsTo n r) (hn : n ≠ 0) : r ≠ 0 := by
  rcases Nat.lt_or_ge n.natAbs (2 ^ 53) with hlt | hge
  · rw [h.eq_of_lt hlt]
    exact hn
  · have := h.le_natAbs_of_le hge
    omega

/-- An integer other than zero counts as given. -/
theorem Scalar.truthy_int {n : ℤ} (h : Fits n) (hn : n ≠ 0) :
    Scalar.truthy (.num (.int n)) = true := by
  obtain ⟨r, hr, hvalue⟩ := Binary64.value_ofInt h
  change (!(Binary64.ofInt n).isZero) = true
  rw [Bool.not_eq_true', ← Bool.not_eq_true, ← Binary64.magnitude_eq_zero_iff]
  intro hzero
  rw [Binary64.value, hzero, neg_zero, ite_self] at hvalue
  exact hr.ne_zero hn (by exact_mod_cast hvalue.symm)

namespace Resolution

open Picklist.Filter

variable {s : Schema} {r : Request} {entity element : String} {enum : Enumeration} {n : ℤ}

/-! ## Integers among the rows -/

/-- A condition on the value that is an integer selects, of the integers of the enumeration, those
that are rounded to the same double. -/
theorem mem_rows_int_iff (entity element : String) (enum : Enumeration)
    (hbound : r.FirstBound "value" (.num (.int n))) (hfits : Fits n)
    (hn : n ≠ 0) {m : ℤ} (hm : Fits m) :
    (⟨.num (.int m), entity, element⟩ : Row) ∈
        ((enum.values.filter (admits r)).map fun v => (⟨v, entity, element⟩ : Row)) ↔
      .num (.int m) ∈ enum.values ∧ ∃ x, RoundsTo m x ∧ RoundsTo n x := by
  have hadmits : admits r (.num (.int m)) = (Number.int m).sameValue (.int n) :=
    admits_of_bound (Request.bound?_eq_some_iff.2 hbound) (Scalar.truthy_int hfits hn) _
  rw [← Number.sameValue_int_iff hm hfits, ← hadmits, ← List.mem_filter, List.mem_map]
  constructor
  · rintro ⟨v, hv, heq⟩
    cases heq
    exact hv
  · intro h
    exact ⟨_, h, rfl⟩

/-- **Integers in the value filter.**  Two integers have the same value if and only if they are
rounded to the same double, which is equality when one of them is below `2 ^ 53`.  So an answerable
request whose filter wants an integer other than zero is answered, and an integer is among its rows
if and only if it is one of the enumeration and rounded to the same double; when the wanted integer
is below `2 ^ 53` it is equal to it. -/
theorem integers_compared {m n : ℤ} (hm : Fits m) (hn : Fits n) :
    ((Scalar.num (.int m)).sameValue (.num (.int n)) = true ↔ ∃ x, RoundsTo m x ∧ RoundsTo n x) ∧
      (m.natAbs < 2 ^ 53 ∨ n.natAbs < 2 ^ 53 →
        ((Scalar.num (.int m)).sameValue (.num (.int n)) = true ↔ m = n)) ∧
      ∀ (s : Schema) (r : Request) (entity element : String) (enum : Enumeration),
        r.FirstBound "value" (.num (.int n)) → n ≠ 0 → Answerable s r entity element enum →
        ∃ rows, rows? s r = some rows ∧
          (⟨.num (.int m), entity, element⟩ ∈ rows ↔
            .num (.int m) ∈ enum.values ∧ ∃ x, RoundsTo m x ∧ RoundsTo n x) ∧
          (n.natAbs < 2 ^ 53 → ⟨.num (.int m), entity, element⟩ ∈ rows → m = n) := by
  have hsame : (Scalar.num (.int m)).sameValue (.num (.int n)) = true ↔
      ∃ x, RoundsTo m x ∧ RoundsTo n x := Number.sameValue_int_iff hm hn
  have hexact : m.natAbs < 2 ^ 53 ∨ n.natAbs < 2 ^ 53 →
      ((Scalar.num (.int m)).sameValue (.num (.int n)) = true ↔ m = n) :=
    Number.sameValue_int_iff_eq hm hn
  refine ⟨hsame, hexact, fun s r entity element enum hbound hne hasked => ?_⟩
  have hrows := mem_rows_int_iff entity element enum hbound hn hne hm
  refine ⟨_, rows?_eq_some_iff.2 ⟨entity, element, enum, hasked, rfl⟩, hrows, fun hlt hmem => ?_⟩
  exact (hexact (.inr hlt)).1 (hsame.2 (hrows.1 hmem).2)

/-! ## Large identifiers -/

/-- Two neighbouring identifiers that are rounded to the same double, and a small one. -/
def identifiers : Enumeration :=
  ((Enumeration.empty.insert "old" (.ofValue (.num (.int 9007199254740992)))).insert "new"
    (.ofValue (.num (.int 9007199254740993)))).insert "test" (.ofValue (.num (.int 7)))

/-- A schema with an entity whose element has these values. -/
def registry : Schema :=
  Schema.empty.insert "Accounts" (Definition.entity (Dict.empty.insert "id"
    { Element.ofType .text with enum? := some identifiers }))

/-- A request for the identifiers of the accounts that wants one of them. -/
def wanted (n : ℤ) : Request :=
  { target := "Values"
    filter := some (Filter.eq "value" (.num (.int n)))
    data := (Dict.empty.insert "entityName" (.text "Accounts")).insert "fieldName" (.text "id") }

theorem answerable_wanted (n : ℤ) :
    Answerable registry (wanted n) "Accounts" "id" identifiers :=
  ⟨⟨_, Request.constant?_eq_some_iff.1 rfl, rfl⟩,
    ⟨_, Request.constant?_eq_some_iff.1 rfl, rfl⟩,
    enumeration?_eq_some_iff.1 rfl⟩

theorem firstBound_wanted (n : ℤ) : (wanted n).FirstBound "value" (.num (.int n)) :=
  Request.bound?_eq_some_iff.1 rfl

/-- A large identifier has the same value as its neighbour and is selected with it; where the small
one is wanted it is not selected. -/
theorem integers_compared_registry :
    (∃ rows, rows? registry (wanted 9007199254740993) = some rows ∧
      (⟨.num (.int 9007199254740992), "Accounts", "id"⟩ : Row) ∈ rows) ∧
      ∃ rows, rows? registry (wanted 7) = some rows ∧
        (⟨.num (.int 9007199254740992), "Accounts", "id"⟩ : Row) ∉ rows := by
  obtain ⟨hlarge, -, hrows⟩ := @integers_compared 9007199254740992 9007199254740993 (by decide)
    (by decide)
  obtain ⟨large, hsome, hmem, -⟩ := hrows registry (wanted 9007199254740993) "Accounts" "id"
    identifiers (firstBound_wanted _) (by decide) (answerable_wanted _)
  obtain ⟨-, -, hsmall⟩ := @integers_compared 9007199254740992 7 (by decide) (by decide)
  obtain ⟨small, hsome', -, heq⟩ := hsmall registry (wanted 7) "Accounts" "id" identifiers
    (firstBound_wanted 7) (by decide) (answerable_wanted 7)
  refine ⟨⟨large, hsome, hmem.2 ⟨.head _, hlarge.1 (by decide)⟩⟩, small, hsome', fun h => ?_⟩
  exact absurd (heq (by decide) h) (by decide)

/-- Comparing by value is not equality of all integers, and a condition does select rows with other
integers. -/
theorem not_integers_exact :
    (¬∀ a b : ℤ, Fits a → Fits b →
      ((Scalar.num (.int a)).sameValue (.num (.int b)) = true ↔ a = b)) ∧
      ¬∀ (s : Schema) (r : Request) (n : ℤ), r.FirstBound "value" (.num (.int n)) → Fits n →
        n ≠ 0 → ∀ rows, rows? s r = some rows → ∀ row ∈ rows, ∀ m : ℤ,
          row.value = .num (.int m) → m = n := by
  constructor
  · intro h
    have hsame := (h 9007199254740993 9007199254740992 (by decide) (by decide)).1 (by decide)
    exact absurd hsame (by decide)
  · intro h
    have hrow := h registry (wanted 9007199254740993) 9007199254740993 (firstBound_wanted _)
      (by decide) (by decide) _ rfl ⟨.num (.int 9007199254740992), "Accounts", "id"⟩ (.head _)
      9007199254740992 rfl
    exact absurd hrow (by decide)

end Resolution

end Picklist
