/-
# What a request is answered with

A request is answerable when it gives an entity and an element that the schema knows, and the
element has an enumeration.  It is answered with the values of that enumeration.

* `Request.Gives` : the constant of a column, from the filter or from the parameters;
* `Schema.HasEnumeration` : the enumeration of an element, its own or that of its type;
* `Resolution.Listing` : the rows of an enumeration, one for each symbol, without those whose
  value the filter does not want;
* `Resolution.apply_answers` : exactly the answerable requests are answered, with these rows,
  and the rows of any other read are left alone.
-/
import Picklist.Proofs.Filter.Address
import Picklist.Proofs.Node
import Picklist.Resolution

namespace Picklist

open Picklist.Filter

/-! ## Constants -/

namespace Request

/-- The value of the first binding of a column in the filter of a request. -/
def FirstBound (r : Request) (column : String) (v : Scalar) : Prop :=
  ∃ f, r.filter = some f ∧ ∃ a, Binds column f.tokens a v ∧
    ∀ b w, Binds column f.tokens b w → NoLater a b

/-- The constant that a request gives for a column: the first binding in the filter if it
counts as given, otherwise the parameter of that name if it counts as given. -/
inductive Gives (r : Request) (column : String) (v : Scalar) : Prop where
  | filter (h : r.FirstBound column v) (hv : v.truthy = true)
  | parameter (hfree : ∀ w, r.FirstBound column w → w.truthy = false)
      (h : r.data.get? column = some v) (hv : v.truthy = true)

/-- The search of the filter finds the first binding. -/
theorem bound?_eq_some_iff {r : Request} {column : String} {v : Scalar} :
    r.bound? column = some v ↔ r.FirstBound column v := by
  rw [bound?, FirstBound, Option.bind_eq_some_iff]
  constructor
  · rintro ⟨f, hf, h⟩
    exact ⟨f, hf, ((find?_firstOf column f.tokens).eq_some_iff Binds.unique v).1 h⟩
  · rintro ⟨f, hf, h⟩
    exact ⟨f, hf, ((find?_firstOf column f.tokens).eq_some_iff Binds.unique v).2 h⟩

/-- The first binding that counts as given. -/
theorem filter_bound?_eq_some_iff {r : Request} {column : String} {v : Scalar} :
    (r.bound? column).filter Scalar.truthy = some v ↔
      r.FirstBound column v ∧ v.truthy = true := by
  rw [Option.filter_eq_some_iff, bound?_eq_some_iff]

/-- The first binding does not count as given, or there is none. -/
theorem filter_bound?_eq_none_iff {r : Request} {column : String} :
    (r.bound? column).filter Scalar.truthy = none ↔
      ∀ w, r.FirstBound column w → w.truthy = false := by
  simp only [Option.filter_eq_none_iff, bound?_eq_some_iff, Bool.not_eq_true]

/-- The constant of a column is what the request gives. -/
theorem constant?_eq_some_iff {r : Request} {column : String} {v : Scalar} :
    r.constant? column = some v ↔ r.Gives column v := by
  unfold constant?
  constructor
  · intro h
    split at h
    · rename_i w hw
      cases h
      obtain ⟨hbound, htruthy⟩ := filter_bound?_eq_some_iff.1 hw
      exact .filter hbound htruthy
    · rename_i hnone
      obtain ⟨hdata, htruthy⟩ := Option.filter_eq_some_iff.1 h
      exact .parameter (filter_bound?_eq_none_iff.1 hnone) hdata htruthy
  · intro h
    cases h with
    | filter h hv => rw [filter_bound?_eq_some_iff.2 ⟨h, hv⟩]
    | parameter hfree h hv =>
        rw [filter_bound?_eq_none_iff.2 hfree]
        exact Option.filter_eq_some_iff.2 ⟨h, hv⟩

/-- A value that the filter wants: it is the same as the first constant for the value column,
if that counts as given. -/
def Wants (r : Request) (v : Scalar) : Prop :=
  ∀ w, r.FirstBound "value" w → w.truthy = true → v.sameValue w = true

end Request

/-! ## Enumerations of elements -/

/-- The enumeration of an element: its own, and only without one that of the definition which
its type names. -/
inductive Schema.HasEnumeration (s : Schema) (e : Element) (enum : Enumeration) : Prop where
  | inline (h : e.enum? = some enum)
  | named {name : String} {d : Definition} (hinline : e.enum? = none)
      (htype : e.type? = some (.named name)) (hd : s.get? name = some d)
      (h : d.enum? = some enum)

/-- The enumeration that is looked up is the one that an element has. -/
theorem Schema.enumOf?_eq_some_iff {s : Schema} {e : Element} {enum : Enumeration} :
    s.enumOf? e = some enum ↔ s.HasEnumeration e enum := by
  unfold enumOf?
  cases hinline : e.enum? with
  | some own =>
      refine ⟨fun h => .inline (hinline.trans h), fun h => ?_⟩
      cases h with
      | inline h => exact hinline.symm.trans h
      | named hnone => cases hinline.symm.trans hnone
  | none =>
      simp only [Option.bind_eq_bind, Option.bind_eq_some_iff]
      constructor
      · rintro ⟨t, ht, name, hname, d, hd, h⟩
        cases t with
        | named n =>
            cases hname
            exact .named hinline ht hd h
        | other j => cases hname
      · intro h
        cases h with
        | inline h => cases hinline.symm.trans h
        | named _ htype hd h => exact ⟨_, htype, _, rfl, _, hd, h⟩

/-- The value of a symbol: the explicit one of its entry, or the symbol itself. -/
inductive Enumeration.Shows (symbol : String) : Enumeration.Entry → Scalar → Prop where
  | explicit (v : Scalar) (other : Members Json) : Shows symbol (.described (some v) other) v
  | described (other : Members Json) : Shows symbol (.described none other) (.text symbol)
  | bare (j : Json) : Shows symbol (.bare j) (.text symbol)

/-- An entry has one value. -/
theorem Enumeration.shows_iff {symbol : String} {entry : Enumeration.Entry} {v : Scalar} :
    Shows symbol entry v ↔ entry.value symbol = v := by
  constructor
  · rintro (_ | _ | _) <;> rfl
  · rintro rfl
    rcases entry with j | ⟨_ | w, other⟩
    · exact .bare j
    · exact .described other
    · exact .explicit w other

/-! ## Answers -/

namespace Resolution

/-- A request asks for an element that the schema knows and that has an enumeration. -/
structure Answerable (s : Schema) (r : Request) (entity element : String)
    (enum : Enumeration) : Prop where
  namesEntity : ∃ v, r.Gives "entityName" v ∧ v.display = entity
  namesElement : ∃ v, r.Gives "fieldName" v ∧ v.display = element
  known : ∃ d e, s.get? entity = some d ∧ d.elements.get? element = some e ∧
    s.HasEnumeration e enum

/-- The rows of the symbols of an enumeration, in their order: one for each symbol, but none
for a value that the filter does not want. -/
inductive Listing (r : Request) (entity element : String) :
    Members Enumeration.Entry → List Row → Prop where
  | nil : Listing r entity element [] []
  | wanted {symbol : String} {entry : Enumeration.Entry} {v : Scalar}
      {rest : Members Enumeration.Entry} {rows : List Row}
      (hv : Enumeration.Shows symbol entry v) (hw : r.Wants v)
      (h : Listing r entity element rest rows) :
      Listing r entity element ((symbol, entry) :: rest) (⟨v, entity, element⟩ :: rows)
  | unwanted {symbol : String} {entry : Enumeration.Entry} {v : Scalar}
      {rest : Members Enumeration.Entry} {rows : List Row}
      (hv : Enumeration.Shows symbol entry v) (hw : ¬r.Wants v)
      (h : Listing r entity element rest rows) :
      Listing r entity element ((symbol, entry) :: rest) rows

/-- The check of a value passes exactly those that the filter wants. -/
theorem admits_iff {r : Request} {v : Scalar} : admits r v = true ↔ r.Wants v := by
  unfold admits
  split
  · rename_i w hw
    obtain ⟨hbound, htruthy⟩ := Request.filter_bound?_eq_some_iff.1 hw
    refine ⟨fun h w' hbound' _ => ?_, fun h => h w hbound htruthy⟩
    have heq := (Request.bound?_eq_some_iff.2 hbound).symm.trans
      (Request.bound?_eq_some_iff.2 hbound')
    cases heq
    exact h
  · rename_i hnone
    refine iff_of_true rfl fun w hbound htruthy => ?_
    rw [Request.filter_bound?_eq_none_iff.1 hnone w hbound] at htruthy
    cases htruthy

/-- The values that pass the check, as rows, are a listing. -/
theorem listing_values (r : Request) (entity element : String)
    (entries : Members Enumeration.Entry) :
    Listing r entity element entries
      (((Enumeration.values ⟨entries⟩).filter (admits r)).map fun v =>
        ⟨v, entity, element⟩) := by
  induction entries with
  | nil => exact .nil
  | cons m rest ih =>
      obtain ⟨symbol, entry⟩ := m
      have hcons : Enumeration.values ⟨(symbol, entry) :: rest⟩ =
          entry.value symbol :: Enumeration.values ⟨rest⟩ := rfl
      have hv := Enumeration.shows_iff.2 (rfl : entry.value symbol = entry.value symbol)
      rw [hcons]
      by_cases hw : admits r (entry.value symbol) = true
      · rw [List.filter_cons_of_pos hw]
        exact .wanted hv (admits_iff.1 hw) ih
      · rw [List.filter_cons_of_neg hw]
        exact .unwanted hv (admits_iff.not.1 hw) ih

/-- The enumeration of an element given by names is the one that the element has. -/
theorem enumeration?_eq_some_iff {s : Schema} {entity element : String}
    {enum : Enumeration} :
    enumeration? s entity element = some enum ↔
      ∃ d e, s.get? entity = some d ∧ d.elements.get? element = some e ∧
        s.HasEnumeration e enum := by
  simp only [enumeration?, Schema.element?, Option.bind_eq_bind, Option.bind_eq_some_iff,
    Schema.enumOf?_eq_some_iff]
  constructor
  · rintro ⟨e, ⟨d, hd, he⟩, henum⟩
    exact ⟨d, e, hd, he, henum⟩
  · rintro ⟨d, e, hd, he, henum⟩
    exact ⟨e, ⟨d, hd, he⟩, henum⟩

/-- A request has an answer exactly when it is answerable, and the answer lists the values
of the enumeration that pass the check. -/
theorem rows?_eq_some_iff {s : Schema} {r : Request} {rows : List Row} :
    rows? s r = some rows ↔
      ∃ entity element enum, Answerable s r entity element enum ∧
        rows = (enum.values.filter (admits r)).map fun v => ⟨v, entity, element⟩ := by
  simp only [rows?, Option.bind_eq_bind, Option.bind_eq_some_iff, Request.constant?_eq_some_iff,
    enumeration?_eq_some_iff, Option.pure_def, Option.some.injEq]
  constructor
  · rintro ⟨v, hv, w, hw, enum, henum, rfl⟩
    exact ⟨_, _, enum, ⟨⟨v, hv, rfl⟩, ⟨w, hw, rfl⟩, henum⟩, rfl⟩
  · rintro ⟨_, _, enum, ⟨⟨v, hv, rfl⟩, ⟨w, hw, rfl⟩, henum⟩, rfl⟩
    exact ⟨v, hv, w, hw, enum, henum, rfl⟩

/-- **What a request is answered with.**  A request has an answer exactly when it is
answerable.  Then the answer is the listing of the enumeration, and it takes the place of
any rows; without an answer any rows stay as they are. -/
theorem apply_answers (s : Schema) (r : Request) :
    ((rows? s r).isSome = true ↔ ∃ entity element enum, Answerable s r entity element enum) ∧
      (∀ entity element enum, Answerable s r entity element enum →
        ∃ rows, rows? s r = some rows ∧ Listing r entity element enum.entries rows ∧
          ∀ buffer, apply s buffer r = (true, rows)) ∧
      (rows? s r = none → ∀ buffer, apply s buffer r = (false, buffer)) := by
  refine ⟨?_, ?_, ?_⟩
  · rw [Option.isSome_iff_exists]
    constructor
    · rintro ⟨rows, h⟩
      obtain ⟨entity, element, enum, hasked, -⟩ := rows?_eq_some_iff.1 h
      exact ⟨entity, element, enum, hasked⟩
    · rintro ⟨entity, element, enum, hasked⟩
      exact ⟨_, rows?_eq_some_iff.2 ⟨entity, element, enum, hasked, rfl⟩⟩
  · intro entity element enum hasked
    have hrows := rows?_eq_some_iff.2 ⟨entity, element, enum, hasked, rfl⟩
    refine ⟨_, hrows, listing_values r entity element enum.entries, fun buffer => ?_⟩
    rw [apply, hrows]
  · intro hnone buffer
    rw [apply, hnone]

/-! ## A catalog -/

/-- Two formats, one with an explicit value. -/
def formats : Enumeration :=
  (Enumeration.empty.insert "hardcover" .plain).insert "paperback" (.ofValue (.text "PB"))

/-- A schema with an entity whose element has a named type. -/
def catalog : Schema :=
  (Schema.empty.insert "Format" (Definition.enumType .text formats)).insert "Books"
    (Definition.entity (Dict.empty.insert "format" (Element.ofType (.named "Format"))))

/-- A request whose filter leaves the entity empty and wants one value. -/
def request : Request :=
  { target := "Values"
    filter := some ((Filter.eq "entityName" (.text "")).and (Filter.eq "value" (.text "PB")))
    data := (Dict.empty.insert "entityName" (.text "Books")).insert "fieldName"
      (.text "format") }

/-- The request is answered with the one value that it wants. -/
theorem apply_answers_catalog :
    Answerable catalog request "Books" "format" formats ∧
      ∀ buffer, apply catalog buffer request = (true, [⟨.text "PB", "Books", "format"⟩]) := by
  have hasked : Answerable catalog request "Books" "format" formats :=
    ⟨⟨_, Request.constant?_eq_some_iff.1 rfl, rfl⟩,
      ⟨_, Request.constant?_eq_some_iff.1 rfl, rfl⟩,
      enumeration?_eq_some_iff.1 rfl⟩
  obtain ⟨rows, hrows, -, hanswer⟩ := (apply_answers catalog request).2.1 _ _ _ hasked
  cases hrows
  exact ⟨hasked, hanswer⟩

end Resolution

end Picklist
