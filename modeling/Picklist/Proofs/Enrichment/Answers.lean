/-
# Enrichment changes no answer

Resolution reads of a schema which elements a definition has, their types and enumerations, and
the enumerations of named types.  A run keeps all of these, and what it defines has no
enumeration, so a type that is missing is still missing when the run takes its name.

* `enum?_run` : the enumeration behind every name is the same before and after a run;
* `enumOf?_run` and `enumeration?_run` : so are those of the elements of a schema;
* `rows?_run` : every request is answered as before, unless it asks for a definition of the run.
-/
import Picklist.Proofs.Enrichment.Runs
import Picklist.Proofs.Resolution

namespace Picklist

namespace Enrichment

open Resolution

variable {settings : Settings} {s : Schema} {n : String}

/-- A name that a run defines: it is free before and taken after. -/
def Defines (settings : Settings) (s : Schema) (n : String) : Prop :=
  s.get? n = none ∧ ∃ d, (run settings s).1.get? n = some d

/-! ## Enumerations before and after -/

/-- What a run defines has no enumeration. -/
theorem enum?_of_new {d : Definition} (hnew : s.get? n = none)
    (h : (run settings s).1.get? n = some d) : d.enum? = none := by
  unfold run at h
  split at h
  · rw [hnew] at h
    cases h
  · rcases get?_enrich_cases h with ⟨d, hget, -⟩ | ⟨-, rfl | rfl⟩
    · rw [hnew] at hget
      cases hget
    · rfl
    · rfl

/-- The enumeration that a name stands for is the same before and after a run. -/
theorem enum?_run (settings : Settings) (s : Schema) (n : String) :
    ((run settings s).1.get? n).bind Definition.enum? = (s.get? n).bind Definition.enum? := by
  cases hget : s.get? n with
  | some d =>
      obtain ⟨d', hget', hkept⟩ := (kept_run settings s).definitions n d hget
      rw [hget', Option.bind_some, Option.bind_some, hkept.enum]
  | none =>
      cases hrun : (run settings s).1.get? n with
      | some d => rw [Option.bind_some, enum?_of_new hget hrun, Option.bind_none]
      | none => rfl

/-- An element that is kept has the same enumeration before and after a run. -/
theorem enumOf?_run (settings : Settings) (s : Schema) {e e' : Element}
    (h : KeptElement e e') : (run settings s).1.enumOf? e' = s.enumOf? e := by
  unfold Schema.enumOf?
  rw [h.enum, h.type]
  cases e.enum? with
  | some enum => rfl
  | none =>
      cases e.type? with
      | none => rfl
      | some t =>
          cases t with
          | named name => exact enum?_run settings s name
          | other j => rfl

/-- An element of a schema is still there after a run, and it is kept. -/
theorem element?_run (settings : Settings) {entity element : String} {e : Element}
    (h : s.element? entity element = some e) :
    ∃ e', (run settings s).1.element? entity element = some e' ∧ KeptElement e e' := by
  obtain ⟨d, hget, helement⟩ := Option.bind_eq_some_iff.1 h
  obtain ⟨d', hget', hd⟩ := (kept_run settings s).definitions entity d hget
  obtain ⟨e', helement', he⟩ := hd.elements element e helement
  exact ⟨e', Option.bind_eq_some_iff.2 ⟨d', hget', helement'⟩, he⟩

/-- A run adds no elements to the definitions of a schema. -/
theorem element?_run_eq_none {d : Definition} (hget : s.get? n = some d) {element : String}
    (h : s.element? n element = none) : (run settings s).1.element? n element = none := by
  obtain ⟨d', hget', hd⟩ := (kept_run settings s).definitions n d hget
  rw [Schema.element?, hget] at h
  rw [Schema.element?, hget']
  exact hd.absent element h

/-- A name that the run does not define has elements with the same enumerations before and after
the run. -/
theorem enumeration?_run (h : ¬Defines settings s n) (element : String) :
    enumeration? (run settings s).1 n element = enumeration? s n element := by
  cases hget : s.get? n with
  | none =>
      have hrun : (run settings s).1.get? n = none :=
        Option.eq_none_iff_forall_ne_some.2 fun d hd => h ⟨hget, d, hd⟩
      rw [enumeration?, enumeration?, Schema.element?, Schema.element?, hget, hrun]
      rfl
  | some d =>
      rw [enumeration?, enumeration?]
      cases helement : s.element? n element with
      | none =>
          rw [element?_run_eq_none hget helement]
          rfl
      | some e =>
          obtain ⟨e', helement', hkept⟩ := element?_run settings helement
          rw [helement']
          exact enumOf?_run settings s hkept

/-! ## Answers before and after -/

/-- A request is answered by two schemas in the same way when they agree on the elements of the
definition that it asks for. -/
theorem rows?_congr {s t : Schema} {r : Request}
    (h : ∀ v, r.constant? "entityName" = some v → ∀ element,
      enumeration? s v.display element = enumeration? t v.display element) :
    rows? s r = rows? t r := by
  unfold rows?
  cases hentity : r.constant? "entityName" with
  | none => rfl
  | some v =>
      cases r.constant? "fieldName" with
      | none => rfl
      | some w => simp only [Option.bind_eq_bind, Option.bind_some, h v hentity]

/-- A request that is answered asks for a definition of the schema. -/
theorem not_defines_of_rows? {r : Request} {rows : List Row} (h : rows? s r = some rows)
    {v : Scalar} (hv : r.constant? "entityName" = some v) : ¬Defines settings s v.display := by
  rintro ⟨hnew, -⟩
  obtain ⟨entity, element, enum, hasked, -⟩ := rows?_eq_some_iff.1 h
  obtain ⟨w, hw, rfl⟩ := hasked.namesEntity
  obtain ⟨d, -, hget, -, -⟩ := hasked.known
  rw [← Request.constant?_eq_some_iff, hv, Option.some.injEq] at hw
  rw [← hw, hnew] at hget
  cases hget

/-- **A run changes no answer.**  A request that was answered is answered by the same rows.  A
request that was not answered is still not answered, unless it asks for a definition of the run.
And an element without an enumeration of its own whose type is not defined has no enumeration
after the run, even if the run defines a name like that of the type. -/
theorem rows?_run (settings : Settings) (s : Schema) (r : Request) :
    (∀ rows, rows? s r = some rows → rows? (run settings s).1 r = some rows) ∧
      (rows? s r = none →
        (∀ v, r.constant? "entityName" = some v → ¬Defines settings s v.display) →
        rows? (run settings s).1 r = none) ∧
      ∀ entity element e type, s.element? entity element = some e → e.enum? = none →
        e.type? = some (.named type) → s.get? type = none →
        ∃ e', (run settings s).1.element? entity element = some e' ∧
          (run settings s).1.enumOf? e' = none := by
  refine ⟨fun rows h => ?_, fun h hnew => ?_, fun entity element e type he henum htype hnone => ?_⟩
  · rw [← h]
    exact rows?_congr fun v hv element =>
      enumeration?_run (not_defines_of_rows? h hv) element
  · rw [← h]
    exact rows?_congr fun v hv element => enumeration?_run (hnew v hv) element
  · obtain ⟨e', he', hkept⟩ := element?_run settings he
    refine ⟨e', he', ?_⟩
    rw [enumOf?_run settings s hkept, Schema.enumOf?, henum, htype]
    simp [TypeRef.name?, hnone]

/-! ## A type with the name of the value list -/

/-- An element whose type has the name of the value list. -/
def stray : Element := Element.ofType (.named "EnumValueHelpView")

/-- The shop with an entity that holds the element. -/
def outlet : Schema :=
  shop.insert "Sales.Items" (Definition.entity (Dict.empty.insert "stray" stray))

/-- A request for an element of an entity by its parameters. -/
def asking (entity element : String) : Request :=
  { target := "EnumValueHelpView"
    filter := none
    data := (Dict.empty.insert "entityName" (.text entity)).insert "fieldName" (.text element) }

/-- The element of the shop is answered after the run as before.  The element whose type is not
defined is not answered, although the run defines that name. -/
theorem rows?_run_outlet :
    Defines {} outlet "EnumValueHelpView" ∧
      rows? (run {} outlet).1 (asking "Sales.Orders" "status") =
        some [⟨.text "O", "Sales.Orders", "status"⟩,
          ⟨.text "CLOSED", "Sales.Orders", "status"⟩] ∧
      rows? (run {} outlet).1 (asking "Sales.Items" "stray") = none := by
  have hdefines : Defines {} outlet "EnumValueHelpView" :=
    ⟨by decide, _, rfl⟩
  refine ⟨hdefines, (rows?_run {} outlet _).1 _ rfl, (rows?_run {} outlet _).2.1 rfl ?_⟩
  rintro v hv ⟨hnew, -⟩
  cases hv
  cases hnew

end Enrichment

end Picklist
