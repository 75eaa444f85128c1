/-
# What enrichment defines

The value-list entity, its projections and the descriptors that point at them, spelled out
member by member.

* `ListsValues` : an entity with the three columns of a value list; `IsListEntity` and
  `IsProjection` are its two kinds;
* `isListEntity_iff`, `isProjection_iff` : a run defines just these;
* `ValueList.parameters_forElement`, `ValueList.constant?_forElement` : what a descriptor says.
-/
import Picklist.Enrichment
import Picklist.Proofs.Node

namespace Picklist

/-! ## Exact annotations -/

namespace Annotations

variable {a b : Annotations} {held : List (AnnotationKey × Annotation)}

/-- The annotations are those of a list, in which the first value of a key counts, and no
others. -/
structure Exactly (a : Annotations) (held : List (AnnotationKey × Annotation)) : Prop where
  known : ∀ k, a.get? k = held.lookup k
  extra : a.extra = .empty

theorem Exactly.unique (ha : a.Exactly held) (hb : b.Exactly held) : a = b := by
  obtain ⟨known, extra⟩ := a
  obtain ⟨known', extra'⟩ := b
  obtain rfl : known = known' := Dict.ext_get? fun k => (ha.known k).trans (hb.known k).symm
  obtain rfl : extra = extra' := ha.extra.trans hb.extra.symm
  rfl

theorem exactly_empty : empty.Exactly [] := ⟨fun _ => rfl, rfl⟩

theorem Exactly.insert (h : a.Exactly held) (key : AnnotationKey) (value : Annotation) :
    (a.insert key value).Exactly ((key, value) :: held) := by
  refine ⟨fun k => ?_, h.extra⟩
  rw [get?_insert, List.lookup_cons, h.known]
  by_cases hk : k = key
  · simp [hk]
  · rw [if_neg hk, beq_eq_false_iff_ne.2 hk]

end Annotations

namespace Enrichment

variable {settings : Settings} {shared isKey : Bool} {held : List (AnnotationKey × Annotation)}

/-! ## Columns -/

/-- A column of a value list: a text without an enumeration.  The shared entity says of each of
its columns that it is not computed. -/
structure IsColumn (shared isKey : Bool) (held : List (AnnotationKey × Annotation))
    (e : Element) : Prop where
  key : e.key = isKey
  type : e.type? = some (.named "cds.String")
  enum : e.enum? = none
  annotations : e.annotations.Exactly
    (if shared then (.coreComputed, .flag false) :: held else held)

theorem IsColumn.unique {e e' : Element} (h : IsColumn shared isKey held e)
    (h' : IsColumn shared isKey held e') : e = e' := by
  obtain ⟨hkey, htype, henum, hannotations⟩ := h
  obtain ⟨hkey', htype', henum', hannotations'⟩ := h'
  cases e
  cases e'
  rw [Element.mk.injEq]
  exact ⟨hkey.trans hkey'.symm, htype.trans htype'.symm, henum.trans henum'.symm,
    hannotations.unique hannotations'⟩

theorem isColumn_column {a : Annotations} (h : a.Exactly held) :
    IsColumn shared isKey held { column shared a with key := isKey } := by
  refine ⟨rfl, rfl, rfl, ?_⟩
  cases shared with
  | false => exact h
  | true => exact h.insert .coreComputed (.flag false)

/-- The columns of a value list: the value, which is the key and has a title, and the names of
the entity and the element that it is a value of. -/
structure HasColumns (settings : Settings) (shared : Bool) (elements : Dict String Element) :
    Prop where
  value : ∃ e, elements.get? "value" = some e ∧
    IsColumn shared true [(.title, .text settings.title)] e
  entityName : ∃ e, elements.get? "entityName" = some e ∧ IsColumn shared false [] e
  fieldName : ∃ e, elements.get? "fieldName" = some e ∧ IsColumn shared false [] e
  others : ∀ name, name ∉ ["value", "entityName", "fieldName"] → elements.get? name = none

theorem columnName_cases (name : String) :
    name = "value" ∨ name = "entityName" ∨ name = "fieldName" ∨
      name ∉ ["value", "entityName", "fieldName"] := by
  by_cases hname : name ∈ ["value", "entityName", "fieldName"]
  · simp only [List.mem_cons, List.not_mem_nil, or_false] at hname
    rcases hname with h | h | h
    · exact .inl h
    · exact .inr (.inl h)
    · exact .inr (.inr (.inl h))
  · exact .inr (.inr (.inr hname))

theorem HasColumns.unique {elements elements' : Dict String Element}
    (h : HasColumns settings shared elements) (h' : HasColumns settings shared elements') :
    elements = elements' := by
  apply Dict.ext_get?
  intro name
  have same : ∀ {column isKey held},
      (∃ e, elements.get? column = some e ∧ IsColumn shared isKey held e) →
      (∃ e, elements'.get? column = some e ∧ IsColumn shared isKey held e) →
      elements.get? column = elements'.get? column := by
    rintro _ _ _ ⟨e, he, hcolumn⟩ ⟨e', he', hcolumn'⟩
    rw [he, he', hcolumn.unique hcolumn']
  rcases columnName_cases name with rfl | rfl | rfl | hname
  · exact same h.value h'.value
  · exact same h.entityName h'.entityName
  · exact same h.fieldName h'.fieldName
  · rw [h.others name hname, h'.others name hname]

/-- Every element is one of the three columns. -/
theorem HasColumns.isColumn {elements : Dict String Element} {name : String} {e : Element}
    (h : HasColumns settings shared elements) (hget : elements.get? name = some e) :
    IsColumn shared true [(.title, .text settings.title)] e ∨ IsColumn shared false [] e := by
  have found : ∀ {P : Element → Prop}, (∃ e, elements.get? name = some e ∧ P e) → P e := by
    rintro P ⟨e', he', hP⟩
    cases hget.symm.trans he'
    exact hP
  rcases columnName_cases name with rfl | rfl | rfl | hname
  · exact .inl (found h.value)
  · exact .inr (found h.entityName)
  · exact .inr (found h.fieldName)
  · rw [h.others name hname] at hget
    cases hget

/-- Columns carry no annotations besides their title and that they are not computed. -/
theorem HasColumns.get?_annotations {elements : Dict String Element} {name : String} {e : Element}
    (h : HasColumns settings shared elements) (hget : elements.get? name = some e)
    {k : AnnotationKey} (htitle : k ≠ .title) (hcomputed : k ≠ .coreComputed) :
    e.annotations.get? k = none := by
  rcases h.isColumn hget with hvalue | hplain
  · rw [hvalue.annotations.known]
    cases shared <;> simp [htitle, hcomputed]
  · rw [hplain.annotations.known]
    cases shared <;> simp [hcomputed]

theorem hasColumns_columns (settings : Settings) (shared : Bool) :
    HasColumns settings shared (columns settings shared) := by
  have hget : ∀ name, (columns settings shared).get? name = List.lookup name _ :=
    fun name => Dict.get?_ofList (by simp) name
  have hempty : IsColumn shared false [] (column shared .empty) :=
    isColumn_column Annotations.exactly_empty
  refine ⟨⟨_, hget "value", isColumn_column (Annotations.exactly_empty.insert _ _)⟩,
    ⟨_, hget "entityName", hempty⟩, ⟨_, hget "fieldName", hempty⟩, fun name hname => ?_⟩
  rw [hget, lookup_eq_none_iff_notMem]
  exact hname

/-! ## Entities -/

/-- An entity that lists values: its columns, its documentation, its annotations, and nothing
else. -/
structure ListsValues (settings : Settings) (shared : Bool) (doc? : Option String)
    (held : List (AnnotationKey × Annotation)) (d : Definition) : Prop where
  kind : d.kind = .entity
  doc : d.doc? = doc?
  type : d.type? = none
  enum : d.enum? = none
  query : d.query? = none
  columns : HasColumns settings shared d.elements
  annotations : d.annotations.Exactly held

theorem ListsValues.unique {doc? : Option String} {d d' : Definition}
    (h : ListsValues settings shared doc? held d) (h' : ListsValues settings shared doc? held d') :
    d = d' := by
  obtain ⟨hkind, hdoc, htype, henum, hquery, hcolumns, hannotations⟩ := h
  obtain ⟨hkind', hdoc', htype', henum', hquery', hcolumns', hannotations'⟩ := h'
  cases d
  cases d'
  rw [Definition.mk.injEq]
  exact ⟨hkind.trans hkind'.symm, hdoc.trans hdoc'.symm, htype.trans htype'.symm,
    henum.trans henum'.symm, hquery.trans hquery'.symm, hcolumns.unique hcolumns',
    hannotations.unique hannotations'⟩

/-- The value-list entity is documented; it can be read only, and no table holds it. -/
def IsListEntity (settings : Settings) (d : Definition) : Prop :=
  ListsValues settings true (some settings.doc)
    [(.persistenceSkip, .flag true), (.readonly, .flag true)] d

/-- A projection of the value list is exposed by its service, and can be read only. -/
def IsProjection (settings : Settings) (d : Definition) : Prop :=
  ListsValues settings false none [(.readonly, .flag true), (.autoexpose, .flag true)] d

/-- A definition is a value-list entity exactly when it is the one that a run defines. -/
theorem isListEntity_iff {d : Definition} : IsListEntity settings d ↔ d = listEntity settings := by
  have h : IsListEntity settings (listEntity settings) :=
    ⟨rfl, rfl, rfl, rfl, rfl, hasColumns_columns settings true,
      (Annotations.exactly_empty.insert _ _).insert _ _⟩
  exact ⟨fun hd => hd.unique h, fun hd => hd ▸ h⟩

/-- A definition is a projection exactly when it is the one that a run defines. -/
theorem isProjection_iff {d : Definition} : IsProjection settings d ↔ d = projection settings := by
  have h : IsProjection settings (projection settings) :=
    ⟨rfl, rfl, rfl, rfl, rfl, hasColumns_columns settings false,
      (Annotations.exactly_empty.insert _ _).insert _ _⟩
  exact ⟨fun hd => hd.unique h, fun hd => hd ▸ h⟩

end Enrichment

/-! ## Descriptors -/

namespace ValueList

variable (path entity element : String)

@[simp] theorem path_forElement : (forElement path entity element).path = path := rfl

@[simp] theorem parameters_forElement :
    (forElement path entity element).parameters =
      [.inOut element "value", .constant "entityName" entity, .constant "fieldName" element] :=
  rfl

@[simp] theorem extra_forElement : (forElement path entity element).extra = .empty := rfl

/-- Two columns are fixed to the names of the entity and the element. -/
theorem constant?_forElement (property : String) :
    (forElement path entity element).constant? property =
      if property = "entityName" then some entity
      else if property = "fieldName" then some element
      else none := by
  simp only [constant?, parameters_forElement, List.findSome?]
  by_cases hentity : property = "entityName"
  · simp [hentity]
  · by_cases helement : property = "fieldName"
    · simp [helement]
    · simp [hentity, helement, Ne.symm hentity, Ne.symm helement]

end ValueList

end Picklist
