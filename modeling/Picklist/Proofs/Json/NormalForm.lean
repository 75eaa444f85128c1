/-
# The normal form of a schema document

A schema document can say the same in several ways: a member that is absent may be written
as `null`, `false` or empty, and a word as an object with one member.  The normal form says
everything in one way, and it touches nothing else.

* a `Rule` says what becomes of a member by its name, and `Json.mapMembers` applies it to an
  object;
* `setRule`, `queryRule`, `elementRule`, `definitionRule` and `schemaRule` are the rules of
  the five kinds of objects;
* `Json.normalForm` is the normal form of a whole document.
-/
import Picklist.Json.Basic

namespace Picklist

/-! ## Rules -/

/-- What becomes of the members of an object: a member has another value afterwards, or it
is dropped. -/
abbrev Rule := String → Json → Option Json

/-- The members that a rule gives. -/
def Rule.apply (rule : Rule) (ms : Members Json) : Members Json :=
  ms.filterMap fun m => (rule m.1 m.2).map fun v => (m.1, v)

namespace Json

/-- Applies a rule to the members of an object; other values stay. -/
def mapMembers (rule : Rule) : Json → Json
  | .obj members => .obj (rule.apply members)
  | other => other

/-- Drops `null`. -/
def notNull : Json → Option Json
  | .null => none
  | other => some other

/-- Drops the object without members. -/
def notEmpty : Json → Option Json
  | .obj [] => none
  | other => some other

/-- Drops `false`. -/
def notFalse : Json → Option Json
  | .bool false => none
  | other => some other

/-- Writes an object whose only member is `null` as the name of that member. -/
def plainWord : Json → Json
  | .obj [(word, .null)] => .str word
  | other => other

/-! ## The rules of a schema document -/

/-- The members of a set query: an operation is a plain word. -/
def setRule : Rule
  | "op", v => (notNull v).map plainWord
  | _, v => some v

/-- The members of a query. -/
def queryRule : Rule
  | "SET", v => (notNull v).map (mapMembers setRule)
  | _, v => some v

/-- The members of an element: it belongs to the key, or it does not say so. -/
def elementRule : Rule
  | "key", v => notFalse v
  | "type", v => notNull v
  | "enum", v => notNull v
  | _, v => some v

/-- The members of a definition: a kind is a plain word. -/
def definitionRule : Rule
  | "kind", v => some (plainWord v)
  | "doc", v => notNull v
  | "type", v => notNull v
  | "enum", v => notNull v
  | "query", v => (notNull v).map (mapMembers queryRule)
  | "elements", v => (notEmpty v).map (mapMembers fun _ e => some (mapMembers elementRule e))
  | _, v => some v

/-- The top-level members. -/
def schemaRule : Rule
  | "definitions", v => some (mapMembers (fun _ d => some (mapMembers definitionRule d)) v)
  | "meta", v => notEmpty v
  | _, v => some v

/-- The normal form of a schema document; it always has definitions. -/
def normalForm : Json → Json
  | .obj members =>
    if "definitions" ∈ members.map Prod.fst then .obj (schemaRule.apply members)
    else .obj (("definitions", .obj []) :: schemaRule.apply members)
  | other => other

end Json

/-! ## Names after a rule -/

namespace Rule

variable (rule : Rule)

/-- A rule treats each part of a list of members on its own. -/
theorem apply_append (ms ns : Members Json) :
    rule.apply (ms ++ ns) = rule.apply ms ++ rule.apply ns :=
  List.filterMap_append

/-- A member is there after a rule when the rule keeps a member of that name. -/
theorem mem_apply_iff {ms : Members Json} {name : String} {v : Json} :
    (name, v) ∈ rule.apply ms ↔ ∃ w, (name, w) ∈ ms ∧ rule name w = some v := by
  rw [apply, List.mem_filterMap]
  constructor
  · rintro ⟨⟨n, w⟩, hm, hr⟩
    obtain ⟨v', hv, he⟩ := Option.map_eq_some_iff.1 hr
    obtain ⟨rfl, rfl⟩ := Prod.mk.inj he
    exact ⟨w, hm, hv⟩
  · rintro ⟨w, hm, hr⟩
    exact ⟨(name, w), hm, by rw [hr]; rfl⟩

/-- A rule adds no names, and repeats none. -/
theorem names_apply (ms : Members Json) : (rule.apply ms).names.Sublist ms.names := by
  induction ms with
  | nil => exact List.Sublist.refl _
  | cons m rest ih =>
      rw [apply, List.filterMap_cons]
      cases hr : rule m.1 m.2 with
      | none => exact ih.cons _
      | some v => exact ih.cons_cons _

/-- A name that a rule drops is gone afterwards. -/
theorem notMem_names_apply {ms : Members Json} {name : String} (h : ∀ v, rule name v = none) :
    name ∉ (rule.apply ms).names := by
  intro hm
  obtain ⟨⟨n, v⟩, hv, rfl⟩ := List.mem_map.1 hm
  obtain ⟨w, -, hw⟩ := (rule.mem_apply_iff).1 hv
  rw [h w] at hw
  cases hw

/-- A rule that keeps all members as they are changes nothing. -/
theorem apply_eq_self {ms : Members Json} (h : ∀ m ∈ ms, rule m.1 m.2 = some m.2) :
    rule.apply ms = ms := by
  induction ms with
  | nil => rfl
  | cons m rest ih =>
      rw [List.forall_mem_cons] at h
      rw [apply, List.filterMap_cons, h.1]
      exact congrArg (m :: ·) (ih h.2)

end Rule

/-- The rule that keeps all members leaves a value as it is. -/
theorem Json.mapMembers_some (j : Json) : mapMembers (fun _ v => some v) j = j := by
  cases j with
  | obj ms => rw [mapMembers, Rule.apply_eq_self _ fun _ _ => rfl]
  | _ => rfl

end Picklist
