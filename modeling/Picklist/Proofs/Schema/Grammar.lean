/-
# The grammar of schemas

The grammar says which values are schemas, member by member and without a reader; a member that
no rule names may be anything.  Reading accepts what the grammar describes and nothing else.
Each shape of the grammar has one lemma about the readers of that shape, and the lemmas of outer
records use those of inner ones.

* `IsSchema` : the grammar;
* `Accepts` : a reader accepts exactly the values of a shape;
* `accepts_asWord`, `Accepts.optional`, `Accepts.asDict` and `Accepts.foldMembers` : the shapes;
* `Definition.accepts_read` and `Schema.accepts_read` : definitions and schemas;
* `Schema.exists_decode_iff` : loading a schema, alone or by the plugin, succeeds on the grammar
  only.
-/
import Picklist.Plugin
import Picklist.Proofs.Schema.Layout

namespace Picklist

/-! ## Shapes of values -/

namespace Json

/-- A truth value. -/
def IsBool (v : Json) : Prop := ∃ b, v = .bool b

/-- A text. -/
def IsText (v : Json) : Prop := ∃ t, v = .str t

/-- `null`, or a value of the shape. -/
def OrNull (p : Json → Prop) (v : Json) : Prop := v = .null ∨ p v

/-- A text, or an object whose only member has one of the words as its name and is `null`. -/
def IsWord (words : List String) (v : Json) : Prop :=
  v.IsText ∨ ∃ w ∈ words, v = .obj [(w, .null)]

/-- An object whose members all follow a rule, which may depend on the name. -/
def IsObject (rule : String → Json → Prop) (v : Json) : Prop :=
  ∃ ms : Members Json, v = .obj ms ∧ ∀ m ∈ ms, rule m.1 m.2

@[simp] theorem isObject_obj {rule : String → Json → Prop} {ms : Members Json} :
    (Json.obj ms).IsObject rule ↔ ∀ m ∈ ms, rule m.1 m.2 :=
  ⟨fun ⟨_, heq, h⟩ => Json.obj.inj heq ▸ h, fun h => ⟨ms, rfl, h⟩⟩

/-- An object that has a member of the name. -/
def HasMember (name : String) (v : Json) : Prop :=
  ∃ ms : Members Json, v = .obj ms ∧ name ∈ ms.names

@[simp] theorem hasMember_obj {name : String} {ms : Members Json} :
    (Json.obj ms).HasMember name ↔ name ∈ ms.names :=
  ⟨fun ⟨_, heq, h⟩ => Json.obj.inj heq ▸ h, fun h => ⟨ms, rfl, h⟩⟩

/-- An object with any members. -/
def AnyObject : Json → Prop := IsObject fun _ _ => True

end Json

/-! ## The grammar -/

open Json

/-- The rule for the members of a set query. -/
def SetQueryMember (name : String) (v : Json) : Prop :=
  match name with
  | "op" => v.OrNull (IsWord ["union", "intersect", "except"])
  | _ => True

/-- The rule for the members of a query. -/
def QueryMember (name : String) (v : Json) : Prop :=
  match name with
  | "SET" => v.OrNull (IsObject SetQueryMember)
  | _ => True

/-- The rule for the members of an element; its type may be anything. -/
def ElementMember (name : String) (v : Json) : Prop :=
  match name with
  | "key" => v.IsBool
  | "enum" => v.OrNull AnyObject
  | _ => True

/-- The rule for the members of a definition; its type may be anything. -/
def DefinitionMember (name : String) (v : Json) : Prop :=
  match name with
  | "kind" => v.IsWord
      ["action", "aspect", "context", "entity", "event", "function", "service", "type"]
  | "doc" => v.OrNull IsText
  | "enum" => v.OrNull AnyObject
  | "query" => v.OrNull (IsObject QueryMember)
  | "elements" => v.IsObject fun _ => IsObject ElementMember
  | _ => True

/-- A definition: an object with a kind. -/
def IsDefinition (v : Json) : Prop := v.IsObject DefinitionMember ∧ v.HasMember "kind"

/-- The rule for the members of a schema. -/
def SchemaMember (name : String) (v : Json) : Prop :=
  match name with
  | "definitions" => v.IsObject fun _ => IsDefinition
  | "meta" => v.AnyObject
  | _ => True

/-- A schema. -/
def IsSchema : Json → Prop := IsObject SchemaMember

/-! ## Readers of shapes -/

/-- The reader accepts exactly the values of the shape, among those that repeat no name. -/
def Accepts {α : Type} (read : Decoder α) (p : Json → Prop) : Prop :=
  ∀ ⦃v⦄, v.Distinct → ((∃ a, read (.ofJson v) = .ok a) ↔ p v)

section Readers

variable {α β σ : Type} {read : Decoder α} {p : Json → Prop}

theorem accepts_asJson : Accepts Document.asJson fun _ => True :=
  fun v hv => iff_of_true ⟨v, Document.asJson_ofJson hv⟩ trivial

theorem accepts_asText : Accepts Document.asText IsText := fun v _ => by
  constructor
  · rintro ⟨t, h⟩
    exact ⟨t, Document.asText_ofJson h⟩
  · rintro ⟨t, rfl⟩
    exact ⟨t, rfl⟩

theorem accepts_asBool : Accepts Document.asBool IsBool := fun v _ => by
  constructor
  · rintro ⟨b, h⟩
    exact ⟨b, Document.asBool_ofJson h⟩
  · rintro ⟨b, rfl⟩
    exact ⟨b, rfl⟩

/-- A word is accepted as a word of the vocabulary. -/
theorem accepts_asWord (known : List String) (type : String) :
    Accepts (Document.asWord known type) (IsWord known) := fun v hv => by
  have hobj (w : String) : Document.asWord known type (.ofJson (.obj [(w, .null)])) =
      if w ∈ known then .ok w else .error (.noVariant type) := rfl
  constructor
  · rintro ⟨w, h⟩
    rcases Document.asWord_ofJson hv h with rfl | rfl
    · exact .inl ⟨w, rfl⟩
    · rw [hobj] at h
      split at h
      · rename_i hw
        exact .inr ⟨w, hw, rfl⟩
      · cases h
  · rintro (⟨w, rfl⟩ | ⟨w, hw, rfl⟩)
    · exact ⟨w, rfl⟩
    · exact ⟨w, (hobj w).trans (if_pos hw)⟩

theorem Accepts.map (h : Accepts read p) (f : α → β) : Accepts (fun d => (read d).map f) p :=
  fun v hv => by
    rw [← h hv]
    constructor
    · rintro ⟨b, hb⟩
      obtain ⟨a, ha, -⟩ := map_eq_ok_iff.1 hb
      exact ⟨a, ha⟩
    · rintro ⟨a, ha⟩
      exact ⟨f a, map_eq_ok_iff.2 ⟨a, ha, rfl⟩⟩

/-- A reader whose result is only put together accepts what the reader accepts. -/
theorem Accepts.pure (h : Accepts read p) (f : α → β) :
    Accepts (fun d => do return f (← read d)) p := by
  have heq : (fun d => do return f (← read d)) = fun d => (read d).map f := by
    funext d
    cases read d <;> rfl
  exact heq ▸ h.map f

/-- A value that may be left out is accepted as `null` too. -/
theorem Accepts.optional (h : Accepts read p) : Accepts (Document.optional read) (OrNull p) :=
  fun v hv => by
    by_cases hnull : v = .null
    · subst hnull
      exact iff_of_true ⟨none, rfl⟩ (.inl rfl)
    · rw [Document.optional_of_ne_null hnull, OrNull, or_iff_right hnull]
      exact h.map some hv

/-- A record of slots is accepted when each member is accepted by the reader of its slot. -/
theorem Accepts.foldMembers {step : σ → String → Document → Except Problem σ}
    {slot : String → Slot σ} (hfiled : Filed step slot) {start : σ}
    (hfree : ∀ name, (slot name).free start = true) {rule : String → Json → Prop}
    (h : ∀ name, Accepts (slot name).read (rule name)) (expected : String) :
    Accepts (Document.foldMembers expected step start) (IsObject rule) := fun v hv => by
  cases v with
  | obj ms =>
      rw [distinct_obj_iff] at hv
      have hmembers : (∃ s, Document.stepMembers step start (Document.ofMembers ms) = .ok s) ↔
          ∀ m ∈ ms, rule m.1 m.2 := by
        rw [hfiled.exists_stepMembers_iff hfree hv.1]
        exact forall₂_congr fun m hm => h m.1 (hv.2 m hm)
      rw [Document.foldMembers_ofMembers, hmembers, isObject_obj]
  | _ => exact iff_of_false (fun h => nomatch h) fun ⟨_, heq, _⟩ => nomatch heq

theorem Accepts.asDict (h : Accepts read p) :
    Accepts (Document.asDict read) (IsObject fun _ => p) :=
  .foldMembers (Document.filed_asDict read) (fun _ => rfl) (fun _ => h) "a map"

/-- A record with a layout is accepted when its slots follow a rule that allows anything for
the members of all other names. -/
theorem Layout.accepts_foldMembers {l : Layout σ}
    {step : σ → String → Document → Except Problem σ} (hfiled : Filed step l.slot) {start : σ}
    (hfree : ∀ p ∈ l.slots, p.free start = true) {rule : String → Json → Prop}
    (hslots : ∀ p ∈ l.slots, Accepts p.read (rule p.name))
    (hbag : ∀ name, name ∉ l.names → ∀ v, rule name v) (expected : String) :
    Accepts (Document.foldMembers expected step start) (IsObject rule) := by
  refine .foldMembers hfiled (l.free_slot hfree) (fun name => ?_) expected
  rcases l.slot_cases name with ⟨p, hp, rfl, heq⟩ | ⟨hname, heq⟩ <;> rw [heq]
  · exact hslots p hp
  · exact fun v hv => (accepts_asJson hv).trans (iff_of_true trivial (hbag name hname v))

end Readers

/-! ## Nodes -/

/-- Any object is accepted as an enumeration. -/
theorem Enumeration.accepts_read : Accepts read AnyObject := fun v hv => by
  cases v with
  | obj ms =>
      have hread := stepMembers_eq_putAll (Document.toMembers?_ofMembers ms hv.2) empty
      rw [← Document.foldMembers_ofMembers _ "an enum definition map"] at hread
      exact iff_of_true ⟨_, hread⟩ (isObject_obj.2 fun _ _ => trivial)
  | _ => exact iff_of_false (fun h => nomatch h) fun ⟨_, heq, _⟩ => nomatch heq

theorem TypeRef.accepts_optional_read : Accepts (Document.optional read) fun _ => True :=
  fun _ hv => ((accepts_asJson.map ofJson).optional hv).trans (iff_of_true (.inr trivial) trivial)

theorem SetQuery.accepts_read : Accepts read (IsObject SetQueryMember) := by
  refine .pure (Layout.accepts_foldMembers filed_step ?_ ?_ (fun name hname v => ?_) _) _
  · simp [layout, Slot.ofOnce]
  · exact List.forall_mem_singleton.2 ((accepts_asWord _ _).map _).optional
  · unfold SetQueryMember
    split <;> first | contradiction | trivial

theorem Query.accepts_read : Accepts read (IsObject QueryMember) := by
  refine .pure (Layout.accepts_foldMembers filed_step ?_ ?_ (fun name hname v => ?_) _) _
  · simp [layout, Slot.ofOnce]
  · exact List.forall_mem_singleton.2 SetQuery.accepts_read.optional
  · unfold QueryMember
    split <;> first | contradiction | trivial

/-- An element is accepted when it follows the grammar. -/
theorem Element.accepts_read : Accepts read (IsObject ElementMember) := by
  refine .pure (Layout.accepts_foldMembers filed_step ?_ ?_ (fun name hname v => ?_) _) _
  · simp [layout, Slot.ofOnce]
  · simp only [layout, List.forall_mem_cons, List.not_mem_nil, false_implies, implies_true,
      and_true]
    exact ⟨accepts_asBool, TypeRef.accepts_optional_read, Enumeration.accepts_read.optional⟩
  · unfold ElementMember
    split <;> first | contradiction | trivial

namespace Definition

/-- The members of a definition are accepted when they follow the grammar. -/
theorem accepts_foldMembers :
    Accepts (Document.foldMembers "struct Definition" step .empty)
      (IsObject DefinitionMember) := by
  refine Layout.accepts_foldMembers filed_step ?_ ?_ (fun name hname v => ?_) _
  · simp [layout, Slot.ofOnce, Draft.empty]
  · simp only [layout, List.forall_mem_cons, List.not_mem_nil, false_implies, implies_true,
      and_true]
    exact ⟨(accepts_asWord _ _).map _, accepts_asText.optional, TypeRef.accepts_optional_read,
      Enumeration.accepts_read.optional, Query.accepts_read.optional, Element.accepts_read.asDict⟩
  · unfold DefinitionMember
    split <;> first | contradiction | trivial

/-- A definition whose members were read has a kind when one of them gives it. -/
theorem isSome_kind?_iff {ms : Members Json} {s : Draft}
    (h : Document.stepMembers step .empty (Document.ofMembers ms) = .ok s) :
    s.kind?.isSome = true ↔ "kind" ∈ ms.names := by
  have hfull : ∀ v s, (layout.slot "kind").free ((layout.slot "kind").set v s) = false :=
    fun _ _ => rfl
  have hfree : s.kind?.isNone = true ↔ Draft.empty.kind?.isNone = true ∧ "kind" ∉ ms.names :=
    filed_step.free_of_stepMembers hfull h
  rw [← Bool.not_eq_false, Option.isSome_eq_false_iff, hfree]
  simp [Draft.empty]

/-- A definition is accepted when it follows the grammar, and so has a kind. -/
theorem accepts_read : Accepts read IsDefinition := fun v hv => by
  -- behind the members, a kind is all that can still be missing
  rw [IsDefinition, ← accepts_foldMembers hv]
  constructor
  · rintro ⟨def', h⟩
    obtain ⟨s, hs, h⟩ := bind_eq_ok_iff.1 h
    obtain ⟨kind, hkind, -⟩ := bind_eq_ok_iff.1 h
    obtain ⟨ms, rfl, -⟩ := (accepts_foldMembers hv).1 ⟨s, hs⟩
    refine ⟨⟨s, hs⟩, hasMember_obj.2 ?_⟩
    rw [Document.foldMembers_ofMembers] at hs
    rw [← isSome_kind?_iff hs, required_eq_ok_iff.1 hkind]
    rfl
  · rintro ⟨⟨s, hs⟩, ms, rfl, hkind⟩
    have hsteps := (Document.foldMembers_ofMembers _ _ _ ms).symm.trans hs
    obtain ⟨kind, hkind⟩ := Option.isSome_iff_exists.1 ((isSome_kind?_iff hsteps).2 hkind)
    exact ⟨_, bind_eq_ok_iff.2
      ⟨s, hs, bind_eq_ok_iff.2 ⟨kind, required_eq_ok_iff.2 hkind, rfl⟩⟩⟩

end Definition

namespace Schema

/-- A schema is accepted when it follows the grammar. -/
theorem accepts_read : Accepts read IsSchema := by
  refine .pure (Layout.accepts_foldMembers filed_step ?_ ?_ (fun name hname v => ?_) _) _
  · simp [layout, Slot.ofOnce]
  · simp only [layout, List.forall_mem_cons, List.not_mem_nil, false_implies, implies_true,
      and_true]
    exact ⟨Definition.accepts_read.asDict, accepts_asJson.asDict⟩
  · unfold SchemaMember
    split <;> first | contradiction | trivial

/-- **Exactly the schemas of the grammar are loaded.**  A value is read as a schema when it
follows the grammar, and the plugin, whatever its settings, fails to load it when it does not.
Values do not repeat a name inside an object. -/
theorem exists_decode_iff {v : Json} (hv : v.Distinct) :
    ((∃ s, (Reading.ofJson v).decode read = .ok s) ↔ IsSchema v) ∧
      ∀ plugin : Plugin, (∃ e, plugin.loadValue v = .error e) ↔ ¬ IsSchema v := by
  have hdecode : (Reading.ofJson v).decode read = read (.ofJson v) := bind_pure _
  refine ⟨?_, fun plugin => ?_⟩
  · rw [hdecode]
    exact accepts_read hv
  · rw [← accepts_read hv, Plugin.loadValue, Plugin.load, hdecode]
    cases read (.ofJson v) <;> simp

/-- A schema with one definition, which uses what the grammar leaves open; the `key` of its
element is given. -/
def sprawling (key : Json) : Json :=
  .obj [("version", .null), ("meta", .obj [("note", .arr [])]), ("definitions", .obj [("Orders",
    .obj [("type", .arr [.null]), ("doc", .null), ("@title", .obj []),
      ("query", .obj [("SET", .obj [("op", .obj [("union", .null)]), ("args", .bool true)])]),
      ("kind", .obj [("entity", .null)]),
      ("elements", .obj [("status", .obj [("type", .obj [("ref", .arr [])]), ("enum", .null),
        ("key", key)])])])])]

/-- With a truth value as `key` the schema is loaded, with `null` no plugin loads it. -/
theorem exists_decode_iff_sprawling :
    (∃ s, (Reading.ofJson (sprawling (.bool true))).decode read = .ok s) ∧
      ∀ plugin : Plugin, ∃ e, plugin.loadValue (sprawling .null) = .error e := by
  have hdistinct : ∀ key, key.Distinct → (sprawling key).Distinct := by
    simp [sprawling, Distinct, DistinctMembers, DistinctItems]
  have hschema : ∀ key, IsSchema (sprawling key) ↔ key.IsBool := by
    simp [sprawling, IsSchema, SchemaMember, IsDefinition, DefinitionMember, QueryMember,
      SetQueryMember, ElementMember, AnyObject, OrNull, IsWord, Members.names]
  constructor
  · exact (exists_decode_iff (hdistinct (.bool true) trivial)).1.2 ((hschema _).2 ⟨true, rfl⟩)
  · intro plugin
    refine ((exists_decode_iff (hdistinct .null trivial)).2 plugin).2 fun h => ?_
    obtain ⟨b, hb⟩ := (hschema .null).1 h
    cases hb

end Schema

end Picklist
