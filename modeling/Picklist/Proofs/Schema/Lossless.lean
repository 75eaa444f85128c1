/-
# Schemas are kept

Reading a schema and writing it again gives the normal form of its document, up to the order
of members.  Each kind of record has one lemma for a single member and one for the record;
those of the outer records use those of the inner ones.

* `SetQuery.lossless_read`, `Query.lossless_read`, `Element.lossless_read` and
  `Definition.lossless_read` : the records inside a schema are kept;
* `Schema.toValue_alike_normalForm` : so is the schema.
-/
import Picklist.Schema
import Picklist.Proofs.Annotation.Lossless
import Picklist.Proofs.Enumeration.Lossless

namespace Picklist

open Json

/-! ## Words and types -/

theorem SetOp.text_ofText (w : String) : (ofText w).text = w := by
  unfold ofText
  cases h : known.find? fun op => op.text = w with
  | none => rfl
  | some op => simpa using List.find?_some h

theorem Kind.text_ofText (w : String) : (ofText w).text = w := by
  unfold ofText
  cases h : known.find? fun k => k.text = w with
  | none => rfl
  | some k => simpa using List.find?_some h

theorem SetOp.lossless_read : Lossless read (fun op => .str op.text) plainWord :=
  (lossless_asWord _ _).map ofText fun w => congrArg Json.str (text_ofText w)

theorem Kind.lossless_read : Lossless read (fun k => .str k.text) plainWord :=
  (lossless_asWord _ _).map ofText fun w => congrArg Json.str (text_ofText w)

theorem TypeRef.lossless_read : Lossless read toJson id :=
  lossless_asJson.map ofJson toJson_ofJson

/-- The member of a slot that may also hold nothing. -/
theorem optionalMember_getD {α : Type} (name : String) (write : α → Json)
    (value : Option (Option α)) :
    optionalMember name write (value.getD none) = slot name (value.bind (Option.map write)) := by
  rcases value with _ | _ | a <;> rfl

/-- The member of a dictionary that is not written when it is empty. -/
theorem dictMember_getD {α : Type} (name : String) (write : α → Json)
    (value : Option (Dict String α)) :
    (if (value.getD .empty).isEmpty then []
      else [(name, .obj ((value.getD .empty).written write))]) =
    slot name (value.bind fun d => if d.isEmpty then none else some (.obj (d.written write))) := by
  cases value with
  | none => rfl
  | some d => cases hd : d.isEmpty <;> simp [hd]

/-! ## Queries -/

namespace SetQuery

/-- What is written of a half-read set query. -/
def Draft.content (s : Draft) : Multiset (String × Json) :=
  Members.bag (slot "op" (s.op?.bind (Option.map fun op => .str op.text))) +
    Members.bag s.extra.entries

theorem stepLossless_step : StepLossless Draft.content setRule step := by
  intro s s' name v hv hfresh h
  unfold step at h
  split at h
  · rw [setRule]
    refine SetOp.lossless_read.optional.content_once hv h rfl fun op? => ?_
    simp only [Draft.content, Option.bind_none, slot_none, Members.bag_nil, zero_add]
    ac_rfl
  · obtain rfl := eq_of_asJson hv h
    have hbag := bag_entries_insert v fun w hw => hfresh w (Multiset.mem_add.2 (.inr hw))
    simp only [Draft.content, hbag, setRule, slot_some]
    ac_rfl

theorem lossless_read : Lossless read toJson (mapMembers setRule) := by
  intro v q hv h
  obtain ⟨s, hs, hq⟩ := bind_eq_ok_iff.1 h
  cases hq
  refine stepLossless_step.alike rfl hv hs ?_
  rw [Draft.content, ← Members.bag_append]
  obtain ⟨_ | _ | op, extra⟩ := s <;> rfl

end SetQuery

namespace Query

/-- What is written of a half-read query. -/
def Draft.content (s : Draft) : Multiset (String × Json) :=
  Members.bag (slot "SET" (s.set?.bind (Option.map SetQuery.toJson))) +
    Members.bag s.extra.entries

theorem stepLossless_step : StepLossless Draft.content queryRule step := by
  intro s s' name v hv hfresh h
  unfold step at h
  split at h
  · rw [queryRule]
    refine SetQuery.lossless_read.optional.content_once hv h rfl fun set? => ?_
    simp only [Draft.content, Option.bind_none, slot_none, Members.bag_nil, zero_add]
    ac_rfl
  · obtain rfl := eq_of_asJson hv h
    have hbag := bag_entries_insert v fun w hw => hfresh w (Multiset.mem_add.2 (.inr hw))
    simp only [Draft.content, hbag, queryRule, slot_some]
    ac_rfl

theorem lossless_read : Lossless read toJson (mapMembers queryRule) := by
  intro v q hv h
  obtain ⟨s, hs, hq⟩ := bind_eq_ok_iff.1 h
  cases hq
  refine stepLossless_step.alike rfl hv hs ?_
  rw [Draft.content, ← Members.bag_append]
  obtain ⟨_ | _ | set, extra⟩ := s <;> rfl

end Query

/-! ## Elements -/

namespace Element

/-- What is written of a half-read element. -/
def Draft.content (s : Draft) : Multiset (String × Json) :=
  Members.bag (slot "key" (s.key.bind fun b => if b then some (.bool true) else none)) +
    Members.bag (slot "type" (s.type?.bind (Option.map TypeRef.toJson))) +
    Members.bag (slot "enum" (s.enum?.bind (Option.map Enumeration.toJson))) +
    Members.bag s.annotations.members

/-- Every member of an element is kept. -/
theorem stepLossless_step : StepLossless Draft.content elementRule step := by
  intro s s' name v hv hfresh h
  unfold step at h
  split at h
  · rw [elementRule]
    refine losslessMember_asBool.content_once hv h rfl fun key => ?_
    simp only [Draft.content, Option.bind_none, slot_none, Members.bag_nil, zero_add]
    ac_rfl
  · rw [elementRule]
    refine TypeRef.lossless_read.optional_id.content_once hv h rfl fun type? => ?_
    simp only [Draft.content, Option.bind_none, slot_none, Members.bag_nil, add_zero]
    ac_rfl
  · rw [elementRule]
    refine Enumeration.lossless_read.optional_id.content_once hv h rfl fun enum? => ?_
    simp only [Draft.content, Option.bind_none, slot_none, Members.bag_nil, add_zero]
    ac_rfl
  · obtain rfl := eq_of_asJson hv h
    have hbag := Annotations.bag_put hv fun w hw => hfresh w (Multiset.mem_add.2 (.inr hw))
    simp only [Draft.content, hbag, elementRule, slot_some]
    ac_rfl

theorem lossless_read : Lossless read toJson (mapMembers elementRule) := by
  intro v e hv h
  obtain ⟨s, hs, he⟩ := bind_eq_ok_iff.1 h
  cases he
  refine stepLossless_step.alike rfl hv hs ?_
  have hkey : (if s.key.getD false then [("key", Json.bool true)] else []) =
      slot "key" (s.key.bind fun b => if b then some (.bool true) else none) := by
    rcases s.key with _ | _ | _ <;> rfl
  simp only [members, hkey, optionalMember_getD, Members.bag_append]
  rfl

end Element

/-! ## Definitions -/

namespace Definition

/-- What is written of a half-read definition. -/
def Draft.content (s : Draft) : Multiset (String × Json) :=
  Members.bag (slot "kind" (s.kind?.bind fun k => some (.str k.text))) +
    Members.bag (slot "doc" (s.doc?.bind (Option.map Json.str))) +
    Members.bag (slot "type" (s.type?.bind (Option.map TypeRef.toJson))) +
    Members.bag (slot "enum" (s.enum?.bind (Option.map Enumeration.toJson))) +
    Members.bag (slot "query" (s.query?.bind (Option.map Query.toJson))) +
    Members.bag (slot "elements" (s.elements?.bind fun es =>
      if es.isEmpty then none else some (.obj (es.written Element.toJson)))) +
    Members.bag s.annotations.members

/-- Every member of a definition is kept. -/
theorem stepLossless_step : StepLossless Draft.content definitionRule step := by
  intro s s' name v hv hfresh h
  unfold step at h
  split at h
  · rw [definitionRule]
    refine Kind.lossless_read.member.content_once hv h rfl fun kind? => ?_
    simp only [Draft.content, Option.bind_none, slot_none, Members.bag_nil, zero_add]
    ac_rfl
  · rw [definitionRule]
    refine lossless_asText.optional_id.content_once hv h rfl fun doc? => ?_
    simp only [Draft.content, Option.bind_none, slot_none, Members.bag_nil, add_zero]
    ac_rfl
  · rw [definitionRule]
    refine TypeRef.lossless_read.optional_id.content_once hv h rfl fun type? => ?_
    simp only [Draft.content, Option.bind_none, slot_none, Members.bag_nil, add_zero]
    ac_rfl
  · rw [definitionRule]
    refine Enumeration.lossless_read.optional_id.content_once hv h rfl fun enum? => ?_
    simp only [Draft.content, Option.bind_none, slot_none, Members.bag_nil, add_zero]
    ac_rfl
  · rw [definitionRule]
    refine Query.lossless_read.optional.content_once hv h rfl fun query? => ?_
    simp only [Draft.content, Option.bind_none, slot_none, Members.bag_nil, add_zero]
    ac_rfl
  · rw [definitionRule]
    refine (losslessMember_asDict Element.lossless_read).content_once hv h rfl fun elements? => ?_
    simp only [Draft.content, Option.bind_none, slot_none, Members.bag_nil, add_zero]
    ac_rfl
  · obtain rfl := eq_of_asJson hv h
    have hbag := Annotations.bag_put hv fun w hw => hfresh w (Multiset.mem_add.2 (.inr hw))
    simp only [Draft.content, hbag, definitionRule, slot_some]
    ac_rfl

theorem lossless_read : Lossless read toJson (mapMembers definitionRule) := by
  intro v d hv h
  obtain ⟨s, hs, h⟩ := bind_eq_ok_iff.1 h
  obtain ⟨kind, hkind, hd⟩ := bind_eq_ok_iff.1 h
  cases hd
  refine stepLossless_step.alike rfl hv hs ?_
  have helements := dictMember_getD "elements" Element.toJson s.elements?
  simp only [Dict.written] at helements
  simp only [members, optionalMember_getD, helements, Members.bag_append]
  rw [Members.bag_cons ("kind", _), Draft.content, required_eq_ok_iff.1 hkind]
  rfl

end Definition

/-! ## Schemas -/

namespace Schema

/-- What is written of a half-read schema. -/
def Draft.content (s : Draft) : Multiset (String × Json) :=
  Members.bag (slot "definitions" (s.definitions?.bind fun ds =>
      some (.obj (ds.written Definition.toJson)))) +
    Members.bag (slot "meta" (s.metadata?.bind fun ds =>
      if ds.isEmpty then none else some (.obj (ds.written id)))) +
    Members.bag s.extra.entries

/-- Every top-level member is kept. -/
theorem stepLossless_step : StepLossless Draft.content schemaRule step := by
  intro s s' name v hv hfresh h
  unfold step at h
  split at h
  · rw [schemaRule]
    refine (lossless_asDict Definition.lossless_read).member.content_once hv h rfl fun ds => ?_
    simp only [Draft.content, Option.bind_none, slot_none, Members.bag_nil, zero_add]
    ac_rfl
  · have hrule : schemaRule "meta" v = (notEmpty v).map (mapMembers fun _ v => some (id v)) := by
      have hid : (mapMembers fun _ v => some (id v)) = id := funext mapMembers_some
      rw [schemaRule, hid, Option.map_id]
      rfl
    rw [hrule]
    refine (losslessMember_asDict lossless_asJson).content_once hv h rfl fun metadata? => ?_
    simp only [Draft.content, Option.bind_none, slot_none, Members.bag_nil, add_zero]
    ac_rfl
  · obtain rfl := eq_of_asJson hv h
    have hbag := bag_entries_insert v fun w hw => hfresh w (Multiset.mem_add.2 (.inr hw))
    simp only [Draft.content, hbag, schemaRule, slot_some]
    ac_rfl

/-- A schema that was read has a slot for definitions when its document has that member. -/
theorem isSome_definitions_iff {s : Draft} {v : Json} (hv : v.Distinct)
    (h : Document.foldMembers "struct Schema" step ⟨none, none, .empty⟩ (.ofJson v) = .ok s) :
    ∃ ms, v = .obj ms ∧ (s.definitions?.isSome = true ↔ "definitions" ∈ Members.names ms) := by
  refine Document.foldMembers_induction
    (P := fun s ms => s.definitions?.isSome = true ↔ "definitions" ∈ Members.names ms)
    (fun s s' pre name v hv _ hp hs => ?_) (by simp [Members.names]) hv h
  rw [Members.names, List.map_append, List.mem_append]
  unfold step at hs
  split at hs
  · obtain ⟨ds, hds, hs⟩ := bind_eq_ok_iff.1 hs
    obtain ⟨-, a, -, rfl⟩ := Document.once_eq_ok_iff.1 hds
    cases hs
    simp
  · obtain ⟨ds, -, hs⟩ := bind_eq_ok_iff.1 hs
    cases hs
    simpa [Members.names] using hp
  · rename_i hne _
    obtain rfl := eq_of_asJson hv hs
    simpa [Members.names, Ne.symm hne] using hp

/-- The members of a written schema. -/
theorem toJson_eq_obj (ds : Dict String Definition) (draft : Draft) :
    toJson ⟨ds, draft.metadata?.getD .empty, draft.extra⟩ = .obj
      (("definitions", .obj (ds.written Definition.toJson)) ::
        (slot "meta" (draft.metadata?.bind fun ds =>
          if ds.isEmpty then none else some (.obj (ds.written id))) ++ draft.extra.entries)) := by
  have hid : (draft.metadata?.getD .empty).written id = (draft.metadata?.getD .empty).entries :=
    List.map_id _
  rw [← dictMember_getD, hid]
  rfl

/-- **Nothing is lost.**  Reading a schema off a value and writing it gives the normal form of
the value, up to the order of members.  Values do not repeat a name inside an object. -/
theorem toValue_alike_normalForm {v : Json} {s : Schema} (hv : v.Distinct)
    (h : read (.ofJson v) = .ok s) : s.toValue.Alike v.normalForm := by
  obtain ⟨draft, hdraft, hs⟩ := bind_eq_ok_iff.1 h
  cases hs
  obtain ⟨ms, rfl, hcontent⟩ := stepLossless_step.content_eq rfl hv hdraft
  obtain ⟨ms', heq, hdefinitions⟩ := isSome_definitions_iff hv hdraft
  cases heq
  have hn : (schemaRule.apply ms).names.Nodup := (schemaRule.names_apply ms).nodup hv.1
  refine (alike_merged _).trans ?_
  -- the definitions are always written, also when the document has none
  rw [toJson_eq_obj, normalForm]
  refine Eq.symm ?_
  split
  · rename_i hmem
    obtain ⟨ds, hds⟩ := Option.isSome_iff_exists.1 (hdefinitions.2 hmem)
    refine alike_obj ?_ hn
    rw [← hcontent, Draft.content, hds, Members.bag_cons, Members.bag_append, add_assoc]
    rfl
  · rename_i hmem
    have hds : draft.definitions? = none := by
      rw [← Option.not_isSome_iff_eq_none, hdefinitions]
      exact hmem
    refine alike_obj ?_ (List.nodup_cons.2 ⟨fun hm => hmem ?_, hn⟩)
    · rw [Members.bag_cons _ (schemaRule.apply ms), ← hcontent, Draft.content, hds,
        Members.bag_cons _ (_ ++ _), Members.bag_append, Option.bind_none, slot_none,
        Members.bag_nil, zero_add]
      rfl
    · exact (schemaRule.names_apply ms).subset hm

/-- A document that says several things in a roundabout way. -/
def roundabout : Json :=
  .obj [("$version", .str "2.0"), ("meta", .obj []), ("definitions", .obj [("Orders", .obj [
    ("doc", .null), ("kind", .obj [("entity", .null)]), ("elements", .obj [("status", .obj [
      ("key", .bool false), ("type", .null), ("@title", .null),
      ("enum", .obj [("open", .obj [("val", .str "O"), ("note", .bool true)])])])])])])]

/-- The roundabout document is written in the plain way; the `null` title and all of the
enumeration stay. -/
theorem toValue_alike_normalForm_roundabout :
    roundabout.Distinct ∧ ∃ s, read (.ofJson roundabout) = .ok s ∧ s.toValue.Alike (
      .obj [("$version", .str "2.0"), ("definitions", .obj [("Orders", .obj [
        ("kind", .str "entity"), ("elements", .obj [("status", .obj [("@title", .null),
          ("enum", .obj [("open", .obj [("val", .str "O"), ("note", .bool true)])])])])])])]) := by
  have hdistinct : roundabout.Distinct := by simp [roundabout, Distinct, DistinctMembers]
  have hread : ∃ s, read (.ofJson roundabout) = .ok s := by
    have haccepted : (read (.ofJson roundabout)).toBool = true := by decide
    cases h : read (.ofJson roundabout) with
    | ok s => exact ⟨s, rfl⟩
    | error p => rw [h] at haccepted; cases haccepted
  obtain ⟨s, hs⟩ := hread
  have hform : roundabout.normalForm = .obj [("$version", .str "2.0"),
      ("definitions", .obj [("Orders", .obj [("kind", .str "entity"),
        ("elements", .obj [("status", .obj [("@title", .null),
          ("enum", .obj [("open", .obj [("val", .str "O"), ("note", .bool true)])])])])])])] := by
    simp [roundabout, normalForm, schemaRule, definitionRule, elementRule, Rule.apply,
      mapMembers, notNull, notEmpty, notFalse, plainWord]
  exact ⟨hdistinct, s, hs, hform ▸ toValue_alike_normalForm hdistinct hs⟩

end Schema

end Picklist
