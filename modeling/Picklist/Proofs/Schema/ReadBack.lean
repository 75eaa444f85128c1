/-
# Schemas read back

A record is stable when its slots hold what their readers give, and its bags hold no name that
has a slot.  Every record that was read is stable, and every stable record reads back.  The
lemmas of the outer records use those of the inner ones.

* `Element.stable_of_read`, `Definition.stable_of_read` and `Schema.stable_of_read` : whatever
  was read is stable, off any document;
* `Element.readsBack`, `Definition.readsBack` and `Schema.readsBack` : what is stable reads
  back.
-/
import Picklist.Proofs.Annotation.ReadBack
import Picklist.Proofs.Enumeration.ReadBack
import Picklist.Proofs.Query.ReadBack

namespace Picklist

open Json

/-! ## Kinds and types -/

/-- A kind is stable when its word is read as the kind. -/
def Kind.Stable (k : Kind) : Prop := ofText k.text = k

theorem Kind.stable_of_read {d : Document} {k : Kind} (h : read d = .ok k) : k.Stable :=
  Document.ofText_text_of_asWord text_ofText h

theorem Kind.readsBack {k : Kind} (h : k.Stable) : ReadsBack read (fun k => .str k.text) k :=
  readsBack_asWord h _ _

namespace TypeRef

/-- A type reference is stable when it is the reference that its JSON value is, which is not
`null`. -/
structure Stable (t : TypeRef) : Prop where
  distinct : t.toJson.Distinct
  ne_null : t.toJson ≠ .null
  ofJson_toJson : ofJson t.toJson = t

theorem stable_named (name : String) : Stable (.named name) :=
  ⟨trivial, nofun, rfl⟩

/-- A type reference that was read off anything but `null` is stable. -/
theorem stable_of_read {d : Document} {t : TypeRef} (hd : d ≠ .null) (h : read d = .ok t) :
    t.Stable := by
  obtain ⟨j, hj, rfl⟩ := map_eq_ok_iff.1 h
  refine ⟨?_, ?_, ?_⟩
  · rw [toJson_ofJson]
    exact Document.distinct_of_asJson hj
  · rw [toJson_ofJson]
    rintro rfl
    exact hd (Document.eq_null_of_toJson? (Document.asJson_eq_ok_iff.1 hj))
  · rw [toJson_ofJson]

theorem readsBack {t : TypeRef} (h : t.Stable) : ReadsBack read toJson t where
  distinct := h.distinct
  read_ofJson := by
    rw [read, Document.asJson_ofJson h.distinct, Except.map, h.ofJson_toJson]

end TypeRef

/-! ## Elements -/

namespace Element

/-- The names of the members that an element has slots for. -/
def reserved : List String := ["key", "type", "enum"]

theorem text_notMem_reserved (key : AnnotationKey) : key.text ∉ reserved := by
  cases key <;> simp [AnnotationKey.text, reserved]

/-- An element is stable when its type, its enumeration and its annotations are. -/
structure Stable (e : Element) : Prop where
  type : ∀ t, e.type? = some t → t.Stable
  enum : ∀ enum, e.enum? = some enum → enum.Stable
  annotations : e.annotations.Stable reserved

theorem stable_empty : Stable ⟨false, none, none, .empty⟩ :=
  ⟨nofun, nofun, Annotations.stable_empty reserved⟩

theorem step_of_notMem (s : Draft) {name : String} (h : name ∉ reserved) (d : Document) :
    step s name d =
      d.asJson >>= fun j => pure { s with annotations := s.annotations.put name j } := by
  simp only [reserved, List.mem_cons, List.not_mem_nil, or_false, not_or] at h
  unfold step
  split
  · exact absurd rfl h.1
  · exact absurd rfl h.2.1
  · exact absurd rfl h.2.2
  · rfl

/-- An element that was read is stable. -/
theorem stable_of_read {d : Document} {e : Element} (h : read d = .ok e) : e.Stable := by
  obtain ⟨s, hs, h⟩ := bind_eq_ok_iff.1 h
  cases h
  refine Document.foldMembers_invariant
    (P := fun s : Draft => Stable
      ⟨s.key.getD false, s.type?.getD none, s.enum?.getD none, s.annotations⟩)
    (fun s s' name d hp h => ?_) hs stable_empty
  by_cases hname : name ∈ reserved
  · simp only [reserved, List.mem_cons, List.not_mem_nil, or_false] at hname
    rcases hname with rfl | rfl | rfl
    all_goals
      obtain ⟨slot, hslot, h⟩ := bind_eq_ok_iff.1 h
      cases h
    · exact { hp with }
    · exact { hp with type := Document.of_once_optional (fun _ _ => TypeRef.stable_of_read) hslot }
    · exact { hp with
        enum := Document.of_once_optional (fun _ _ _ => Enumeration.stable_of_read) hslot }
  · rw [step_of_notMem s hname] at h
    obtain ⟨j, hj, h⟩ := bind_eq_ok_iff.1 h
    cases h
    exact { hp with annotations := hp.annotations.put hname (Document.distinct_of_asJson hj) }

/-- The members of a stable element in front of its annotations stand in slots. -/
theorem Stable.slotted {e : Element} (h : e.Stable) :
    Slotted reserved ((if e.key then [("key", .bool true)] else []) ++
      optionalMember "type" TypeRef.toJson e.type? ++
        optionalMember "enum" Enumeration.toJson e.enum?) := by
  have hkey : Slotted ["key"] (if e.key then [("key", .bool true)] else []) :=
    (slotted_singleton "key" (v := .bool true) trivial).ite (slotted_nil ["key"])
  have htype := slotted_optionalMember "type" fun t ht => (h.type t ht).distinct
  have henum := slotted_optionalMember "enum" fun enum he =>
    (Enumeration.readsBack (h.enum enum he)).distinct
  exact (hkey.append htype).append henum

/-- A stable element reads back. -/
theorem readsBack {e : Element} (h : e.Stable) : ReadsBack read toJson e where
  distinct := h.annotations.sound.distinct_record text_notMem_reserved (by decide) h.slotted
  read_ofJson := by
    have hkey : Document.stepMembers step ⟨none, none, none, .empty⟩
        (Document.ofMembers (if e.key then [("key", .bool true)] else [])) =
          .ok ⟨if e.key then some true else none, none, none, .empty⟩ := by
      cases e.key <;> rfl
    have htype := Document.stepMembers_optionalMember step "type"
      (fun type? => ⟨if e.key then some true else none, type?, none, .empty⟩)
      (fun d => rfl) fun t ht => ⟨TypeRef.readsBack (h.type t ht), (h.type t ht).ne_null⟩
    have henum := Document.stepMembers_optionalMember step "enum"
      (fun enum? =>
        ⟨if e.key then some true else none, e.type?.map some, enum?, .empty⟩)
      (fun d => rfl) fun enum he => ⟨Enumeration.readsBack (h.enum enum he), nofun⟩
    have hannotations := Annotations.Stable.stepMembers_members step
      (fun annotations =>
        ⟨if e.key then some true else none, e.type?.map some, e.enum?.map some, annotations⟩)
      h.annotations text_notMem_reserved fun _ _ d hname => step_of_notMem _ hname d
    have hfixed := Document.stepMembers_append_of_ok
      (Document.stepMembers_append_of_ok hkey htype) henum
    have hfold := Document.foldMembers_ofJson_obj "struct Field"
      (Document.stepMembers_append_of_ok hfixed hannotations)
    refine bind_eq_ok_iff.2 ⟨_, hfold, ?_⟩
    obtain ⟨key, type?, enum?, annotations⟩ := e
    simp only [getD_map_some]
    cases key <;> rfl

end Element

/-! ## Definitions -/

namespace Definition

/-- The names of the members that a definition has slots for. -/
def reserved : List String := ["kind", "doc", "type", "enum", "query", "elements"]

theorem text_notMem_reserved (key : AnnotationKey) : key.text ∉ reserved := by
  cases key <;> simp [AnnotationKey.text, reserved]

/-- A definition is stable when its parts are. -/
structure Stable (d : Definition) : Prop where
  kind : d.kind.Stable
  type : ∀ t, d.type? = some t → t.Stable
  enum : ∀ enum, d.enum? = some enum → enum.Stable
  query : ∀ q, d.query? = some q → q.Stable
  elements : ∀ name e, d.elements.get? name = some e → e.Stable
  annotations : d.annotations.Stable reserved

theorem stable_ofKind {k : Kind} (h : k.Stable) : (ofKind k).Stable where
  kind := h
  type := nofun
  enum := nofun
  query := nofun
  elements _ _ h := nomatch h
  annotations := Annotations.stable_empty reserved

theorem step_of_notMem (s : Draft) {name : String} (h : name ∉ reserved) (d : Document) :
    step s name d =
      d.asJson >>= fun j => pure { s with annotations := s.annotations.put name j } := by
  simp only [reserved, List.mem_cons, List.not_mem_nil, or_false, not_or] at h
  unfold step
  split
  · exact absurd rfl h.1
  · exact absurd rfl h.2.1
  · exact absurd rfl h.2.2.1
  · exact absurd rfl h.2.2.2.1
  · exact absurd rfl h.2.2.2.2.1
  · exact absurd rfl h.2.2.2.2.2
  · rfl

/-- A half-read definition is stable when it is one with every stable kind, since its own kind
may still be missing. -/
def Draft.Stable (s : Draft) : Prop :=
  (∀ k, s.kind? = some k → k.Stable) ∧
    ∀ k : Kind, k.Stable → Definition.Stable ⟨k, s.doc?.getD none, s.type?.getD none,
      s.enum?.getD none, s.query?.getD none, s.elements?.getD .empty, s.annotations⟩

/-- Every member keeps a half-read definition stable. -/
theorem stable_step {s s' : Draft} {name : String} {d : Document} (hs : s.Stable)
    (h : step s name d = .ok s') : s'.Stable := by
  -- a member with a slot changes that slot only, any other the annotations only
  by_cases hname : name ∈ reserved
  · simp only [reserved, List.mem_cons, List.not_mem_nil, or_false] at hname
    rcases hname with rfl | rfl | rfl | rfl | rfl | rfl
    all_goals
      obtain ⟨slot, hslot, h⟩ := bind_eq_ok_iff.1 h
      cases h
    · obtain ⟨-, k, hk, rfl⟩ := Document.once_eq_ok_iff.1 hslot
      refine ⟨fun k' hk' => ?_, hs.2⟩
      cases hk'
      exact Kind.stable_of_read hk
    · exact ⟨hs.1, fun k hk => { hs.2 k hk with }⟩
    · have hslot := Document.of_once_optional (fun _ _ => TypeRef.stable_of_read) hslot
      exact ⟨hs.1, fun k hk => { hs.2 k hk with type := hslot }⟩
    · have hslot := Document.of_once_optional (fun _ _ _ => Enumeration.stable_of_read) hslot
      exact ⟨hs.1, fun k hk => { hs.2 k hk with enum := hslot }⟩
    · have hslot := Document.of_once_optional (fun _ _ _ => Query.stable_of_read) hslot
      exact ⟨hs.1, fun k hk => { hs.2 k hk with query := hslot }⟩
    · obtain ⟨-, es, hes, rfl⟩ := Document.once_eq_ok_iff.1 hslot
      have helements := Document.get?_of_asDict (fun _ _ => Element.stable_of_read) hes
      exact ⟨hs.1, fun k hk => { hs.2 k hk with elements := helements }⟩
  · rw [step_of_notMem s hname] at h
    obtain ⟨j, hj, h⟩ := bind_eq_ok_iff.1 h
    cases h
    refine ⟨hs.1, fun k hk => { hs.2 k hk with annotations := ?_ }⟩
    exact (hs.2 k hk).annotations.put hname (Document.distinct_of_asJson hj)

theorem stable_of_read {d : Document} {def' : Definition} (h : read d = .ok def') :
    def'.Stable := by
  obtain ⟨s, hs, h⟩ := bind_eq_ok_iff.1 h
  obtain ⟨kind, hkind, h⟩ := bind_eq_ok_iff.1 h
  cases h
  have hempty : Draft.empty.Stable := ⟨nofun, fun _ hk => stable_ofKind hk⟩
  have hstable := Document.foldMembers_invariant (P := Draft.Stable)
    (fun _ _ _ _ hp h => stable_step hp h) hs hempty
  exact hstable.2 kind (hstable.1 kind (required_eq_ok_iff.1 hkind))

theorem Stable.readsBack_elements {d : Definition} (h : d.Stable) :
    ReadsBack (Document.asDict Element.read) (fun es => .obj (es.written Element.toJson))
      d.elements :=
  .asDict fun name e hget => Element.readsBack (h.elements name e hget)

/-- The members in slots and the annotations of a definition. -/
theorem toJson_eq (d : Definition) :
    d.toJson = .obj ([("kind", .str d.kind.text)] ++ optionalMember "doc" Json.str d.doc? ++
      optionalMember "type" TypeRef.toJson d.type? ++
      optionalMember "enum" Enumeration.toJson d.enum? ++
      optionalMember "query" Query.toJson d.query? ++
      (if d.elements.isEmpty then [] else
        [("elements", .obj (d.elements.written Element.toJson))]) ++
      d.annotations.members) := rfl

/-- The members of a stable definition in front of its annotations stand in slots. -/
theorem Stable.slotted {d : Definition} (h : d.Stable) :
    Slotted reserved ([("kind", .str d.kind.text)] ++ optionalMember "doc" Json.str d.doc? ++
      optionalMember "type" TypeRef.toJson d.type? ++
      optionalMember "enum" Enumeration.toJson d.enum? ++
      optionalMember "query" Query.toJson d.query? ++
      if d.elements.isEmpty then [] else
        [("elements", .obj (d.elements.written Element.toJson))]) := by
  have hkind := slotted_singleton "kind" (Kind.readsBack h.kind).distinct
  have hdoc := slotted_optionalMember "doc" fun t (_ : d.doc? = some t) =>
    (readsBack_asText t).distinct
  have htype := slotted_optionalMember "type" fun t ht => (h.type t ht).distinct
  have henum := slotted_optionalMember "enum" fun enum he =>
    (Enumeration.readsBack (h.enum enum he)).distinct
  have hquery := slotted_optionalMember "query" fun q hq =>
    (Query.readsBack (h.query q hq)).distinct
  have helements : Slotted ["elements"] (if d.elements.isEmpty then [] else
      [("elements", .obj (d.elements.written Element.toJson))]) :=
    (slotted_nil ["elements"]).ite (slotted_singleton "elements" h.readsBack_elements.distinct)
  exact ((((hkind.append hdoc).append htype).append henum).append hquery).append helements

/-- A stable definition reads back. -/
theorem readsBack {d : Definition} (h : d.Stable) : ReadsBack read toJson d where
  distinct := by
    rw [toJson_eq]
    exact h.annotations.sound.distinct_record text_notMem_reserved (by decide) h.slotted
  read_ofJson := by
    -- the members fill the slots in turn; each finds those before it filled and all others free
    have hkind := Document.stepMembers_slot step "kind"
      (fun kind? => ⟨kind?, none, none, none, none, none, .empty⟩) (fun _ => rfl)
      (Kind.readsBack h.kind).read_ofJson
    have hdoc := Document.stepMembers_optionalMember step "doc"
      (fun doc? => ⟨some d.kind, doc?, none, none, none, none, .empty⟩) (fun _ => rfl)
      fun t (_ : d.doc? = some t) => ⟨readsBack_asText t, nofun⟩
    have htype := Document.stepMembers_optionalMember step "type"
      (fun type? => ⟨some d.kind, d.doc?.map some, type?, none, none, none, .empty⟩)
      (fun _ => rfl) fun t ht => ⟨TypeRef.readsBack (h.type t ht), (h.type t ht).ne_null⟩
    have henum := Document.stepMembers_optionalMember step "enum"
      (fun enum? => ⟨some d.kind, d.doc?.map some, d.type?.map some, enum?, none, none, .empty⟩)
      (fun _ => rfl) fun enum he => ⟨Enumeration.readsBack (h.enum enum he), nofun⟩
    have hquery := Document.stepMembers_optionalMember step "query"
      (fun query? => ⟨some d.kind, d.doc?.map some, d.type?.map some, d.enum?.map some, query?,
        none, .empty⟩)
      (fun _ => rfl) fun q hq => ⟨Query.readsBack (h.query q hq), nofun⟩
    have helements := Document.stepMembers_slot_unless step "elements"
      (fun elements? => ⟨some d.kind, d.doc?.map some, d.type?.map some, d.enum?.map some,
        d.query?.map some, elements?, .empty⟩)
      (p := d.elements.isEmpty) (fun _ => rfl) h.readsBack_elements.read_ofJson
    have hannotations := Annotations.Stable.stepMembers_members step
      (fun annotations => ⟨some d.kind, d.doc?.map some, d.type?.map some, d.enum?.map some,
        d.query?.map some, if d.elements.isEmpty then none else some d.elements, annotations⟩)
      h.annotations text_notMem_reserved fun _ _ d hname => step_of_notMem _ hname d
    have hword := Document.stepMembers_append_of_ok hkind hdoc
    have hshape := Document.stepMembers_append_of_ok
      (Document.stepMembers_append_of_ok hword htype) henum
    have hfixed := Document.stepMembers_append_of_ok
      (Document.stepMembers_append_of_ok hshape hquery) helements
    have hfold := Document.foldMembers_ofJson_obj "struct Definition"
      (Document.stepMembers_append_of_ok hfixed hannotations)
    rw [toJson_eq]
    refine bind_eq_ok_iff.2 ⟨_, hfold, ?_⟩
    simp only [required, getD_map_some, Dict.getD_unless_isEmpty]
    rfl

end Definition

/-! ## Schemas -/

namespace Schema

/-- The names of the members that a schema has slots for. -/
def reserved : List String := ["definitions", "meta"]

/-- A schema is stable when its definitions are, and its metadata and other members are
free. -/
structure Stable (s : Schema) : Prop where
  definitions : ∀ name d, s.get? name = some d → d.Stable
  metadata : s.metadata.Free []
  extra : s.extra.Free reserved

theorem stable_empty : empty.Stable where
  definitions _ _ h := nomatch h
  metadata := Dict.free_empty []
  extra := Dict.free_empty reserved

theorem step_of_notMem (s : Draft) {name : String} (h : name ∉ reserved) (d : Document) :
    step s name d = d.asJson >>= fun j => pure { s with extra := s.extra.insert name j } := by
  simp only [reserved, List.mem_cons, List.not_mem_nil, or_false, not_or] at h
  unfold step
  split
  · exact absurd rfl h.1
  · exact absurd rfl h.2
  · rfl

/-- **Whatever is read is stable**, off any text or value. -/
theorem stable_of_read {d : Document} {s : Schema} (h : read d = .ok s) : s.Stable := by
  obtain ⟨draft, hdraft, h⟩ := bind_eq_ok_iff.1 h
  cases h
  refine Document.foldMembers_invariant
    (P := fun s : Draft => Stable ⟨s.definitions?.getD .empty, s.metadata?.getD .empty, s.extra⟩)
    (fun s s' name d hp h => ?_) hdraft stable_empty
  by_cases hname : name ∈ reserved
  · simp only [reserved, List.mem_cons, List.not_mem_nil, or_false] at hname
    rcases hname with rfl | rfl
    all_goals
      obtain ⟨slot, hslot, h⟩ := bind_eq_ok_iff.1 h
      cases h
      obtain ⟨-, dict, hdict, rfl⟩ := Document.once_eq_ok_iff.1 hslot
    · have hdefinitions := Document.get?_of_asDict (fun _ _ => Definition.stable_of_read) hdict
      exact { hp with definitions := hdefinitions }
    · have hmetadata := Document.get?_of_asDict (fun _ _ => Document.distinct_of_asJson) hdict
      exact { hp with metadata := fun key v hget => ⟨hmetadata key v hget, List.not_mem_nil⟩ }
  · rw [step_of_notMem s hname] at h
    obtain ⟨j, hj, h⟩ := bind_eq_ok_iff.1 h
    cases h
    exact { hp with extra := hp.extra.insert hname (Document.distinct_of_asJson hj) }

theorem Stable.readsBack_definitions {s : Schema} (h : s.Stable) :
    ReadsBack (Document.asDict Definition.read) (fun ds => .obj (ds.written Definition.toJson))
      s.definitions :=
  .asDict fun name d hget => Definition.readsBack (h.definitions name d hget)

theorem Stable.readsBack_metadata {s : Schema} (h : s.Stable) :
    ReadsBack (Document.asDict Document.asJson) (fun ms => .obj (ms.written id)) s.metadata :=
  .asDict fun key v hget => readsBack_asJson (h.metadata key v hget).1

/-- The metadata are written like any dictionary. -/
theorem toJson_eq (s : Schema) :
    s.toJson = .obj ([("definitions", .obj (s.definitions.written Definition.toJson))] ++
      (if s.metadata.isEmpty then [] else [("meta", .obj (s.metadata.written id))]) ++
        s.extra.entries) := by
  have hid : s.metadata.written id = s.metadata.entries := List.map_id _
  rw [hid]
  rfl

/-- **A stable schema reads back.** -/
theorem readsBack {s : Schema} (h : s.Stable) : ReadsBack read toJson s where
  distinct := by
    have hdefinitions := slotted_singleton "definitions" h.readsBack_definitions.distinct
    have hmetadata : Slotted ["meta"]
        (if s.metadata.isEmpty then [] else [("meta", .obj (s.metadata.written id))]) :=
      (slotted_nil ["meta"]).ite (slotted_singleton "meta" h.readsBack_metadata.distinct)
    rw [toJson_eq]
    exact h.extra.distinct_record (by decide) (hdefinitions.append hmetadata)
  read_ofJson := by
    have hdefinitions := Document.stepMembers_slot step "definitions"
      (fun definitions? => ⟨definitions?, none, .empty⟩) (fun _ => rfl)
      h.readsBack_definitions.read_ofJson
    have hmetadata := Document.stepMembers_slot_unless step "meta"
      (fun metadata? => ⟨some s.definitions, metadata?, .empty⟩)
      (p := s.metadata.isEmpty) (fun _ => rfl) h.readsBack_metadata.read_ofJson
    have hbag := Document.stepMembers_bag step
      (fun extra => ⟨some s.definitions, if s.metadata.isEmpty then none else some s.metadata,
        extra⟩)
      h.extra fun _ _ d hname => step_of_notMem _ hname d
    have hfixed := Document.stepMembers_append_of_ok hdefinitions hmetadata
    have hfold := Document.foldMembers_ofJson_obj "struct Schema"
      (Document.stepMembers_append_of_ok hfixed hbag)
    rw [toJson_eq]
    refine bind_eq_ok_iff.2 ⟨_, hfold, ?_⟩
    simp only [Dict.getD_unless_isEmpty]
    rfl

end Schema

end Picklist
