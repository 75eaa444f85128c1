/-
# Texts that repeat names

A text may repeat the names of an object; its value does not, since parsing merges the repeated
members.  A schema that is read off a text is also read off the value of the text: each record
keeps of repeated members what merging keeps of them, or refuses them.  When no object repeats a
name, text and value are the same document.

* `Members.map_merge` : merging does not look at the values;
* `ReadsValue` : what is read off a document is read off its value, too;
* `ReadsValue.foldMembers` : records of slots, by moving repeated members together;
* `Enumeration.readsValue_read` : enumerations, whose symbols keep their first position;
* `Document.eq_ofJson` : a document in which no name repeats is that of its value;
* `Schema.decode_read_of_toJson?` : loading from a text and from its value.
-/
import Picklist.Json.Reader
import Picklist.Json.Writer
import Picklist.Proofs.Schema.Layout

namespace Picklist

open Json

/-! ## Merging and values -/

namespace Members

variable {α β : Type}

/-- Putting a member does not look at the values. -/
theorem map_put (f : α → β) (ms : Members α) (name : String) (value : α) :
    (ms.put name value).map (fun m => (m.1, f m.2)) =
      put name (f value) (ms.map fun m => (m.1, f m.2)) := by
  induction ms with
  | nil => rfl
  | cons m rest ih =>
      obtain ⟨n, v⟩ := m
      by_cases hn : n = name
      · simp only [put, List.map_cons, if_pos hn]
      · simp only [put, List.map_cons, if_neg hn, ih]

/-- Merging does not look at the values. -/
theorem map_merge (f : α → β) (ms : Members α) :
    ms.merge.map (fun m => (m.1, f m.2)) = merge (ms.map fun m => (m.1, f m.2)) := by
  suffices h : ∀ start : Members α, (start.putAll ms).map (fun m => (m.1, f m.2)) =
      putAll (start.map fun m => (m.1, f m.2)) (ms.map fun m => (m.1, f m.2)) from h []
  induction ms with
  | nil => exact fun _ => rfl
  | cons m rest ih =>
      intro start
      have hput := map_put f start m.1 m.2
      exact (ih (start.put m.1 m.2)).trans (by rw [hput]; rfl)

end Members

/-! ## Documents in which no name repeats -/

namespace Document

mutual

/-- No object in the document repeats a name. -/
def Distinct : Document → Prop
  | .arr items _ => DistinctItems items
  | .obj members _ => (members.map Prod.fst).Nodup ∧ DistinctMembers members
  | _ => True

/-- No object in any of the items repeats a name. -/
def DistinctItems : List Document → Prop
  | [] => True
  | d :: rest => d.Distinct ∧ DistinctItems rest

/-- No object in any of the member values repeats a name. -/
def DistinctMembers : List (Document × Document) → Prop
  | [] => True
  | (_, d) :: rest => d.Distinct ∧ DistinctMembers rest

end

theorem map_fst_ofMembers (ms : Members Json) :
    (ofMembers ms).map Prod.fst = ms.names.map Document.str := by
  induction ms with
  | nil => rfl
  | cons m rest ih => exact congrArg (List.cons _) ih

mutual

/-- A document in which no name repeats is that of its value. -/
theorem eq_ofJson : (d : Document) → {v : Json} → d.toJson? = some v → d.Distinct → d = .ofJson v
  | .arr items closed, v, h, hd => by
      unfold toJson? at h
      split at h
      · rename_i xs hxs
        cases h
        rw [ofJson, eq_ofItems items hxs hd]
      · cases h
  | .obj members closed, v, h, hd => by
      unfold toJson? at h
      split at h
      · rename_i ms hms
        cases h
        obtain rfl := eq_ofMembers members hms hd.2
        have hn : (Members.names ms).Nodup := (map_fst_ofMembers ms ▸ hd.1).of_map _
        rw [Members.merge_of_nodup hn, ofJson]
      · cases h
  | .null, _, h, _ => by cases h; rfl
  | .bool _, _, h, _ => by cases h; rfl
  | .num _, _, h, _ => by cases h; rfl
  | .str _, _, h, _ => by cases h; rfl
  | .unstorable _, _, h, _ => by cases h
  | .broken, _, h, _ => by cases h

/-- Items in which no name repeats are those of their values. -/
theorem eq_ofItems : (items : List Document) → {xs : List Json} → toItems? items = some xs →
    DistinctItems items → items = ofItems xs
  | [], _, h, _ => by cases h; rfl
  | d :: rest, _, h, hd => by
      unfold toItems? at h
      split at h
      · rename_i x xs hx hxs
        cases h
        rw [ofItems, ← eq_ofJson d hx hd.1, ← eq_ofItems rest hxs hd.2]
      · cases h

/-- Members in which no name repeats inside are those of their values. -/
theorem eq_ofMembers : (members : List (Document × Document)) → {ms : Members Json} →
    toMembers? members = some ms → DistinctMembers members → members = ofMembers ms
  | [], _, h, _ => by cases h; rfl
  | (key, d) :: rest, _, h, hd => by
      unfold toMembers? at h
      split at h
      · rename_i name v ms hv hms
        cases h
        rw [ofMembers, ← eq_ofJson d hv hd.1, ← eq_ofMembers rest hms hd.2]
      · cases h

end

end Document

/-! ## Readers of documents and of their values -/

/-- What is read off a document is read off its value, too. -/
def ReadsValue {α : Type} (read : Decoder α) : Prop :=
  ∀ ⦃d v a⦄, Document.toJson? d = some v → read d = .ok a → read (.ofJson v) = .ok a

section Readers

variable {α β σ : Type} {read : Decoder α}

theorem readsValue_asJson : ReadsValue Document.asJson := fun d v a hv h => by
  rw [Document.asJson_eq_ok_iff, hv, Option.some.injEq] at h
  exact h ▸ Document.asJson_ofJson (Document.distinct_of_toJson? d hv)

theorem readsValue_asText : ReadsValue Document.asText := fun d v a hv h => by
  cases d with
  | str t =>
      cases hv
      exact h
  | _ => cases h

theorem readsValue_asBool : ReadsValue Document.asBool := fun d v a hv h => by
  cases d with
  | bool b =>
      cases hv
      exact h
  | _ => cases h

/-- A word has no members that could repeat. -/
theorem readsValue_asWord (known : List String) (type : String) :
    ReadsValue (Document.asWord known type) := fun d v a hv h => by
  have hd : d = .ofJson v := by
    unfold Document.asWord at h
    rw [hv] at h
    split at h
    · cases h
    · cases hv
      rfl
    · rename_i w closed _ _
      unfold Document.toJson? at hv
      split at hv
      · rename_i ms hms
        cases hms
        cases hv
        rfl
      · cases hv
    · cases h
  exact hd ▸ h

/-- What is done with the result of a reader does not matter. -/
theorem ReadsValue.bind (h : ReadsValue read) (k : α → Except Problem β) :
    ReadsValue fun d => read d >>= k := fun d v b hv hb => by
  obtain ⟨a, ha, hk⟩ := bind_eq_ok_iff.1 hb
  exact bind_eq_ok_iff.2 ⟨a, h hv ha, hk⟩

/-- What a result is mapped to does not matter. -/
theorem ReadsValue.map (h : ReadsValue read) (f : α → β) :
    ReadsValue fun d => (read d).map f := fun d v b hv hb => by
  obtain ⟨a, ha, hk⟩ := map_eq_ok_iff.1 hb
  exact map_eq_ok_iff.2 ⟨a, h hv ha, hk⟩

/-- Only `null` has the value `null`. -/
theorem ReadsValue.optional (h : ReadsValue read) : ReadsValue (Document.optional read) :=
  fun d v slot hv hslot => by
    by_cases hnull : v = .null
    · subst hnull
      obtain rfl := Document.eq_null_of_toJson? hv
      exact hslot
    · rw [Document.optional_of_ne_null hnull]
      cases d with
      | null =>
          cases hv
          exact absurd rfl hnull
      | _ => exact h.map some hv hslot

/-- Members that are read one by one can be replaced by their values. -/
theorem Document.stepMembers_of_toMembers? {step : σ → String → Document → Except Problem σ}
    (hstep : ∀ ⦃s s' name d v⦄, d.toJson? = some v → step s name d = .ok s' →
      step s name (.ofJson v) = .ok s')
    {members : List (Document × Document)} {ms : Members Json}
    (hms : toMembers? members = some ms) {s t : σ} (h : stepMembers step s members = .ok t) :
    stepMembers step s (ofMembers ms) = .ok t := by
  induction members generalizing ms s with
  | nil =>
      cases hms
      exact h
  | cons member rest ih =>
      obtain ⟨key, d⟩ := member
      unfold toMembers? at hms
      split at hms
      · rename_i name v ms' hv hms'
        cases hms
        obtain ⟨u, hu, hrest⟩ := bind_eq_ok_iff.1 h
        exact bind_eq_ok_iff.2 ⟨u, hstep hv hu, ih hms' hrest⟩
      · cases hms

/-- A document with a value that is read as a record is an object, and its members have
values. -/
theorem Document.exists_members_of_foldMembers
    {step : σ → String → Document → Except Problem σ} {expected : String} {start s : σ}
    {d : Document} {v : Json} (hv : d.toJson? = some v)
    (h : foldMembers expected step start d = .ok s) :
    ∃ members ms, toMembers? members = some ms ∧ v = .obj (Members.merge ms) ∧
      stepMembers step start members = .ok s := by
  obtain ⟨members, rfl, hs⟩ := foldMembers_eq_ok_iff.1 h
  unfold toJson? at hv
  split at hv
  · rename_i ms hms _
    cases hv
    exact ⟨members, ms, hms, rfl, hs⟩
  · cases hv

/-- A record of slots keeps of repeated members what merging keeps of them. -/
theorem ReadsValue.foldMembers {step : σ → String → Document → Except Problem σ}
    {slot : String → Slot σ} (hfiled : Filed step slot)
    (h : ∀ name, ReadsValue (slot name).read) (expected : String) (start : σ) :
    ReadsValue (Document.foldMembers expected step start) := fun d v s hv hs => by
  obtain ⟨members, ms, hms, rfl, hs⟩ := Document.exists_members_of_foldMembers hv hs
  rw [Document.foldMembers_ofMembers]
  -- the members are replaced by their values first, and merged then
  refine hfiled.independent.stepMembers_merge hfiled.overwrites ?_
  refine Document.stepMembers_of_toMembers? (fun s s' name d v hv hstep => ?_) hms hs
  obtain ⟨hfree, a, ha, rfl⟩ := hfiled.step_eq_ok_iff.1 hstep
  exact hfiled.step_eq_ok_iff.2 ⟨hfree, a, h name hv ha, rfl⟩

/-- A dictionary keeps the last value of a repeated name. -/
theorem ReadsValue.asDict (h : ReadsValue read) : ReadsValue (Document.asDict read) :=
  .foldMembers (Document.filed_asDict read) (fun _ => h) "a map" .empty

/-- A record with a layout keeps of repeated members what merging keeps of them, when its slots
do. -/
theorem Layout.readsValue_foldMembers {l : Layout σ}
    {step : σ → String → Document → Except Problem σ} (hfiled : Filed step l.slot)
    (h : ∀ p ∈ l.slots, ReadsValue p.read) (expected : String) (start : σ) :
    ReadsValue (Document.foldMembers expected step start) := by
  refine .foldMembers hfiled (fun name => ?_) expected start
  rcases l.slot_cases name with ⟨p, hp, -, heq⟩ | ⟨-, heq⟩ <;> rw [heq]
  · exact h p hp
  · exact readsValue_asJson

end Readers

/-! ## Nodes -/

/-- An enumeration keeps the first position and the last entry of a repeated symbol. -/
theorem Enumeration.readsValue_read : ReadsValue read := fun d v e hv h => by
  obtain ⟨members, ms, hms, rfl, h⟩ := Document.exists_members_of_foldMembers hv h
  -- symbols are not independent, since they stand in order: both readings are put next to each
  -- other instead, and putting merged entries again changes nothing
  have hdistinct := (Document.distinct_of_toJson? d hv).2
  have hentries : (Members.merge ms).map (fun m => (m.1, Entry.ofJson m.2)) =
      Members.merge (ms.map fun m => (m.1, Entry.ofJson m.2)) :=
    Members.map_merge Entry.ofJson ms
  have hmerged := stepMembers_eq_putAll (Document.toMembers?_ofMembers _ hdistinct) empty
  have hnames := Members.nodup_merge (ms.map fun m => (m.1, Entry.ofJson m.2))
  unfold read
  rw [Document.foldMembers_ofMembers, hmerged, hentries, ← h, stepMembers_eq_putAll hms]
  exact congrArg (fun es => Except.ok (mk es)) (Members.merge_of_nodup hnames)

theorem TypeRef.readsValue_read : ReadsValue read := readsValue_asJson.map ofJson

theorem SetQuery.readsValue_read : ReadsValue read := by
  refine .bind (Layout.readsValue_foldMembers filed_step ?_ _ _) _
  exact List.forall_mem_singleton.2 ((readsValue_asWord _ _).map _).optional

theorem Query.readsValue_read : ReadsValue read := by
  refine .bind (Layout.readsValue_foldMembers filed_step ?_ _ _) _
  exact List.forall_mem_singleton.2 SetQuery.readsValue_read.optional

theorem Element.readsValue_read : ReadsValue read := by
  refine .bind (Layout.readsValue_foldMembers filed_step ?_ _ _) _
  simp only [layout, List.forall_mem_cons, List.not_mem_nil, false_implies, implies_true, and_true]
  exact ⟨readsValue_asBool, TypeRef.readsValue_read.optional, Enumeration.readsValue_read.optional⟩

theorem Definition.readsValue_read : ReadsValue read := by
  refine .bind (Layout.readsValue_foldMembers filed_step ?_ _ _) _
  simp only [layout, List.forall_mem_cons, List.not_mem_nil, false_implies, implies_true, and_true]
  exact ⟨(readsValue_asWord _ _).map _, readsValue_asText.optional,
    TypeRef.readsValue_read.optional, Enumeration.readsValue_read.optional,
    Query.readsValue_read.optional, Element.readsValue_read.asDict⟩

namespace Schema

theorem readsValue_read : ReadsValue read := by
  refine .bind (Layout.readsValue_foldMembers filed_step ?_ _ _) _
  simp only [layout, List.forall_mem_cons, List.not_mem_nil, false_implies, implies_true, and_true]
  exact ⟨Definition.readsValue_read.asDict, readsValue_asJson.asDict⟩

/-- **Loading from a text agrees with loading from its value.**  A schema that is loaded from a
text is also loaded from the value of the text; and when no object in the text repeats a name,
whatever is loaded from the value is loaded from the text. -/
theorem decode_read_of_toJson? {t : String} {v : Json} (hv : (Json.read t).toJson? = some v) :
    (∀ s, (Json.read t).decode read = .ok s → (Reading.ofJson v).decode read = .ok s) ∧
      ((Json.read t).root.Distinct →
        ∀ s, (Reading.ofJson v).decode read = .ok s → (Json.read t).decode read = .ok s) := by
  have hcomplete : (Json.read t).complete = true ∧ (Json.read t).root.toJson? = some v := by
    unfold Reading.toJson? at hv
    split at hv
    · rename_i hc
      exact ⟨hc, hv⟩
    · cases hv
  obtain ⟨hcomplete, hroot⟩ := hcomplete
  have htext : (Json.read t).decode read = read (Json.read t).root := by
    rw [Reading.decode, hcomplete]
    exact bind_pure _
  have hvalue : (Reading.ofJson v).decode read = read (.ofJson v) := bind_pure _
  rw [htext, hvalue]
  refine ⟨fun s hs => readsValue_read hroot hs, fun hd s hs => ?_⟩
  rw [Document.eq_ofJson _ hroot hd]
  exact hs

/-- A value that repeats a top-level name, a definition, an annotation, an element and a
symbol; so does its text. -/
def repeating : Json :=
  .obj [("x", .bool false), ("x", .bool true), ("definitions", .obj [
    ("S", .obj [("kind", .str "type")]),
    ("S", .obj [("kind", .str "type"), ("@title", .null), ("@title", .str "T"),
      ("enum", .obj [("a", .null), ("b", .null), ("a", .bool true)]),
      ("elements", .obj [("e", .obj []), ("e", .obj [("key", .bool true)])])])])]

/-- The text that repeats names is loaded as its value is, with the symbols in order of their
first positions. -/
theorem decode_read_of_toJson?_repeating :
    ∃ v s, (Json.read repeating.compact).toJson? = some v ∧
      (Json.read repeating.compact).decode read = .ok s ∧
      (Reading.ofJson v).decode read = .ok s ∧
      ((s.get? "S").bind Definition.enum?).map (fun e => e.entries.names) = some ["a", "b"] := by
  have hread : (Json.read repeating.compact).toJson?.isSome = true ∧
      (((Json.read repeating.compact).decode read).toOption.bind fun s =>
        ((s.get? "S").bind Definition.enum?).map fun e => e.entries.names) = some ["a", "b"] := by
    decide +kernel
  obtain ⟨hvalue, hloaded⟩ := hread
  obtain ⟨v, hv⟩ := Option.isSome_iff_exists.1 hvalue
  obtain ⟨s, hs, hsymbols⟩ := Option.bind_eq_some_iff.1 hloaded
  have hs := eq_ok_of_toOption hs
  exact ⟨v, s, hv, hs, (decode_read_of_toJson? hv).1 s hs, hsymbols⟩

end Schema

end Picklist
