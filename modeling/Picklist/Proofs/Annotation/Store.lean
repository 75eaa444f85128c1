/-
# Annotations under any operations

A recognised key can be set through its key or through its name, and to a value of any kind, also
to one that reading would not give it.  Whatever is done to annotations, what they are written as
can be read, and then every key is present, and counts as set, exactly when it was before.

* `Annotations.Sound.apply` and `Annotations.Sound.applyAll` : operations keep annotations sound;
* `Annotations.Sound.read_toJson` : sound annotations are read as `Annotations.retaken`;
* `Annotations.truthy_retaken` and `Annotations.Sound.alike_retaken` : what this keeps;
* `Annotations.kept_applyAll` : all of it together.
-/
import Picklist.Proofs.Annotation.ReadBack

namespace Picklist

open Json

/-- An annotation that is taken in counts as set exactly when the value does. -/
theorem Annotation.truthy_ofJson (key : AnnotationKey) (j : Json) :
    (ofJson key j).truthy = j.truthy := by
  unfold ofJson
  split
  · split <;> rfl
  · cases j <;> rfl

namespace Annotations

/-! ## Operations -/

/-- What can be done to annotations. -/
inductive Operation where
  | insert (key : AnnotationKey) (value : Annotation)
  | put (name : String) (value : Json)
  | setFlag (key : AnnotationKey) (flag : Bool)
  | setText (key : AnnotationKey) (text : String)

namespace Operation

/-- The annotations after an operation. -/
def apply (a : Annotations) : Operation → Annotations
  | insert key value => a.insert key value
  | put name value => a.put name value
  | setFlag key flag => a.setFlag key flag
  | setText key text => a.setText key text

/-- The value that an operation brings in repeats no name.  A descriptor may, since what is
written of it is merged. -/
def Valid : Operation → Prop
  | insert _ (.raw j) => j.Distinct
  | put _ j => j.Distinct
  | _ => True

end Operation

/-- The annotations after some operations. -/
def applyAll (ops : List Operation) (a : Annotations) : Annotations :=
  ops.foldl Operation.apply a

/-- Annotations that nothing was done to yet: none at all, or some that were read. -/
def New (a : Annotations) : Prop := a = empty ∨ ∃ d, read d = .ok a

/-! ## Soundness -/

variable {a : Annotations}

/-- A valid operation keeps annotations sound. -/
theorem Sound.apply (h : a.Sound []) {op : Operation} (hop : op.Valid) :
    (op.apply a).Sound [] := by
  cases op with
  | insert key value =>
      refine Sound.insert h key ?_
      cases value with
      | flag _ => trivial
      | text _ => trivial
      | list l => exact distinct_merged l.toJson
      | raw j => exact hop
  | put name j => exact Sound.put h List.not_mem_nil hop
  | setFlag key flag => exact Sound.insert h key trivial
  | setText key text => exact Sound.insert h key trivial

theorem Sound.applyAll (h : a.Sound []) {ops : List Operation} (hops : ∀ op ∈ ops, op.Valid) :
    (applyAll ops a).Sound [] := by
  induction ops generalizing a with
  | nil => exact h
  | cons op rest ih =>
      rw [List.forall_mem_cons] at hops
      exact ih (h.apply hops.1) hops.2

theorem New.sound (h : a.New) : a.Sound [] := by
  rcases h with rfl | ⟨d, h⟩
  · exact sound_empty []
  · refine Document.foldMembers_invariant (P := Sound []) (fun a a' name d hp h => ?_) h
      (sound_empty [])
    obtain ⟨j, hj, rfl⟩ := map_eq_ok_iff.1 h
    exact hp.put List.not_mem_nil (Document.distinct_of_asJson hj)

/-! ## Writing and reading -/

/-- Writing and reading keep which keys are present. -/
theorem contains_retaken (a : Annotations) (key : AnnotationKey) :
    a.retaken.contains key = a.contains key := by
  change (Dict.get? _ key).isSome = _
  rw [retaken, Dict.get?_mapValues, Option.isSome_map]
  rfl

/-- Writing and reading keep which keys count as set. -/
theorem truthy_retaken (a : Annotations) (key : AnnotationKey) :
    a.retaken.truthy key = a.truthy key := by
  change (Dict.get? _ key).any _ = _
  rw [retaken, Dict.get?_mapValues, Option.any_map]
  refine congrArg (a.get? key).any (funext fun v => ?_)
  have hv := Annotation.truthy_ofJson key v.toJson
  exact hv.trans v.truthy_toJson

/-- Sound annotations are written the same after they were written and read. -/
theorem Sound.alike_retaken (h : a.Sound []) : a.retaken.toJson.Alike a.toJson := by
  have hknown : ∀ m ∈ a.known.entries,
      (m.1.text, sorted <| Annotation.toJson <| .ofJson m.1 m.2.toJson) =
        (m.1.text, m.2.toJson.sorted) := by
    intro m hm
    have hdistinct := h.known m.1 m.2 (Dict.get?_eq_some_iff.2 hm)
    have halike := Annotation.toJson_ofJson_alike m.1 hdistinct
    exact congrArg (m.1.text, ·) halike
  have hmembers : sortedMembers a.retaken.members = sortedMembers a.members := by
    simp only [sortedMembers_eq_map, members, retaken, Dict.mapValues, List.map_append,
      List.map_map, Function.comp_def]
    rw [List.map_congr_left hknown]
  rw [Alike, toJson, toJson, sorted, sorted, hmembers]

/-- Sound annotations that were written are read, each taken in again. -/
theorem Sound.read_toJson (h : a.Sound []) : read (.ofJson a.toJson) = .ok a.retaken := by
  refine Document.foldMembers_ofJson_obj _ (h.stepMembers_members _ id (fun _ => List.not_mem_nil)
    fun b name v _ => ?_)
  cases v.asJson <;> rfl

/-- The names of written annotations are the texts of the keys that are present, and the names of
the others. -/
theorem mem_names_members {name : String} :
    name ∈ Members.names a.members ↔
      (∃ key, a.contains key = true ∧ key.text = name) ∨ a.extra.contains name = true := by
  rw [names_members, List.mem_append, List.mem_map]
  simp only [← Dict.contains_iff]
  rfl

/-! ## Everything that is kept -/

/-- Annotations are kept when they are written and read.  No other annotation has the text of a
recognised key for its name, and no name is written twice; and reading what was written gives
annotations that differ at most in how their recognised values are held. -/
structure Kept (a : Annotations) : Prop where
  unrecognised : ∀ key : AnnotationKey, a.extra.get? key.text = none
  nodup : (Members.names a.members).Nodup
  names : ∀ name, name ∈ Members.names a.members ↔
    (∃ key, a.contains key = true ∧ key.text = name) ∨ a.extra.contains name = true
  reading : ∃ b, read (.ofJson a.toJson) = .ok b ∧
    (∀ key, b.contains key = a.contains key) ∧ (∀ key, b.truthy key = a.truthy key) ∧
      b.extra = a.extra ∧ b.toJson.Alike a.toJson

/-- **Annotations are kept whatever is done to them.**  Start without annotations or with some that
were read, and set any keys and names to any values, one after the other.  Then no recognised key is
held by its name, every one that is present is written once, and so is every other name; and reading
what is written gives annotations with the same keys present and set, with the same others, and
written the same. -/
theorem kept_applyAll {start : Annotations} (hstart : start.New) {ops : List Operation}
    (hops : ∀ op ∈ ops, op.Valid) : (applyAll ops start).Kept := by
  have h := hstart.sound.applyAll hops
  exact {
    unrecognised := h.get?_text
    nodup := h.nodup_names
    names := fun _ => mem_names_members
    reading := ⟨(applyAll ops start).retaken, h.read_toJson, contains_retaken _,
      truthy_retaken _, rfl, h.alike_retaken⟩ }

/-- Some annotations that were read. -/
def authored : Annotations :=
  (empty.put "@title" (.str "Orders")).put "@readonly" .null

/-- Operations that set keys to values that reading does not give them: a descriptor under the key
of a text, one whose other members hide its path, and a truth value that is held as any value. -/
def unusual : List Operation :=
  [.insert .title (.list ⟨"Codes", [], .empty⟩),
    .insert .valueList (.list ⟨"Codes", [], Dict.empty.insert "CollectionPath" .null⟩),
    .insert .readonly (.raw (.bool true)), .setText .autoexpose "", .put "note" (.obj [])]

/-- Reading what is written after these operations gives a title that is no descriptor, and a flag
for `@readonly`; the keys that are present and those that count as set are the same. -/
theorem kept_applyAll_unusual :
    authored.New ∧ (∀ op ∈ unusual, op.Valid) ∧ (applyAll unusual authored).Kept ∧
      (applyAll unusual authored).truthy .valueList = true ∧
      (applyAll unusual authored).retaken.valueList? = none ∧
      (applyAll unusual authored).get? .readonly = some (.raw (.bool true)) ∧
      (applyAll unusual authored).retaken.get? .readonly = some (.flag true) := by
  have hnew : authored.New :=
    .inr ⟨.ofJson (.obj [("@title", .str "Orders"), ("@readonly", .null)]), rfl⟩
  have hvalid : ∀ op ∈ unusual, op.Valid := by
    intro op hop
    simp only [unusual, List.mem_cons, List.not_mem_nil, or_false] at hop
    rcases hop with rfl | rfl | rfl | rfl | rfl
    · trivial
    · trivial
    · trivial
    · trivial
    · exact distinct_obj_iff.2 ⟨List.nodup_nil, fun m hm => absurd hm List.not_mem_nil⟩
  exact ⟨hnew, hvalid, kept_applyAll hnew hvalid, by decide, rfl, rfl, rfl⟩

end Annotations

end Picklist
