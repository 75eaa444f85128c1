/-
# The layouts of the records of a schema

Schemas, definitions, elements, queries and set queries file their members in slots of the
names that they know, and in a bag of all others: a dictionary, or the annotations of the node.

* `Annotations.put_comm` and `Annotations.put_put` : annotations are such a bag;
* `SetQuery.filed_step`, `Query.filed_step`, `Element.filed_step`, `Definition.filed_step` and
  `Schema.filed_step` : the layouts of the records;
* `Document.filed_asDict` : a dictionary has a slot for every name.
-/
import Picklist.Proofs.Layout
import Picklist.Proofs.Schema.ReadBack

namespace Picklist

/-! ## Bags -/

namespace Annotations

/-- Annotations of different names can be filed in either order. -/
theorem put_comm {a b : String} (hab : a ≠ b) (x y : Json) (as : Annotations) :
    (as.put a x).put b y = (as.put b y).put a x := by
  unfold put
  cases ha : AnnotationKey.ofText? a with
  | none =>
      cases hb : AnnotationKey.ofText? b with
      | none => simp only [Dict.insert_comm hab]
      | some key => rfl
  | some key =>
      cases hb : AnnotationKey.ofText? b with
      | none => rfl
      | some other =>
          have hkey : key ≠ other := by
            rintro rfl
            have htext := AnnotationKey.text_of_ofText? ha
            exact hab (htext.symm.trans (AnnotationKey.text_of_ofText? hb))
          simp only [insert, Dict.insert_comm hkey]

theorem put_put (name : String) (x y : Json) (as : Annotations) :
    (as.put name x).put name y = as.put name y := by
  unfold put
  cases AnnotationKey.ofText? name with
  | none => simp only [Dict.insert_insert]
  | some key => simp only [insert, Dict.insert_insert]

end Annotations

/-- A dictionary has a slot for every name, which keeps the last value. -/
theorem Document.filed_asDict {α : Type} (read : Decoder α) :
    Filed (σ := Dict String α) (fun d name value => (read value).map (d.insert name))
      (fun name => ⟨name, α, read, fun _ => true, fun a d => d.insert name a⟩) where
  step_eq _ _ _ := rfl
  apart _ _ hab := ⟨fun _ _ => rfl, fun _ _ => rfl, fun v w d => Dict.insert_comm hab v w d⟩
  last name v w d _ := d.insert_insert name v w

/-! ## Queries -/

namespace SetQuery

/-- The layout of a set query: a slot for the operation. -/
def layout : Layout Draft where
  slots := [
    .ofOnce "op" (Document.optional SetOp.read) Draft.op? fun op? s => { s with op? := op? }]
  put name j s := { s with extra := s.extra.insert name j }

theorem lawful_layout : layout.Lawful where
  slots_apart := by simp [layout, Slot.apart_iff, Slot.ofOnce]
  bag_apart := by simp [layout, Slot.apart_iff, Layout.bag, Slot.ofOnce]
  full := by simp [layout, Slot.ofOnce]
  put_comm a b x y s hab := by simp only [layout, Dict.insert_comm hab]
  put_put name x y s := by simp only [layout, Dict.insert_insert]

theorem filed_step : Filed step layout.slot := by
  refine lawful_layout.filed ?_ fun name hname s d =>
    slotAndBag_step.bag s.op? s.extra name d hname
  simp [layout, Slot.fill_ofOnce, step]

end SetQuery

namespace Query

/-- The layout of a query: a slot for the set query. -/
def layout : Layout Draft where
  slots := [
    .ofOnce "SET" (Document.optional SetQuery.read) Draft.set? fun set? s =>
      { s with set? := set? }]
  put name j s := { s with extra := s.extra.insert name j }

theorem lawful_layout : layout.Lawful where
  slots_apart := by simp [layout, Slot.apart_iff, Slot.ofOnce]
  bag_apart := by simp [layout, Slot.apart_iff, Layout.bag, Slot.ofOnce]
  full := by simp [layout, Slot.ofOnce]
  put_comm a b x y s hab := by simp only [layout, Dict.insert_comm hab]
  put_put name x y s := by simp only [layout, Dict.insert_insert]

theorem filed_step : Filed step layout.slot := by
  refine lawful_layout.filed ?_ fun name hname s d =>
    slotAndBag_step.bag s.set? s.extra name d hname
  simp [layout, Slot.fill_ofOnce, step]

end Query

/-! ## Elements -/

namespace Element

/-- The layout of an element: three slots, and annotations. -/
def layout : Layout Draft where
  slots := [
    .ofOnce "key" Document.asBool Draft.key fun key s => { s with key := key },
    .ofOnce "type" (Document.optional TypeRef.read) Draft.type? fun type? s =>
      { s with type? := type? },
    .ofOnce "enum" (Document.optional Enumeration.read) Draft.enum? fun enum? s =>
      { s with enum? := enum? }]
  put name j s := { s with annotations := s.annotations.put name j }

theorem lawful_layout : layout.Lawful where
  slots_apart := by simp [layout, Slot.apart_iff, Slot.ofOnce]
  bag_apart := by simp [layout, Slot.apart_iff, Layout.bag, Slot.ofOnce]
  full := by simp [layout, Slot.ofOnce]
  put_comm a b x y s hab := by simp only [layout, Annotations.put_comm hab]
  put_put name x y s := by simp only [layout, Annotations.put_put]

theorem filed_step : Filed step layout.slot := by
  refine lawful_layout.filed ?_ fun name hname s d => step_of_notMem s hname d
  simp [layout, Slot.fill_ofOnce, step]

end Element

/-! ## Definitions -/

namespace Definition

/-- The layout of a definition: six slots, and annotations. -/
def layout : Layout Draft where
  slots := [
    .ofOnce "kind" Kind.read Draft.kind? fun kind? s => { s with kind? := kind? },
    .ofOnce "doc" (Document.optional Document.asText) Draft.doc? fun doc? s =>
      { s with doc? := doc? },
    .ofOnce "type" (Document.optional TypeRef.read) Draft.type? fun type? s =>
      { s with type? := type? },
    .ofOnce "enum" (Document.optional Enumeration.read) Draft.enum? fun enum? s =>
      { s with enum? := enum? },
    .ofOnce "query" (Document.optional Query.read) Draft.query? fun query? s =>
      { s with query? := query? },
    .ofOnce "elements" (Document.asDict Element.read) Draft.elements? fun elements? s =>
      { s with elements? := elements? }]
  put name j s := { s with annotations := s.annotations.put name j }

theorem lawful_layout : layout.Lawful where
  slots_apart := by simp [layout, Slot.apart_iff, Slot.ofOnce]
  bag_apart := by simp [layout, Slot.apart_iff, Layout.bag, Slot.ofOnce]
  full := by simp [layout, Slot.ofOnce]
  put_comm a b x y s hab := by simp only [layout, Annotations.put_comm hab]
  put_put name x y s := by simp only [layout, Annotations.put_put]

theorem filed_step : Filed step layout.slot := by
  refine lawful_layout.filed ?_ fun name hname s d => step_of_notMem s hname d
  simp [layout, Slot.fill_ofOnce, step]

end Definition

/-! ## Schemas -/

namespace Schema

/-- The layout of a schema: slots for the definitions and the metadata. -/
def layout : Layout Draft where
  slots := [
    .ofOnce "definitions" (Document.asDict Definition.read) Draft.definitions?
      fun definitions? s => { s with definitions? := definitions? },
    .ofOnce "meta" (Document.asDict Document.asJson) Draft.metadata? fun metadata? s =>
      { s with metadata? := metadata? }]
  put name j s := { s with extra := s.extra.insert name j }

theorem lawful_layout : layout.Lawful where
  slots_apart := by simp [layout, Slot.apart_iff, Slot.ofOnce]
  bag_apart := by simp [layout, Slot.apart_iff, Layout.bag, Slot.ofOnce]
  full := by simp [layout, Slot.ofOnce]
  put_comm a b x y s hab := by simp only [layout, Dict.insert_comm hab]
  put_put name x y s := by simp only [layout, Dict.insert_insert]

theorem filed_step : Filed step layout.slot := by
  refine lawful_layout.filed ?_ fun name hname s d => step_of_notMem s hname d
  simp [layout, Slot.fill_ofOnce, step]

end Schema

end Picklist
