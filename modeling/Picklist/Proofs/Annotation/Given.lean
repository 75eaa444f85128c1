/-
# Annotations as they were given

An annotation of a node is given by name: it is filed under its name, or it is a member of what the
node is read off.  Of members of one name the last one counts, whatever stands around it.

* `Document.Gives` : the value that a document gives to a name;
* `Annotations.Given` : the value that annotations were given for a key;
* `Annotations.Given.get?_eq` : that value, taken in for the key, is what they hold.
-/
import Picklist.Proofs.Schema.Layout

namespace Picklist

open Document

variable {σ : Type}

/-! ## Members of a document -/

/-- A document gives a value to a name: of the members of that name the last one counts. -/
inductive Document.Gives (name : String) (v : Json) : Document → Prop
  | last {pre post : List (Document × Document)} {d : Document} {closed : Bool}
      (hv : d.toJson? = some v) (hpost : ∀ m ∈ post, m.1 ≠ .str name) :
      Gives name v (.obj (pre ++ (.str name, d) :: post) closed)

namespace Document

variable {β : Type} {step : σ → String → Document → Except Problem σ} {name : String}

/-- What a record holds for a name after it was read comes from the value that its document gives
to the name. -/
theorem Gives.held_eq (held : σ → β) (taken : Json → β)
    (hself : ∀ ⦃s s' d v⦄, d.toJson? = some v → step s name d = .ok s' → held s' = taken v)
    (hother : ∀ ⦃s s' n d⦄, n ≠ name → step s n d = .ok s' → held s' = held s)
    {expected : String} {start t : σ} {d : Document} {v : Json} (hd : d.Gives name v)
    (h : foldMembers expected step start d = .ok t) : held t = taken v := by
  obtain @⟨pre, post, d, closed, hv, hpost⟩ := hd
  obtain ⟨members, heq, h⟩ := foldMembers_eq_ok_iff.1 h
  obtain ⟨rfl, -⟩ := Document.obj.inj heq
  -- neither the members before the last one of the name matter, nor those behind it
  rw [stepMembers_append] at h
  obtain ⟨s, -, h⟩ := bind_eq_ok_iff.1 h
  obtain ⟨s', hlast, h⟩ := bind_eq_ok_iff.1 h
  refine stepMembers_invariant (P := fun s => held s = taken v) ?_ (hself hv hlast) h
  intro u u' n e hmem hheld hu
  have hn : n ≠ name := fun heq => hpost _ hmem (congrArg Document.str heq)
  exact (hother hn hu).trans hheld

theorem Gives.distinct {d : Document} {v : Json} (h : d.Gives name v) : v.Distinct := by
  obtain ⟨hv, -⟩ := h
  exact distinct_of_toJson? _ hv

end Document

/-! ## Annotations of a node -/

namespace Annotations

/-- A value that is filed under the text of a key is taken in for the key. -/
theorem get?_put_self (a : Annotations) (key : AnnotationKey) (v : Json) :
    (a.put key.text v).get? key = some (.ofJson key v) := by
  rw [put, AnnotationKey.ofText?_text]
  exact a.get?_insert_self key _

/-- A value that is filed under any other name leaves the value of a key. -/
theorem get?_put_of_ne (a : Annotations) {key : AnnotationKey} {name : String}
    (h : name ≠ key.text) (v : Json) : (a.put name v).get? key = a.get? key := by
  unfold put
  split
  · rename_i other hother
    refine a.get?_insert_of_ne _ ?_
    rintro rfl
    exact h (AnnotationKey.text_of_ofText? hother).symm
  · rfl

/-- The layout of annotations that stand alone: they have no slots. -/
def layout : Layout Annotations where
  slots := []
  put name v a := a.put name v

/-- Annotations that stand alone file all their members. -/
theorem filed_read : Filed (fun a name d => d.asJson.map (put a name)) layout.slot := by
  have hlawful : layout.Lawful :=
    { slots_apart := .nil
      bag_apart := nofun
      full := nofun
      put_comm := fun a b x y s hab => put_comm hab x y s
      put_put := put_put }
  exact hlawful.filed nofun fun name _ s d => by cases d.asJson <;> rfl

/-- A node that is read off a document holds for a key what the document gives to the text of the
key, when the node has no slot for it. -/
theorem get?_of_gives (annotations : σ → Annotations) {l : Layout σ}
    {step : σ → String → Document → Except Problem σ} (hfiled : Filed step l.slot)
    (hslots : ∀ p ∈ l.slots, ∀ v s, annotations (p.set v s) = annotations s)
    (hput : ∀ name v s, annotations (l.put name v s) = (annotations s).put name v)
    {key : AnnotationKey} (hkey : key.text ∉ l.names) {expected : String} {start t : σ}
    {d : Document} {v : Json} (hd : d.Gives key.text v)
    (h : foldMembers expected step start d = .ok t) :
    (annotations t).get? key = some (.ofJson key v) := by
  refine hd.held_eq (fun s => (annotations s).get? key) (fun v => some (.ofJson key v)) ?_ ?_ h
  · intro s s' d v hv hs
    rcases l.slot_cases key.text with ⟨p, hp, hname, -⟩ | ⟨-, heq⟩
    · exact absurd (List.mem_map.2 ⟨p, hp, hname⟩) hkey
    · rw [hfiled.step_eq, heq, l.fill_bag, asJson_eq_ok_iff.2 hv] at hs
      rw [← Except.ok.inj hs, hput, get?_put_self]
  · intro s s' n d hn hs
    rw [hfiled.step_eq] at hs
    rcases l.slot_cases n with ⟨p, hp, -, heq⟩ | ⟨-, heq⟩ <;> rw [heq] at hs
    · obtain ⟨-, v, -, rfl⟩ := Slot.fill_eq_ok_iff.1 hs
      rw [hslots p hp]
    · obtain ⟨-, v, -, rfl⟩ := Slot.fill_eq_ok_iff.1 hs
      exact (congrArg (get? · key) (hput n v s)).trans (get?_put_of_ne _ hn v)

/-- Annotations that were given a value for a key: it was filed under the text of the key, or the
node was read off a document that gives it to that text. -/
inductive Given (key : AnnotationKey) (v : Json) : Annotations → Prop
  | filed (a : Annotations) (hv : v.Distinct) : Given key v (a.put key.text v)
  | alone {d : Document} {a : Annotations} (hd : d.Gives key.text v) (h : read d = .ok a) :
      Given key v a
  | element {d : Document} {e : Element} (hd : d.Gives key.text v) (h : Element.read d = .ok e) :
      Given key v e.annotations
  | definition {d : Document} {n : Definition} (hd : d.Gives key.text v)
      (h : Definition.read d = .ok n) : Given key v n.annotations

namespace Given

variable {key : AnnotationKey} {v : Json} {a : Annotations}

theorem distinct (h : a.Given key v) : v.Distinct := by
  cases h with
  | filed _ hv => exact hv
  | alone hd _ => exact hd.distinct
  | element hd _ => exact hd.distinct
  | definition hd _ => exact hd.distinct

/-- **A given value is taken in for its key.** -/
theorem get?_eq (h : a.Given key v) : a.get? key = some (.ofJson key v) := by
  cases h with
  | filed a _ => exact a.get?_put_self key v
  | alone hd h =>
      exact get?_of_gives id filed_read nofun (fun _ _ _ => rfl) List.not_mem_nil hd h
  | element hd h =>
      obtain ⟨s, hs, h⟩ := bind_eq_ok_iff.1 h
      cases h
      refine get?_of_gives Element.Draft.annotations Element.filed_step ?_ (fun _ _ _ => rfl) ?_
        hd hs
      · simp [Element.layout, Slot.ofOnce]
      · cases key <;> decide
  | definition hd h =>
      obtain ⟨s, hs, h⟩ := bind_eq_ok_iff.1 h
      obtain ⟨kind, -, h⟩ := bind_eq_ok_iff.1 h
      cases h
      refine get?_of_gives Definition.Draft.annotations Definition.filed_step ?_
        (fun _ _ _ => rfl) ?_ hd hs
      · simp [Definition.layout, Slot.ofOnce]
      · cases key <;> decide

end Given

end Annotations

end Picklist
