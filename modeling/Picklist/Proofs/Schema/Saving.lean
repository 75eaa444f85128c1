/-
# Comparing saved texts

Schemas can be compared by `==`, or by the texts that they are saved to.  Equality passes over two
things that a text shows: in which order the JSON values that are kept as they are list their
members, and the signs of their zeros.  The outline of the written document shows both, so among
equal schemas it decides whether the texts are the same.

* `Schema.Built` : what reading and the operations on schemas make;
* `Schema.save_eq_iff_toJson_eq` : the same text is saved for the same document only;
* `Schema.save_eq_iff` : how comparing texts and comparing schemas agree.
-/
import Picklist.Proofs.Enrichment.Reload
import Picklist.Proofs.Json.Text
import Picklist.Proofs.Schema.Equality

namespace Picklist

/-- What a complete reading gives is read off its document. -/
theorem Reading.read_root_of_decode {α : Type} {r : Reading} {read : Decoder α} {a : α}
    (h : r.decode read = .ok a) : read r.root = .ok a := by
  obtain ⟨b, hroot, hcomplete⟩ := bind_eq_ok_iff.1 h
  split at hcomplete
  · cases hcomplete
    exact hroot
  · cases hcomplete

namespace Schema

/-! ## How schemas come about -/

/-- Schemas that are read off texts or values, or come from such ones: by setting a definition
that was read, by annotating a definition or an element under a name that is no slot of it, by
removing a definition, by metadata, and by enrichment. -/
inductive Built : Schema → Prop where
  | empty : Built empty
  | read {r : Reading} {s : Schema} (h : r.decode Schema.read = .ok s) : Built s
  | insert {s : Schema} (hs : Built s) (name : String) {r : Reading} {d : Definition}
      (hd : r.decode Definition.read = .ok d) : Built (s.insert name d)
  | annotate {s : Schema} (hs : Built s) {name : String} {d : Definition}
      (hd : s.get? name = some d) {key : String} (hkey : key ∉ Definition.reserved) {j : Json}
      (hj : j.Distinct) :
      Built (s.insert name { d with annotations := d.annotations.put key j })
  | annotateElement {s : Schema} (hs : Built s) {name : String} {d : Definition}
      (hd : s.get? name = some d) {element : String} {e : Element}
      (he : d.elements.get? element = some e) {key : String} (hkey : key ∉ Element.reserved)
      {j : Json} (hj : j.Distinct) :
      Built (s.insert name { d with
        elements := d.elements.insert element { e with annotations := e.annotations.put key j } })
  | erase {s : Schema} (hs : Built s) (name : String) : Built (s.erase name)
  | setMetadata {s : Schema} (hs : Built s) (key : String) {j : Json} (hj : j.Distinct) :
      Built { s with metadata := s.metadata.insert key j }
  | enrich {s : Schema} (hs : Built s) (settings : Settings) :
      Built (Enrichment.run settings s).1

theorem Stable.insert {s : Schema} (h : s.Stable) (name : String) {d : Definition}
    (hd : d.Stable) : (s.insert name d).Stable where
  definitions := Dict.forall_insert h.definitions hd
  metadata := h.metadata
  extra := h.extra

theorem Stable.erase {s : Schema} (h : s.Stable) (name : String) : (s.erase name).Stable where
  definitions other d hget := by
    by_cases hname : other = name
    · rw [hname, get?, Schema.erase, Dict.get?_erase_self] at hget
      cases hget
    · rw [get?, Schema.erase, Dict.get?_erase_of_ne _ hname] at hget
      exact h.definitions other d hget
  metadata := h.metadata
  extra := h.extra

/-- **What is built is stable.** -/
theorem Built.stable {s : Schema} (h : s.Built) : s.Stable := by
  induction h with
  | empty => exact stable_empty
  | read h => exact stable_of_read (Reading.read_root_of_decode h)
  | insert _ name hd ih =>
      exact ih.insert name (Definition.stable_of_read (Reading.read_root_of_decode hd))
  | annotate _ hd hkey hj ih =>
      have hold := ih.definitions _ _ hd
      exact ih.insert _ { hold with annotations := hold.annotations.put hkey hj }
  | annotateElement _ hd he hkey hj ih =>
      have hold := ih.definitions _ _ hd
      have helement := hold.elements _ _ he
      refine ih.insert _ { hold with elements := Dict.forall_insert hold.elements ?_ }
      exact { helement with annotations := helement.annotations.put hkey hj }
  | erase _ name ih => exact ih.erase name
  | setMetadata _ key hj ih =>
      exact { ih with metadata := ih.metadata.insert List.not_mem_nil hj }
  | enrich _ settings ih => exact Enrichment.stable_run settings ih

/-! ## Texts and documents -/

variable {s t : Schema}

/-- **The same text is saved for the same document only.** -/
theorem save_eq_iff_toJson_eq (hs : s.toJson.Proper) (ht : t.toJson.Proper) :
    s.save = t.save ↔ s.toJson = t.toJson :=
  ⟨Json.pretty_injective hs ht, congrArg Json.pretty⟩

/-- **Equal schemas are saved to the same text**, if their documents have the same outline. -/
theorem save_eq_of_beq (hs : s.Valid) (ht : t.Valid) (h : (s == t) = true)
    (ho : s.toJson.outline = t.toJson.outline) : s.save = t.save :=
  congrArg Json.pretty (settled_of_beq s t hs ht h ho)

theorem Stable.eq_of_toJson_eq (hs : s.Stable) (ht : t.Stable) (h : s.toJson = t.toJson) :
    s = t := by
  have hread := (readsBack hs).read_ofJson
  rw [h, (readsBack ht).read_ofJson] at hread
  exact (Except.ok.inj hread).symm

/-- **Comparing saved texts and comparing schemas.**  Equal schemas are saved to the same text when
their documents have the same outline.  The same text is saved for the same document only.  So the
texts of schemas that are built by reading and by the operations on schemas are the same exactly
when the schemas are equal and their documents have the same outline.

A schema is valid when no object that it keeps repeats a name, and a document is proper when its
doubles are within the range and the precision of doubles. -/
theorem save_eq_iff (s t : Schema) :
    (s.Valid → t.Valid → (s == t) = true → s.toJson.outline = t.toJson.outline →
        s.save = t.save) ∧
      (s.toJson.Proper → t.toJson.Proper → s.save = t.save → s.toJson = t.toJson) ∧
      (s.Built → t.Built → s.toJson.Proper → t.toJson.Proper →
        (s.save = t.save ↔ (s == t) = true ∧ s.toJson.outline = t.toJson.outline)) := by
  refine ⟨save_eq_of_beq, fun hs ht => (save_eq_iff_toJson_eq hs ht).1,
    fun hs ht hps hpt => ⟨fun h => ?_, fun ⟨h, ho⟩ => ?_⟩⟩
  · -- what was built is read off its document, which the text determines
    have hjson := (save_eq_iff_toJson_eq hps hpt).1 h
    obtain rfl := hs.stable.eq_of_toJson_eq ht.stable hjson
    exact ⟨beq_self hs.stable.valid, rfl⟩
  · exact save_eq_of_beq hs.stable.valid ht.stable.valid h ho

/-- An annotation that is kept as it is, an object with two members. -/
def noteForth : Members Json := [("a", .num (.int 1)), ("b", .num (.int 2))]

/-- The same object with its members the other way round. -/
def noteBack : Members Json := [("b", .num (.int 2)), ("a", .num (.int 1))]

/-- The document of an entity with a note. -/
def notedDocument (note : Members Json) : Json :=
  .obj [("@note", .obj note), ("kind", .str "entity")]

/-- An entity with a note. -/
def noted (note : Members Json) : Definition :=
  { Definition.ofKind .entity with annotations := Annotations.empty.put "@note" (.obj note) }

/-- The schema of an entity with a note, off its document. -/
theorem decode_note : ∀ note ∈ [noteForth, noteBack],
    (Reading.ofJson (.obj [("definitions", .obj [("X", notedDocument note)])])).decode read =
      .ok (empty.insert "X" (noted note)) := by
  simp only [List.forall_mem_cons]
  exact ⟨rfl, rfl, nofun⟩

/-- A schema that was read and one whose entity was set afterwards are saved to the same text.
Where the members of the note stand the other way round, the text is another one. -/
theorem save_eq_iff_note :
    (((empty.insert "X" (noted noteBack)).setFlag "seen").insert "X" (noted noteForth)).save =
        ((empty.insert "X" (noted noteForth)).setFlag "seen").save ∧
      (empty.insert "X" (noted noteForth)).save ≠ (empty.insert "X" (noted noteBack)).save := by
  have hforth : (empty.insert "X" (noted noteForth)).Built :=
    .read (decode_note _ (by simp))
  have hback : (empty.insert "X" (noted noteBack)).Built :=
    .read (decode_note _ (by simp))
  refine ⟨?_, fun h => ?_⟩
  · have hseen := hforth.setMetadata "seen" (j := .bool true) trivial
    have hset := (hback.setMetadata "seen" (j := .bool true) trivial).insert "X"
      (r := .ofJson (notedDocument noteForth)) rfl
    exact ((save_eq_iff _ _).2.2 hset hseen (by decide) (by decide)).2 ⟨rfl, rfl⟩
  · have ho := (((save_eq_iff _ _).2.2 hforth hback (by decide) (by decide)).1 h).2
    exact absurd (congrArg Json.compact ho) (by decide)

/-- Comparing texts is not comparing schemas.  Equal schemas are saved to different texts where a
note lists its members the other way round, and where the sign of a zero differs; different ones
are saved to the same text where a flag is kept as a flag or as a value. -/
theorem not_save_eq_iff_beq :
    ((empty.insert "X" (noted noteForth) == empty.insert "X" (noted noteBack)) = true ∧
      (empty.insert "X" (noted noteForth)).save ≠ (empty.insert "X" (noted noteBack)).save) ∧
    (∃ m n : Members Json, m = [("a", .num (.double (.zero false)))] ∧
      n = [("a", .num (.double (.zero true)))] ∧
      (empty.insert "X" (noted m) == empty.insert "X" (noted n)) = true ∧
      (empty.insert "X" (noted m)).save ≠ (empty.insert "X" (noted n)).save) ∧
    ∃ a b : Annotations, a = .insert .empty .readonly (.flag true) ∧
      b = .insert .empty .readonly (.raw (.bool true)) ∧
      (empty.insert "X" { Definition.ofKind .entity with annotations := a } ==
        empty.insert "X" { Definition.ofKind .entity with annotations := b }) = false ∧
      (empty.insert "X" { Definition.ofKind .entity with annotations := a }).save =
        (empty.insert "X" { Definition.ofKind .entity with annotations := b }).save := by
  exact ⟨⟨rfl, by decide⟩, ⟨_, _, rfl, rfl, rfl, by decide⟩, _, _, rfl, rfl, rfl, rfl⟩

end Schema

end Picklist
