/-
# Annotations are kept

An annotation is held by its shape, and a value-list descriptor as a descriptor only if
writing it gives its value back.  So every annotation is written as it was read.

* `Json.exists_perm_of_same_texts` : an object of texts equals only these texts in any order;
* `ValueList.alike_of_list?` : a descriptor that is held as one is written as it was read;
* `Annotation.toJson_ofJson_alike` : the same for every annotation;
* `Annotations.bag_put` : a new annotation adds its member to those of the node.
-/
import Picklist.Annotation.Basic
import Picklist.Proofs.Lossless

namespace Picklist

open Json

/-! ## Objects of texts -/

namespace Json

/-- A text as a member. -/
def textMember (t : String × String) : String × Json := (t.1, .str t.2)

/-- The object of some texts. -/
def texts (ts : Members String) : Json := .obj (ts.map textMember)

theorem names_map_textMember (ts : Members String) :
    Members.names (ts.map textMember) = ts.names :=
  List.map_map

/-- A list of members has an equal one for each of some others when it has one for each
name. -/
theorem sameMembers_iff {ms ns : Members Json} :
    sameMembers ms ns = true ↔
      ∀ m ∈ ms, ∃ v, ns.lookup m.1 = some v ∧ m.2.same v = true := by
  induction ms with
  | nil => simp [sameMembers]
  | cons m rest ih =>
      obtain ⟨name, value⟩ := m
      rw [sameMembers, Bool.and_eq_true, ih, List.forall_mem_cons]
      refine and_congr_left fun _ => ?_
      cases ns.lookup name <;> simp

/-- A text equals only itself. -/
theorem same_str_iff {t : String} {j : Json} : (Json.str t).same j = true ↔ j = .str t := by
  cases j with
  | str s => rw [same, beq_iff_eq, Json.str.injEq, eq_comm]
  | _ => simp [same]

theorem injective_textMember : Function.Injective textMember := by
  rintro ⟨a, t⟩ ⟨b, u⟩ h
  rw [textMember, textMember, Prod.mk.injEq, Json.str.injEq] at h
  exact Prod.ext h.1 h.2

/-- An object of texts equals only the objects of these texts in any order. -/
theorem exists_perm_of_same_texts {ts : Members String} (hn : ts.names.Nodup) {j : Json}
    (h : (texts ts).same j = true) : ∃ ts' : Members String, ts'.Perm ts ∧ j = texts ts' := by
  cases j with
  | obj ns =>
      rw [texts, same, Bool.and_eq_true, beq_iff_eq, sameMembers_iff] at h
      obtain ⟨hlength, hmem⟩ := h
      have hperm : (ts.map textMember).Perm ns := by
        -- equally many members, none twice, and each of the one among those of the other
        refine (List.subperm_of_subset ?_ fun m hm => ?_).perm_of_length_le
          (Nat.le_of_eq hlength.symm)
        · exact (List.Nodup.of_map _ hn).map injective_textMember
        · obtain ⟨v, hv, hs⟩ := hmem m hm
          obtain ⟨t, ht, rfl⟩ := List.mem_map.1 hm
          rw [show v = .str t.2 from same_str_iff.1 hs] at hv
          exact mem_of_lookup hv
      -- members in another order than those of texts are those of the texts in another order
      have hcomp := congrFun₂ (List.eq_map_comp_perm textMember) ns ts
      obtain ⟨ts', rfl, hts⟩ := hcomp.mpr hperm.symm
      exact ⟨ts', hts, rfl⟩
  | _ => simp [texts, same] at h

/-- An object of texts is alike to every value that it equals. -/
theorem alike_of_same_texts {ts : Members String} (hn : ts.names.Nodup) {j : Json}
    (h : (texts ts).same j = true) : (texts ts).Alike j := by
  obtain ⟨ts', hperm, rfl⟩ := exists_perm_of_same_texts hn h
  exact alike_obj (Members.bag_eq_of_perm (hperm.symm.map _)) (names_map_textMember ts ▸ hn)

/-- Merging the members of an object of texts changes nothing. -/
theorem merged_texts {ts : Members String} (hn : ts.names.Nodup) :
    (texts ts).merged = texts ts := by
  rw [texts, merged_obj (names_map_textMember ts ▸ hn), List.map_map]
  rfl

end Json

/-! ## Descriptors -/

/-- A value is held as the descriptor that is read off it, if writing that gives the value back. -/
theorem Annotation.list?_eq_some_iff {j : Json} {l : ValueList} :
    list? j = some l ↔ ValueList.read (.ofJson j) = .ok l ∧ (l.toJson.merged == j) = true := by
  unfold list?
  cases ValueList.read (.ofJson j) with
  | error e => simp
  | ok l' =>
      show (if l'.toJson.merged == j then some l' else none) = some l ↔ _
      rw [Option.ite_none_right_eq_some, Except.ok.injEq, Option.some.injEq]
      constructor
      · rintro ⟨hsame, rfl⟩
        exact ⟨rfl, hsame⟩
      · rintro ⟨rfl, hsame⟩
        exact ⟨hsame, rfl⟩

namespace ValueList

namespace Parameter

/-- The kind of a parameter. -/
def kind : Parameter → ParameterKind
  | inOut _ _ => .inOut
  | input _ _ => .input
  | output _ _ => .output
  | displayOnly _ => .displayOnly
  | constant _ _ => .constant

/-- The members of a parameter apart from its type name, in order. -/
def fields : Parameter → Members String
  | inOut l v | input l v | output l v => [("LocalDataProperty", l), ("ValueListProperty", v)]
  | displayOnly v => [("ValueListProperty", v)]
  | constant v c => [("ValueListProperty", v), ("Constant", c)]

/-- All members of a parameter. -/
def texts (p : Parameter) : Members String := (typeMember, p.kind.word) :: p.fields

theorem toJson_eq (p : Parameter) : p.toJson = Json.texts p.texts := by
  cases p <;> rfl

/-- A parameter has the members of its kind. -/
theorem names_fields (p : Parameter) : p.fields.names = p.kind.members := by
  cases p <;> rfl

/-- The members of a kind are distinct, and none is called like the one for the type name. -/
theorem nodup_members (kind : ParameterKind) : (typeMember :: kind.members).Nodup := by
  cases kind <;> decide

/-- The names of all members of a parameter. -/
theorem names_texts (p : Parameter) : p.texts.names = typeMember :: p.kind.members :=
  congrArg (List.cons typeMember) p.names_fields

theorem nodup_texts (p : Parameter) : p.texts.names.Nodup :=
  p.names_texts ▸ nodup_members p.kind

end Parameter

/-- Items that equal written parameters, place by place. -/
def Shown (ps : List Parameter) (items : List Json) : Prop :=
  List.Forall₂ (fun p item => p.toJson.same item = true) ps items

/-- Items that equal merged parameters equal the parameters: a parameter repeats no name. -/
theorem shown_of_sameItems {ps : List Parameter} {items : List Json}
    (h : sameItems (mergedItems (ps.map Parameter.toJson)) items = true) : Shown ps items := by
  induction ps generalizing items with
  | nil =>
      cases items with
      | nil => exact .nil
      | cons x xs => cases h
  | cons p rest ih =>
      cases items with
      | nil => cases h
      | cons x xs =>
          rw [List.map_cons, mergedItems, sameItems, Bool.and_eq_true] at h
          rw [p.toJson_eq, merged_texts p.nodup_texts, ← p.toJson_eq] at h
          exact .cons h.1 (ih h.2)

/-- Written parameters are alike to the items that they equal. -/
theorem Shown.alike {ps : List Parameter} {items : List Json} (h : Shown ps items) :
    (Json.arr (ps.map Parameter.toJson)).Alike (.arr items) := by
  refine congrArg Json.arr ?_
  induction h with
  | nil => rfl
  | @cons p x rest xs hx _ ih =>
      rw [p.toJson_eq] at hx
      have halike : p.toJson.sorted = x.sorted := p.toJson_eq ▸ alike_of_same_texts p.nodup_texts hx
      rw [List.map_cons, sortedItems, sortedItems, halike, ih]

/-- What is written of a half-read descriptor, except for its parameters. -/
def Draft.content (s : Draft) : Multiset (String × Json) :=
  Members.bag (slot "CollectionPath" (s.path.bind fun p => some (.str p))) +
    Members.bag s.extra.entries

/-- Keeps all members of a descriptor but its parameters. -/
def otherRule : Rule
  | "Parameters", _ => none
  | _, v => some v

theorem otherRule_of_ne (name : String) (v : Json) (h : name ≠ "Parameters") :
    otherRule name v = some v := by
  unfold otherRule
  split
  · exact absurd rfl h
  · rfl

/-- Every member of a descriptor is kept, apart from the parameters. -/
theorem stepLossless_step : StepLossless Draft.content otherRule step := by
  intro s s' name v hv hfresh h
  unfold step at h
  split at h
  · refine lossless_asText.member.content_once hv h rfl fun path => ?_
    simp only [Draft.content, Option.bind_none, slot_none, Members.bag_nil, zero_add]
    ac_rfl
  · obtain ⟨parameters, -, hs⟩ := bind_eq_ok_iff.1 h
    cases hs
    simp [Draft.content, otherRule]
  · obtain rfl := eq_of_asJson hv h
    have hbag := bag_entries_insert v fun w hw => hfresh w (Multiset.mem_add.2 (.inr hw))
    simp only [Draft.content, hbag, otherRule, slot_some]
    ac_rfl

/-- The members of a written descriptor. -/
def written (l : ValueList) : Members Json :=
  ("CollectionPath", .str l.path) ::
    ("Parameters", .arr (l.parameters.map Parameter.toJson)) :: l.extra.entries

/-- Reading a descriptor keeps all members of its object, apart from the parameters. -/
theorem bag_written_of_read {j : Json} {l : ValueList} (hj : j.Distinct)
    (h : read (.ofJson j) = .ok l) :
    ∃ ms, j = .obj ms ∧ l.written.bag = (otherRule.apply ms).bag +
      Members.bag [("Parameters", .arr (l.parameters.map Parameter.toJson))] := by
  obtain ⟨s, hs, h⟩ := bind_eq_ok_iff.1 h
  obtain ⟨path, hpath, h⟩ := bind_eq_ok_iff.1 h
  cases h
  obtain ⟨ms, rfl, hms⟩ := stepLossless_step.content_eq rfl hj hs
  refine ⟨ms, rfl, ?_⟩
  rw [← hms, Draft.content, required_eq_ok_iff.1 hpath, written, Members.bag_cons]
  rw [Members.bag_cons ("Parameters", _), Option.bind_some, slot_some]
  ac_rfl

/-- A descriptor whose other members come from an object repeats no name when it is written. -/
theorem nodup_written {l : ValueList} {ms : Members Json} (hms : ms.names.Nodup)
    (h : l.written.bag = (otherRule.apply ms).bag +
      Members.bag [("Parameters", .arr (l.parameters.map Parameter.toJson))]) :
    l.written.names.Nodup := by
  rw [← Members.bag_append] at h
  rw [(Members.perm_names_of_bag_eq h).nodup_iff, Members.names, List.map_append,
    List.nodup_append]
  refine ⟨(otherRule.names_apply ms).nodup hms, by simp, ?_⟩
  intro a ha b hb hab
  obtain rfl : b = "Parameters" := List.mem_singleton.1 hb
  exact otherRule.notMem_names_apply (fun _ => rfl) (hab ▸ ha)

/-- An object that a written descriptor equals has the parameters of the descriptor. -/
theorem exists_shown {l : ValueList} {ms : Members Json} (hn : l.written.names.Nodup)
    (h : l.toJson.merged.same (.obj ms) = true) :
    ∃ items, ms.lookup "Parameters" = some (.arr items) ∧ Shown l.parameters items := by
  change (Json.obj l.written).merged.same (.obj ms) = true at h
  rw [merged_obj hn, same, Bool.and_eq_true, sameMembers_iff] at h
  have hmem : ("Parameters", (Json.arr (l.parameters.map Parameter.toJson)).merged) ∈
      l.written.map fun m => (m.1, m.2.merged) :=
    List.mem_cons_of_mem _ List.mem_cons_self
  obtain ⟨v, hv, hsame⟩ := h.2 _ hmem
  cases v with
  | arr items =>
      rw [merged, same] at hsame
      exact ⟨items, hv, shown_of_sameItems hsame⟩
  | _ => simp [merged, same] at hsame

/-- A descriptor that is held as one is written as it was read. -/
theorem alike_of_list? {j : Json} {l : ValueList} (hj : j.Distinct)
    (h : Annotation.list? j = some l) : l.toJson.Alike j := by
  obtain ⟨hread, hsame⟩ := Annotation.list?_eq_some_iff.1 h
  obtain ⟨ms, rfl, hbag⟩ := bag_written_of_read hj hread
  have hn := nodup_written hj.1 hbag
  -- reading passes over parts of the parameters; that nothing is lost there is known only because
  -- writing them gives the value back
  obtain ⟨items, hitems, hshown⟩ := exists_shown hn hsame
  refine alike_obj (hbag.trans ?_) hn
  rw [Rule.bag_eq_of_drops (fun _ => rfl) otherRule_of_ne hj.1 hitems,
    Members.bag_singleton_congr hshown.alike]

end ValueList

/-! ## Annotations -/

namespace Annotation

/-- A value that is held by its shape alone is written as it is. -/
theorem toJson_ofShape (j : Json) : (ofShape j).toJson = j := by
  cases j <;> rfl

/-- Every annotation is written as it was taken in. -/
theorem toJson_ofJson_alike (key : AnnotationKey) {j : Json} (hj : j.Distinct) :
    (ofJson key j).toJson.Alike j := by
  unfold ofJson
  split
  · split
    · rename_i l hl
      exact (alike_merged l.toJson).trans (ValueList.alike_of_list? hj hl)
    · rfl
  · exact congrArg Json.sorted (toJson_ofShape j)

end Annotation

namespace Annotations

/-- A new annotation adds its member to those of the node. -/
theorem bag_put {a : Annotations} {name : String} {v : Json} (hv : v.Distinct)
    (hfresh : ∀ w, (name, w) ∉ Members.bag a.members) :
    Members.bag (a.put name v).members = Members.bag a.members + Members.bag [(name, v)] := by
  -- the name is new to both parts, and is filed in one of them
  simp only [members, Members.bag_append, Multiset.mem_add, not_or] at hfresh
  unfold put
  split
  · rename_i key hkey
    obtain rfl := AnnotationKey.text_of_ofText? hkey
    have hknown := bag_map_insert AnnotationKey.text Annotation.toJson (.ofJson key v)
      fun w => (hfresh w).1
    have halike := Annotation.toJson_ofJson_alike key hv
    rw [Members.bag_singleton_congr halike] at hknown
    simp only [insert, members, Members.bag_append]
    rw [hknown]
    ac_rfl
  · simp only [members, Members.bag_append, bag_entries_insert v fun w => (hfresh w).2]
    ac_rfl

end Annotations

end Picklist
