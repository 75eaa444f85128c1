/-
# Annotations read back

An annotation is stable when taking in what is written of it gives it again.  Whatever is taken
in is stable, and so is what enrichment sets.

* `ValueList.readsBack` : descriptors read back;
* `Annotation.stable_ofJson`, `Annotation.stable_flag`, `Annotation.stable_text` and
  `Annotation.stable_list` : which annotations are stable;
* `Annotations.Sound.stepMembers_members` : reading sound annotations of a node takes each in
  again;
* `Annotations.Stable.stepMembers_members` : reading stable ones gives them again.
-/
import Picklist.Proofs.Annotation.Lossless
import Picklist.Proofs.Node
import Picklist.Proofs.ReadBack

namespace Picklist

open Json

/-! ## Descriptors -/

namespace ValueList

/-- The names of the members that a descriptor has slots for. -/
def reserved : List String := ["CollectionPath", "Parameters"]

theorem Parameter.readsBack (p : Parameter) : ReadsBack Parameter.read Parameter.toJson p where
  distinct := by
    rw [p.toJson_eq, Json.texts, distinct_obj_iff]
    refine ⟨(names_map_textMember p.texts).symm ▸ p.nodup_texts, fun m hm => ?_⟩
    obtain ⟨t, -, rfl⟩ := List.mem_map.1 hm
    trivial
  read_ofJson := by cases p <;> rfl

/-- A member without a slot is kept as it is. -/
theorem step_of_notMem (s : Draft) {name : String} (h : name ∉ reserved) (d : Document) :
    step s name d = d.asJson >>= fun j => pure { s with extra := s.extra.insert name j } := by
  simp only [reserved, List.mem_cons, List.not_mem_nil, or_false, not_or] at h
  unfold step
  split
  · exact absurd rfl h.1
  · exact absurd rfl h.2
  · rfl

/-- A descriptor that was read has free other members. -/
theorem free_of_read {d : Document} {l : ValueList} (h : read d = .ok l) :
    l.extra.Free reserved := by
  obtain ⟨s, hs, h⟩ := bind_eq_ok_iff.1 h
  obtain ⟨path, -, h⟩ := bind_eq_ok_iff.1 h
  cases h
  refine Document.foldMembers_invariant (P := fun s : Draft => s.extra.Free reserved)
    (fun s s' name d hp h => ?_) hs (Dict.free_empty reserved)
  by_cases hname : name ∈ reserved
  · simp only [reserved, List.mem_cons, List.not_mem_nil, or_false] at hname
    rcases hname with rfl | rfl
    all_goals
      obtain ⟨slot, -, h⟩ := bind_eq_ok_iff.1 h
      cases h
      exact hp
  · rw [step_of_notMem s hname] at h
    obtain ⟨j, hj, h⟩ := bind_eq_ok_iff.1 h
    cases h
    exact hp.insert hname (Document.distinct_of_asJson hj)

/-- A path, parameters and free other members are read one after the other. -/
theorem stepMembers_parts (path : String) {ps : List Parameter} {items : List Json}
    (hps : Document.asList Parameter.read (.ofJson (.arr items)) = .ok ps)
    {extra : Dict String Json} (h : extra.Free reserved) :
    Document.stepMembers step ⟨none, none, .empty⟩
      (Document.ofMembers (("CollectionPath", .str path) :: ("Parameters", .arr items) ::
        extra.entries)) = .ok ⟨some path, some ps, extra⟩ := by
  have hpath := Document.stepMembers_slot step "CollectionPath"
    (fun path => ⟨path, none, .empty⟩) (fun d => rfl) (readsBack_asText path).read_ofJson
  have hparameters := Document.stepMembers_slot step "Parameters"
    (fun parameters => ⟨some path, parameters, .empty⟩) (fun d => rfl) hps
  have hbag := Document.stepMembers_bag step (fun extra => ⟨some path, some ps, extra⟩) h
    fun _ _ d hname => step_of_notMem _ hname d
  exact Document.stepMembers_append_of_ok hpath
    (Document.stepMembers_append_of_ok hparameters hbag)

/-- A descriptor with free other members reads back. -/
theorem readsBack {l : ValueList} (h : l.extra.Free reserved) : ReadsBack read toJson l where
  distinct := by
    have hpath : (Json.str l.path).Distinct := trivial
    have hps : (Json.arr (l.parameters.map Parameter.toJson)).Distinct := by
      refine distinctItems_iff.2 fun x hx => ?_
      obtain ⟨p, -, rfl⟩ := List.mem_map.1 hx
      exact p.readsBack.distinct
    exact h.distinct_record (by decide)
      ((slotted_singleton "CollectionPath" hpath).append (slotted_singleton "Parameters" hps))
  read_ofJson := by
    have hps := Document.asList_of_forall₂ <| List.forall₂_map_right_iff.2 <|
      List.forall₂_same.2 fun p (_ : p ∈ l.parameters) => p.readsBack.read_ofJson
    have hall := stepMembers_parts l.path hps h
    exact bind_eq_ok_iff.2 ⟨_, Document.foldMembers_ofJson_obj "struct ValueList" hall, rfl⟩

end ValueList

/-! ## Annotations -/

namespace Annotation

/-- An annotation of a key is stable when taking in what is written of it gives it again. -/
structure Stable (key : AnnotationKey) (a : Annotation) : Prop where
  distinct : a.toJson.Distinct
  ofJson_toJson : ofJson key a.toJson = a

theorem stable_flag (key : AnnotationKey) (b : Bool) : Stable key (.flag b) :=
  ⟨trivial, by cases key <;> rfl⟩

theorem stable_text (key : AnnotationKey) (t : String) : Stable key (.text t) :=
  ⟨trivial, by cases key <;> rfl⟩

theorem list?_toJson {l : ValueList} (h : l.extra.Free ValueList.reserved) :
    list? l.toJson = some l := by
  have hl := ValueList.readsBack h
  refine list?_eq_some_iff.2 ⟨hl.read_ofJson, ?_⟩
  rw [merged_of_distinct _ hl.distinct]
  exact same_self hl.distinct

/-- A descriptor that is held as one has free other members. -/
theorem free_of_list? {j : Json} {l : ValueList} (h : list? j = some l) :
    l.extra.Free ValueList.reserved :=
  ValueList.free_of_read (list?_eq_some_iff.1 h).1

theorem stable_list {l : ValueList} (h : l.extra.Free ValueList.reserved) :
    Stable .valueList (.list l) := by
  have hl := ValueList.readsBack h
  have hwritten : (list l).toJson = l.toJson := merged_of_distinct l.toJson hl.distinct
  refine ⟨hwritten ▸ hl.distinct, ?_⟩
  have hlist := list?_toJson h
  rw [hwritten]
  unfold ValueList.toJson at hlist ⊢
  rw [ofJson, hlist]

/-- Whatever is taken in is stable. -/
theorem stable_ofJson (key : AnnotationKey) {j : Json} (hj : j.Distinct) :
    Stable key (ofJson key j) := by
  cases h : ofJson key j with
  | flag b => exact stable_flag key b
  | text t => exact stable_text key t
  | list l =>
      unfold ofJson at h
      split at h
      · split at h
        · rename_i hl
          cases h
          exact stable_list (free_of_list? hl)
        · cases h
      · cases j <;> cases h
  | raw v =>
      -- a raw value is the value that was taken in
      have hv : v = j := by
        unfold ofJson at h
        split at h
        · split at h <;> cases h
          rfl
        · cases j <;> cases h <;> rfl
      subst hv
      exact ⟨hj, h⟩

end Annotation

namespace AnnotationKey

/-- The texts of all keys. -/
def texts : List String := all.map text

theorem text_mem_texts (key : AnnotationKey) : key.text ∈ texts :=
  List.mem_map_of_mem (mem_all key)

theorem ofText?_eq_none_iff {name : String} : ofText? name = none ↔ name ∉ texts := by
  simp [ofText?, texts]

end AnnotationKey

namespace Annotations

/-- The annotations of a node are sound when no recognised one repeats a name inside, and the
others are free of the names that the node reserves and of those of recognised keys. -/
structure Sound (reserved : List String) (a : Annotations) : Prop where
  known : ∀ key v, a.get? key = some v → v.toJson.Distinct
  extra : a.extra.Free (reserved ++ AnnotationKey.texts)

/-- The annotations of a node are stable when each recognised one is, and the others are free
of the names that the node reserves and of those of recognised keys. -/
structure Stable (reserved : List String) (a : Annotations) : Prop where
  known : ∀ key v, a.get? key = some v → v.Stable key
  extra : a.extra.Free (reserved ++ AnnotationKey.texts)

variable {reserved : List String} {a : Annotations}

/-! ### What setting and filing keep -/

/-- What every recognised annotation has, and a filed value too, every one has after `put`. -/
theorem forall_put {P : AnnotationKey → Annotation → Prop}
    (h : ∀ key v, a.get? key = some v → P key v) (name : String) {j : Json}
    (hj : ∀ key, P key (.ofJson key j)) : ∀ key v, (a.put name j).get? key = some v → P key v := by
  unfold Annotations.put
  split
  · rename_i key _
    exact Dict.forall_insert h (hj key)
  · exact h

/-- Filing a value under a name that is not reserved keeps the others free. -/
theorem free_put (h : a.extra.Free (reserved ++ AnnotationKey.texts)) {name : String}
    (hname : name ∉ reserved) {j : Json} (hj : j.Distinct) :
    (a.put name j).extra.Free (reserved ++ AnnotationKey.texts) := by
  unfold Annotations.put
  split
  · exact h
  · rename_i hnone
    refine h.insert ?_ hj
    rw [List.mem_append, not_or]
    exact ⟨hname, AnnotationKey.ofText?_eq_none_iff.1 hnone⟩

theorem sound_empty (reserved : List String) : Sound reserved empty where
  known _ _ h := nomatch h
  extra := Dict.free_empty _

/-- Setting a key to an annotation that repeats no name keeps annotations sound. -/
theorem Sound.insert (h : a.Sound reserved) (key : AnnotationKey) {v : Annotation}
    (hv : v.toJson.Distinct) : (a.insert key v).Sound reserved :=
  ⟨Dict.forall_insert h.known hv, h.extra⟩

/-- Filing a value under a name that is not reserved keeps annotations sound. -/
theorem Sound.put (h : a.Sound reserved) {name : String} (hname : name ∉ reserved)
    {j : Json} (hj : j.Distinct) : (a.put name j).Sound reserved := by
  refine ⟨forall_put h.known name fun key => ?_, free_put h.extra hname hj⟩
  have hkey := Annotation.stable_ofJson key hj
  exact hkey.distinct

theorem Stable.sound (h : a.Stable reserved) : a.Sound reserved :=
  ⟨fun key v hget => (h.known key v hget).distinct, h.extra⟩

theorem stable_empty (reserved : List String) : Stable reserved empty where
  known _ _ h := nomatch h
  extra := Dict.free_empty _

theorem Stable.insert (h : a.Stable reserved) {key : AnnotationKey} {v : Annotation}
    (hv : v.Stable key) : (a.insert key v).Stable reserved :=
  ⟨Dict.forall_insert h.known hv, h.extra⟩

theorem Stable.setFlag (h : a.Stable reserved) (key : AnnotationKey) (flag : Bool) :
    (a.setFlag key flag).Stable reserved :=
  h.insert <| Annotation.stable_flag key flag

/-- Filing a value under a name that is not reserved keeps annotations stable. -/
theorem Stable.put (h : a.Stable reserved) {name : String} (hname : name ∉ reserved)
    {v : Json} (hv : v.Distinct) : (a.put name v).Stable reserved :=
  ⟨forall_put h.known name fun key => Annotation.stable_ofJson key hv, free_put h.extra hname hv⟩

/-! ### Written annotations -/

/-- The names of written annotations: the texts of the recognised keys, then the others. -/
theorem names_members (a : Annotations) :
    Members.names a.members = a.known.keys.map AnnotationKey.text ++ a.extra.keys := by
  simp [members, Members.names, Dict.keys, Function.comp_def]

/-- No other annotation of sound ones has the text of a recognised key for its name. -/
theorem Sound.get?_text (h : a.Sound reserved) (key : AnnotationKey) :
    a.extra.get? key.text = none := by
  rw [Option.eq_none_iff_forall_ne_some]
  intro v hget
  exact (h.extra key.text v hget).2 (List.mem_append_right _ key.text_mem_texts)

theorem Sound.notMem_reserved (h : a.Sound reserved)
    (hkeys : ∀ key : AnnotationKey, key.text ∉ reserved) :
    ∀ name ∈ Members.names a.members, name ∉ reserved := by
  intro name hname
  rw [names_members, List.mem_append] at hname
  rcases hname with hname | hname
  · obtain ⟨key, -, rfl⟩ := List.mem_map.1 hname
    exact hkeys key
  · obtain ⟨⟨n, v⟩, hm, rfl⟩ := List.mem_map.1 hname
    have hfree := (h.extra n v (Dict.get?_eq_some_iff.2 hm)).2
    exact fun hr => hfree (List.mem_append_left _ hr)

/-- Sound annotations are written under distinct names. -/
theorem Sound.nodup_names (h : a.Sound reserved) : (Members.names a.members).Nodup := by
  rw [names_members, List.nodup_append]
  refine ⟨a.known.nodup_keys.map fun _ _ => AnnotationKey.text_injective,
    a.extra.nodup_keys, ?_⟩
  rintro name hname _ hother rfl
  obtain ⟨key, -, rfl⟩ := List.mem_map.1 hname
  rw [← Dict.contains_iff, Dict.contains, h.get?_text key] at hother
  cases hother

theorem Sound.distinct_members (h : a.Sound reserved) : ∀ m ∈ a.members, m.2.Distinct := by
  refine List.forall_mem_append.2 ⟨fun m hm => ?_, ?_⟩
  · obtain ⟨⟨key, v⟩, he, rfl⟩ := List.mem_map.1 hm
    exact h.known key v (Dict.get?_eq_some_iff.2 he)
  · rintro ⟨n, v⟩ hm
    exact (h.extra n v (Dict.get?_eq_some_iff.2 hm)).1

/-- A node repeats no name when it has members in its slots and sound annotations. -/
theorem Sound.distinct_record (h : a.Sound reserved)
    (hkeys : ∀ key : AnnotationKey, key.text ∉ reserved) (hreserved : reserved.Nodup)
    {fixed : Members Json} (hfixed : Slotted reserved fixed) :
    (Json.obj (fixed ++ a.members)).Distinct :=
  Json.distinct_record hreserved hfixed h.nodup_names (h.notMem_reserved hkeys)
    h.distinct_members

/-! ### Reading what was written -/

/-- The annotations as they are after they were written and read: each recognised one was taken
in from what is written of it. -/
def retaken (a : Annotations) : Annotations :=
  { a with known := a.known.mapValues fun key v => .ofJson key v.toJson }

/-- Stable annotations are the same after they were written and read. -/
theorem Stable.retaken_eq (h : a.Stable reserved) : a.retaken = a := by
  have hknown : (a.known.mapValues fun key v => .ofJson key v.toJson) = a.known := by
    apply Dict.ext_get?
    intro key
    rw [Dict.get?_mapValues]
    cases hget : a.known.get? key with
    | none => rfl
    | some v => rw [Option.map_some, (h.known key v hget).ofJson_toJson]
  rw [retaken, hknown]

/-- Reading sound annotations of a node takes each in again, when the node files all members
that it does not reserve among its annotations. -/
theorem Sound.stepMembers_members {σ : Type} (step : σ → String → Document → Except Problem σ)
    (set : Annotations → σ) (h : a.Sound reserved)
    (hkeys : ∀ key : AnnotationKey, key.text ∉ reserved)
    (hstep : ∀ b name v, name ∉ reserved →
      step (set b) name v = v.asJson >>= fun j => pure (set (b.put name j))) :
    Document.stepMembers step (set .empty) (Document.ofMembers a.members) =
      .ok (set a.retaken) := by
  -- the recognised keys come first, while no other name has been filed yet
  have hknown := Document.stepMembers_mapValues step AnnotationKey.text Annotation.toJson
    (fun key v => Annotation.ofJson key v.toJson) (fun known => set ⟨known, .empty⟩) a.known
    fun e key v hm => by
      have hv := h.known key v (Dict.get?_eq_some_iff.2 hm)
      rw [hstep _ _ _ (hkeys key), Document.asJson_ofJson hv]
      show Except.ok (set (Annotations.put _ _ _)) = _
      rw [Annotations.put, AnnotationKey.ofText?_text]
      rfl
  have hextra := Document.stepMembers_bag step (fun extra => set ⟨a.retaken.known, extra⟩) h.extra
    fun e name v hname => by
      rw [List.mem_append, not_or] at hname
      rw [hstep _ _ _ hname.1]
      simp only [Annotations.put, AnnotationKey.ofText?_eq_none_iff.2 hname.2]
  exact Document.stepMembers_append_of_ok hknown hextra

/-- Reading stable annotations of a node gives them again, when the node files all members
that it does not reserve among its annotations. -/
theorem Stable.stepMembers_members {σ : Type} (step : σ → String → Document → Except Problem σ)
    (set : Annotations → σ) (h : a.Stable reserved)
    (hkeys : ∀ key : AnnotationKey, key.text ∉ reserved)
    (hstep : ∀ b name v, name ∉ reserved →
      step (set b) name v = v.asJson >>= fun j => pure (set (b.put name j))) :
    Document.stepMembers step (set .empty) (Document.ofMembers a.members) = .ok (set a) := by
  rw [h.sound.stepMembers_members step set hkeys hstep, h.retaken_eq]

end Annotations

end Picklist
