/-
# Values that repeat no name

Reading merges the repeated members of an object, so whatever is read repeats no name.  On such
values merging changes nothing.

* `Json.distinct_obj_iff` and `Json.distinct_record` : when an object repeats no name;
* `Json.merged_of_distinct` : then merging leaves it;
* `Json.distinct_merged` : merging leaves no repeated name;
* `Document.distinct_of_toJson?` : the value of a document repeats no name.
-/
import Picklist.Proofs.Document
import Picklist.Proofs.Json.Alike

namespace Picklist

/-! ## Members -/

namespace Members

variable {α : Type}

/-- A member after `put` is the new one or an old one. -/
theorem mem_put {ms : Members α} {name : String} {value : α} {m : String × α}
    (h : m ∈ ms.put name value) : m.2 = value ∨ m ∈ ms := by
  induction ms with
  | nil => exact .inl (List.mem_singleton.1 h ▸ rfl)
  | cons m' rest ih =>
      obtain ⟨n, v⟩ := m'
      unfold put at h
      split at h
      · rcases List.mem_cons.1 h with rfl | h
        · exact .inl rfl
        · exact .inr (List.mem_cons_of_mem _ h)
      · rcases List.mem_cons.1 h with rfl | h
        · exact .inr List.mem_cons_self
        · exact (ih h).imp_right (List.mem_cons_of_mem _)

/-- The values of merged members are values of the members that they come from. -/
theorem mem_merge {ms : Members α} {m : String × α} (h : m ∈ ms.merge) :
    ∃ m' ∈ ms, m'.2 = m.2 := by
  suffices hput : ∀ start : Members α, m ∈ putAll start ms →
      m ∈ start ∨ ∃ m' ∈ ms, m'.2 = m.2 from (hput [] h).resolve_left (by simp)
  clear h
  induction ms with
  | nil => exact fun start h => .inl h
  | cons first rest ih =>
      intro start h
      rcases ih _ h with h | ⟨m', hm, hv⟩
      · rcases mem_put h with hv | h
        · exact .inr ⟨first, List.mem_cons_self, hv.symm⟩
        · exact .inl h
      · exact .inr ⟨m', List.mem_cons_of_mem _ hm, hv⟩

end Members

/-! ## Objects -/

namespace Json

/-- No member value repeats a name when none of them does. -/
theorem distinctMembers_iff {ms : Members Json} :
    DistinctMembers ms ↔ ∀ m ∈ ms, m.2.Distinct := by
  refine ⟨fun h _ hm => h.of_mem hm, fun h => ?_⟩
  induction ms with
  | nil => trivial
  | cons m rest ih =>
      rw [List.forall_mem_cons] at h
      exact ⟨h.1, ih h.2⟩

theorem distinctItems_iff {items : List Json} :
    DistinctItems items ↔ ∀ x ∈ items, x.Distinct := by
  induction items with
  | nil => simp [DistinctItems]
  | cons x xs ih => rw [DistinctItems, ih, List.forall_mem_cons]

/-- An object repeats no name when its own names are distinct and no member value repeats one. -/
theorem distinct_obj_iff {ms : Members Json} :
    (Json.obj ms).Distinct ↔ ms.names.Nodup ∧ ∀ m ∈ ms, m.2.Distinct :=
  and_congr_right fun _ => distinctMembers_iff

/-- Members that stand in some of the given slots, in the order of the slots, and repeat no name
inside. -/
structure Slotted (slots : List String) (ms : Members Json) : Prop where
  names : ms.names.Sublist slots
  distinct : ∀ m ∈ ms, m.2.Distinct

theorem slotted_nil (slots : List String) : Slotted slots [] where
  names := List.nil_sublist slots
  distinct _ hm := absurd hm List.not_mem_nil

theorem slotted_singleton (name : String) {v : Json} (h : v.Distinct) :
    Slotted [name] [(name, v)] where
  names := List.Sublist.refl [name]
  distinct _ hm := List.mem_singleton.1 hm ▸ h

theorem Slotted.ite {slots : List String} {ms ms' : Members Json} {p : Prop} [Decidable p]
    (h : Slotted slots ms) (h' : Slotted slots ms') : Slotted slots (if p then ms else ms') := by
  split
  · exact h
  · exact h'

/-- Members in some slots and members in later ones. -/
theorem Slotted.append {slots slots' : List String} {ms ms' : Members Json}
    (h : Slotted slots ms) (h' : Slotted slots' ms') : Slotted (slots ++ slots') (ms ++ ms') where
  names := by
    rw [Members.names, List.map_append]
    exact h.names.append h'.names
  distinct := List.forall_mem_append.2 ⟨h.distinct, h'.distinct⟩

/-- A record repeats no name when its first members stand in slots, and all others have distinct
names that are not those of slots. -/
theorem distinct_record {slots : List String} {fixed rest : Members Json} (hslots : slots.Nodup)
    (hfixed : Slotted slots fixed) (hrest : rest.names.Nodup)
    (hfree : ∀ name ∈ rest.names, name ∉ slots) (hr : ∀ m ∈ rest, m.2.Distinct) :
    (Json.obj (fixed ++ rest)).Distinct := by
  refine distinct_obj_iff.2 ⟨?_, List.forall_mem_append.2 ⟨hfixed.distinct, hr⟩⟩
  rw [Members.names, List.map_append, List.nodup_append]
  refine ⟨hfixed.names.nodup hslots, hrest, ?_⟩
  rintro name hn _ hm rfl
  exact hfree name hm (hfixed.names.subset hn)

mutual

theorem merged_of_distinct : (j : Json) → j.Distinct → j.merged = j
  | .arr items, h => by rw [merged, mergedItems_of_distinct items h]
  | .obj members, h => by
      rw [merged, mergedMembers_of_distinct members h.2, Members.merge_of_nodup h.1]
  | .null, _ => rfl
  | .bool _, _ => rfl
  | .num _, _ => rfl
  | .str _, _ => rfl

theorem mergedItems_of_distinct : (items : List Json) → DistinctItems items →
    mergedItems items = items
  | [], _ => rfl
  | x :: xs, h => by
      rw [mergedItems, merged_of_distinct x h.1, mergedItems_of_distinct xs h.2]

theorem mergedMembers_of_distinct : (ms : List (String × Json)) → DistinctMembers ms →
    mergedMembers ms = ms
  | [], _ => rfl
  | (name, value) :: rest, h => by
      rw [mergedMembers, merged_of_distinct value h.1, mergedMembers_of_distinct rest h.2]

end

mutual

/-- A merged value repeats no name. -/
theorem distinct_merged : (j : Json) → j.merged.Distinct
  | .arr items => distinctItems_mergedItems items
  | .obj members => by
      refine distinct_obj_iff.2 ⟨Members.nodup_merge _, fun m hm => ?_⟩
      obtain ⟨m', hm', hv⟩ := Members.mem_merge hm
      exact hv ▸ (distinctMembers_mergedMembers members).of_mem hm'
  | .null => trivial
  | .bool _ => trivial
  | .num _ => trivial
  | .str _ => trivial

theorem distinctItems_mergedItems : (items : List Json) → DistinctItems (mergedItems items)
  | [] => trivial
  | x :: xs => ⟨distinct_merged x, distinctItems_mergedItems xs⟩

theorem distinctMembers_mergedMembers : (ms : List (String × Json)) →
    DistinctMembers (mergedMembers ms)
  | [] => trivial
  | (_, value) :: rest => ⟨distinct_merged value, distinctMembers_mergedMembers rest⟩

end

/-- A value that repeats no name equals itself. -/
theorem same_self {j : Json} (h : j.Distinct) : j.same j = true :=
  same_of_alike j j h h rfl

end Json

/-! ## Values of documents -/

namespace Document

mutual

/-- The value of a document repeats no name. -/
theorem distinct_of_toJson? : (d : Document) → {j : Json} → d.toJson? = some j → j.Distinct
  | .arr items closed, j, h => by
      unfold toJson? at h
      split at h
      · rename_i xs hitems
        cases h
        exact distinctItems_of_toItems? items hitems
      · cases h
  | .obj members closed, j, h => by
      unfold toJson? at h
      split at h
      · rename_i ms hmembers
        cases h
        refine Json.distinct_obj_iff.2 ⟨Members.nodup_merge ms, fun m hm => ?_⟩
        obtain ⟨m', hm', hv⟩ := Members.mem_merge hm
        exact hv ▸ (distinctMembers_of_toMembers? members hmembers).of_mem hm'
      · cases h
  | .null, _, h => by cases h; trivial
  | .bool _, _, h => by cases h; trivial
  | .num _, _, h => by cases h; trivial
  | .str _, _, h => by cases h; trivial
  | .unstorable _, _, h => by cases h
  | .broken, _, h => by cases h

/-- The values of items repeat no name. -/
theorem distinctItems_of_toItems? : (items : List Document) → {xs : List Json} →
    toItems? items = some xs → Json.DistinctItems xs
  | [], _, h => by cases h; trivial
  | d :: rest, _, h => by
      unfold toItems? at h
      split at h
      · rename_i x xs hx hxs
        cases h
        exact ⟨distinct_of_toJson? d hx, distinctItems_of_toItems? rest hxs⟩
      · cases h

/-- The values of members repeat no name inside. -/
theorem distinctMembers_of_toMembers? : (members : List (Document × Document)) →
    {ms : Members Json} → toMembers? members = some ms → Json.DistinctMembers ms
  | [], _, h => by cases h; trivial
  | (key, value) :: rest, _, h => by
      unfold toMembers? at h
      split at h
      · rename_i name v ms _ hv hms
        cases h
        exact ⟨distinct_of_toJson? value hv, distinctMembers_of_toMembers? rest hms⟩
      · cases h

end

/-- A value that is kept as it is repeats no name. -/
theorem distinct_of_asJson {d : Document} {j : Json} (h : asJson d = .ok j) : j.Distinct :=
  distinct_of_toJson? d (asJson_eq_ok_iff.1 h)

/-- Only the document `null` has the value `null`. -/
theorem eq_null_of_toJson? {d : Document} (h : d.toJson? = some .null) : d = .null := by
  cases d with
  | null => rfl
  | arr items closed =>
      unfold toJson? at h
      split at h <;> cases h
  | obj members closed =>
      unfold toJson? at h
      split at h <;> cases h
  | _ => cases h

end Document

end Picklist
