/-
# JSON values up to the order of members

Two JSON values are alike when they differ only in the order in which their objects list
their members.  Numbers have to be the same exactly, which is stricter than `==`.

* `Json.sorted` is the representative in which every object is in the order of its names;
* `Json.Alike` : the representatives are equal;
* `Members.bag` : the members of an object without their order, and `Json.alike_obj` : objects
  with the same members are alike;
* `Json.alike_merged` : merging the repeated members of objects gives an alike value;
* `Json.same_of_alike` : alike values that repeat no name are equal.
-/
import Picklist.Json.Basic
import Picklist.Proofs.Dict
import Picklist.Proofs.Members
import Mathlib.Algebra.Order.Group.Multiset

namespace Picklist

/-! ## The sorted representative -/

namespace Json

mutual

/-- The value in which every object lists its members in the order of their names; of a
repeated name the last member counts. -/
def sorted : Json → Json
  | .arr items => .arr (sortedItems items)
  | .obj members => .obj (Dict.ofList (sortedMembers members)).entries
  | other => other

/-- Sorts inside every item. -/
def sortedItems : List Json → List Json
  | [] => []
  | x :: xs => x.sorted :: sortedItems xs

/-- Sorts inside every member value. -/
def sortedMembers : List (String × Json) → List (String × Json)
  | [] => []
  | (name, value) :: rest => (name, value.sorted) :: sortedMembers rest

end

/-- Two values differ at most in the order of the members of their objects. -/
def Alike (a b : Json) : Prop := a.sorted = b.sorted

theorem sortedMembers_eq_map (ms : Members Json) :
    sortedMembers ms = ms.map fun m => (m.1, m.2.sorted) := by
  induction ms with
  | nil => rfl
  | cons m rest ih => rw [sortedMembers, ih, List.map_cons]

theorem names_sortedMembers (ms : Members Json) :
    (sortedMembers ms).map Prod.fst = ms.names := by
  rw [sortedMembers_eq_map, List.map_map]
  rfl

end Json

/-! ## The members of an object without their order -/

namespace Members

/-- The members of an object without their order, with sorted values. -/
def bag (ms : Members Json) : Multiset (String × Json) := Json.sortedMembers ms

@[simp] theorem bag_nil : bag [] = 0 := rfl

@[simp] theorem bag_append (ms ns : Members Json) : bag (ms ++ ns) = bag ms + bag ns := by
  simp [bag, Json.sortedMembers_eq_map]

theorem bag_cons (m : String × Json) (ms : Members Json) :
    bag (m :: ms) = bag [m] + bag ms :=
  bag_append [m] ms

/-- Alike values make the same member. -/
theorem bag_singleton_congr {v w : Json} (h : v.Alike w) (name : String) :
    bag [(name, v)] = bag [(name, w)] := by
  have hs : v.sorted = w.sorted := h
  simp [bag, Json.sortedMembers, hs]

/-- A name has a member in the bag when it is one of the names. -/
theorem mem_names_iff {ms : Members Json} {name : String} :
    name ∈ ms.names ↔ ∃ v, (name, v) ∈ ms.bag := by
  rw [← Json.names_sortedMembers, List.mem_map]
  constructor
  · rintro ⟨⟨n, v⟩, hm, rfl⟩
    exact ⟨v, hm⟩
  · rintro ⟨v, hm⟩
    exact ⟨(name, v), hm, rfl⟩

/-- A name without a member in the bag is none of the names. -/
theorem notMem_names_of_bag {ms : Members Json} {name : String}
    (h : ∀ v, (name, v) ∉ ms.bag) : name ∉ ms.names := by
  rw [mem_names_iff, not_exists]
  exact h

theorem bag_eq_of_perm {ms ns : Members Json} (h : ms.Perm ns) : ms.bag = ns.bag := by
  rw [bag, bag, Json.sortedMembers_eq_map, Json.sortedMembers_eq_map]
  exact Multiset.coe_eq_coe.2 (h.map _)

theorem perm_names_of_bag_eq {ms ns : Members Json} (h : ms.bag = ns.bag) :
    ms.names.Perm ns.names := by
  have hp : (Json.sortedMembers ms).Perm (Json.sortedMembers ns) := Multiset.coe_eq_coe.1 h
  rw [← Json.names_sortedMembers, ← Json.names_sortedMembers]
  exact hp.map Prod.fst

end Members

/-! ## Objects with the same members -/

namespace Dict

open Std

variable {κ α : Type} [Ord κ] [BEq κ] [LawfulBEq κ] [TransOrd κ] [LawfulEqOrd κ]

/-- The order of a list without repeated keys does not matter to its dictionary. -/
theorem ofList_eq_of_perm {es fs : List (κ × α)} (h : es.Perm fs)
    (he : (es.map Prod.fst).Nodup) : ofList es = ofList fs := by
  have hf : (fs.map Prod.fst).Nodup := (h.map Prod.fst).nodup_iff.1 he
  apply ext_get?
  intro key
  rw [get?_ofList he, get?_ofList hf, lookup_eq_of_perm h he]

end Dict

namespace Json

/-- Objects with the same members are alike, provided that no name repeats. -/
theorem alike_obj {ms ns : Members Json} (h : ms.bag = ns.bag) (hn : ms.names.Nodup) :
    (Json.obj ms).Alike (.obj ns) := by
  have hp : (sortedMembers ms).Perm (sortedMembers ns) := Multiset.coe_eq_coe.1 h
  rw [Alike, sorted, sorted, Dict.ofList_eq_of_perm hp (by rwa [names_sortedMembers])]

/-! ## Merging -/

/-- Merging inside the member values is a map. -/
theorem mergedMembers_eq_map (ms : Members Json) :
    mergedMembers ms = ms.map fun m => (m.1, m.2.merged) := by
  induction ms with
  | nil => rfl
  | cons m rest ih => rw [mergedMembers, ih, List.map_cons]

/-- An object that repeats no name is merged inside the member values only. -/
theorem merged_obj {ms : Members Json} (hn : ms.names.Nodup) :
    (Json.obj ms).merged = .obj (ms.map fun m => (m.1, m.2.merged)) := by
  rw [merged, mergedMembers_eq_map, Members.merge_of_nodup]
  simpa [Members.names, Function.comp_def] using hn

/-- Putting a member into an object inserts it into the dictionary of the members. -/
theorem ofList_put (ms : Members Json) (hn : ms.names.Nodup) (name : String) (value : Json) :
    Dict.ofList (ms.put name value) = (Dict.ofList ms).insert name value := by
  apply Dict.ext_get?
  intro key
  rw [Dict.get?_ofList (Members.nodup_put hn name value), Dict.get?_insert,
    Dict.get?_ofList hn]
  split
  · rename_i h
    rw [h, Members.lookup_put_self]
  · rename_i h
    exact Members.lookup_put_of_ne ms value h

/-- Putting members in turn inserts them in turn. -/
theorem ofList_putAll (ms start : Members Json) (hn : start.names.Nodup) :
    Dict.ofList (Members.putAll start ms) =
      ms.foldl (fun d m => d.insert m.1 m.2) (Dict.ofList start) := by
  induction ms generalizing start with
  | nil => rfl
  | cons m rest ih =>
      rw [List.foldl_cons, ← ofList_put start hn]
      exact ih (start.put m.1 m.2) (Members.nodup_put hn m.1 m.2)

/-- Merged members make the same dictionary as the members that they come from. -/
theorem ofList_merge (ms : Members Json) : Dict.ofList ms.merge = Dict.ofList ms :=
  ofList_putAll ms [] List.nodup_nil

/-- Sorting inside the values and putting can be exchanged. -/
theorem sortedMembers_put (ms : Members Json) (name : String) (value : Json) :
    sortedMembers (ms.put name value) =
      Members.put name value.sorted (sortedMembers ms) := by
  induction ms with
  | nil => rfl
  | cons m rest ih =>
      obtain ⟨n, v⟩ := m
      by_cases h : n = name
      · simp [Members.put, sortedMembers, h]
      · simp [Members.put, sortedMembers, h, ih]

/-- Sorting inside the values and merging can be exchanged. -/
theorem sortedMembers_merge (ms : Members Json) :
    sortedMembers ms.merge = Members.merge (sortedMembers ms) := by
  -- merging starts from nothing, but the induction needs any start
  suffices h : ∀ start : Members Json, sortedMembers (Members.putAll start ms) =
      Members.putAll (sortedMembers start) (sortedMembers ms) from h []
  induction ms with
  | nil => exact fun start => rfl
  | cons m rest ih =>
      intro start
      have hstep := ih (start.put m.1 m.2)
      rw [sortedMembers_put] at hstep
      exact hstep

mutual

/-- Merging the repeated members of all objects gives an alike value. -/
theorem alike_merged : (j : Json) → j.merged.Alike j
  | .arr items => by
      rw [merged, Alike, sorted, sorted, sortedItems_mergedItems items]
  | .obj members => by
      rw [merged, Alike, sorted, sorted, sortedMembers_merge, ofList_merge,
        sortedMembers_mergedMembers members]
  | .null => rfl
  | .bool _ => rfl
  | .num _ => rfl
  | .str _ => rfl

theorem sortedItems_mergedItems : (items : List Json) →
    sortedItems (mergedItems items) = sortedItems items
  | [] => rfl
  | x :: xs => by
      have hx : x.merged.sorted = x.sorted := alike_merged x
      rw [mergedItems, sortedItems, sortedItems, hx, sortedItems_mergedItems xs]

theorem sortedMembers_mergedMembers : (ms : List (String × Json)) →
    sortedMembers (mergedMembers ms) = sortedMembers ms
  | [] => rfl
  | (name, value) :: rest => by
      have hv : value.merged.sorted = value.sorted := alike_merged value
      rw [mergedMembers, sortedMembers, sortedMembers, hv, sortedMembers_mergedMembers rest]

end

/-! ## Equality -/

/-- Two alike objects without repeated names have alike values for every name. -/
theorem lookup_of_alike {ms ns : Members Json} (hm : ms.names.Nodup) (hn : ns.names.Nodup)
    (h : (Json.obj ms).Alike (.obj ns)) (name : String) :
    (ms.lookup name).map sorted = (ns.lookup name).map sorted := by
  rw [← names_sortedMembers] at hm hn
  have hdict : Dict.ofList (sortedMembers ms) = Dict.ofList (sortedMembers ns) :=
    Dict.ext_entries (Json.obj.inj h)
  have hget : (Dict.ofList (sortedMembers ms)).get? name =
      (Dict.ofList (sortedMembers ns)).get? name := by rw [hdict]
  rw [Dict.get?_ofList hm, Dict.get?_ofList hn, sortedMembers_eq_map, sortedMembers_eq_map] at hget
  rwa [lookup_mapValues fun _ v => sorted v, lookup_mapValues fun _ v => sorted v] at hget

/-- Two alike objects without repeated names have equally many members. -/
theorem length_of_alike {ms ns : Members Json} (hm : ms.names.Nodup) (hn : ns.names.Nodup)
    (h : (Json.obj ms).Alike (.obj ns)) : ms.length = ns.length := by
  have hp : (sortedMembers ms).Perm (sortedMembers ns) := by
    refine perm_of_lookup_eq (by rwa [names_sortedMembers]) (by rwa [names_sortedMembers]) ?_
    intro name
    rw [sortedMembers_eq_map, sortedMembers_eq_map]
    rw [lookup_mapValues fun _ v => sorted v, lookup_mapValues fun _ v => sorted v]
    exact lookup_of_alike hm hn h name
  simpa [sortedMembers_eq_map] using hp.length_eq

theorem DistinctMembers.of_mem {ms : Members Json} (h : DistinctMembers ms) {m : String × Json}
    (hm : m ∈ ms) : m.2.Distinct := by
  induction ms with
  | nil => cases hm
  | cons m' rest ih =>
      rcases List.mem_cons.1 hm with rfl | hm
      · exact h.1
      · exact ih h.2 hm

mutual

/-- Alike values without repeated names are equal. -/
theorem same_of_alike : (a b : Json) → a.Distinct → b.Distinct → a.Alike b → a.same b = true
  | .arr xs, .arr ys, ha, hb, h => by
      rw [same]
      exact sameItems_of_alike xs ys ha hb (Json.arr.inj h)
  | .obj ms, .obj ns, ha, hb, h => by
      rw [same, length_of_alike ha.1 hb.1 h, beq_self_eq_true, Bool.true_and]
      refine sameMembers_of_alike ms ns ha.2 hb.2 fun name v hv => ?_
      have hlookup := lookup_of_alike ha.1 hb.1 h name
      rw [(lookup_eq_some_iff_mem ha.1).2 hv] at hlookup
      obtain ⟨w, hw, hvw⟩ := Option.map_eq_some_iff.1 hlookup.symm
      exact ⟨w, hw, hvw.symm⟩
  | .null, b, _, _, h => by cases b <;> simp_all [Alike, sorted, same]
  | .bool _, b, _, _, h => by cases b <;> simp_all [Alike, sorted, same]
  | .num _, b, _, _, h => by cases b <;> simp_all [Alike, sorted, same]
  | .str _, b, _, _, h => by cases b <;> simp_all [Alike, sorted, same]
  | .arr _, .null, _, _, h | .arr _, .bool _, _, _, h | .arr _, .num _, _, _, h
  | .arr _, .str _, _, _, h | .arr _, .obj _, _, _, h => by cases h
  | .obj _, .null, _, _, h | .obj _, .bool _, _, _, h | .obj _, .num _, _, _, h
  | .obj _, .str _, _, _, h | .obj _, .arr _, _, _, h => by cases h

/-- Alike items without repeated names are equal. -/
theorem sameItems_of_alike : (xs ys : List Json) → DistinctItems xs → DistinctItems ys →
    sortedItems xs = sortedItems ys → sameItems xs ys = true
  | [], [], _, _, _ => rfl
  | x :: xs, y :: ys, hx, hy, h => by
      obtain ⟨hxy, hrest⟩ := List.cons.inj h
      rw [sameItems, same_of_alike x y hx.1 hy.1 hxy, sameItems_of_alike xs ys hx.2 hy.2 hrest]
      rfl
  | [], _ :: _, _, _, h => by cases h
  | _ :: _, [], _, _, h => by cases h

/-- Members are found equal in a list that has an alike value for each of them. -/
theorem sameMembers_of_alike : (ms ns : List (String × Json)) → DistinctMembers ms →
    DistinctMembers ns →
    (∀ name v, (name, v) ∈ ms → ∃ w, ns.lookup name = some w ∧ v.Alike w) →
    sameMembers ms ns = true
  | [], _, _, _, _ => rfl
  | (name, v) :: rest, ns, hm, hn, h => by
      obtain ⟨w, hw, hvw⟩ := h name v List.mem_cons_self
      have hsame : v.same w = true :=
        same_of_alike v w hm.1 (hn.of_mem (mem_of_lookup hw)) hvw
      have hrest : sameMembers rest ns = true :=
        sameMembers_of_alike rest ns hm.2 hn fun name v hv => h name v (List.mem_cons_of_mem _ hv)
      simp only [sameMembers, hw, hsame, hrest, Bool.and_true]
end

end Json

end Picklist
