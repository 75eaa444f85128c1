/-
# Looking up names in lists with distinct names

Dictionaries and objects are lists of named values.  When no name repeats, a list is known
by the values of its names:

* `lookup_eq_some_iff_mem` : looking up a name finds exactly the members of the list;
* `lookup_eq_of_perm` : the order of the list does not matter to what is found;
* `perm_of_lookup_eq` : two lists in which every name has the same value hold the same
  members.
-/
import Mathlib.Data.List.Nodup

namespace Picklist

variable {κ : Type} [BEq κ] [LawfulBEq κ] {α β : Type}

theorem isSome_lookup {es : List (κ × α)} {key : κ} :
    (es.lookup key).isSome ↔ key ∈ es.map Prod.fst := by
  rw [List.lookup_isSome_iff]
  constructor
  · rintro ⟨e, he, hk⟩
    rw [eq_of_beq hk]
    exact List.mem_map_of_mem he
  · intro h
    obtain ⟨e, he, rfl⟩ := List.mem_map.1 h
    exact ⟨e, he, beq_self_eq_true _⟩

/-- A name has no value when it is none of the names. -/
theorem lookup_eq_none_iff_notMem {es : List (κ × α)} {key : κ} :
    es.lookup key = none ↔ key ∉ es.map Prod.fst := by
  rw [← isSome_lookup, Bool.not_eq_true, Option.isSome_eq_false_iff, Option.isNone_iff_eq_none]

theorem mem_of_lookup {es : List (κ × α)} {key : κ} {value : α}
    (h : es.lookup key = some value) : (key, value) ∈ es := by
  obtain ⟨l₁, l₂, rfl, -⟩ := List.lookup_eq_some_iff.1 h
  simp

/-- When no name repeats, looking up a name finds exactly the members of the list. -/
theorem lookup_eq_some_iff_mem {es : List (κ × α)} (h : (es.map Prod.fst).Nodup) {key : κ}
    {value : α} : es.lookup key = some value ↔ (key, value) ∈ es := by
  refine ⟨mem_of_lookup, fun hm => ?_⟩
  induction es with
  | nil => simp at hm
  | cons e rest ih =>
      rw [List.map_cons, List.nodup_cons] at h
      rcases List.mem_cons.1 hm with rfl | hm
      · simp
      · have hne : (key == e.1) = false := by
          rw [beq_eq_false_iff_ne]
          rintro rfl
          exact h.1 (List.mem_map.2 ⟨_, hm, rfl⟩)
        rw [List.lookup_cons, hne]
        exact ih h.2 hm

/-- The order of a list without repeated names does not matter to what is found. -/
theorem lookup_eq_of_perm {es fs : List (κ × α)} (h : es.Perm fs)
    (he : (es.map Prod.fst).Nodup) (key : κ) : es.lookup key = fs.lookup key := by
  have hf : (fs.map Prod.fst).Nodup := (h.map Prod.fst).nodup_iff.1 he
  apply Option.ext
  intro value
  rw [lookup_eq_some_iff_mem he, lookup_eq_some_iff_mem hf, h.mem_iff]

/-- Changing all values changes what is found. -/
theorem lookup_mapValues (f : κ → α → β) (es : List (κ × α)) (key : κ) :
    (es.map fun e => (e.1, f e.1 e.2)).lookup key = (es.lookup key).map (f key) := by
  induction es with
  | nil => rfl
  | cons e rest ih =>
      rw [List.map_cons, List.lookup_cons, List.lookup_cons, ih]
      cases hk : key == e.1
      · rfl
      · rw [eq_of_beq hk]
        rfl

/-- Two changes of all values give equal lists when they give equal values. -/
theorem beq_map_iff [BEq β] (f g : κ × α → β) (es : List (κ × α)) :
    ((es.map fun e => (e.1, f e)) == es.map fun e => (e.1, g e)) = true ↔
      ∀ e ∈ es, (f e == g e) = true := by
  induction es with
  | nil => simp
  | cons e rest ih =>
      have hpair : ((e.1, f e) == (e.1, g e)) = (f e == g e) := by
        show (e.1 == e.1 && f e == g e) = _
        rw [beq_self_eq_true, Bool.true_and]
      rw [List.map_cons, List.map_cons, List.cons_beq_cons, Bool.and_eq_true, hpair, ih,
        List.forall_mem_cons]

/-- Two lists without repeated names in which every name has the same value hold the same
members. -/
theorem perm_of_lookup_eq {es fs : List (κ × α)} (he : (es.map Prod.fst).Nodup)
    (hf : (fs.map Prod.fst).Nodup) (h : ∀ key, es.lookup key = fs.lookup key) :
    es.Perm fs := by
  apply (List.perm_ext_iff_of_nodup (List.Nodup.of_map _ he) (List.Nodup.of_map _ hf)).2
  rintro ⟨key, value⟩
  rw [← lookup_eq_some_iff_mem he, ← lookup_eq_some_iff_mem hf, h]

end Picklist
