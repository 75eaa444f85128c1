/-
# Dictionaries by their values

A dictionary is known by the value of each key:

* `Dict.get?_eq_some_iff` : the values of keys are the entries;
* `Dict.ext_get?` : dictionaries in which every key has the same value are equal;
* `Dict.beq_of_get?` : dictionaries in which every key has equal values are equal (`==`);
* `Dict.get?_insert`, `Dict.get?_ofList` and `Dict.mem_keys_setOf` say which keys and values
  the ways of building a dictionary give;
* `Dict.forall_insert` : what holds of every value holds of every value after an insertion;
* `Dict.insert_comm` and `Dict.insert_insert` : what two insertions give;
* `Dict.perm_insert` : a new key adds one entry.
-/
import Mathlib.Data.List.Perm.Subperm
import Picklist.Dict
import Picklist.Proofs.Lookup

namespace Picklist

open Std

namespace Dict

variable {κ : Type} [Ord κ] {α β : Type}

theorem nodup_keys [LawfulEqOrd κ] (d : Dict κ α) : d.keys.Nodup := by
  unfold keys
  rw [List.nodup_iff_pairwise_ne, List.pairwise_map]
  refine d.ascending.imp fun {a b} h he => ?_
  simp [he] at h

/-- A dictionary whose keys are among those of a dictionary of the same size has the same keys. -/
theorem perm_keys [LawfulEqOrd κ] {a b : Dict κ α} (hlength : a.entries.length = b.entries.length)
    (h : ∀ key ∈ a.keys, key ∈ b.keys) : a.keys.Perm b.keys :=
  (List.subperm_of_subset a.nodup_keys h).perm_of_length_le (by simp [keys, hlength])

variable [BEq κ]

@[simp] theorem get?_empty (key : κ) : (empty : Dict κ α).get? key = none := rfl

theorem contains_eq_false_iff {d : Dict κ α} {key : κ} :
    d.contains key = false ↔ d.get? key = none := by
  rw [contains, Option.isSome_eq_false_iff, Option.isNone_iff_eq_none]

variable [LawfulBEq κ]

theorem contains_iff {d : Dict κ α} {key : κ} : d.contains key = true ↔ key ∈ d.keys :=
  isSome_lookup

variable [LawfulEqOrd κ]

theorem get?_eq_some_iff {d : Dict κ α} {key : κ} {value : α} :
    d.get? key = some value ↔ (key, value) ∈ d.entries :=
  lookup_eq_some_iff_mem d.nodup_keys

variable [TransOrd κ]

/-- Dictionaries in which every key has the same value are equal. -/
theorem ext_get? {a b : Dict κ α} (h : ∀ key, a.get? key = b.get? key) : a = b := by
  apply ext_entries
  refine List.Perm.eq_of_pairwise (fun x y _ _ hxy hyx => ?_) a.ascending b.ascending
    (perm_of_lookup_eq a.nodup_keys b.nodup_keys h)
  rw [OrientedCmp.gt_of_lt hxy] at hyx
  cases hyx

/-- Ascending lists with the same entries are equal. -/
theorem eq_of_mem_iff {es fs : List (κ × α)} (he : es.Pairwise fun a b => compare a.1 b.1 = .lt)
    (hf : fs.Pairwise fun a b => compare a.1 b.1 = .lt) (h : ∀ e, e ∈ es ↔ e ∈ fs) : es = fs := by
  have hdict : (⟨es, he⟩ : Dict κ α) = ⟨fs, hf⟩ := by
    apply ext_get?
    intro key
    apply Option.ext
    intro value
    rw [get?_eq_some_iff, get?_eq_some_iff]
    exact h (key, value)
  exact congrArg entries hdict

/-- Dictionaries are equal when they have equally many entries and every value of the one has an
equal value in the other. -/
theorem beq_of_get? [BEq α] {a b : Dict κ α} (hlength : a.entries.length = b.entries.length)
    (h : ∀ key value, a.get? key = some value →
      ∃ other, b.get? key = some other ∧ (value == other) = true) : (a == b) = true := by
  have hkeys : ∀ key, b.contains key = a.contains key := by
    intro key
    have hperm := perm_keys hlength fun key hkey => by
      obtain ⟨value, hvalue⟩ := Option.isSome_iff_exists.1 (contains_iff.2 hkey)
      obtain ⟨other, hother, -⟩ := h key value hvalue
      exact contains_iff.1 (Option.isSome_iff_exists.2 ⟨other, hother⟩)
    rw [Bool.eq_iff_iff, contains_iff, contains_iff, hperm.mem_iff]
  -- the second dictionary is the first one with other values
  have hb : b = a.mapValues fun key value => (b.get? key).getD value := by
    apply ext_get?
    intro key
    rw [get?_mapValues]
    cases hkey : a.get? key with
    | none => rw [Option.map_none, ← contains_eq_false_iff, hkeys, contains_eq_false_iff, hkey]
    | some value =>
        obtain ⟨other, hother, -⟩ := h key value hkey
        rw [hother, Option.map_some, Option.getD_some]
  have hentries : b.entries = a.entries.map fun e => (e.1, (b.get? e.1).getD e.2) :=
    congrArg entries hb
  have hsame := (beq_map_iff Prod.snd (fun e => (b.get? e.1).getD e.2) a.entries).2 fun e he => by
    obtain ⟨other, hother, hsame⟩ := h e.1 e.2 (get?_eq_some_iff.2 he)
    rwa [hother, Option.getD_some]
  rwa [List.map_id', ← hentries] at hsame

/-! ## Building -/

theorem get?_insert [DecidableEq κ] (d : Dict κ α) (key other : κ) (value : α) :
    (d.insert key value).get? other = if other = key then some value else d.get? other := by
  split
  · rename_i h
    rw [h, get?_insert_self]
  · rename_i h
    exact get?_insert_of_ne d value h

/-- What every value of a dictionary has, and a new one too, every value has after `insert`. -/
theorem forall_insert [DecidableEq κ] {P : κ → α → Prop} {d : Dict κ α}
    (h : ∀ key value, d.get? key = some value → P key value) {key : κ} {value : α}
    (hvalue : P key value) :
    ∀ other v, (d.insert key value).get? other = some v → P other v := by
  intro other v hget
  rw [get?_insert] at hget
  split at hget
  · rename_i hother
    cases hget
    exact hother ▸ hvalue
  · exact h other v hget

/-- The values of different keys can be set in either order. -/
theorem insert_comm [DecidableEq κ] {key other : κ} (h : key ≠ other) (value value' : α)
    (d : Dict κ α) :
    (d.insert key value).insert other value' = (d.insert other value').insert key value := by
  apply ext_get?
  intro k
  simp only [get?_insert]
  by_cases hk : k = key
  · subst hk
    rw [if_neg h, if_pos rfl, if_pos rfl]
  · rw [if_neg hk, if_neg hk]

/-- Of two values that are set for one key the last one counts. -/
theorem insert_insert [DecidableEq κ] (d : Dict κ α) (key : κ) (value value' : α) :
    (d.insert key value).insert key value' = d.insert key value' := by
  apply ext_get?
  intro k
  simp only [get?_insert]
  split <;> rfl

/-- A new key adds its entry. -/
theorem perm_insert [DecidableEq κ] {d : Dict κ α} {key : κ} (h : key ∉ d.keys) (value : α) :
    (d.insert key value).entries.Perm (d.entries ++ [(key, value)]) := by
  apply perm_of_lookup_eq (nodup_keys _)
  · rw [List.map_append, List.nodup_append]
    refine ⟨d.nodup_keys, by simp, ?_⟩
    intro a ha b hb hab
    obtain rfl : b = key := List.mem_singleton.1 hb
    exact h (hab ▸ ha)
  · intro other
    show (d.insert key value).get? other = _
    rw [get?_insert, List.lookup_append]
    split
    · rename_i ho
      rw [ho, lookup_eq_none_iff_notMem.2 h]
      simp
    · rename_i ho
      have hne : (other == key) = false := beq_eq_false_iff_ne.2 ho
      simp [get?, List.lookup_cons, hne]

/-- Inserting a list without repeated keys sets the keys of the list. -/
theorem get?_foldl_insert (es : List (κ × α)) (h : (es.map Prod.fst).Nodup) (d : Dict κ α)
    (key : κ) :
    (es.foldl (fun d e => d.insert e.1 e.2) d).get? key = (es.lookup key).or (d.get? key) := by
  induction es generalizing d with
  | nil => rfl
  | cons e rest ih =>
      rw [List.map_cons, List.nodup_cons] at h
      rw [List.foldl_cons, ih h.2, List.lookup_cons]
      cases hk : key == e.1
      · rw [get?_insert_of_ne d e.2 (beq_eq_false_iff_ne.1 hk)]
      · have hnone : rest.lookup key = none := by
          rw [lookup_eq_none_iff_notMem, eq_of_beq hk]
          exact h.1
        rw [hnone, eq_of_beq hk, get?_insert_self]
        rfl

/-- A list without repeated keys gives the dictionary of its values. -/
theorem get?_ofList {es : List (κ × α)} (h : (es.map Prod.fst).Nodup) (key : κ) :
    (ofList es).get? key = es.lookup key := by
  rw [ofList, get?_foldl_insert es h, get?_empty, Option.or_none]

/-- A list without repeated keys gives the dictionary of its entries. -/
theorem perm_ofList {es : List (κ × α)} (h : (es.map Prod.fst).Nodup) :
    (ofList es).entries.Perm es :=
  perm_of_lookup_eq (nodup_keys _) h (get?_ofList h)

/-- The members of a set are those of the list that it is made of. -/
theorem mem_keys_setOf {keys : List κ} {key : κ} : key ∈ (setOf keys).keys ↔ key ∈ keys := by
  suffices h : ∀ d : Dict κ Unit,
      (((keys.map fun k => (k, ())).foldl (fun d e => d.insert e.1 e.2) d).contains key = true
        ↔ key ∈ keys ∨ d.contains key = true) by
    rw [← contains_iff, setOf, ofList, h]
    simp [contains]
  induction keys with
  | nil => simp
  | cons k rest ih =>
      intro d
      rw [List.map_cons, List.foldl_cons, ih, List.mem_cons]
      by_cases hk : key = k
      · simp [hk, contains]
      · simp [hk, contains, get?_insert_of_ne d () hk]

end Dict

end Picklist
