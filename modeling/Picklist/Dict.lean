/-
# Dictionaries in key order

A dictionary is a list of entries with strictly ascending keys, so two dictionaries with
the same entries are equal and every walk through one goes in key order.

* `Dict.insert` sets the value of a key, `Dict.erase` removes a key, and
  `Dict.mapValues` changes all values at once.
* `get?_insert_self`, `get?_insert_of_ne`, `get?_erase_self`, `get?_erase_of_ne` and
  `get?_mapValues` say what each operation does to the value of a key.
-/

namespace Picklist

open Std

/-- Entries with strictly ascending keys. -/
structure Dict (κ : Type) [Ord κ] (α : Type) where
  entries : List (κ × α)
  ascending : entries.Pairwise (fun a b => compare a.1 b.1 = .lt)

namespace Dict

variable {κ : Type} [Ord κ] {α β : Type}

/-! ## Reading -/

/-- The dictionary without entries. -/
def empty : Dict κ α := ⟨[], .nil⟩

instance : Inhabited (Dict κ α) := ⟨empty⟩

instance : EmptyCollection (Dict κ α) := ⟨empty⟩

/-- Two dictionaries are equal when their entries are, place by place. -/
instance [BEq κ] [BEq α] : BEq (Dict κ α) := ⟨fun a b => a.entries == b.entries⟩

/-- The keys in ascending order. -/
def keys (d : Dict κ α) : List κ := d.entries.map Prod.fst

/-- The values in the order of their keys. -/
def values (d : Dict κ α) : List α := d.entries.map Prod.snd

/-- Whether there are no entries. -/
def isEmpty (d : Dict κ α) : Bool := d.entries.isEmpty

/-- The value of a key. -/
def get? [BEq κ] (d : Dict κ α) (key : κ) : Option α := d.entries.lookup key

/-- Whether a key has a value. -/
def contains [BEq κ] (d : Dict κ α) (key : κ) : Bool := (d.get? key).isSome

theorem ext_entries {a b : Dict κ α} (h : a.entries = b.entries) : a = b := by
  cases a
  cases b
  simp_all

/-! ## Changing one entry -/

/-- Sets the value of a key in an ascending list. -/
def insertEntry (key : κ) (value : α) : List (κ × α) → List (κ × α)
  | [] => [(key, value)]
  | (k, v) :: rest =>
    match compare key k with
    | .lt => (key, value) :: (k, v) :: rest
    | .eq => (key, value) :: rest
    | .gt => (k, v) :: insertEntry key value rest

/-- An entry after `insertEntry` is the new one or an old one. -/
theorem mem_insertEntry {key : κ} {value : α} {e : κ × α} {es : List (κ × α)}
    (h : e ∈ insertEntry key value es) : e = (key, value) ∨ e ∈ es := by
  induction es with
  | nil => simpa [insertEntry] using h
  | cons hd rest ih =>
    obtain ⟨k, v⟩ := hd
    unfold insertEntry at h
    split at h
    · simpa using h
    · simp only [List.mem_cons] at h ⊢
      exact h.imp_right .inr
    · simp only [List.mem_cons] at h ⊢
      rcases h with h | h
      · exact .inr (.inl h)
      · exact (ih h).imp_right .inr

/-- `insertEntry` keeps the keys strictly ascending. -/
theorem ascending_insertEntry [TransOrd κ] [LawfulEqOrd κ] (key : κ) (value : α)
    {es : List (κ × α)} (h : es.Pairwise (fun a b => compare a.1 b.1 = .lt)) :
    (insertEntry key value es).Pairwise (fun a b => compare a.1 b.1 = .lt) := by
  induction es with
  | nil => simp [insertEntry]
  | cons hd rest ih =>
    obtain ⟨k, v⟩ := hd
    have hrest : ∀ e ∈ rest, compare k e.1 = .lt := fun e he =>
      List.rel_of_pairwise_cons h he
    unfold insertEntry
    split
    · rename_i hc
      refine h.cons fun e he => ?_
      rcases List.mem_cons.1 he with rfl | he
      · exact hc
      · exact TransCmp.lt_trans hc (hrest e he)
    · rename_i hc
      have hk : key = k := LawfulEqCmp.eq_of_compare hc
      subst hk
      exact h.of_cons.cons fun e he => hrest e he
    · rename_i hc
      refine (ih h.of_cons).cons fun e he => ?_
      rcases mem_insertEntry he with rfl | he
      · exact OrientedCmp.lt_of_gt hc
      · exact hrest e he

/-- Sets the value of a key. -/
def insert [TransOrd κ] [LawfulEqOrd κ] (d : Dict κ α) (key : κ) (value : α) : Dict κ α :=
  ⟨insertEntry key value d.entries, ascending_insertEntry key value d.ascending⟩

/-- Removes a key. -/
def erase [BEq κ] (d : Dict κ α) (key : κ) : Dict κ α :=
  ⟨d.entries.filter (fun e => !(e.1 == key)), d.ascending.filter _⟩

/-- The dictionary of a list of entries, of which the last one with a key counts. -/
def ofList [TransOrd κ] [LawfulEqOrd κ] (es : List (κ × α)) : Dict κ α :=
  es.foldl (fun d e => d.insert e.1 e.2) empty

/-- A set of keys. -/
def setOf [TransOrd κ] [LawfulEqOrd κ] (keys : List κ) : Dict κ Unit :=
  ofList (keys.map fun k => (k, ()))

/-- Maps every value, knowing its key. -/
def mapValues (f : κ → α → β) (d : Dict κ α) : Dict κ β :=
  ⟨d.entries.map (fun e => (e.1, f e.1 e.2)), by
    simpa [List.pairwise_map] using d.ascending⟩

/-! ## The value of a key after a change -/

section Lawful

variable [BEq κ] [LawfulBEq κ]

theorem lookup_insertEntry_self [LawfulEqOrd κ] (key : κ) (value : α) (es : List (κ × α)) :
    (insertEntry key value es).lookup key = some value := by
  induction es with
  | nil => simp [insertEntry]
  | cons hd rest ih =>
    obtain ⟨k, v⟩ := hd
    unfold insertEntry
    split
    · simp
    · simp
    · rename_i hc
      have hne : (key == k) = false := by
        rw [beq_eq_false_iff_ne]
        rintro rfl
        simp at hc
      simp [List.lookup_cons, hne, ih]

theorem lookup_insertEntry_of_ne [LawfulEqOrd κ] {key other : κ} (value : α)
    (h : other ≠ key) (es : List (κ × α)) :
    (insertEntry key value es).lookup other = es.lookup other := by
  have hne : (other == key) = false := beq_eq_false_iff_ne.2 h
  induction es with
  | nil => simp [insertEntry, List.lookup_cons, hne]
  | cons hd rest ih =>
    obtain ⟨k, v⟩ := hd
    unfold insertEntry
    split
    · simp [List.lookup_cons, hne]
    · rename_i hc
      have hk : key = k := LawfulEqCmp.eq_of_compare hc
      subst hk
      simp [List.lookup_cons, hne]
    · cases hk : other == k <;> simp [List.lookup_cons, hk, ih]

@[simp] theorem get?_insert_self [TransOrd κ] [LawfulEqOrd κ] (d : Dict κ α) (key : κ)
    (value : α) : (d.insert key value).get? key = some value :=
  lookup_insertEntry_self key value d.entries

theorem get?_insert_of_ne [TransOrd κ] [LawfulEqOrd κ] (d : Dict κ α) {key other : κ}
    (value : α) (h : other ≠ key) : (d.insert key value).get? other = d.get? other :=
  lookup_insertEntry_of_ne value h d.entries

@[simp] theorem get?_erase_self (d : Dict κ α) (key : κ) : (d.erase key).get? key = none := by
  simp only [get?, erase]
  induction d.entries with
  | nil => rfl
  | cons hd rest ih =>
    obtain ⟨k, v⟩ := hd
    by_cases hk : k = key
    · simp [hk, ih]
    · have hne : (key == k) = false := beq_eq_false_iff_ne.2 (Ne.symm hk)
      simp [hk, List.lookup_cons, hne, ih]

theorem get?_erase_of_ne (d : Dict κ α) {key other : κ} (h : other ≠ key) :
    (d.erase key).get? other = d.get? other := by
  simp only [get?, erase]
  induction d.entries with
  | nil => rfl
  | cons hd rest ih =>
    obtain ⟨k, v⟩ := hd
    by_cases hk : k = key
    · have hne : (other == key) = false := beq_eq_false_iff_ne.2 h
      simp [hk, List.lookup_cons, hne, ih]
    · cases ho : other == k <;> simp [hk, List.lookup_cons, ho, ih]

/-- `mapValues` maps the value of each key. -/
theorem get?_mapValues (f : κ → α → β) (d : Dict κ α) (key : κ) :
    (d.mapValues f).get? key = (d.get? key).map (f key) := by
  simp only [get?, mapValues]
  induction d.entries with
  | nil => rfl
  | cons hd rest ih =>
    obtain ⟨k, v⟩ := hd
    by_cases hk : key = k
    · subst hk
      simp
    · have hne : (key == k) = false := beq_eq_false_iff_ne.2 hk
      simp [List.lookup_cons, hne, ih]

end Lawful

end Dict

end Picklist
