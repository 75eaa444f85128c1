/-
# Members in order of first insertion

A list of named values in which a name stands where it was first put.

* `Members.put` replaces the value of a name in place, or appends a new name.
* `Members.withdraw` removes a name and moves the last member into its place.
* `Members.merge` puts a list of members in turn: every name keeps its first position
  and its last value.

None of them makes a name occur twice.
-/

namespace Picklist

/-- Named values in order. -/
abbrev Members (α : Type) := List (String × α)

namespace Members

variable {α : Type}

/-! ## Operations -/

/-- The names, in order. -/
def names (ms : Members α) : List String := ms.map Prod.fst

/-- Replaces the value of a name in place, or appends the name. -/
def put (name : String) (value : α) : Members α → Members α
  | [] => [(name, value)]
  | (n, v) :: rest =>
    if n = name then (n, value) :: rest
    else (n, v) :: put name value rest

/-- Puts the members of a list in turn. -/
def putAll (start : Members α) (ms : Members α) : Members α :=
  ms.foldl (fun acc m => acc.put m.1 m.2) start

/-- Every name once, at its first position and with its last value. -/
def merge (ms : Members α) : Members α := putAll [] ms

/-- Removes a name; the last member moves into its place. -/
def withdraw (name : String) : Members α → Members α
  | [] => []
  | (n, v) :: rest =>
    if n = name then
      match rest.getLast? with
      | none => []
      | some last => last :: rest.dropLast
    else (n, v) :: withdraw name rest

/-! ## Names and values after `put` -/

@[simp] theorem lookup_put_self (ms : Members α) (name : String) (value : α) :
    (ms.put name value).lookup name = some value := by
  induction ms with
  | nil => simp [put]
  | cons m rest ih =>
    obtain ⟨n, v⟩ := m
    by_cases h : n = name
    · simp [put, h]
    · have h' : (name == n) = false := by simp [Ne.symm h]
      simp [put, h, List.lookup_cons, h', ih]

theorem lookup_put_of_ne (ms : Members α) {name other : String} (value : α)
    (h : other ≠ name) : (ms.put name value).lookup other = ms.lookup other := by
  have h' : (other == name) = false := by simp [h]
  induction ms with
  | nil => simp [put, List.lookup_cons, h']
  | cons m rest ih =>
    obtain ⟨n, v⟩ := m
    by_cases hn : n = name
    · subst hn
      simp [put, List.lookup_cons, h']
    · cases ho : other == n <;> simp [put, hn, List.lookup_cons, ho, ih]

/-- A name that is present keeps the order of names; a new one comes last. -/
theorem names_put (ms : Members α) (name : String) (value : α) :
    (ms.put name value).names =
      if name ∈ ms.names then ms.names else ms.names ++ [name] := by
  induction ms with
  | nil => simp [put, names]
  | cons m rest ih =>
    obtain ⟨n, v⟩ := m
    by_cases h : n = name
    · simp [put, names, h]
    · simp only [names] at ih
      by_cases hm : name ∈ rest.map Prod.fst
      · simp only [hm, if_true] at ih
        simp [put, names, h, Ne.symm h, ih, hm]
      · simp only [hm, if_false] at ih
        simp [put, names, h, Ne.symm h, ih, hm]

theorem nodup_put {ms : Members α} (h : ms.names.Nodup) (name : String) (value : α) :
    (ms.put name value).names.Nodup := by
  rw [names_put]
  split
  · exact h
  · rename_i hn
    rw [List.nodup_append]
    refine ⟨h, by simp, ?_⟩
    intro a ha b hb hab
    simp only [List.mem_singleton] at hb
    exact hn (hb ▸ hab ▸ ha)

/-- Merged members have distinct names. -/
theorem nodup_merge (ms : Members α) : ms.merge.names.Nodup := by
  suffices h : ∀ start : Members α, start.names.Nodup → (putAll start ms).names.Nodup from
    h [] (by simp [names])
  induction ms with
  | nil => exact fun start h => h
  | cons m rest ih => exact fun start h => ih _ (nodup_put h m.1 m.2)

end Members

end Picklist
