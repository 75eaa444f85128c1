/-
# Putting members and taking them out

* `Members.put_of_notMem` : a new name is appended;
* `Members.merge_of_nodup` : merging changes nothing when no name repeats;
* `Members.perm_withdraw` : taking a member out leaves all others.
-/
import Picklist.Members
import Picklist.Proofs.Lookup

namespace Picklist

namespace Members

variable {α : Type}

/-- A new name is appended. -/
theorem put_of_notMem {ms : Members α} {name : String} (h : name ∉ ms.names) (value : α) :
    ms.put name value = ms ++ [(name, value)] := by
  induction ms with
  | nil => rfl
  | cons m rest ih =>
      rw [names, List.map_cons, List.mem_cons, not_or] at h
      rw [put, if_neg (Ne.symm h.1), ih h.2, List.cons_append]

/-- When no name repeats, a name is new to the members before it. -/
theorem notMem_names_of_nodup {pre rest : Members α} {m : String × α}
    (h : (pre ++ m :: rest : Members α).names.Nodup) : m.1 ∉ pre.names := by
  rw [names, List.map_append, List.map_cons, List.nodup_append] at h
  intro hm
  exact h.2.2 m.1 hm m.1 List.mem_cons_self rfl

/-- Putting new members with distinct names appends them. -/
theorem putAll_of_nodup (start ms : Members α) (h : (start ++ ms : Members α).names.Nodup) :
    putAll start ms = start ++ ms := by
  induction ms generalizing start with
  | nil => rw [List.append_nil]; rfl
  | cons m rest ih =>
      have hstep : putAll start (m :: rest) = putAll (start.put m.1 m.2) rest := rfl
      -- the first member joins the start before the others are put
      have hassoc : start ++ [m] ++ rest = start ++ m :: rest := by simp
      rw [hstep, put_of_notMem (notMem_names_of_nodup h), ih (start ++ [m]) (hassoc ▸ h), hassoc]

/-- Merging changes nothing when no name repeats. -/
theorem merge_of_nodup {ms : Members α} (h : ms.names.Nodup) : ms.merge = ms :=
  putAll_of_nodup [] ms h

/-- Taking a member out leaves all others. -/
theorem perm_withdraw {ms : Members α} {name : String} {value : α}
    (h : ms.lookup name = some value) : ms.Perm ((name, value) :: ms.withdraw name) := by
  induction ms with
  | nil => cases h
  | cons m rest ih =>
      obtain ⟨n, v⟩ := m
      by_cases hn : n = name
      · subst hn
        rw [List.lookup_cons_self, Option.some.injEq] at h
        subst h
        rw [withdraw, if_pos rfl]
        cases hlast : rest.getLast? with
        | none => rw [List.getLast?_eq_none_iff.1 hlast]
        | some last =>
            -- the last member moves to the front of what is left
            obtain ⟨init, rfl⟩ := List.getLast?_eq_some_iff.1 hlast
            rw [List.dropLast_concat]
            exact (List.perm_append_singleton last init).cons _
      · have hne : (name == n) = false := beq_eq_false_iff_ne.2 (Ne.symm hn)
        rw [List.lookup_cons, hne] at h
        rw [withdraw, if_neg hn]
        exact ((ih h).cons _).trans (List.Perm.swap _ _ _)

end Members

end Picklist
