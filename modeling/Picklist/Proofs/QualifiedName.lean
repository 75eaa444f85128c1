/-
# Joining and splitting qualified names

* `QualifiedName.join_ne_right` : a joined name is longer than its last part;
* `QualifiedName.owner?_eq_some_iff` and `QualifiedName.below?_eq_some_iff` : both ways of
  splitting a name undo `join` with a single segment.
-/
import Picklist.QualifiedName

namespace Picklist

namespace QualifiedName

/-! ## Joining -/

theorem toList_join (owner name : String) :
    (join owner name).toList = owner.toList ++ '.' :: name.toList := by
  simp [join]

theorem join_ne_right (owner name : String) : join owner name ≠ name := by
  intro h
  have hlen : (join owner name).toList.length = name.toList.length := by rw [h]
  rw [toList_join, List.length_append, List.length_cons] at hlen
  omega

theorem join_ne_empty (owner name : String) : join owner name ≠ "" := by
  intro h
  have hlist : (join owner name).toList = [] := by rw [h]; rfl
  rw [toList_join] at hlist
  simp at hlist

/-- A single segment has no dot. -/
theorem isSingle_iff {name : String} : isSingle name = true ↔ '.' ∉ name.toList := by
  simp [isSingle]

/-! ## Splitting -/

/-- Dropping up to a dot leaves what stands from the first dot on. -/
theorem dropWhile_eq_cons_iff {cs rest : List Char} {c : Char} :
    cs.dropWhile (· ≠ '.') = c :: rest ↔
      c = '.' ∧ ∃ xs, '.' ∉ xs ∧ cs = xs ++ '.' :: rest := by
  induction cs with
  | nil => simp
  | cons d cs ih =>
      by_cases hd : d = '.'
      · subst hd
        rw [List.dropWhile_cons_of_neg (by simp), List.cons.injEq]
        constructor
        · rintro ⟨rfl, rfl⟩
          exact ⟨rfl, [], by simp, rfl⟩
        · rintro ⟨rfl, xs, hxs, heq⟩
          cases xs with
          | nil => simpa using heq
          | cons x xs =>
              rw [List.cons_append, List.cons.injEq] at heq
              exact absurd (heq.1 ▸ List.mem_cons_self) hxs
      · rw [List.dropWhile_cons_of_pos (by simpa using hd), ih]
        refine and_congr_right fun _ => ⟨?_, ?_⟩
        · rintro ⟨xs, hxs, rfl⟩
          exact ⟨d :: xs, by simpa [Ne.symm hd] using hxs, rfl⟩
        · rintro ⟨xs, hxs, heq⟩
          cases xs with
          | nil => exact absurd (List.cons.inj heq).1 hd
          | cons x xs =>
              exact ⟨xs, fun h => hxs (List.mem_cons_of_mem x h), (List.cons.inj heq).2⟩

/-- The owner of a name is all before its last segment. -/
theorem owner?_eq_some_iff {name owner : String} :
    owner? name = some owner ↔ ∃ x, isSingle x = true ∧ name = join owner x := by
  have hjoin : ∀ x, name = join owner x ↔
      name.toList.reverse = x.toList.reverse ++ '.' :: owner.toList.reverse := by
    intro x
    rw [← String.toList_inj, toList_join, ← List.reverse_inj]
    simp
  simp only [isSingle_iff, hjoin]
  unfold owner?
  split
  · rename_i hdrop
    refine ⟨fun h => (by cases h), ?_⟩
    rintro ⟨x, hx, heq⟩
    have hdrop' := dropWhile_eq_cons_iff.2 ⟨rfl, x.toList.reverse, by simpa using hx, heq⟩
    rw [hdrop] at hdrop'
    cases hdrop'
  · rename_i c rest hdrop
    constructor
    · intro h
      obtain ⟨-, xs, hxs, heq⟩ := dropWhile_eq_cons_iff.1 hdrop
      cases h
      exact ⟨String.ofList xs.reverse, by simpa using hxs, by simpa using heq⟩
    · rintro ⟨x, hx, heq⟩
      have hdrop' := dropWhile_eq_cons_iff.2 ⟨rfl, x.toList.reverse, by simpa using hx, heq⟩
      rw [hdrop, List.cons.injEq] at hdrop'
      simp [hdrop'.2]

/-- What a name adds to an owner, when it is one segment. -/
theorem below?_eq_some_iff {owner name x : String} :
    below? owner name = some x ↔ isSingle x = true ∧ name = join owner x := by
  have hjoin : name = join owner x ↔
      name.toList = (owner.toList ++ ['.']) ++ x.toList := by
    rw [← String.toList_inj, toList_join]
    simp
  rw [hjoin]
  simp only [below?, List.isPrefixOf_iff_prefix]
  split
  · rename_i hpre
    obtain ⟨rest, hrest⟩ := hpre
    rw [← hrest, List.drop_left, List.append_cancel_left_eq]
    split
    · rename_i hs
      rw [Option.some.injEq]
      constructor
      · rintro rfl
        exact ⟨hs, by simp⟩
      · rintro ⟨-, rfl⟩
        simp
    · rename_i hs
      refine ⟨fun h => (by cases h), ?_⟩
      rintro ⟨hx, rfl⟩
      simp [hx] at hs
  · rename_i hpre
    refine ⟨fun h => (by cases h), ?_⟩
    rintro ⟨-, heq⟩
    exact absurd ⟨x.toList, heq.symm⟩ hpre

end QualifiedName

end Picklist
