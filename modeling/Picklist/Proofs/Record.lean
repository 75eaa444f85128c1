/-
# Members of a record, one by one

A record is read member by member.  What a reader does with one member does not depend on the
members of other names around it, and of two members of one name it keeps nothing of the first.
Both facts are about a single step; from them it follows what a whole record is read as.

* `Independent` : members of different names can be read in either order;
* `Independent.exists_stepMembers_iff` : members with distinct names are accepted exactly when each
  of them is accepted alone;
* `Independent.stepMembers_perm` : and in any order they are read as the same;
* `Overwrites` : reading a name again is reading the last member only;
* `Independent.stepMembers_merge` : so repeated members can be merged before they are read.
-/
import Picklist.Proofs.Document
import Picklist.Proofs.Dict

namespace Picklist

variable {α β σ : Type}

/-- Members of different names are read independently: a member is accepted after another one when
it is accepted before it, and in both orders the result is the same. -/
structure Independent (step : σ → String → Document → Except Problem σ) : Prop where
  diamond : ∀ ⦃s s' u a b x y⦄, a ≠ b → step s a x = .ok s' → step s b y = .ok u →
    ∃ t, step s' b y = .ok t ∧ step u a x = .ok t
  accepted : ∀ ⦃s s' t a b x y⦄, a ≠ b → step s a x = .ok s' → step s' b y = .ok t →
    ∃ u, step s b y = .ok u

/-- Of two members of one name the last one counts. -/
def Overwrites (step : σ → String → Document → Except Problem σ) : Prop :=
  ∀ ⦃s s' t name x y⦄, step s name x = .ok s' → step s' name y = .ok t → step s name y = .ok t

open Document

namespace Independent

variable {step : σ → String → Document → Except Problem σ} (h : Independent step)
include h

/-- Two members of different names can change places. -/
theorem comm {s s' t : σ} {a b : String} {x y : Document} (hab : a ≠ b)
    (ha : step s a x = .ok s') (hb : step s' b y = .ok t) :
    ∃ u, step s b y = .ok u ∧ step u a x = .ok t := by
  obtain ⟨u, hu⟩ := h.accepted hab ha hb
  obtain ⟨t', ht, hut⟩ := h.diamond hab ha hu
  rw [hb, Except.ok.injEq] at ht
  exact ⟨u, hu, ht ▸ hut⟩

/-! ## Distinct names -/

/-- Members with distinct names are accepted exactly when each of them is accepted alone. -/
theorem exists_stepMembers_iff (s : σ) {ms : Members Json} (hn : ms.names.Nodup) :
    (∃ t, stepMembers step s (ofMembers ms) = .ok t) ↔
      ∀ m ∈ ms, ∃ u, step s m.1 (.ofJson m.2) = .ok u := by
  induction ms generalizing s with
  | nil => exact iff_of_true ⟨s, rfl⟩ (by simp)
  | cons m rest ih =>
      obtain ⟨name, v⟩ := m
      rw [Members.names, List.map_cons, List.nodup_cons] at hn
      -- whether a later member is accepted does not depend on the first one
      have hlater : ∀ {s'}, step s name (.ofJson v) = .ok s' → ∀ m ∈ rest,
          ((∃ u, step s' m.1 (.ofJson m.2) = .ok u) ↔ ∃ u, step s m.1 (.ofJson m.2) = .ok u) := by
        intro s' hs' m hm
        have hne : name ≠ m.1 := fun heq => hn.1 (List.mem_map.2 ⟨m, hm, heq.symm⟩)
        constructor
        · rintro ⟨t, ht⟩
          exact h.accepted hne hs' ht
        · rintro ⟨u, hu⟩
          obtain ⟨t, ht, -⟩ := h.diamond hne hs' hu
          exact ⟨t, ht⟩
      rw [List.forall_mem_cons]
      constructor
      · rintro ⟨t, ht⟩
        obtain ⟨s', hs', hrest⟩ := bind_eq_ok_iff.1 ht
        refine ⟨⟨s', hs'⟩, fun m hm => ?_⟩
        exact (hlater hs' m hm).1 ((ih s' hn.2).1 ⟨t, hrest⟩ m hm)
      · rintro ⟨⟨s', hs'⟩, hrest⟩
        obtain ⟨t, ht⟩ := (ih s' hn.2).2 fun m hm => (hlater hs' m hm).2 (hrest m hm)
        exact ⟨t, bind_eq_ok_iff.2 ⟨s', hs', ht⟩⟩

/-- The order in which members with distinct names are read does not matter. -/
theorem stepMembers_perm {s t : σ} {ms ns : Members Json} (hp : ms.Perm ns)
    (hn : ms.names.Nodup) (hs : stepMembers step s (ofMembers ms) = .ok t) :
    stepMembers step s (ofMembers ns) = .ok t := by
  induction hp generalizing s with
  | nil => exact hs
  | cons m _ ih =>
      rw [Members.names, List.map_cons, List.nodup_cons] at hn
      obtain ⟨u, hu, hrest⟩ := bind_eq_ok_iff.1 hs
      exact bind_eq_ok_iff.2 ⟨u, hu, ih hn.2 hrest⟩
  | swap m m' rest =>
      have hne : m'.1 ≠ m.1 := by
        rintro heq
        simp [Members.names, heq] at hn
      obtain ⟨u, hu, hs⟩ := bind_eq_ok_iff.1 hs
      obtain ⟨u', hu', hrest⟩ := bind_eq_ok_iff.1 hs
      obtain ⟨w, hw, hw'⟩ := h.comm hne hu hu'
      exact bind_eq_ok_iff.2 ⟨w, hw, bind_eq_ok_iff.2 ⟨u', hw', hrest⟩⟩
  | trans hp _ ih ih' => exact ih' ((hp.map Prod.fst).nodup_iff.1 hn) (ih hn hs)

/-! ## Repeated names -/

/-- A member of a new name can be read first. -/
theorem stepMembers_moveFirst {s t : σ} {ms : Members Json} {name : String} {v : Json}
    (hnew : name ∉ ms.names) (hs : stepMembers step s (ofMembers (ms ++ [(name, v)])) = .ok t) :
    stepMembers step s (ofMembers ((name, v) :: ms)) = .ok t := by
  induction ms generalizing s with
  | nil => exact hs
  | cons m rest ih =>
      obtain ⟨other, w⟩ := m
      rw [Members.names, List.map_cons, List.mem_cons, not_or] at hnew
      obtain ⟨u, hu, hrest⟩ := bind_eq_ok_iff.1 hs
      obtain ⟨x, hx, hrest⟩ := bind_eq_ok_iff.1 (ih hnew.2 hrest)
      obtain ⟨u', hu', hx'⟩ := h.comm (Ne.symm hnew.1) hu hx
      exact bind_eq_ok_iff.2 ⟨u', hu', bind_eq_ok_iff.2 ⟨x, hx', hrest⟩⟩

variable (ho : Overwrites step)
include ho

/-- A member behind others can take the place of that of its name. -/
theorem stepMembers_put {s t : σ} {ms : Members Json} (hn : ms.names.Nodup) {name : String}
    {v : Json} (hs : stepMembers step s (ofMembers (ms ++ [(name, v)])) = .ok t) :
    stepMembers step s (ofMembers (ms.put name v)) = .ok t := by
  induction ms generalizing s with
  | nil => exact hs
  | cons m rest ih =>
      obtain ⟨other, w⟩ := m
      rw [Members.names, List.map_cons, List.nodup_cons] at hn
      obtain ⟨u, hu, hrest⟩ := bind_eq_ok_iff.1 hs
      by_cases hother : other = name
      · subst hother
        rw [Members.put, if_pos rfl]
        -- behind the old member the new one can be read at once, and the old one does not count
        obtain ⟨x, hx, hrest⟩ := bind_eq_ok_iff.1 (h.stepMembers_moveFirst hn.1 hrest)
        exact bind_eq_ok_iff.2 ⟨x, ho hu hx, hrest⟩
      · rw [Members.put, if_neg hother]
        exact bind_eq_ok_iff.2 ⟨u, hu, ih hn.2 hrest⟩

/-- Members can be put in turn before they are read. -/
theorem stepMembers_putAll {s t : σ} (start : Members Json) (hn : start.names.Nodup)
    {ms : Members Json} (hs : stepMembers step s (ofMembers (start ++ ms)) = .ok t) :
    stepMembers step s (ofMembers (start.putAll ms)) = .ok t := by
  -- `start` holds the members that were merged already
  induction ms generalizing start with
  | nil => rwa [List.append_nil] at hs
  | cons m rest ih =>
      have hassoc : start ++ m :: rest = start ++ [m] ++ rest := by simp
      rw [hassoc, ofMembers_append, stepMembers_append] at hs
      obtain ⟨u, hu, hrest⟩ := bind_eq_ok_iff.1 hs
      refine ih _ (Members.nodup_put hn m.1 m.2) ?_
      rw [ofMembers_append, stepMembers_append]
      exact bind_eq_ok_iff.2 ⟨u, h.stepMembers_put ho hn hu, hrest⟩

/-- Repeated members can be merged before they are read. -/
theorem stepMembers_merge {s t : σ} {ms : Members Json}
    (hs : stepMembers step s (ofMembers ms) = .ok t) :
    stepMembers step s (ofMembers ms.merge) = .ok t :=
  h.stepMembers_putAll ho [] List.nodup_nil hs

end Independent

end Picklist
