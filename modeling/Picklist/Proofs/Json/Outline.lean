/-
# Outlines of JSON values

Equality of JSON values ignores the order in which objects list their members, and the sign of
zero.  The outline of a value keeps exactly these two and the nesting, and forgets all other
scalars, so equal values with the same outline are the same.

* `Json.outline` : the outline of a value;
* `Json.Settled` : two values that are the same as soon as their outlines are;
* `Json.settled_of_same` : equal values without repeated names are settled;
* `Json.settled_obj` and `Json.settled_obj_of_lookup` : objects whose member values are settled;
* `Members.forall₂_merge` : merging members that are settled place by place.
-/
import Picklist.Proofs.Json.Alike
import Mathlib.Data.List.Forall2

namespace Picklist

namespace Json

/-! ## The outline -/

mutual

/-- The value with all scalars but the zeros among the doubles made `null`. -/
def outline : Json → Json
  | .arr items => .arr (outlineItems items)
  | .obj members => .obj (outlineMembers members)
  | .num (.double x) => if x.isZero then .num (.double x) else .null
  | _ => .null

/-- The outlines of the items. -/
def outlineItems : List Json → List Json
  | [] => []
  | x :: xs => x.outline :: outlineItems xs

/-- The outlines of the member values, each under its name. -/
def outlineMembers : List (String × Json) → List (String × Json)
  | [] => []
  | (name, value) :: rest => (name, value.outline) :: outlineMembers rest

end

/-- Two values are the same if their outlines are. -/
def Settled (a b : Json) : Prop := a.outline = b.outline → a = b

theorem settled_refl (a : Json) : a.Settled a := fun _ => rfl

theorem outlineMembers_eq_map (ms : Members Json) :
    outlineMembers ms = ms.map fun m => (m.1, m.2.outline) := by
  induction ms with
  | nil => rfl
  | cons m rest ih => rw [outlineMembers, ih, List.map_cons]

theorem names_eq_of_outlineMembers {ms ns : Members Json}
    (h : outlineMembers ms = outlineMembers ns) : ms.names = ns.names := by
  rw [outlineMembers_eq_map, outlineMembers_eq_map] at h
  have hnames := congrArg (List.map Prod.fst) h
  simpa [Members.names, Function.comp_def] using hnames

/-! ## Objects -/

/-- Members that are settled place by place. -/
def SettledMembers (ms ns : Members Json) : Prop :=
  List.Forall₂ (fun m n => m.1 = n.1 ∧ m.2.Settled n.2) ms ns

/-- Members that are settled are the same if their outlines are. -/
theorem SettledMembers.eq {ms ns : Members Json} (h : SettledMembers ms ns)
    (ho : outlineMembers ms = outlineMembers ns) : ms = ns := by
  induction h with
  | nil => rfl
  | cons hm _ ih =>
      obtain ⟨hhead, htail⟩ := List.cons.inj ho
      have hvalue := hm.2 (congrArg Prod.snd hhead)
      rw [Prod.ext hm.1 hvalue, ih htail]

theorem settled_obj {ms ns : Members Json} (h : SettledMembers ms ns) :
    (Json.obj ms).Settled (.obj ns) := fun ho =>
  congrArg Json.obj (h.eq (Json.obj.inj ho))

/-- Objects without repeated names are settled when the values of each name are. -/
theorem settled_obj_of_lookup {ms ns : Members Json} (hm : ms.names.Nodup)
    (h : ∀ name v w, ms.lookup name = some v → ns.lookup name = some w → v.Settled w) :
    (Json.obj ms).Settled (.obj ns) := by
  intro ho
  have hout : outlineMembers ms = outlineMembers ns := Json.obj.inj ho
  have hnames := names_eq_of_outlineMembers hout
  have hn : ns.names.Nodup := hnames ▸ hm
  refine congrArg Json.obj (SettledMembers.eq ?_ hout)
  -- the names are the same in order, so a place holds the values of one name
  refine List.forall₂_iff_get.2 ⟨?_, fun i hi hi' => ?_⟩
  · simpa [Members.names] using congrArg List.length hnames
  · have hname : (ms.get ⟨i, hi⟩).1 = (ns.get ⟨i, hi'⟩).1 := by
      simpa [Members.names] using List.getElem_of_eq hnames (i := i) (by simpa [Members.names] using hi)
    refine ⟨hname, h (ms.get ⟨i, hi⟩).1 _ _ ?_ ?_⟩
    · exact (lookup_eq_some_iff_mem hm).2 (List.get_mem ms ⟨i, hi⟩)
    · rw [hname]
      exact (lookup_eq_some_iff_mem hn).2 (List.get_mem ns ⟨i, hi'⟩)

/-! ## Equal values -/

/-- Equal numbers are settled. -/
theorem settled_num {a b : Number} (h : a.same b = true) : (Json.num a).Settled (.num b) := by
  cases a with
  | int m =>
      cases b with
      | int n =>
          obtain rfl : m = n := eq_of_beq h
          exact settled_refl _
      | double y => cases h
  | double x =>
      cases b with
      | int n => cases h
      | double y =>
          intro ho
          rw [Number.same, Binary64.same, Bool.or_eq_true, Bool.and_eq_true,
            decide_eq_true_eq] at h
          rcases h with rfl | ⟨hx, hy⟩
          · rfl
          · rw [outline, outline, if_pos hx, if_pos hy] at ho
            exact ho

mutual

/-- **Equal values with the same outline are the same**, if they repeat no name. -/
theorem settled_of_same : (a b : Json) → a.Distinct → b.Distinct → a.same b = true → a.Settled b
  | .arr xs, .arr ys, ha, hb, h => fun ho =>
      congrArg Json.arr (items_eq_of_same xs ys ha hb h (Json.arr.inj ho))
  | .obj ms, .obj ns, ha, hb, h => by
      rw [same, Bool.and_eq_true] at h
      refine settled_obj_of_lookup ha.1 fun name v w hv hw => ?_
      exact settled_of_sameMembers ms ns ha.2 hb.2 h.2 name v w (mem_of_lookup hv) hw
  | .null, b, _, _, h => by
      cases b with
      | null => exact settled_refl _
      | _ => cases h
  | .bool a, b, _, _, h => by
      cases b with
      | bool b =>
          obtain rfl : a = b := eq_of_beq h
          exact settled_refl _
      | _ => cases h
  | .num a, b, _, _, h => by
      cases b with
      | num b => exact settled_num h
      | _ => cases h
  | .str a, b, _, _, h => by
      cases b with
      | str b =>
          obtain rfl : a = b := eq_of_beq h
          exact settled_refl _
      | _ => cases h
  | .arr _, .null, _, _, h | .arr _, .bool _, _, _, h | .arr _, .num _, _, _, h
  | .arr _, .str _, _, _, h | .arr _, .obj _, _, _, h => by cases h
  | .obj _, .null, _, _, h | .obj _, .bool _, _, _, h | .obj _, .num _, _, _, h
  | .obj _, .str _, _, _, h | .obj _, .arr _, _, _, h => by cases h

/-- Equal items with the same outlines are the same. -/
theorem items_eq_of_same : (xs ys : List Json) → DistinctItems xs → DistinctItems ys →
    sameItems xs ys = true → outlineItems xs = outlineItems ys → xs = ys
  | [], [], _, _, _, _ => rfl
  | x :: xs, y :: ys, hx, hy, h, ho => by
      rw [sameItems, Bool.and_eq_true] at h
      obtain ⟨hhead, htail⟩ := List.cons.inj ho
      rw [settled_of_same x y hx.1 hy.1 h.1 hhead, items_eq_of_same xs ys hx.2 hy.2 h.2 htail]
  | [], _ :: _, _, _, h, _ => by cases h
  | _ :: _, [], _, _, h, _ => by cases h

/-- The members of a list that has an equal value in another one for each of them are settled with
these values. -/
theorem settled_of_sameMembers : (ms ns : List (String × Json)) → DistinctMembers ms →
    DistinctMembers ns → sameMembers ms ns = true →
    ∀ name v w, (name, v) ∈ ms → ns.lookup name = some w → v.Settled w
  | [], _, _, _, _, _, _, _, hv, _ => absurd hv List.not_mem_nil
  | (n, u) :: rest, ns, hm, hn, h, name, v, w, hv, hw => by
      rw [sameMembers, Bool.and_eq_true] at h
      rcases List.mem_cons.1 hv with heq | hv
      · obtain ⟨rfl, rfl⟩ := Prod.mk.inj heq
        have hsame := h.1
        simp only [hw] at hsame
        exact settled_of_same _ w hm.1 (hn.of_mem (mem_of_lookup hw)) hsame
      · exact settled_of_sameMembers rest ns hm.2 hn h.2 name v w hv hw

end

end Json

/-! ## Merging -/

namespace Members

open Json

variable {ms ns : Members Json}

/-- Putting settled values under one name keeps members settled. -/
theorem forall₂_put (h : SettledMembers ms ns) (name : String) {v w : Json} (hv : v.Settled w) :
    SettledMembers (ms.put name v) (ns.put name w) := by
  induction h with
  | nil => exact .cons ⟨rfl, hv⟩ .nil
  | @cons m n _ _ hm hrest ih =>
      obtain ⟨n₁, v₁⟩ := m
      obtain ⟨n₂, v₂⟩ := n
      obtain rfl : n₁ = n₂ := hm.1
      by_cases hn : n₁ = name
      · rw [put, if_pos hn, put, if_pos hn]
        exact .cons ⟨rfl, hv⟩ hrest
      · rw [put, if_neg hn, put, if_neg hn]
        exact .cons hm ih

/-- Merging keeps members settled. -/
theorem forall₂_merge (h : SettledMembers ms ns) : SettledMembers ms.merge ns.merge := by
  suffices hput : ∀ start start' : Members Json, SettledMembers start start' →
      SettledMembers (putAll start ms) (putAll start' ns) from hput [] [] .nil
  induction h with
  | nil => exact fun _ _ hstart => hstart
  | @cons m n _ _ hm _ ih =>
      intro start start' hstart
      have hstep := forall₂_put hstart m.1 hm.2
      rw [hm.1] at hstep
      exact ih (start.put m.1 m.2) (start'.put n.1 n.2) (hm.1 ▸ hstep)

end Members

end Picklist
