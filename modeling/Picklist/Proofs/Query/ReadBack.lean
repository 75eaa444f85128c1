/-
# Queries read back

A query and a set query have one slot each, for a value that may be left out, and a bag for all
other members.

* `SlotAndBag` : what one member does to such a record;
* `SlotAndBag.of_foldMembers` and `SlotAndBag.foldMembers_ofJson` : what the record holds after
  it was read, and what reading its written form gives;
* `SetQuery.readsBack` and `Query.readsBack` : queries read back.
-/
import Picklist.Proofs.ReadBack
import Picklist.Proofs.Schema.Lossless

namespace Picklist

open Json

/-! ## Records with a slot and a bag -/

/-- A member of the given name goes to the slot, and any other to the bag. -/
structure SlotAndBag {σ β : Type} (step : σ → String → Document → Except Problem σ)
    (make : Option (Option β) → Dict String Json → σ) (name : String) (read : Decoder β) :
    Prop where
  slot : ∀ value extra d, step (make value extra) name d =
    once name value (Document.optional read) d >>= fun value => pure (make value extra)
  bag : ∀ value extra other d, other ∉ [name] → step (make value extra) other d =
    d.asJson >>= fun j => pure (make value (extra.insert other j))

namespace SlotAndBag

variable {σ β : Type} {step : σ → String → Document → Except Problem σ}
  {make : Option (Option β) → Dict String Json → σ} {name : String} {read : Decoder β}

/-- A record that was read holds in its slot what the reader of the slot gives, and its bag is
free. -/
theorem of_foldMembers (h : SlotAndBag step make name read) {P : β → Prop}
    (hread : ∀ ⦃d b⦄, read d = .ok b → P b) {expected : String} {d : Document} {s : σ}
    (hs : Document.foldMembers expected step (make none .empty) d = .ok s) :
    ∃ value extra, s = make value extra ∧ (∀ b, value.getD none = some b → P b) ∧
      extra.Free [name] := by
  refine Document.foldMembers_invariant
    (P := fun s => ∃ value extra, s = make value extra ∧ (∀ b, value.getD none = some b → P b) ∧
      extra.Free [name])
    (fun s s' other d hp hs => ?_) hs ⟨none, .empty, rfl, nofun, Dict.free_empty [name]⟩
  obtain ⟨value, extra, rfl, hvalue, hextra⟩ := hp
  by_cases hother : other ∈ [name]
  · obtain rfl := List.mem_singleton.1 hother
    rw [h.slot] at hs
    obtain ⟨value', hslot, hs⟩ := bind_eq_ok_iff.1 hs
    cases hs
    exact ⟨value', extra, rfl, Document.of_once_optional (fun _ _ _ hb => hread hb) hslot, hextra⟩
  · rw [h.bag value extra other d hother] at hs
    obtain ⟨j, hj, hs⟩ := bind_eq_ok_iff.1 hs
    cases hs
    exact ⟨value, _, rfl, hvalue, hextra.insert hother (Document.distinct_of_asJson hj)⟩

/-- Reading the written form of a record fills its slot and its bag. -/
theorem foldMembers_ofJson (h : SlotAndBag step make name read) {write : β → Json}
    {value : Option β} (hvalue : ∀ b, value = some b → ReadsBack read write b ∧ write b ≠ .null)
    {extra : Dict String Json} (hextra : extra.Free [name]) (expected : String) :
    Document.foldMembers expected step (make none .empty)
      (.ofJson (.obj (optionalMember name write value ++ extra.entries))) =
        .ok (make (value.map some) extra) := by
  have hslot := Document.stepMembers_optionalMember step name (fun value => make value .empty)
    (h.slot none .empty) hvalue
  have hbag := Document.stepMembers_bag step (make (value.map some)) hextra
    (h.bag (value.map some))
  exact Document.foldMembers_ofJson_obj expected (Document.stepMembers_append_of_ok hslot hbag)

end SlotAndBag

/-! ## Set operations -/

/-- A set operation is stable when its word is read as the operation. -/
def SetOp.Stable (op : SetOp) : Prop := ofText op.text = op

theorem SetOp.stable_of_read {d : Document} {op : SetOp} (h : read d = .ok op) : op.Stable :=
  Document.ofText_text_of_asWord text_ofText h

theorem SetOp.readsBack {op : SetOp} (h : op.Stable) :
    ReadsBack read (fun op => .str op.text) op :=
  readsBack_asWord h _ _

/-! ## Queries -/

namespace SetQuery

/-- A set query is stable when its operation is, and its other members are free. -/
structure Stable (q : SetQuery) : Prop where
  op : ∀ op, q.op? = some op → op.Stable
  extra : q.extra.Free ["op"]

/-- A set query has a slot for its operation. -/
theorem slotAndBag_step : SlotAndBag step Draft.mk "op" SetOp.read where
  slot _ _ _ := rfl
  bag _ _ other d h := by
    unfold step
    split
    · exact absurd List.mem_cons_self h
    · rfl

theorem stable_of_read {d : Document} {q : SetQuery} (h : read d = .ok q) : q.Stable := by
  obtain ⟨s, hs, h⟩ := bind_eq_ok_iff.1 h
  obtain ⟨op?, extra, rfl, hop, hextra⟩ :=
    slotAndBag_step.of_foldMembers (fun _ _ => SetOp.stable_of_read) hs
  cases h
  exact ⟨hop, hextra⟩

/-- The operation is written like any value that may be left out. -/
theorem toJson_eq (q : SetQuery) :
    q.toJson = .obj (optionalMember "op" (fun op => .str op.text) q.op? ++ q.extra.entries) := by
  obtain ⟨_ | op, extra⟩ := q <;> rfl

/-- A stable set query reads back. -/
theorem readsBack {q : SetQuery} (h : q.Stable) : ReadsBack read toJson q where
  distinct := by
    rw [toJson_eq]
    exact h.extra.distinct_record (by decide) (slotted_optionalMember "op" fun _ _ => trivial)
  read_ofJson := by
    have hfold := slotAndBag_step.foldMembers_ofJson
      (fun op hop => ⟨SetOp.readsBack (h.op op hop), nofun⟩) h.extra "struct SetQuery"
    rw [toJson_eq]
    refine bind_eq_ok_iff.2 ⟨_, hfold, ?_⟩
    rw [getD_map_some]
    rfl

end SetQuery

namespace Query

/-- A query is stable when its set query is, and its other members are free. -/
structure Stable (q : Query) : Prop where
  set : ∀ s, q.set? = some s → s.Stable
  extra : q.extra.Free ["SET"]

/-- A query has a slot for its set query. -/
theorem slotAndBag_step : SlotAndBag step Draft.mk "SET" SetQuery.read where
  slot _ _ _ := rfl
  bag _ _ other d h := by
    unfold step
    split
    · exact absurd List.mem_cons_self h
    · rfl

theorem stable_of_read {d : Document} {q : Query} (h : read d = .ok q) : q.Stable := by
  obtain ⟨s, hs, h⟩ := bind_eq_ok_iff.1 h
  obtain ⟨set?, extra, rfl, hset, hextra⟩ :=
    slotAndBag_step.of_foldMembers (fun _ _ => SetQuery.stable_of_read) hs
  cases h
  exact ⟨hset, hextra⟩

/-- The set query is written like any value that may be left out. -/
theorem toJson_eq (q : Query) :
    q.toJson = .obj (optionalMember "SET" SetQuery.toJson q.set? ++ q.extra.entries) := by
  obtain ⟨_ | s, extra⟩ := q <;> rfl

theorem readsBack {q : Query} (h : q.Stable) : ReadsBack read toJson q where
  distinct := by
    rw [toJson_eq]
    exact h.extra.distinct_record (by decide)
      (slotted_optionalMember "SET" fun s hs => (SetQuery.readsBack (h.set s hs)).distinct)
  read_ofJson := by
    have hfold := slotAndBag_step.foldMembers_ofJson
      (fun s hs => ⟨SetQuery.readsBack (h.set s hs), nofun⟩) h.extra "struct Query"
    rw [toJson_eq]
    refine bind_eq_ok_iff.2 ⟨_, hfold, ?_⟩
    rw [getD_map_some]
    rfl

end Query

end Picklist
