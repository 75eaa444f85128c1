/-
# Records of slots

What is read of the members of one name is held in one place of a record: the slot of the name.
Slots of different names do not see each other, and a slot either takes one value only or keeps
the last one.  Hence the members of a record are independent, and repeated ones can be merged.

* `Slot` and `Slot.Apart` : a slot, and two slots that do not see each other;
* `Filed` : every member is read into the slot of its name;
* `Filed.independent` and `Filed.overwrites` : what holds of reading such a record;
* `Filed.exists_stepMembers_iff` and `Filed.free_of_stepMembers` : when the members of such a
  record are accepted, and which slots they fill;
* `Layout` : slots for some names, and a bag for the members of all others.
-/
import Mathlib.Data.List.Pairwise
import Picklist.Proofs.Record

namespace Picklist

open Document

variable {α σ : Type}

/-! ## Slots -/

/-- Where the members of one name are held, and how they are read. -/
structure Slot (σ : Type) where
  name : String
  Value : Type
  read : Decoder Value
  free : σ → Bool
  set : Value → σ → σ

namespace Slot

/-- Reads a member into a slot that is still free. -/
def fill (p : Slot σ) (s : σ) (d : Document) : Except Problem σ :=
  if p.free s then (p.read d).map fun v => p.set v s else .error (.repeated p.name)

/-- A member is read into a slot when the slot is free and the reader accepts the member. -/
theorem fill_eq_ok_iff {p : Slot σ} {s s' : σ} {d : Document} :
    p.fill s d = .ok s' ↔ p.free s = true ∧ ∃ v, p.read d = .ok v ∧ p.set v s = s' := by
  rw [fill]
  split
  · rename_i hfree
    rw [map_eq_ok_iff, and_iff_right hfree]
  · rename_i hfree
    exact iff_of_false nofun fun h => hfree h.1

/-- A slot for a member that may occur once. -/
def ofOnce (name : String) (read : Decoder α) (get : σ → Option α) (set : Option α → σ → σ) :
    Slot σ :=
  ⟨name, α, read, fun s => (get s).isNone, fun a => set (some a)⟩

@[simp] theorem name_ofOnce (name : String) (read : Decoder α) (get : σ → Option α)
    (set : Option α → σ → σ) : (ofOnce name read get set).name = name := by
  rw [ofOnce]

/-- Reading a member that may occur once fills its slot. -/
theorem fill_ofOnce (name : String) (read : Decoder α) (get : σ → Option α)
    (set : Option α → σ → σ) (s : σ) (d : Document) :
    (ofOnce name read get set).fill s d =
      once name (get s) read d >>= fun slot => pure (set slot s) := by
  show (if (get s).isNone then (read d).map fun a => set (some a) s else
    .error (.repeated name)) = _
  cases get s with
  | some a => rfl
  | none =>
      simp only [once]
      cases read d <;> rfl

/-- Two slots of which neither sees the other. -/
@[mk_iff]
structure Apart (p q : Slot σ) : Prop where
  free_left : ∀ w s, p.free (q.set w s) = p.free s
  free_right : ∀ v s, q.free (p.set v s) = q.free s
  set_comm : ∀ v w s, q.set w (p.set v s) = p.set v (q.set w s)

theorem Apart.symm {p q : Slot σ} (h : p.Apart q) : q.Apart p :=
  ⟨h.free_right, h.free_left, fun w v s => (h.set_comm v w s).symm⟩

instance : Std.Symm (Apart (σ := σ)) := ⟨fun _ _ => Apart.symm⟩

end Slot

/-! ## Records that file their members in slots -/

/-- Every member is read into the slot of its name.  Slots of different names are apart, and a
slot that takes another value keeps nothing of the first one. -/
structure Filed (step : σ → String → Document → Except Problem σ) (slot : String → Slot σ) :
    Prop where
  step_eq : ∀ s name d, step s name d = (slot name).fill s d
  apart : ∀ a b, a ≠ b → (slot a).Apart (slot b)
  last : ∀ name v w s, (slot name).free ((slot name).set v s) = true →
    (slot name).set w ((slot name).set v s) = (slot name).set w s

namespace Filed

variable {step : σ → String → Document → Except Problem σ} {slot : String → Slot σ}
  (h : Filed step slot)
include h

/-- What one member does: its slot was free, and holds what its reader gives. -/
theorem step_eq_ok_iff {s s' : σ} {name : String} {d : Document} :
    step s name d = .ok s' ↔ (slot name).free s = true ∧
      ∃ v, (slot name).read d = .ok v ∧ (slot name).set v s = s' := by
  rw [h.step_eq, Slot.fill_eq_ok_iff]

/-- Members of different names are read independently. -/
theorem independent : Independent step where
  diamond s s' u a b x y hab ha hb := by
    obtain ⟨hfreea, v, hv, rfl⟩ := h.step_eq_ok_iff.1 ha
    obtain ⟨hfreeb, w, hw, rfl⟩ := h.step_eq_ok_iff.1 hb
    have hapart := h.apart a b hab
    refine ⟨(slot b).set w ((slot a).set v s), ?_, ?_⟩
    · exact h.step_eq_ok_iff.2 ⟨(hapart.free_right v s).trans hfreeb, w, hw, rfl⟩
    · exact h.step_eq_ok_iff.2
        ⟨(hapart.free_left w s).trans hfreea, v, hv, (hapart.set_comm v w s).symm⟩
  accepted s s' t a b x y hab ha hb := by
    obtain ⟨-, v, -, rfl⟩ := h.step_eq_ok_iff.1 ha
    obtain ⟨hfree, w, hw, -⟩ := h.step_eq_ok_iff.1 hb
    rw [(h.apart a b hab).free_right] at hfree
    exact ⟨_, h.step_eq_ok_iff.2 ⟨hfree, w, hw, rfl⟩⟩

/-- Of two members of one name the last one counts. -/
theorem overwrites : Overwrites step := by
  intro s s' t name x y hx hy
  obtain ⟨hfree, v, -, rfl⟩ := h.step_eq_ok_iff.1 hx
  obtain ⟨hagain, w, hw, rfl⟩ := h.step_eq_ok_iff.1 hy
  exact h.step_eq_ok_iff.2 ⟨hfree, w, hw, (h.last name v w s hagain).symm⟩

/-- Members with distinct names are accepted by a record whose slots are free exactly when the
readers of their slots accept them. -/
theorem exists_stepMembers_iff {s : σ} (hfree : ∀ name, (slot name).free s = true)
    {ms : Members Json} (hn : ms.names.Nodup) :
    (∃ t, stepMembers step s (ofMembers ms) = .ok t) ↔
      ∀ m ∈ ms, ∃ v, (slot m.1).read (.ofJson m.2) = .ok v := by
  rw [h.independent.exists_stepMembers_iff s hn]
  refine forall₂_congr fun m _ => ?_
  simp only [h.step_eq_ok_iff, hfree, true_and]
  constructor
  · rintro ⟨_, v, hv, -⟩
    exact ⟨v, hv⟩
  · rintro ⟨v, hv⟩
    exact ⟨_, v, hv, rfl⟩

/-- A slot that takes one value only is free as long as no member of its name was read. -/
theorem free_of_stepMembers {name : String}
    (hfull : ∀ v s, (slot name).free ((slot name).set v s) = false) {s t : σ}
    {ms : Members Json} (hs : stepMembers step s (ofMembers ms) = .ok t) :
    (slot name).free t = true ↔ (slot name).free s = true ∧ name ∉ ms.names := by
  induction ms generalizing s with
  | nil =>
      obtain rfl := Except.ok.inj hs
      simp [Members.names]
  | cons m rest ih =>
      obtain ⟨other, j⟩ := m
      obtain ⟨u, hu, hrest⟩ := bind_eq_ok_iff.1 hs
      obtain ⟨-, v, -, rfl⟩ := h.step_eq_ok_iff.1 hu
      rw [ih hrest]
      simp only [Members.names, List.map_cons, List.mem_cons, not_or]
      by_cases hother : name = other
      -- a member of this name fills the slot, any other one leaves it as it is
      · subst hother
        simp [hfull]
      · rw [(h.apart other name (Ne.symm hother)).free_right]
        simp [hother]

end Filed

/-! ## Slots and a bag -/

/-- Slots for some names, and a bag that members of all other names are put into as they are. -/
structure Layout (σ : Type) where
  slots : List (Slot σ)
  put : String → Json → σ → σ

namespace Layout

/-- The names that have a slot. -/
def names (l : Layout σ) : List String := l.slots.map Slot.name

/-- The place of a name in the bag. -/
def bag (l : Layout σ) (name : String) : Slot σ :=
  ⟨name, Json, asJson, fun _ => true, l.put name⟩

/-- The place of a name: its slot, or its place in the bag. -/
def slot (l : Layout σ) (name : String) : Slot σ :=
  (l.slots.find? fun p => p.name = name).getD (l.bag name)

/-- The slots are apart from each other and from the bag, and take one value each; the bag holds
the last value of every name. -/
structure Lawful (l : Layout σ) : Prop where
  slots_apart : l.slots.Pairwise Slot.Apart
  bag_apart : ∀ p ∈ l.slots, ∀ name, p.Apart (l.bag name)
  full : ∀ p ∈ l.slots, ∀ v s, p.free (p.set v s) = false
  put_comm : ∀ a b x y s, a ≠ b → l.put b y (l.put a x s) = l.put a x (l.put b y s)
  put_put : ∀ name x y s, l.put name y (l.put name x s) = l.put name y s

variable {l : Layout σ}

/-- The place of a name is its slot, or a place in the bag when it has none. -/
theorem slot_cases (l : Layout σ) (name : String) :
    (∃ p ∈ l.slots, p.name = name ∧ l.slot name = p) ∨
      (name ∉ l.names ∧ l.slot name = l.bag name) := by
  unfold slot
  cases hfind : l.slots.find? fun p => p.name = name with
  | none =>
      refine .inr ⟨fun hname => ?_, rfl⟩
      obtain ⟨p, hp, rfl⟩ := List.mem_map.1 hname
      simpa using List.find?_eq_none.1 hfind p hp
  | some p =>
      have hname : p.name = name := by simpa using List.find?_some hfind
      exact .inl ⟨p, List.mem_of_find?_eq_some hfind, hname, rfl⟩

/-- A member without a slot is put into the bag as it is. -/
theorem fill_bag (l : Layout σ) (name : String) (s : σ) (d : Document) :
    (l.bag name).fill s d = d.asJson >>= fun j => pure (l.put name j s) := by
  show (if true then d.asJson.map fun j => l.put name j s else _) = _
  cases d.asJson <;> rfl

theorem free_slot {s : σ} (h : ∀ p ∈ l.slots, p.free s = true) (name : String) :
    (l.slot name).free s = true := by
  rcases l.slot_cases name with ⟨p, hp, -, heq⟩ | ⟨-, heq⟩ <;> rw [heq]
  · exact h p hp
  · rfl

namespace Lawful

variable (h : l.Lawful)
include h

/-- Places of different names are apart. -/
theorem apart {a b : String} (hab : a ≠ b) : (l.slot a).Apart (l.slot b) := by
  rcases l.slot_cases a with ⟨p, hp, rfl, ha⟩ | ⟨-, ha⟩ <;>
    rcases l.slot_cases b with ⟨q, hq, rfl, hb⟩ | ⟨-, hb⟩ <;> rw [ha, hb]
  · exact h.slots_apart.forall hp hq fun heq => hab (congrArg Slot.name heq)
  · exact h.bag_apart p hp b
  · exact (h.bag_apart q hq a).symm
  · exact ⟨fun _ _ => rfl, fun _ _ => rfl, fun x y s => h.put_comm a b x y s hab⟩

/-- A record files its members when it reads those with a slot into their slots, and puts all
others into its bag. -/
theorem filed {step : σ → String → Document → Except Problem σ}
    (hslots : ∀ p ∈ l.slots, ∀ s d, step s p.name d = p.fill s d)
    (hbag : ∀ name, name ∉ l.names → ∀ s d,
      step s name d = d.asJson >>= fun j => pure (l.put name j s)) : Filed step l.slot where
  step_eq s name d := by
    rcases l.slot_cases name with ⟨p, hp, rfl, heq⟩ | ⟨hname, heq⟩ <;> rw [heq]
    · exact hslots p hp s d
    · rw [l.fill_bag, hbag name hname]
  apart _ _ := h.apart
  last name := by
    rcases l.slot_cases name with ⟨p, hp, -, heq⟩ | ⟨-, heq⟩ <;> rw [heq]
    -- a slot of the record never takes another value
    · intro v w s hfree
      rw [h.full p hp] at hfree
      cases hfree
    · exact fun x y s _ => h.put_put name x y s

end Lawful

end Layout

end Picklist
