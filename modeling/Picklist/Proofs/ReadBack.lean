/-
# Reading back what was written

A value reads back when reading what is written of it gives the value again.  Records are
written as some fixed members, each in a slot of its own, and a bag of all others, so a record
reads back when its parts do.

* `ReadsBack` : the property;
* `Document.foldMembers_invariant` : what every member preserves holds of a record that was
  read, off any document;
* `Document.stepMembers_optionalMember` and `Document.stepMembers_bag` : what reading the
  members of a slot and of a bag gives;
* `ReadsBack.asDict` : dictionaries read back when their values do.
-/
import Picklist.Element
import Picklist.Proofs.Document
import Picklist.Proofs.Json.Distinct
import Picklist.Proofs.Lossless

namespace Picklist

open Json

variable {α σ : Type}

/-- Reading what is written of a value gives the value again; what is written repeats no
name. -/
structure ReadsBack (read : Decoder α) (write : α → Json) (a : α) : Prop where
  distinct : (write a).Distinct
  read_ofJson : read (.ofJson (write a)) = .ok a

theorem readsBack_asText (t : String) : ReadsBack Document.asText Json.str t :=
  ⟨trivial, rfl⟩

theorem readsBack_asJson {j : Json} (h : j.Distinct) : ReadsBack Document.asJson id j :=
  ⟨h, Document.asJson_ofJson h⟩

/-- What was read of a word is what its own word is read as. -/
theorem Document.ofText_text_of_asWord {ofText : String → α} {text : α → String}
    (htext : ∀ w, text (ofText w) = w) {known : List String} {type : String} {d : Document} {a : α}
    (h : (asWord known type d).map ofText = .ok a) : ofText (text a) = a := by
  obtain ⟨w, -, rfl⟩ := map_eq_ok_iff.1 h
  exact congrArg ofText (htext w)

/-- What its own word is read as reads back. -/
theorem readsBack_asWord {ofText : String → α} {text : α → String} {a : α}
    (h : ofText (text a) = a) (known : List String) (type : String) :
    ReadsBack (fun d => (Document.asWord known type d).map ofText) (fun a => .str (text a)) a where
  distinct := trivial
  read_ofJson := congrArg Except.ok h

/-- A bag of members that are kept as they are: none of them repeats a name inside, and none
has a name that is reserved for a slot. -/
def Dict.Free (reserved : List String) (d : Dict String Json) : Prop :=
  ∀ name v, d.get? name = some v → v.Distinct ∧ name ∉ reserved

/-! ## Slots -/

theorem getD_map_some (value : Option α) : (value.map some).getD none = value := by
  cases value <;> rfl

theorem Dict.getD_unless_isEmpty (d : Dict String α) :
    (if d.isEmpty then none else some d).getD .empty = d := by
  split
  · rename_i hd
    exact Dict.ext_entries (List.isEmpty_iff.1 hd).symm
  · rfl

/-- The member of a value that may be left out stands in its slot. -/
theorem Json.slotted_optionalMember (name : String) {write : α → Json} {value : Option α}
    (h : ∀ a, value = some a → (write a).Distinct) :
    Slotted [name] (optionalMember name write value) := by
  cases value with
  | none => exact slotted_nil [name]
  | some a => exact slotted_singleton name (h a rfl)

/-! ## Bags -/

namespace Dict

theorem free_empty (reserved : List String) : Free reserved (.empty : Dict String Json) := by
  intro name v h
  cases h

theorem Free.insert {reserved : List String} {d : Dict String Json} (h : d.Free reserved)
    {name : String} (hname : name ∉ reserved) {v : Json} (hv : v.Distinct) :
    (d.insert name v).Free reserved :=
  forall_insert h ⟨hv, hname⟩

/-- A record repeats no name when it has members in slots and a free bag. -/
theorem Free.distinct_record {slots : List String} {d : Dict String Json} (h : d.Free slots)
    (hslots : slots.Nodup) {fixed : Members Json} (hfixed : Slotted slots fixed) :
    (Json.obj (fixed ++ d.entries)).Distinct := by
  refine Json.distinct_record hslots hfixed d.nodup_keys ?_ ?_
  · intro name hname
    obtain ⟨⟨n, v⟩, hm, rfl⟩ := List.mem_map.1 hname
    exact (h n v (get?_eq_some_iff.2 hm)).2
  · rintro ⟨n, v⟩ hm
    exact (h n v (get?_eq_some_iff.2 hm)).1

theorem ofList_entries {κ : Type} [Ord κ] [Std.TransOrd κ] [Std.LawfulEqOrd κ] [BEq κ]
    [LawfulBEq κ] (d : Dict κ α) : ofList d.entries = d := by
  apply ext_get?
  intro key
  exact get?_ofList d.nodup_keys key

end Dict

/-! ## Reading items and members in a row -/

namespace Document

/-- Items are read as the list of what each of them is read as. -/
theorem asList_of_forall₂ {read : Decoder α} {as : List α} {items : List Json}
    (h : List.Forall₂ (fun a j => read (.ofJson j) = .ok a) as items) :
    asList read (.ofJson (.arr items)) = .ok as := by
  have hmap : (ofItems items).mapM read = .ok as := by
    induction h with
    | nil => rfl
    | cons ha _ ih =>
        rw [ofItems, List.mapM_cons, ha, ih]
        rfl
  rw [ofJson, asList, hmap]
  rfl

/-- What every member preserves holds after all of them. -/
theorem stepMembers_invariant {step : σ → String → Document → Except Problem σ} {P : σ → Prop}
    {ms : List (Document × Document)}
    (hstep : ∀ ⦃s s' name d⦄, (.str name, d) ∈ ms → P s → step s name d = .ok s' → P s')
    {s s' : σ} (hs : P s) (h : stepMembers step s ms = .ok s') : P s' := by
  induction ms generalizing s with
  | nil => exact Except.ok.inj h ▸ hs
  | cons m rest ih =>
      obtain ⟨key, d⟩ := m
      cases key with
      | str name =>
          obtain ⟨t, ht, hrest⟩ := bind_eq_ok_iff.1 h
          exact ih (fun _ _ _ _ hm => hstep (List.mem_cons_of_mem _ hm))
            (hstep List.mem_cons_self hs ht) hrest
      | _ => cases h

/-- What every member preserves holds of a record that was read. -/
theorem foldMembers_invariant {step : σ → String → Document → Except Problem σ}
    {P : σ → Prop} (hstep : ∀ ⦃s s' name d⦄, P s → step s name d = .ok s' → P s')
    {expected : String} {start s : σ} {d : Document}
    (h : foldMembers expected step start d = .ok s) (hstart : P start) : P s := by
  obtain ⟨members, -, hs⟩ := foldMembers_eq_ok_iff.1 h
  exact stepMembers_invariant (fun _ _ _ _ _ => (hstep · ·)) hstart hs

/-- What may be left out is read off a document that is not `null`. -/
theorem optional_eq_ok_some {read : Decoder α} {d : Document} {a : α}
    (h : optional read d = .ok (some a)) : d ≠ .null ∧ read d = .ok a := by
  cases d with
  | null => cases h
  | _ =>
      obtain ⟨b, hb, heq⟩ := map_eq_ok_iff.1 h
      cases heq
      exact ⟨by simp, hb⟩

/-- A slot for a value that may be left out holds what its reader gives. -/
theorem of_once_optional {read : Decoder α} {P : α → Prop}
    (hread : ∀ ⦃d a⦄, d ≠ .null → read d = .ok a → P a) {name : String}
    {slot slot' : Option (Option α)} {d : Document}
    (h : once name slot (optional read) d = .ok slot') :
    ∀ a, slot'.getD none = some a → P a := by
  obtain ⟨-, value, hvalue, rfl⟩ := once_eq_ok_iff.1 h
  rintro a rfl
  obtain ⟨hnull, ha⟩ := optional_eq_ok_some hvalue
  exact hread hnull ha

/-- The document of a value is `null` for `null` only. -/
theorem optional_of_ne_null {read : Decoder α} {v : Json} (hv : v ≠ .null) :
    optional read (.ofJson v) = (read (.ofJson v)).map some := by
  cases v with
  | null => exact absurd rfl hv
  | _ => rfl

variable {step : σ → String → Document → Except Problem σ}

/-- Members in two parts are accepted when the second part is accepted after the first. -/
theorem stepMembers_append_of_ok {s s' t : σ} {ms ns : Members Json}
    (hms : stepMembers step s (ofMembers ms) = .ok s')
    (hns : stepMembers step s' (ofMembers ns) = .ok t) :
    stepMembers step s (ofMembers (ms ++ ns)) = .ok t := by
  rw [ofMembers_append, stepMembers_append, hms]
  exact hns

theorem stepMembers_singleton (s : σ) (name : String) (v : Json) :
    stepMembers step s (ofMembers [(name, v)]) = step s name (.ofJson v) := by
  simp only [ofMembers, stepMembers]
  exact bind_pure _

variable (step)

/-- Reading the member of a slot fills the slot. -/
theorem stepMembers_slot (name : String) (set : Option α → σ) {read : Decoder α} {v : Json}
    {a : α} (hstep : ∀ d, step (set none) name d =
      once name none read d >>= fun slot => pure (set slot))
    (h : read (.ofJson v) = .ok a) :
    stepMembers step (set none) (ofMembers [(name, v)]) = .ok (set (some a)) := by
  rw [stepMembers_singleton, hstep, once, h]
  rfl

/-- Reading the member of a slot for a value that may be left out fills the slot, if the value
is there. -/
theorem stepMembers_optionalMember (name : String) (set : Option (Option α) → σ)
    {read : Decoder α} {write : α → Json} {value : Option α} (hstep : ∀ d, step (set none) name d =
      once name none (optional read) d >>= fun slot => pure (set slot))
    (h : ∀ a, value = some a → ReadsBack read write a ∧ write a ≠ .null) :
    stepMembers step (set none) (ofMembers (optionalMember name write value)) =
      .ok (set (value.map some)) := by
  cases value with
  | none => rfl
  | some a =>
      obtain ⟨hread, hnull⟩ := h a rfl
      refine stepMembers_slot step name set hstep ?_
      rw [optional_of_ne_null hnull, hread.read_ofJson]
      rfl

/-- Reading the member of a slot that is left out in a certain case. -/
theorem stepMembers_slot_unless (name : String) (set : Option α → σ) {p : Prop} [Decidable p]
    {read : Decoder α} {v : Json} {a : α} (hstep : ∀ d, step (set none) name d =
      once name none read d >>= fun slot => pure (set slot))
    (h : read (.ofJson v) = .ok a) :
    stepMembers step (set none) (ofMembers (if p then [] else [(name, v)])) =
      .ok (set (if p then none else some a)) := by
  split
  · rfl
  · exact stepMembers_slot step name set hstep h

section Entries

variable {κ β : Type} [Ord κ] [Std.TransOrd κ] [Std.LawfulEqOrd κ] [BEq κ] [LawfulBEq κ]

/-- Reading the entries of a dictionary one after the other, each as some value of its key, gives
the dictionary of these values. -/
theorem stepMembers_mapValues (text : κ → String) (write : α → Json) (take : κ → α → β)
    (set : Dict κ β → σ) (d : Dict κ α) (hstep : ∀ e key a, (key, a) ∈ d.entries →
      step (set e) (text key) (.ofJson (write a)) = .ok (set (e.insert key (take key a)))) :
    stepMembers step (set .empty) (ofMembers (d.entries.map fun m => (text m.1, write m.2))) =
      .ok (set (d.mapValues take)) := by
  suffices h : ∀ (es : List (κ × α)) (e : Dict κ β), (∀ m ∈ es, m ∈ d.entries) →
      stepMembers step (set e) (ofMembers (es.map fun m => (text m.1, write m.2))) =
        .ok (set (es.foldl (fun e m => e.insert m.1 (take m.1 m.2)) e)) by
    rw [h d.entries .empty fun _ hm => hm, ← Dict.ofList_entries (d.mapValues take),
      Dict.ofList, Dict.mapValues, List.foldl_map]
  -- `e` holds the values that were read already
  intro es
  induction es with
  | nil => exact fun e _ => rfl
  | cons m rest ih =>
      obtain ⟨key, a⟩ := m
      intro e hmem
      rw [List.forall_mem_cons] at hmem
      simp only [List.map_cons, ofMembers, stepMembers, hstep e key a hmem.1]
      exact ih (e.insert key (take key a)) hmem.2

/-- Reading the entries of a dictionary one after the other gives the dictionary. -/
theorem stepMembers_entries (text : κ → String) (write : α → Json) (set : Dict κ α → σ)
    (d : Dict κ α) (hstep : ∀ e key a, (key, a) ∈ d.entries →
      step (set e) (text key) (.ofJson (write a)) = .ok (set (e.insert key a))) :
    stepMembers step (set .empty)
      (ofMembers (d.entries.map fun m => (text m.1, write m.2))) = .ok (set d) := by
  have hsame : d.mapValues (fun _ a => a) = d := Dict.ext_entries (List.map_id d.entries)
  rw [stepMembers_mapValues step text write (fun _ a => a) set d hstep, hsame]

end Entries

/-- Reading a bag of members that are kept as they are gives the bag. -/
theorem stepMembers_bag (set : Dict String Json → σ) {reserved : List String}
    {d : Dict String Json} (hd : d.Free reserved)
    (hstep : ∀ e name v, name ∉ reserved →
      step (set e) name v = v.asJson >>= fun j => pure (set (e.insert name j))) :
    stepMembers step (set .empty) (ofMembers d.entries) = .ok (set d) := by
  have hentries : d.entries.map (fun m => (id m.1, id m.2)) = d.entries := List.map_id d.entries
  rw [← hentries]
  refine stepMembers_entries step id id set d fun e name v hmem => ?_
  obtain ⟨hv, hname⟩ := hd name v (Dict.get?_eq_some_iff.2 hmem)
  exact (hstep e name _ hname).trans (bind_eq_ok_iff.2 ⟨v, asJson_ofJson hv, rfl⟩)

variable {step}

theorem foldMembers_ofJson_obj (expected : String) {start s : σ} {ms : Members Json}
    (h : stepMembers step start (ofMembers ms) = .ok s) :
    foldMembers expected step start (.ofJson (.obj ms)) = .ok s :=
  (foldMembers_ofMembers step expected start ms).trans h

end Document

/-! ## Dictionaries of values -/

/-- The names of a written dictionary are its keys. -/
theorem Dict.names_written (write : α → Json) (d : Dict String α) :
    (d.written write).names = d.keys := by
  simp [written, mapValues, Members.names, keys, Function.comp_def]

theorem Dict.distinct_written {write : α → Json} {d : Dict String α}
    (h : ∀ name a, d.get? name = some a → (write a).Distinct) :
    (Json.obj (d.written write)).Distinct := by
  refine distinct_obj_iff.2 ⟨names_written write d ▸ d.nodup_keys, fun m hm => ?_⟩
  obtain ⟨⟨name, a⟩, he, rfl⟩ := List.mem_map.1 hm
  exact h name a (get?_eq_some_iff.2 he)

/-- A dictionary reads back when its values do. -/
theorem ReadsBack.asDict {read : Decoder α} {write : α → Json} {d : Dict String α}
    (h : ∀ name a, d.get? name = some a → ReadsBack read write a) :
    ReadsBack (Document.asDict read) (fun d => .obj (d.written write)) d where
  distinct := Dict.distinct_written fun name a hget => (h name a hget).distinct
  read_ofJson := by
    refine Document.foldMembers_ofJson_obj _ (Document.stepMembers_entries _ id write id d ?_)
    intro e name a hmem
    rw [(h name a (Dict.get?_eq_some_iff.2 hmem)).read_ofJson]
    rfl

/-- The values of a dictionary that was read have what the reader gives. -/
theorem Document.get?_of_asDict {read : Decoder α} {P : α → Prop}
    (hread : ∀ ⦃d a⦄, read d = .ok a → P a) {d : Document} {dict : Dict String α}
    (h : asDict read d = .ok dict) : ∀ name a, dict.get? name = some a → P a := by
  refine foldMembers_invariant
    (P := fun dict : Dict String α => ∀ name a, dict.get? name = some a → P a)
    (fun s s' name d hs hstep other a hget => ?_) h fun _ _ hget => nomatch hget
  obtain ⟨b, hb, rfl⟩ := map_eq_ok_iff.1 hstep
  exact Dict.forall_insert (P := fun _ a => P a) hs (hread hb) other a hget

end Picklist
