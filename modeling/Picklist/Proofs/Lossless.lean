/-
# Reading and writing without loss

A reader is lossless when writing what it read gives the value back, in a given form.  Records
are read member by member, so it is enough to know what one member adds to what will be
written.

* `Lossless` and `LosslessMember` : the property for values, and for values that may be left
  out of their object;
* `Document.foldMembers_induction` : what one member preserves, a whole object preserves;
* `StepLossless` and `StepLossless.alike` : a record whose every member is kept is lossless;
* `lossless_asDict` : dictionaries are lossless when their values are.
-/
import Picklist.Proofs.Document
import Picklist.Proofs.Json.Alike
import Picklist.Proofs.Json.NormalForm

namespace Picklist

open Json

variable {α σ : Type}

/-! ## Lossless readers -/

/-- Writing what was read of a value gives the given form of the value. -/
def Lossless (read : Decoder α) (write : α → Json) (form : Json → Json) : Prop :=
  ∀ ⦃v a⦄, v.Distinct → read (.ofJson v) = .ok a → (write a).Alike (form v)

/-- The same for the value of a member, which is not written in every case. -/
def LosslessMember (read : Decoder α) (write : α → Option Json) (form : Json → Option Json) :
    Prop :=
  ∀ ⦃v a⦄, v.Distinct → read (.ofJson v) = .ok a →
    (write a).map Json.sorted = (form v).map Json.sorted

theorem lossless_asJson : Lossless Document.asJson id id := by
  intro v a hv h
  rw [Document.asJson_ofJson hv, Except.ok.injEq] at h
  rw [h]
  rfl

theorem lossless_asText : Lossless Document.asText Json.str id := by
  intro v a _ h
  rw [Document.asText_ofJson h]
  rfl

theorem lossless_asWord (known : List String) (type : String) :
    Lossless (Document.asWord known type) Json.str plainWord := by
  intro v w hv h
  rcases Document.asWord_ofJson hv h with rfl | rfl <;> rfl

/-- Reading a value as something else keeps it when that is written as the value. -/
theorem Lossless.map {read : Decoder α} {write : α → Json} {form : Json → Json}
    (h : Lossless read write form) {β : Type} (f : α → β) {write' : β → Json}
    (hf : ∀ a, write' (f a) = write a) : Lossless (fun d => (read d).map f) write' form := by
  intro v b hv hb
  obtain ⟨a, ha, rfl⟩ := map_eq_ok_iff.1 hb
  rw [hf]
  exact h hv ha

/-- A member that is always written. -/
theorem Lossless.member {read : Decoder α} {write : α → Json} {form : Json → Json}
    (h : Lossless read write form) :
    LosslessMember read (fun a => some (write a)) (fun v => some (form v)) :=
  fun _ _ hv ha => congrArg some (h hv ha)

/-- A member that is written unless it is `null`. -/
theorem Lossless.optional {read : Decoder α} {write : α → Json} {form : Json → Json}
    (h : Lossless read write form) :
    LosslessMember (Document.optional read) (Option.map write)
      (fun v => (notNull v).map form) := by
  intro v slot hv hs
  rcases Document.optional_ofJson hs with ⟨rfl, rfl⟩ | ⟨hne, a, ha, rfl⟩
  · rfl
  · have hnn : notNull v = some v := by
      cases v with
      | null => exact absurd rfl hne
      | _ => rfl
    show some (write a).sorted = Option.map sorted ((notNull v).map form)
    rw [hnn]
    exact congrArg some (h hv ha)

/-- A member whose value is kept as it is, unless it is `null`. -/
theorem Lossless.optional_id {read : Decoder α} {write : α → Json}
    (h : Lossless read write id) :
    LosslessMember (Document.optional read) (Option.map write) notNull := by
  intro v slot hv hs
  rw [h.optional hv hs, Option.map_id]
  rfl

/-- A truth value that is written only when it is set. -/
theorem losslessMember_asBool :
    LosslessMember Document.asBool (fun b => if b then some (.bool true) else none) notFalse := by
  intro v b _ h
  rw [Document.asBool_ofJson h]
  cases b <;> rfl

/-! ## Members one after the other -/

namespace Document

/-- What one member preserves is preserved by members in a row. -/
theorem stepMembers_induction {step : σ → String → Document → Except Problem σ}
    {P : σ → Members Json → Prop}
    (hstep : ∀ ⦃s s' pre name v⦄, v.Distinct → name ∉ Members.names pre → P s pre →
      step s name (.ofJson v) = .ok s' → P s' (pre ++ [(name, v)]))
    (ms pre : Members Json) {s s' : σ} (hn : (pre ++ ms : Members Json).names.Nodup)
    (hd : DistinctMembers ms) (hp : P s pre)
    (h : stepMembers step s (ofMembers ms) = .ok s') : P s' (pre ++ ms) := by
  -- `pre` is what was read already; it grows while the induction goes through the rest
  induction ms generalizing pre s with
  | nil =>
      rw [List.append_nil]
      exact Except.ok.inj h ▸ hp
  | cons m rest ih =>
      obtain ⟨name, v⟩ := m
      obtain ⟨t, ht, hrest⟩ := bind_eq_ok_iff.1 h
      have hnew : name ∉ pre.names := Members.notMem_names_of_nodup hn
      have hassoc : pre ++ [(name, v)] ++ rest = pre ++ (name, v) :: rest := by simp
      rw [← hassoc] at hn ⊢
      exact ih (pre ++ [(name, v)]) hn hd.2 (hstep hd.1 hnew hp ht) hrest

/-- What one member preserves is preserved by a whole object. -/
theorem foldMembers_induction {step : σ → String → Document → Except Problem σ}
    {P : σ → Members Json → Prop}
    (hstep : ∀ ⦃s s' pre name v⦄, v.Distinct → name ∉ Members.names pre → P s pre →
      step s name (.ofJson v) = .ok s' → P s' (pre ++ [(name, v)]))
    {expected : String} {start s : σ} {v : Json} (hstart : P start []) (hv : v.Distinct)
    (h : foldMembers expected step start (.ofJson v) = .ok s) :
    ∃ ms, v = .obj ms ∧ P s ms := by
  cases v with
  | obj ms =>
      obtain ⟨t, ht, hs⟩ := bind_eq_ok_iff.1 h
      obtain rfl : t = s := Except.ok.inj hs
      exact ⟨ms, rfl, stepMembers_induction hstep ms [] hv.1 hv.2 hstart ht⟩
  | _ => cases h

end Document

/-! ## Records -/

/-- A member as it is written, or none. -/
def slot (name : String) (v : Option Json) : Members Json := v.toList.map fun v => (name, v)

@[simp] theorem slot_none (name : String) : slot name none = [] := rfl

@[simp] theorem slot_some (name : String) (v : Json) : slot name (some v) = [(name, v)] := rfl

/-- The bag of a member depends on its sorted value only. -/
theorem bag_slot_congr {name : String} {v w : Option Json}
    (h : v.map Json.sorted = w.map Json.sorted) :
    Members.bag (slot name v) = Members.bag (slot name w) := by
  cases v with
  | none => rw [Option.map_eq_none_iff.1 h.symm]
  | some v =>
      obtain ⟨w, rfl, hw⟩ := Option.map_eq_some_iff.1 h.symm
      exact Members.bag_singleton_congr hw.symm name

/-- What will be written of a half-read record, the `content`, gains with every member what
the rule gives for it, as long as no name repeats. -/
def StepLossless (content : σ → Multiset (String × Json)) (rule : Rule)
    (step : σ → String → Document → Except Problem σ) : Prop :=
  ∀ ⦃s s' name v⦄, v.Distinct → (∀ w, (name, w) ∉ content s) →
    step s name (.ofJson v) = .ok s' →
      content s' = content s + Members.bag (slot name (rule name v))

/-- A record that was read from an object holds what the rule gives for the object. -/
theorem StepLossless.content_eq {content : σ → Multiset (String × Json)} {rule : Rule}
    {step : σ → String → Document → Except Problem σ} (hstep : StepLossless content rule step)
    {expected : String} {start s : σ} {v : Json} (hstart : content start = 0)
    (hv : v.Distinct) (h : Document.foldMembers expected step start (.ofJson v) = .ok s) :
    ∃ ms, v = .obj ms ∧ content s = Members.bag (rule.apply ms) := by
  refine Document.foldMembers_induction
    (P := fun s ms => content s = Members.bag (rule.apply ms))
    (fun s s' pre name v hv hnew hp hs => ?_) hstart hv h
  -- a rule adds no names, so a name that is new to the object is new to the content
  have hfresh : ∀ w, (name, w) ∉ content s := by
    intro w hw
    rw [hp] at hw
    exact hnew ((rule.names_apply pre).subset (Members.mem_names_iff.2 ⟨w, hw⟩))
  rw [hstep hv hfresh hs, hp, rule.apply_append, Members.bag_append]
  cases hr : rule name v <;> simp [Rule.apply, hr]

/-- A record is lossless when it is written as what it holds and every member is kept. -/
theorem StepLossless.alike {content : σ → Multiset (String × Json)} {rule : Rule}
    {step : σ → String → Document → Except Problem σ} (hstep : StepLossless content rule step)
    {expected : String} {start s : σ} {v : Json} (hstart : content start = 0)
    (hv : v.Distinct) (h : Document.foldMembers expected step start (.ofJson v) = .ok s)
    {written : Members Json} (hw : written.bag = content s) :
    (Json.obj written).Alike (mapMembers rule v) := by
  obtain ⟨ms, rfl, hms⟩ := hstep.content_eq hstart hv h
  exact (alike_obj (hms ▸ hw.symm) ((rule.names_apply ms).nodup hv.1)).symm

/-- When a rule only drops one name, the member of that name is all that is missing. -/
theorem Rule.bag_eq_of_drops {rule : Rule} {name : String} (hdrop : ∀ v, rule name v = none)
    (hkeep : ∀ n v, n ≠ name → rule n v = some v) {ms : Members Json} (hn : ms.names.Nodup)
    {v : Json} (hv : ms.lookup name = some v) :
    ms.bag = (rule.apply ms).bag + Members.bag [(name, v)] := by
  have hp := Members.perm_withdraw hv
  have hnew : name ∉ (ms.withdraw name).names :=
    (List.nodup_cons.1 ((hp.map Prod.fst).nodup_iff.1 hn)).1
  have hself : rule.apply (ms.withdraw name) = ms.withdraw name := by
    refine rule.apply_eq_self fun m hm => hkeep m.1 m.2 ?_
    rintro rfl
    exact hnew (List.mem_map_of_mem hm)
  have happly : (rule.apply ms).bag = (ms.withdraw name).bag := by
    have hcons : rule.apply ((name, v) :: ms.withdraw name) = rule.apply (ms.withdraw name) := by
      rw [Rule.apply, List.filterMap_cons, hdrop]
      rfl
    rw [← hself, ← hcons]
    exact Members.bag_eq_of_perm (hp.filterMap _)
  rw [happly, Members.bag_eq_of_perm hp, Members.bag_cons, add_comm]

/-- Reading a member that may occur once keeps its value.  `set` fills its slot, which is all
that the content of the record sees of it. -/
theorem LosslessMember.content_once {content : σ → Multiset (String × Json)}
    {read : Decoder α} {write : α → Option Json} {form : Json → Option Json}
    (h : LosslessMember read write form) {v : Json} (hv : v.Distinct) {name : String}
    {old : Option α} {set : Option α → σ} {s s' : σ}
    (hs : (once name old read (.ofJson v) >>= fun slot => pure (set slot)) = .ok s')
    (hold : set old = s)
    (hset : ∀ slot', content (set slot') =
      content (set none) + Members.bag (slot name (slot'.bind write))) :
    content s' = content s + Members.bag (slot name (form v)) := by
  obtain ⟨new, hnew, heq⟩ := bind_eq_ok_iff.1 hs
  -- the slot was free: a member that is read a second time is refused
  obtain ⟨rfl, a, ha, rfl⟩ := Document.once_eq_ok_iff.1 hnew
  obtain rfl : set (some a) = s' := Except.ok.inj heq
  rw [hset, Option.bind_some, bag_slot_congr (h hv ha), hold]

/-- Any other member is passed on as it is. -/
theorem eq_of_asJson {put : Json → σ} {v : Json} (hv : v.Distinct) {s' : σ}
    (h : (Document.asJson (.ofJson v) >>= fun j => pure (put j)) = .ok s') : s' = put v := by
  rw [Document.asJson_ofJson hv] at h
  exact (Except.ok.inj h).symm

/-! ## Dictionaries -/

/-- A new key adds its member to the members of a dictionary. -/
theorem bag_map_insert {κ : Type} [Ord κ] [DecidableEq κ] [Std.TransOrd κ] [Std.LawfulEqOrd κ]
    (text : κ → String) (write : α → Json) {d : Dict κ α} {key : κ} (value : α)
    (h : ∀ w, (text key, w) ∉ Members.bag (d.entries.map fun e => (text e.1, write e.2))) :
    Members.bag ((d.insert key value).entries.map fun e => (text e.1, write e.2)) =
      Members.bag (d.entries.map fun e => (text e.1, write e.2)) +
        Members.bag [(text key, write value)] := by
  have hnames : Members.names (d.entries.map fun e => (text e.1, write e.2)) =
      d.keys.map text := by
    simp [Members.names, Dict.keys, Function.comp_def]
  have hkey : key ∉ d.keys := by
    intro hm
    exact Members.notMem_names_of_bag h (hnames ▸ List.mem_map_of_mem hm)
  rw [← Members.bag_append]
  apply Members.bag_eq_of_perm
  simpa using (Dict.perm_insert hkey value).map fun e => (text e.1, write e.2)

/-- A new name adds its value to values that are kept as they are. -/
theorem bag_entries_insert {d : Dict String Json} {name : String} (value : Json)
    (h : ∀ w, (name, w) ∉ Members.bag d.entries) :
    Members.bag (d.insert name value).entries =
      Members.bag d.entries + Members.bag [(name, value)] := by
  have hid : ∀ d : Dict String Json, d.entries.map (fun e => (id e.1, id e.2)) = d.entries :=
    fun d => List.map_id d.entries
  rw [← hid d] at h
  have hinsert := bag_map_insert id id value h
  rwa [hid, hid] at hinsert

/-- The members of a dictionary whose values are written in one way. -/
def Dict.written (write : α → Json) (d : Dict String α) : Members Json :=
  (d.mapValues fun _ a => write a).entries

/-- A dictionary keeps every member whose value its reader keeps. -/
theorem stepLossless_insert {read : Decoder α} {write : α → Json} {form : Json → Json}
    (h : Lossless read write form) :
    StepLossless (fun d => (Dict.written write d).bag) (fun _ v => some (form v))
      (fun d name value => (read value).map (d.insert name)) := by
  intro d d' name v hv hfresh hs
  obtain ⟨a, ha, rfl⟩ := map_eq_ok_iff.1 hs
  exact (bag_map_insert id write a hfresh).trans
    (congrArg _ (Members.bag_singleton_congr (h hv ha) name))

theorem lossless_asDict {read : Decoder α} {write : α → Json} {form : Json → Json}
    (h : Lossless read write form) :
    Lossless (Document.asDict read) (fun d => .obj (d.written write))
      (mapMembers fun _ v => some (form v)) :=
  fun _ _ hv hd => (stepLossless_insert h).alike rfl hv hd rfl

/-- A dictionary that is not written when it is empty. -/
theorem losslessMember_asDict {read : Decoder α} {write : α → Json} {form : Json → Json}
    (h : Lossless read write form) :
    LosslessMember (Document.asDict read)
      (fun d => if d.isEmpty then none else some (.obj (d.written write)))
      (fun v => (notEmpty v).map (mapMembers fun _ v => some (form v))) := by
  intro v d hv hd
  have halike := lossless_asDict h hv hd
  obtain ⟨ms, rfl, hms⟩ := (stepLossless_insert h).content_eq rfl hv hd
  -- no entry is lost or made up, so only the empty object gives the empty dictionary
  have hlength : d.entries.length = ms.length := by
    simpa [Members.bag, sortedMembers_eq_map, Dict.written, Dict.mapValues, Rule.apply]
      using congrArg Multiset.card hms
  cases ms with
  | nil =>
      rw [List.length_nil, List.length_eq_zero_iff] at hlength
      simp [Dict.isEmpty, hlength, notEmpty]
  | cons m rest =>
      have hne : d.isEmpty = false := by
        cases he : d.entries with
        | nil => rw [he] at hlength; cases hlength
        | cons e es => rw [Dict.isEmpty, he]; rfl
      simp only [hne, Bool.false_eq_true, if_false]
      exact congrArg some halike

end Picklist
