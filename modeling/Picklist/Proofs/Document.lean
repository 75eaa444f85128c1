/-
# Reading back the document of a value

The document of a value offers everything that the value holds.

* `Document.toJson?_ofJson` : the value of the document is the value itself, when no object
  in it repeats a name;
* `Document.stepMembers_append` and `Document.foldMembers_ofMembers` : members in a row;
* `Document.asText_ofJson`, `Document.asBool_ofJson`, `Document.asWord_ofJson`,
  `Document.optional_ofJson` and `Document.once_eq_ok_iff` : what a value is that a reader
  accepts.
-/
import Picklist.Decoder
import Picklist.Proofs.Members

namespace Picklist

/-! ## Readers in a row -/

section Except

variable {ε α β : Type}

/-- Two readers in a row accept when the first accepts and the second accepts after it. -/
theorem bind_eq_ok_iff {x : Except ε α} {f : α → Except ε β} {b : β} :
    x >>= f = .ok b ↔ ∃ a, x = .ok a ∧ f a = .ok b := by
  cases x with
  | error e => simp [bind, Except.bind]
  | ok a => simp [bind, Except.bind]

theorem map_eq_ok_iff {x : Except ε α} {f : α → β} {b : β} :
    x.map f = .ok b ↔ ∃ a, x = .ok a ∧ f a = b := by
  cases x with
  | error e => simp [Except.map]
  | ok a => simp [Except.map]

theorem eq_ok_of_toOption {x : Except ε α} {a : α} (h : x.toOption = some a) : x = .ok a := by
  cases x with
  | error e => cases h
  | ok b => exact congrArg Except.ok (Option.some.inj h)

end Except

namespace Document

/-! ## The value of a document -/

mutual

/-- The document of a value has the value itself, when no name repeats. -/
theorem toJson?_ofJson : (v : Json) → v.Distinct → (ofJson v).toJson? = some v
  | .arr items, h => by
      simp only [ofJson, toJson?, toItems?_ofItems items h]
  | .obj members, h => by
      simp only [ofJson, toJson?, toMembers?_ofMembers members h.2]
      rw [Members.merge_of_nodup h.1]
  | .null, _ => rfl
  | .bool _, _ => rfl
  | .num _, _ => rfl
  | .str _, _ => rfl

/-- The documents of items have the items themselves. -/
theorem toItems?_ofItems : (items : List Json) → Json.DistinctItems items →
    toItems? (ofItems items) = some items
  | [], _ => rfl
  | x :: xs, h => by
      simp only [ofItems, toItems?, toJson?_ofJson x h.1, toItems?_ofItems xs h.2]

/-- The documents of members have the members themselves. -/
theorem toMembers?_ofMembers : (members : List (String × Json)) →
    Json.DistinctMembers members → toMembers? (ofMembers members) = some members
  | [], _ => rfl
  | (name, value) :: rest, h => by
      simp only [ofMembers, toMembers?, toJson?_ofJson value h.1,
        toMembers?_ofMembers rest h.2]

end

/-! ## Members in a row -/

section Members

variable {σ : Type} (step : σ → String → Document → Except Problem σ)

theorem ofMembers_append (ms ns : Members Json) :
    ofMembers (ms ++ ns) = ofMembers ms ++ ofMembers ns := by
  induction ms with
  | nil => rfl
  | cons m rest ih => rw [List.cons_append, ofMembers, ofMembers, ih, List.cons_append]

/-- Members in two parts are read one part after the other. -/
theorem stepMembers_append (s : σ) (ms ns : List (Document × Document)) :
    stepMembers step s (ms ++ ns) =
      stepMembers step s ms >>= fun t => stepMembers step t ns := by
  induction ms generalizing s with
  | nil => rfl
  | cons m rest ih =>
      obtain ⟨key, d⟩ := m
      cases key with
      | str name => simp only [List.cons_append, stepMembers, ih, bind_assoc]
      | _ => rfl

/-- Reading the object of members is reading the members. -/
theorem foldMembers_ofMembers (expected : String) (s : σ) (ms : Members Json) :
    foldMembers expected step s (.ofJson (.obj ms)) = stepMembers step s (ofMembers ms) := by
  rw [ofJson, foldMembers]
  exact bind_pure _

variable {step}

/-- A record is read off an object that is closed, by reading its members. -/
theorem foldMembers_eq_ok_iff {expected : String} {s t : σ} {d : Document} :
    foldMembers expected step s d = .ok t ↔
      ∃ members, d = .obj members true ∧ stepMembers step s members = .ok t := by
  constructor
  · intro h
    cases d with
    | obj members closed =>
        obtain ⟨t', ht, hclosed⟩ := bind_eq_ok_iff.1 h
        cases closed with
        | true => exact ⟨members, rfl, ht.trans hclosed⟩
        | false => cases hclosed
    | _ => cases h
  · rintro ⟨members, rfl, h⟩
    exact bind_eq_ok_iff.2 ⟨t, h, rfl⟩

end Members

/-! ## What readers accept -/

variable {α : Type} {v : Json}

/-- A document is kept as it is when it has a value. -/
theorem asJson_eq_ok_iff {d : Document} : asJson d = .ok v ↔ d.toJson? = some v := by
  rw [asJson]
  cases d.toJson? with
  | none => simp
  | some j => simp

theorem asJson_ofJson (hv : v.Distinct) : asJson (ofJson v) = .ok v :=
  asJson_eq_ok_iff.2 (toJson?_ofJson v hv)

theorem asText_ofJson {t : String} (h : asText (ofJson v) = .ok t) : v = .str t := by
  cases v with
  | str s => exact congrArg Json.str (Except.ok.inj h)
  | _ => cases h

theorem asBool_ofJson {b : Bool} (h : asBool (ofJson v) = .ok b) : v = .bool b := by
  cases v with
  | bool c => exact congrArg Json.bool (Except.ok.inj h)
  | _ => cases h

/-- A word is read off a text or off an object with one member, which is `null`. -/
theorem asWord_ofJson {known : List String} {type w : String} (hv : v.Distinct)
    (h : asWord known type (ofJson v) = .ok w) : v = .str w ∨ v = .obj [(w, .null)] := by
  unfold asWord at h
  rw [toJson?_ofJson v hv] at h
  cases v with
  | str s => exact .inl (congrArg Json.str (Except.ok.inj h))
  | obj members =>
      right
      match members with
      | [] => cases h
      | [(n, .null)] =>
          simp only [ofJson, ofMembers] at h
          split at h
          · rw [Except.ok.inj h]
          · cases h
      | [(_, .bool _)] | [(_, .num _)] | [(_, .str _)] | [(_, .arr _)] | [(_, .obj _)] => cases h
      | _ :: _ :: _ =>
          simp only [ofJson, ofMembers] at h
          split at h
          · cases h
          · rename_i hd _
            cases hd
          · rename_i hd _
            simp at hd
          · cases h
  | _ => cases h

/-- Nothing is read off `null`, and off other values what the reader reads. -/
theorem optional_ofJson {read : Decoder α} {slot : Option α}
    (h : optional read (ofJson v) = .ok slot) :
    (v = .null ∧ slot = none) ∨ (v ≠ .null ∧ ∃ a, read (ofJson v) = .ok a ∧ slot = some a) := by
  cases v with
  | null => exact .inl ⟨rfl, (Except.ok.inj h).symm⟩
  | _ =>
      obtain ⟨a, ha, rfl⟩ := map_eq_ok_iff.1 h
      exact .inr ⟨by simp, a, ha, rfl⟩

/-- A member that may occur once is read into a slot that is still free. -/
theorem once_eq_ok_iff {name : String} {slot slot' : Option α} {read : Decoder α}
    {d : Document} :
    once name slot read d = .ok slot' ↔
      slot = none ∧ ∃ a, read d = .ok a ∧ some a = slot' := by
  cases slot with
  | none => simp [once, map_eq_ok_iff]
  | some a => simp [once]

end Document

/-- A member that has to occur is the value of its slot. -/
theorem required_eq_ok_iff {α : Type} {name : String} {slot : Option α} {a : α} :
    required name slot = .ok a ↔ slot = some a := by
  cases slot with
  | none => simp [required]
  | some b => simp [required]

end Picklist
