/-
# Which enumerations survive saving

An entry is written as a plain JSON value, and several entries are written as the same one: the
explicit value goes among the other members, and reading takes it out of them by its shape.  So an
entry is read back only if it is the one that reading makes of its value, and an enumeration only if
all of its entries are.

* `Enumeration.Entry.Lost` : the entries that are not read back;
* `Enumeration.Entry.explicit?_eq_some_iff` : what reading takes for an explicit value;
* `Enumeration.Entry.ofJson_toJson` and `Enumeration.Entry.Lost.beq_eq_false` : the two sides;
* `Enumeration.read_toJson` : what an enumeration is read back as;
* `Enumeration.survives_iff` : exactly the enumerations without a lost entry survive.
-/
import Picklist.Proofs.Enumeration.Order

namespace Picklist

open Json

theorem Scalar.distinct_toJson (v : Scalar) : v.toJson.Distinct := by
  cases v <;> trivial

/-- Only `null` is written as `null`. -/
theorem Scalar.toJson_eq_null_iff {v : Scalar} : v.toJson = .null ↔ v = .null := by
  cases v <;> simp [Scalar.toJson]

namespace Enumeration

/-! ## Entries -/

namespace Entry

/-- No object inside an entry repeats a name. -/
def Valid : Entry → Prop
  | .bare j => j.Distinct
  | .described _ other => (Json.obj other).Distinct

/-- Entries that are read back as others: an object that is held as a bare value, an explicit value
that is `null` or that stands beside a member `val`, and no explicit value beside a member `val`
that would be one. -/
inductive Lost : Entry → Prop where
  | bareObject (members : Members Json) : Lost (.bare (.obj members))
  | nullValue (other : Members Json) : Lost (.described (some .null) other)
  | valueTwice (v : Scalar) {other : Members Json} (h : "val" ∈ other.names) :
      Lost (.described (some v) other)
  | hiddenValue {v : Scalar} {other : Members Json} (hv : v ≠ .null)
      (h : other.lookup "val" = some v.toJson) : Lost (.described none other)

/-- The explicit value of an object is its member `val`, if that is a scalar but not `null`. -/
theorem explicit?_eq_some_iff {ms : Members Json} {v : Scalar} :
    explicit? ms = some v ↔ ms.lookup "val" = some v.toJson ∧ v ≠ .null := by
  constructor
  · intro h
    refine ⟨lookup_val_of_explicit? h, fun hnull => ?_⟩
    exact ne_null_of_explicit? h (Scalar.toJson_eq_null_iff.2 hnull)
  · rintro ⟨hlookup, hnull⟩
    rw [explicit?, hlookup]
    cases v with
    | null => exact absurd rfl hnull
    | _ => rfl

/-- An object is taken apart when it has an explicit value. -/
theorem ofJson_of_explicit? {ms : Members Json} {v : Scalar} (h : explicit? ms = some v) :
    ofJson (.obj ms) = .described (some v) (Members.withdraw "val" ms) := by
  rw [ofJson, h]

/-- An object without an explicit value is kept whole. -/
theorem ofJson_of_explicit?_none {ms : Members Json} (h : explicit? ms = none) :
    ofJson (.obj ms) = .described none ms := by
  rw [ofJson, h]

/-- An entry that is not lost is read back. -/
theorem ofJson_toJson {e : Entry} (h : ¬e.Lost) : ofJson e.toJson = e := by
  rcases e with j | ⟨_ | v, other⟩
  · cases j with
    | obj members => exact absurd (.bareObject members) h
    | _ => rfl
  · refine ofJson_of_explicit?_none (Option.eq_none_iff_forall_ne_some.2 fun v hv => h ?_)
    obtain ⟨hlookup, hnull⟩ := explicit?_eq_some_iff.1 hv
    exact .hiddenValue hnull hlookup
  · have hnew : "val" ∉ Members.names other := fun hval => h (.valueTwice v hval)
    have hnull : v.toJson ≠ .null := by
      rw [Ne, Scalar.toJson_eq_null_iff]
      rintro rfl
      exact h (.nullValue other)
    -- the value was appended, and is taken out from there
    rw [toJson, Members.put_of_notMem hnew,
      ofJson_of_explicit? (explicit?_append_singleton hnew hnull),
      Members.withdraw_append_singleton hnew]

/-- Putting a value in the place of a member and taking it out again leaves one member less. -/
theorem length_withdraw_put {other : Members Json} (h : "val" ∈ other.names) (j : Json) :
    (Members.withdraw "val" (Members.put "val" j other)).length + 1 = other.length := by
  have hperm := Members.perm_withdraw (Members.lookup_put_self other "val" j)
  have hnames : (Members.put "val" j other).names = other.names := by
    rw [Members.names_put, if_pos h]
  calc _ = (Members.put "val" j other).length := hperm.length_eq.symm
    _ = (Members.put "val" j other).names.length := List.length_map _ |>.symm
    _ = other.length := by rw [hnames, Members.names, List.length_map]

/-- A lost entry is read back as another one. -/
theorem Lost.beq_eq_false {e : Entry} (h : e.Lost) : (ofJson e.toJson == e) = false := by
  -- an entry with a `null` for its explicit value comes back without one
  have hnull : ∀ other : Members Json,
      (ofJson (toJson (.described (some .null) other)) == .described (some .null) other) =
        false := by
    intro other
    have hnone : explicit? (Members.put "val" .null other) = none := by
      rw [explicit?, Members.lookup_put_self]
    rw [toJson, Scalar.toJson, ofJson_of_explicit?_none hnone]
    rfl
  cases h with
  | bareObject members =>
      cases hval : explicit? members with
      | none => rw [toJson, ofJson_of_explicit?_none hval]; rfl
      | some v => rw [toJson, ofJson_of_explicit? hval]; rfl
  | nullValue other => exact hnull other
  | @valueTwice v other hval =>
      by_cases hv : v = .null
      · exact hv ▸ hnull other
      · have hsome : explicit? (Members.put "val" v.toJson other) = some v :=
          explicit?_eq_some_iff.2 ⟨Members.lookup_put_self _ _ _, hv⟩
        have hlength := length_withdraw_put hval v.toJson
        have hne : ((Members.withdraw "val" (Members.put "val" v.toJson other)).length ==
            other.length) = false := beq_eq_false_iff_ne.2 (by omega)
        rw [toJson, ofJson_of_explicit? hsome]
        show (some v == some v && Json.same _ _) = false
        rw [same, hne, Bool.false_and, Bool.and_false]
  | hiddenValue hv hlookup =>
      rw [toJson, ofJson_of_explicit? (explicit?_eq_some_iff.2 ⟨hlookup, hv⟩)]
      rfl

/-- An entry equals itself. -/
theorem beq_self {e : Entry} (h : e.Valid) : (e == e) = true := by
  rcases e with j | ⟨val, other⟩
  · exact same_self h
  · show (val == val && Json.same _ _) = true
    rw [same_self h, Bool.and_true]
    cases val with
    | none => rfl
    | some v => exact Scalar.same_self v

/-- An entry is read back exactly when it is not lost. -/
theorem beq_ofJson_toJson_iff {e : Entry} (h : e.Valid) :
    (ofJson e.toJson == e) = true ↔ ¬e.Lost := by
  refine ⟨fun hsame hlost => ?_, fun hkept => ?_⟩
  · rw [hlost.beq_eq_false] at hsame
    cases hsame
  · rw [ofJson_toJson hkept]
    exact beq_self h

theorem distinct_toJson {e : Entry} (h : e.Valid) : e.toJson.Distinct := by
  rcases e with j | ⟨_ | v, other⟩
  · exact h
  · exact h
  · obtain ⟨hnodup, hother⟩ := distinct_obj_iff.1 h
    refine distinct_obj_iff.2 ⟨Members.nodup_put hnodup "val" v.toJson, fun m hm => ?_⟩
    rcases Members.mem_put hm with hm | hm
    · exact hm ▸ v.distinct_toJson
    · exact hother m hm

/-- What is taken in repeats no name. -/
theorem valid_ofJson {j : Json} (hj : j.Distinct) : (ofJson j).Valid := by
  cases j with
  | obj ms =>
      cases hval : explicit? ms with
      | none => exact ofJson_of_explicit?_none hval ▸ hj
      | some v =>
          rw [ofJson_of_explicit? hval]
          obtain ⟨hnodup, hms⟩ := distinct_obj_iff.1 hj
          have hp := Members.perm_withdraw (lookup_val_of_explicit? hval)
          refine distinct_obj_iff.2 ⟨?_, fun m hm => ?_⟩
          · exact (List.nodup_cons.1 ((hp.map Prod.fst).nodup_iff.1 hnodup)).2
          · exact hms m (hp.symm.subset (List.mem_cons_of_mem _ hm))
  | _ => exact hj

/-- What is taken in is not lost. -/
theorem not_lost_ofJson {j : Json} (hj : j.Distinct) : ¬(ofJson j).Lost := by
  have hback := beq_self (valid_ofJson hj)
  have hstable := (stable_ofJson hj).ofJson_toJson
  rw [← beq_ofJson_toJson_iff (valid_ofJson hj), hstable, hback]

end Entry

/-! ## Enumerations -/

/-- What holds of all entries that symbols were given holds of all entries that they have. -/
theorem forall_entries_insertAll {P : Entry → Prop} {calls : Members Entry}
    (h : ∀ m ∈ calls, P m.2) : ∀ m ∈ (empty.insertAll calls).entries, P m.2 := by
  rw [insertAll_eq]
  intro m hm
  obtain ⟨m', hm', heq⟩ := Members.mem_merge hm
  exact heq ▸ h m' hm'

/-- An enumeration without repeated symbols is read back with each entry taken in again. -/
theorem read_toJson {e : Enumeration} (hn : e.entries.names.Nodup)
    (h : ∀ m ∈ e.entries, m.2.Valid) :
    read (.ofJson e.toJson) = .ok ⟨e.entries.map fun m => (m.1, .ofJson m.2.toJson)⟩ := by
  have hdistinct : DistinctMembers e.written := by
    refine distinctMembers_iff.2 fun m hm => ?_
    obtain ⟨m', hm', rfl⟩ := List.mem_map.1 hm
    exact Entry.distinct_toJson (h m' hm')
  have hentries : entriesOf e.written = e.entries.map fun m => (m.1, .ofJson m.2.toJson) := by
    rw [entriesOf, written, List.map_map]
    rfl
  have hnames : (entriesOf e.written).names.Nodup := by
    rw [hentries, Members.names, List.map_map]
    exact hn
  refine read_eq_ok_iff.2 ⟨e.written,
    ⟨Document.ofMembers e.written, rfl, Document.toMembers?_ofMembers _ hdistinct⟩, ?_⟩
  rw [Members.merge_of_nodup hnames, hentries]

/-- **Exactly the enumerations without a lost entry survive saving.**  Give symbols any entries, one
after the other.  What is written of the enumeration can be read, and it is read as an equal one
exactly when none of its entries is lost.  No enumeration that was read has a lost entry. -/
theorem survives_iff {calls : Members Entry} (hcalls : ∀ m ∈ calls, m.2.Valid) :
    (∃ e, read (.ofJson (empty.insertAll calls).toJson) = .ok e ∧
        ((e == empty.insertAll calls) = true ↔
          ∀ m ∈ (empty.insertAll calls).entries, ¬m.2.Lost)) ∧
      ∀ d e, read d = .ok e → ∀ m ∈ e.entries, ¬m.2.Lost := by
  have hvalid := forall_entries_insertAll hcalls
  have hnodup : (empty.insertAll calls).entries.names.Nodup := by
    rw [insertAll_eq]
    exact (ordered_merge calls).nodup
  refine ⟨⟨_, read_toJson hnodup hvalid, ?_⟩, fun d e h m hm => ?_⟩
  · have hbeq := beq_map_iff (fun m => Entry.ofJson m.2.toJson) Prod.snd
      (empty.insertAll calls).entries
    rw [List.map_id'] at hbeq
    exact hbeq.trans (forall₂_congr fun m hm => Entry.beq_ofJson_toJson_iff (hvalid m hm))
  · obtain ⟨ms, ⟨members, -, hms⟩, rfl⟩ := read_eq_ok_iff.1 h
    obtain ⟨m', hm', heq⟩ := Members.mem_merge hm
    obtain ⟨named, hnamed, rfl⟩ := List.mem_map.1 hm'
    have hdistinct := Document.distinctMembers_of_toMembers? members hms
    exact heq ▸ Entry.not_lost_ofJson (hdistinct.of_mem hnamed)

/-- A symbol is given an entry that would be lost, and then another one. -/
def replaced : Members Entry :=
  [("open", .ofValue (.text "O")), ("closed", .bare (.obj [])), ("closed", .plain)]

/-- A symbol is given an entry whose other members hold what reading takes for its value. -/
def hidden : Members Entry := [("open", .described none [("val", .str "O")])]

/-- The enumeration in which no lost entry is left survives, the one with a hidden value does not. -/
theorem survives_iff_replaced :
    ((∀ m ∈ replaced, m.2.Valid) ∧ ∃ e, read (.ofJson (empty.insertAll replaced).toJson) = .ok e ∧
        (e == empty.insertAll replaced) = true) ∧
      (∀ m ∈ hidden, m.2.Valid) ∧ ∃ e, read (.ofJson (empty.insertAll hidden).toJson) = .ok e ∧
        (e == empty.insertAll hidden) = false := by
  have hreplaced : ∀ m ∈ replaced, m.2.Valid := by
    simp [replaced, Entry.Valid, Entry.ofValue, Entry.plain, Json.Distinct, DistinctMembers]
  have hhidden : ∀ m ∈ hidden, m.2.Valid := by
    simp [hidden, Entry.Valid, Json.Distinct, DistinctMembers]
  obtain ⟨⟨e, he, hsurvives⟩, -⟩ := survives_iff hreplaced
  obtain ⟨⟨e', he', hlost⟩, -⟩ := survives_iff hhidden
  refine ⟨⟨hreplaced, e, he, hsurvives.2 ?_⟩, hhidden, e', he', ?_⟩
  · have hentries : (empty.insertAll replaced).entries =
        [("open", .ofValue (.text "O")), ("closed", .plain)] := rfl
    rw [hentries, List.forall_mem_cons, List.forall_mem_singleton]
    constructor
    · intro hlost
      cases hlost with
      | valueTwice _ hval => cases hval
    · intro hlost
      cases hlost
  · rw [← Bool.not_eq_true, hlost]
    intro hall
    have hvalue : Scalar.text "O" ≠ .null := by simp
    exact hall ("open", .described none [("val", .str "O")]) (by exact List.mem_cons_self)
      (.hiddenValue hvalue rfl)

end Enumeration

end Picklist
