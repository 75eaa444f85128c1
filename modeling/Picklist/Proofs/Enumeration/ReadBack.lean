/-
# Enumerations read back

* `Enumeration.Entry.stable_ofJson` : whatever an entry was taken in of, taking in what is
  written of it gives it again;
* `Enumeration.stepMembers_eq_putAll` : reading symbols puts their entries in turn;
* `Enumeration.readsBack` : enumerations of such entries read back, with their symbols in
  order;
* `Enumeration.stable_of_read` : every enumeration that was read is one.
-/
import Picklist.Proofs.Enumeration.Lossless
import Picklist.Proofs.ReadBack

namespace Picklist

open Json

/-! ## Taking out the last member -/

/-- Taking out a member that was appended gives the others, in their order. -/
theorem Members.withdraw_append_singleton {α : Type} {ms : Members α} {name : String}
    (h : name ∉ ms.names) (value : α) : Members.withdraw name (ms ++ [(name, value)]) = ms := by
  induction ms with
  | nil => simp [withdraw]
  | cons m rest ih =>
      obtain ⟨n, v⟩ := m
      rw [names, List.map_cons, List.mem_cons, not_or] at h
      rw [List.cons_append, withdraw, if_neg (Ne.symm h.1), ih h.2]

/-! ## Entries -/

namespace Enumeration

namespace Entry

/-- An entry is stable when taking in what is written of it gives it again. -/
structure Stable (e : Entry) : Prop where
  distinct : e.toJson.Distinct
  ofJson_toJson : ofJson e.toJson = e

/-- The explicit value of an object is never `null`. -/
theorem ne_null_of_explicit? {ms : Members Json} {v : Scalar} (h : explicit? ms = some v) :
    v.toJson ≠ .null := by
  intro hnull
  have hlookup := lookup_val_of_explicit? h
  rw [hnull] at hlookup
  rw [explicit?, hlookup] at h
  cases h

/-- A member `val` that is appended is the explicit value. -/
theorem explicit?_append_singleton {ms : Members Json} (h : "val" ∉ ms.names) {v : Scalar}
    (hv : v.toJson ≠ .null) : explicit? (ms ++ [("val", v.toJson)]) = some v := by
  have hlookup : (ms ++ [("val", v.toJson)]).lookup "val" = some v.toJson := by
    rw [List.lookup_append, lookup_eq_none_iff_notMem.2 h]
    simp
  unfold explicit?
  split
  · rename_i hnull
    rw [hlookup, Option.some.injEq] at hnull
    exact absurd hnull hv
  · rename_i j _ hj
    rw [hlookup, Option.some.injEq] at hj
    rw [← hj, Scalar.ofJson?_toJson]
  · rename_i hnone
    rw [hlookup] at hnone
    cases hnone

/-- Whatever is taken in is stable. -/
theorem stable_ofJson {j : Json} (hj : j.Distinct) : (ofJson j).Stable := by
  cases j with
  | obj ms =>
      cases hval : explicit? ms with
      | none =>
          have hentry : ofJson (.obj ms) = .described none ms := by
            rw [ofJson, hval]
          rw [hentry]
          exact ⟨hj, hentry⟩
      | some v =>
          have hentry : ofJson (.obj ms) = .described (some v) (Members.withdraw "val" ms) := by
            rw [ofJson, hval]
          have hp := Members.perm_withdraw (lookup_val_of_explicit? hval)
          have hnodup := (hp.map Prod.fst).nodup_iff.1 hj.1
          have hnew : "val" ∉ (Members.withdraw "val" ms).names := (List.nodup_cons.1 hnodup).1
          have hwritten : (Entry.described (some v) (Members.withdraw "val" ms)).toJson =
              .obj (Members.withdraw "val" ms ++ [("val", v.toJson)]) := by
            rw [toJson, Members.put_of_notMem hnew]
          -- the explicit value was taken out of its place and is written behind all others
          rw [hentry]
          refine ⟨?_, ?_⟩
          · have hback := (List.perm_append_singleton _ _).trans hp.symm
            rw [hwritten, distinct_obj_iff]
            exact ⟨(hback.map Prod.fst).nodup_iff.2 hj.1,
              fun m hm => distinctMembers_iff.1 hj.2 m (hback.subset hm)⟩
          · rw [hwritten, ofJson, explicit?_append_singleton hnew (ne_null_of_explicit? hval),
              Members.withdraw_append_singleton hnew]
  | _ => exact ⟨hj, rfl⟩

end Entry

/-! ## Enumerations -/

/-- An enumeration is stable when no symbol repeats and its entries are stable. -/
structure Stable (e : Enumeration) : Prop where
  nodup : e.entries.names.Nodup
  entries : ∀ m ∈ e.entries, m.2.Stable

theorem stable_empty : empty.Stable where
  nodup := List.nodup_nil
  entries _ hm := absurd hm List.not_mem_nil

theorem Stable.insert {e : Enumeration} (h : e.Stable) (symbol : String) {entry : Entry}
    (hentry : entry.Stable) : (e.insert symbol entry).Stable := by
  refine ⟨Members.nodup_put h.nodup symbol entry, fun m hm => ?_⟩
  rcases Members.mem_put hm with hm | hm
  · exact hm ▸ hentry
  · exact h.entries m hm

theorem stable_of_read {d : Document} {e : Enumeration} (h : read d = .ok e) : e.Stable := by
  refine Document.foldMembers_invariant (P := Stable) (fun e e' symbol d he h => ?_) h
    stable_empty
  obtain ⟨j, hj, rfl⟩ := map_eq_ok_iff.1 h
  exact he.insert symbol (Entry.stable_ofJson (Document.distinct_of_asJson hj))

/-- Reading members puts the entries that their values are. -/
theorem stepMembers_eq_putAll {members : List (Document × Document)} {ms : Members Json}
    (h : Document.toMembers? members = some ms) (e : Enumeration) :
    Document.stepMembers (fun e symbol d => d.asJson.map fun j => e.insert symbol (.ofJson j)) e
      members = .ok ⟨e.entries.putAll (ms.map fun m => (m.1, .ofJson m.2))⟩ := by
  induction members generalizing ms e with
  | nil =>
      cases h
      rfl
  | cons member rest ih =>
      obtain ⟨key, d⟩ := member
      unfold Document.toMembers? at h
      split at h
      · rename_i symbol j ms' hj hms
        cases h
        rw [Document.stepMembers, Document.asJson_eq_ok_iff.2 hj]
        exact ih hms (e.insert symbol (.ofJson j))
      · cases h

/-- Reading the members of new symbols appends their entries. -/
theorem stepMembers_written (ms start : Members Entry)
    (hnodup : (start ++ ms : Members Entry).names.Nodup) (h : ∀ m ∈ ms, m.2.Stable) :
    Document.stepMembers (fun e symbol d => d.asJson.map fun j => e.insert symbol (.ofJson j))
      (⟨start⟩ : Enumeration) (Document.ofMembers (written ⟨ms⟩)) = .ok ⟨start ++ ms⟩ := by
  have hdistinct : DistinctMembers (written ⟨ms⟩) := by
    refine distinctMembers_iff.2 fun m hm => ?_
    obtain ⟨m', hm', rfl⟩ := List.mem_map.1 hm
    exact (h m' hm').distinct
  have hentries : ((written ⟨ms⟩).map fun m => (m.1, Entry.ofJson m.2)) = ms := by
    rw [written, List.map_map, List.map_congr_left fun m hm => ?_, List.map_id]
    exact congrArg (Prod.mk m.1) (h m hm).ofJson_toJson
  rw [stepMembers_eq_putAll (Document.toMembers?_ofMembers _ hdistinct), hentries,
    Members.putAll_of_nodup start ms hnodup]

theorem readsBack {e : Enumeration} (h : e.Stable) : ReadsBack read toJson e where
  distinct := by
    have hnames : e.written.names = e.entries.names := by
      simp [written, Members.names, Function.comp_def]
    refine distinct_obj_iff.2 ⟨hnames ▸ h.nodup, fun m hm => ?_⟩
    obtain ⟨m', hm', rfl⟩ := List.mem_map.1 hm
    exact (h.entries m' hm').distinct
  read_ofJson :=
    Document.foldMembers_ofJson_obj "an enum definition map"
      (stepMembers_written e.entries [] h.nodup h.entries)

end Enumeration

end Picklist
