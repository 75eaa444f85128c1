/-
# Symbols in order

An enumeration is built by giving symbols entries, one after the other, and a symbol may be given
several.  Its first one decides where it stands, and its last one counts.  So the pick list shows
one value for each symbol, in the order in which the symbols first came.

* `Members.Kept` : each name once, in the order of first positions and with its last value;
* `Members.Kept.put` and `Members.kept_merge` : what putting one member and merging a list do;
* `Enumeration.Ordered` : the same for an enumeration, with its size and its values;
* `Enumeration.read_eq_ok_iff` : what an enumeration is read off, and as what;
* `Enumeration.ordered_insertAll` : all enumerations that were built or read are such.
-/
import Mathlib.Data.Finset.Card
import Picklist.Proofs.Resolution
import Picklist.Proofs.Schema.Repeats

namespace Picklist

/-! ## Members -/

namespace Members

variable {α : Type} {given ms : Members α}

/-- The members that are kept of some that were given one after the other: each name once, in the
order of the first positions, and with its last value. -/
structure Kept (given ms : Members α) : Prop where
  mem_names : ∀ name, name ∈ ms.names ↔ name ∈ given.names
  first : ms.names.Pairwise fun a b => given.names.idxOf a < given.names.idxOf b
  last : ∀ m ∈ ms, ∃ before after : Members α, given = before ++ m :: after ∧ m.1 ∉ after.names

theorem kept_nil : Kept ([] : Members α) [] where
  mem_names _ := Iff.rfl
  first := .nil
  last _ hm := absurd hm List.not_mem_nil

/-- Members that are kept have distinct names. -/
theorem Kept.nodup (h : Kept given ms) : ms.names.Nodup := by
  refine List.nodup_iff_pairwise_ne.2 (h.first.imp ?_)
  rintro a b hlt rfl
  exact Nat.lt_irrefl _ hlt

/-- A member after `put` is the new one, or an old one of another name. -/
theorem eq_or_mem_of_mem_put (hn : ms.names.Nodup) {name : String} {value : α} {m : String × α}
    (h : m ∈ ms.put name value) : m = (name, value) ∨ (m ∈ ms ∧ m.1 ≠ name) := by
  have hget := (lookup_eq_some_iff_mem (nodup_put hn name value)).2 h
  by_cases hname : m.1 = name
  · rw [hname, lookup_put_self, Option.some.injEq] at hget
    exact .inl (Prod.ext hname hget.symm)
  · rw [lookup_put_of_ne ms value hname] at hget
    exact .inr ⟨(lookup_eq_some_iff_mem hn).1 hget, hname⟩

/-- Putting a member keeps what is to be kept when it is given behind the others. -/
theorem Kept.put (h : Kept given ms) (name : String) (value : α) :
    Kept (given ++ [(name, value)]) (ms.put name value) := by
  have hgiven : names (given ++ [(name, value)]) = given.names ++ [name] := by simp [names]
  -- names that were given before have their first positions there
  have hold : ∀ a ∈ ms.names, (given.names ++ [name]).idxOf a = given.names.idxOf a :=
    fun a ha => List.idxOf_append_of_mem ((h.mem_names a).1 ha)
  have hpairwise : ms.names.Pairwise fun a b =>
      (given.names ++ [name]).idxOf a < (given.names ++ [name]).idxOf b :=
    h.first.imp_of_mem fun ha hb hlt => by rwa [hold _ ha, hold _ hb]
  refine ⟨fun other => ?_, ?_, fun m hm => ?_⟩
  · rw [names_put, hgiven, List.mem_append, List.mem_singleton, ← h.mem_names]
    split
    · rename_i hname
      exact ⟨.inl, fun hother => hother.elim id fun heq => heq ▸ hname⟩
    · rw [List.mem_append, List.mem_singleton]
  · rw [names_put, hgiven]
    split
    · exact hpairwise
    · rename_i hname
      have hnew : name ∉ given.names := fun hmem => hname ((h.mem_names name).2 hmem)
      refine List.pairwise_append.2 ⟨hpairwise, List.pairwise_singleton _ _, ?_⟩
      intro a ha b hb
      obtain rfl := List.mem_singleton.1 hb
      rw [hold a ha, List.idxOf_append_of_notMem hnew]
      have hlt := List.idxOf_lt_length_of_mem ((h.mem_names a).1 ha)
      omega
  · rcases eq_or_mem_of_mem_put h.nodup hm with rfl | ⟨hm, hne⟩
    · exact ⟨given, [], rfl, List.not_mem_nil⟩
    · obtain ⟨before, after, rfl, hafter⟩ := h.last m hm
      refine ⟨before, after ++ [(name, value)], by simp, ?_⟩
      rw [names, List.map_append, List.mem_append, not_or]
      exact ⟨hafter, fun hmem => hne (List.mem_singleton.1 hmem)⟩

/-- Putting members in turn keeps what is to be kept when they are given behind the others. -/
theorem Kept.putAll (h : Kept given ms) (more : Members α) :
    Kept (given ++ more) (ms.putAll more) := by
  induction more generalizing given ms with
  | nil => rwa [List.append_nil]
  | cons m rest ih =>
      have hrest := ih (h.put m.1 m.2)
      rwa [List.append_assoc] at hrest

/-- Merging keeps what is to be kept. -/
theorem kept_merge (given : Members α) : Kept given given.merge := kept_nil.putAll given

/-- As many members are kept as there are different names. -/
theorem Kept.length_eq (h : Kept given ms) : ms.length = given.names.toFinset.card := by
  have hset : given.names.toFinset = ms.names.toFinset := by
    ext name
    rw [List.mem_toFinset, List.mem_toFinset, h.mem_names]
  rw [hset, List.toFinset_card_of_nodup h.nodup, names, List.length_map]

/-- Members in two parts are merged one part after the other. -/
theorem putAll_merge (ms more : Members α) : ms.merge.putAll more = merge (ms ++ more) :=
  List.foldl_append.symm

end Members

/-! ## Enumerations -/

namespace Enumeration

/-- The enumeration after symbols were given entries, one after the other. -/
def insertAll (e : Enumeration) (given : Members Entry) : Enumeration :=
  given.foldl (fun e m => e.insert m.1 m.2) e

theorem insertAll_eq (e : Enumeration) (given : Members Entry) :
    e.insertAll given = ⟨e.entries.putAll given⟩ := by
  induction given generalizing e with
  | nil => rfl
  | cons m rest ih => exact ih (e.insert m.1 m.2)

/-- An enumeration has the symbols that were given entries: each once, in the order of the first
entries, and with the last one; and one value for each symbol, in this order. -/
structure Ordered (given : Members Entry) (e : Enumeration) : Prop where
  nodup : e.entries.names.Nodup
  mem_symbols : ∀ symbol, symbol ∈ e.entries.names ↔ symbol ∈ given.names
  first : e.entries.names.Pairwise fun a b => given.names.idxOf a < given.names.idxOf b
  last : ∀ m ∈ e.entries,
    ∃ before after : Members Entry, given = before ++ m :: after ∧ m.1 ∉ after.names
  size : e.size = given.names.toFinset.card
  values : List.Forall₂ (fun m v => Shows m.1 m.2 v) e.entries e.values

/-- Every symbol has one value. -/
theorem forall₂_shows (e : Enumeration) :
    List.Forall₂ (fun m v => Shows m.1 m.2 v) e.entries e.values := by
  rw [Enumeration.values, List.forall₂_map_right_iff, List.forall₂_same]
  exact fun m _ => shows_iff.2 rfl

/-- An enumeration of merged entries is in order. -/
theorem ordered_merge (given : Members Entry) : Ordered given ⟨given.merge⟩ := by
  have h := Members.kept_merge given
  exact ⟨h.nodup, h.mem_names, h.first, h.last, h.length_eq, forall₂_shows _⟩

/-! ## Streams of symbols -/

/-- A document that is a stream of named values, in which names may repeat. -/
def Streams (d : Document) (ms : Members Json) : Prop :=
  ∃ members, d = .obj members true ∧ Document.toMembers? members = some ms

/-- The entries that named values are. -/
def entriesOf (ms : Members Json) : Members Entry := ms.map fun m => (m.1, .ofJson m.2)

/-- Members that were read have values. -/
theorem exists_toMembers?_of_stepMembers {members : List (Document × Document)}
    {e e' : Enumeration}
    (h : Document.stepMembers (fun e symbol d => d.asJson.map fun j => e.insert symbol (.ofJson j)) e
      members = .ok e') : ∃ ms, Document.toMembers? members = some ms := by
  induction members generalizing e with
  | nil => exact ⟨[], rfl⟩
  | cons member rest ih =>
      obtain ⟨key, d⟩ := member
      cases key with
      | str symbol =>
          obtain ⟨next, hd, hrest⟩ := bind_eq_ok_iff.1 h
          obtain ⟨j, hj, -⟩ := map_eq_ok_iff.1 hd
          obtain ⟨ms, hms⟩ := ih hrest
          have hvalue := Document.asJson_eq_ok_iff.1 hj
          exact ⟨(symbol, j) :: ms, by simp only [Document.toMembers?, hvalue, hms]⟩
      | _ => cases h

/-- An enumeration is read off a stream of symbols, and is the merged entries. -/
theorem read_eq_ok_iff {d : Document} {e : Enumeration} :
    read d = .ok e ↔ ∃ ms, Streams d ms ∧ e = ⟨(entriesOf ms).merge⟩ := by
  constructor
  · intro h
    obtain ⟨members, rfl, hsteps⟩ := Document.foldMembers_eq_ok_iff.1 h
    obtain ⟨ms, hms⟩ := exists_toMembers?_of_stepMembers hsteps
    rw [stepMembers_eq_putAll hms, Except.ok.injEq] at hsteps
    exact ⟨ms, ⟨members, rfl, hms⟩, hsteps.symm⟩
  · rintro ⟨ms, ⟨members, rfl, hms⟩, rfl⟩
    exact Document.foldMembers_eq_ok_iff.2 ⟨members, rfl, stepMembers_eq_putAll hms empty⟩

/-- **An enumeration is a map in order of first insertion.**  Give symbols entries, one after the
other, starting from the empty enumeration or from one that was read off a stream of symbols; any
enumeration that was read is of this kind.  Each symbol that was given an entry then stands once, in
the order of the first entries, and has the last one, and there is one value for each symbol.
Reading the stream gives the same as reading the object in which repeated symbols are merged. -/
theorem ordered_insertAll (calls : Members Entry) :
    Ordered calls (empty.insertAll calls) ∧
      (∀ d ms, Streams d ms → ∃ e, read d = .ok e ∧ read (.ofJson (.obj ms.merge)) = .ok e ∧
        Ordered (entriesOf ms ++ calls) (e.insertAll calls)) ∧
      ∀ d e, read d = .ok e → ∃ ms, Streams d ms := by
  refine ⟨?_, fun d ms h => ?_, fun d e h => ?_⟩
  · rw [insertAll_eq]
    exact ordered_merge calls
  · have hread := read_eq_ok_iff.2 ⟨ms, h, rfl⟩
    refine ⟨_, hread, ?_, ?_⟩
    · obtain ⟨members, rfl, hms⟩ := h
      refine readsValue_read ?_ hread
      simp only [Document.toJson?, hms]
    · rw [insertAll_eq, Members.putAll_merge]
      exact ordered_merge _
  · obtain ⟨ms, hms, -⟩ := read_eq_ok_iff.1 h
    exact ⟨ms, hms⟩

/-- A stream in which a symbol repeats. -/
def repeated : Members Json :=
  [("low", .null), ("high", .obj [("val", .str "H")]), ("low", .obj [("val", .str "L")])]

/-- The symbol that is given twice stands first and has its last value; a later entry for another
symbol takes its place, and a new symbol comes last. -/
theorem ordered_insertAll_repeated :
    Streams (.obj (Document.ofMembers repeated) true) repeated ∧
      ∃ e, read (.obj (Document.ofMembers repeated) true) = .ok e ∧
        Ordered (entriesOf repeated ++ [("mid", .plain), ("high", .plain)])
          (e.insertAll [("mid", .plain), ("high", .plain)]) ∧
        (e.insertAll [("mid", .plain), ("high", .plain)]).values =
          [.text "L", .text "high", .text "mid"] := by
  have hstream : Streams (.obj (Document.ofMembers repeated) true) repeated := ⟨_, rfl, rfl⟩
  obtain ⟨e, hread, -, hordered⟩ :=
    (ordered_insertAll [("mid", .plain), ("high", .plain)]).2.1 _ _ hstream
  refine ⟨hstream, e, hread, hordered, ?_⟩
  cases hread
  rfl

end Enumeration

end Picklist
