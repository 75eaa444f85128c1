/-
# Parentheses

A run of tokens of a searched sequence may be put into a group of its own, or into a group in the
only entry of a node.  That shifts every token behind the run, but it changes no constant, as long
as the run splits no binding: each has all of its tokens in the run or none.

* `replaceAt` : a filter with another sequence in the place that a path leads to;
* `find?_replaceAt` : only what the search finds in that place matters;
* `find?_wrapped` : a sequence is searched in the same way with a run of it wrapped up;
* `constant?_parenthesised` : so parentheses at any depth leave the constant of a column.
-/
import Mathlib.Tactic.IntervalCases
import Picklist.Proofs.Filter.Seam

namespace Picklist

namespace Filter

/-! ## Another sequence in a place -/

/-- A sequence in which the searched sequence that a path leads to is replaced by a new one. -/
def replaceAt (new : List Token) : List Nat → List Token → List Token
  | [], _ => new
  | i :: path, tokens =>
    match tokens[i]?, path with
    | some (.group inner), path => tokens.set i (.group (replaceAt new path inner))
    | some (.node entries), j :: path =>
      match entries[j]? with
      | some (key, .group inner) =>
        tokens.set i (.node (entries.set j (key, .group (replaceAt new path inner))))
      | _ => tokens
    | _, _ => tokens

section Place

variable {column key : String} {new old top inner tokens : List Token} {path : List Nat}
  {t u : Token} {entries : List (String × Token)} {i j : Nat}

/-- Replacing inside a group. -/
theorem replaceAt_group (hi : top[i]? = some (.group inner)) :
    replaceAt new (i :: path) top = top.set i (.group (replaceAt new path inner)) := by
  rw [replaceAt.eq_def]
  simp only [hi]

/-- Replacing inside a group in an entry of a node. -/
theorem replaceAt_entry (hi : top[i]? = some (.node entries))
    (hj : entries[j]? = some (key, .group inner)) :
    replaceAt new (i :: j :: path) top =
      top.set i (.node (entries.set j (key, .group (replaceAt new path inner)))) := by
  rw [replaceAt.eq_def]
  simp only [hi, hj]

/-- Another token of an entry changes nothing for the search of the entries if the search finds the
same inside it. -/
theorem findAmong?_set (hj : entries[j]? = some (key, t))
    (h : findGroup? column u = findGroup? column t) :
    findAmong? column (entries.set j (key, u)) = findAmong? column entries := by
  induction entries generalizing j with
  | nil => simp at hj
  | cons entry rest ih =>
      cases j with
      | zero =>
          cases hj
          rw [List.set_cons_zero, findAmong?_cons, findAmong?_cons, h]
      | succ j =>
          have hrest := ih hj
          rw [List.set_cons_succ, findAmong?_cons, findAmong?_cons, hrest]

/-- A token that does not count may stand in the place of another one if the search finds the same
inside both. -/
theorem find?_set (hi : top[i]? = some t) (ht : ¬Counts column t) (hu : ¬Counts column u)
    (h : findWithin? column u = findWithin? column t) :
    find? column (top.set i u) = find? column top := by
  obtain ⟨hlt, hget⟩ := List.getElem?_eq_some_iff.1 hi
  have htop : top.take i ++ t :: top.drop (i + 1) = top := by
    rw [← hget, ← List.drop_eq_getElem_cons hlt, List.take_append_drop]
  have hset : top.set i u = top.take i ++ u :: top.drop (i + 1) := by
    rw [List.set_eq_take_append_cons_drop, if_pos hlt]
  rw [hset, find?_around hu, h, ← find?_around ht, htop]

/-- After replacing, the path leads to the new sequence. -/
theorem searched_replaceAt (new : List Token) (hs : Searched top path old) :
    Searched (replaceAt new path top) path new := by
  induction hs using Searched.induction_first with
  | here => exact .top
  | group hi _ ih =>
      have hlt := (List.getElem?_eq_some_iff.1 hi).1
      rw [replaceAt_group hi]
      exact ih.inGroup (List.getElem?_set_self hlt)
  | entry hi hj _ ih =>
      have hlt := (List.getElem?_eq_some_iff.1 hi).1
      have hlt' := (List.getElem?_eq_some_iff.1 hj).1
      rw [replaceAt_entry hi hj]
      exact ih.inEntry (List.getElem?_set_self hlt) (List.getElem?_set_self hlt')

/-- A new sequence changes nothing for the search of the whole if the search finds the same in it
as in the old one. -/
theorem find?_replaceAt (hs : Searched top path old) (h : find? column new = find? column old) :
    find? column (replaceAt new path top) = find? column top := by
  induction hs using Searched.induction_first with
  | here => exact h
  | group hi _ ih =>
      rw [replaceAt_group hi]
      exact find?_set hi (not_counts_group _) (not_counts_group _) ih
  | entry hi hj _ ih =>
      rw [replaceAt_entry hi hj]
      exact find?_set hi (not_counts_node _) (not_counts_node _) (findAmong?_set hj ih)

end Place

/-! ## A run in parentheses -/

/-- What a run of tokens is wrapped up in: a group, or a group in the only entry of a node. -/
inductive Wrapping where
  | group
  | entry (key : String)

/-- The token that holds a run. -/
def Wrapping.token : Wrapping → List Token → Token
  | .group, run => .group run
  | .entry key, run => .node [(key, .group run)]

/-- A position behind the tokens before a run, and before those behind it. -/
def InRun (before run : List Token) (i : Nat) : Prop :=
  before.length ≤ i ∧ i < before.length + run.length

/-- A run splits no binding of a column: the three tokens of each are in the run, or none is. -/
def Whole (column : String) (before run after : List Token) : Prop :=
  ∀ i value, BindsAt column (before ++ run ++ after) i value →
    (∀ k < 3, InRun before run (i + k)) ∨ ∀ k < 3, ¬InRun before run (i + k)

section Run

variable {column : String} {before run after : List Token}

/-- A token that holds a run does not count. -/
theorem Wrapping.not_counts_token (w : Wrapping) (run : List Token) :
    ¬Counts column (w.token run) := by
  cases w with
  | group => exact not_counts_group run
  | entry key => exact not_counts_node [(key, .group run)]

/-- The search inside a token that holds a run is the search of the run. -/
theorem Wrapping.findWithin?_token (w : Wrapping) (run : List Token) :
    findWithin? column (w.token run) = find? column run := by
  cases w with
  | group => rfl
  | entry key =>
      rw [token, findWithin?, findAmong?_cons]
      exact Option.or_none

/-- No binding crosses the seam in front of a run that splits none. -/
theorem Whole.unsplit_before (h : Whole column before run after) (hrun : run ≠ []) :
    Unsplit column before (run ++ after) := by
  intro i value hb
  have hlength : 0 < run.length := List.length_pos_iff.2 hrun
  rw [← List.append_assoc] at hb
  rcases h i value hb with hin | hout
  · exact .inr (hin 0 (by omega)).1
  · -- a binding that crosses the seam has its second or its third token in the run
    have hsecond := hout 1 (by omega)
    have hthird := hout 2 (by omega)
    unfold InRun at hsecond hthird
    omega

/-- No binding crosses the seam behind a run that splits none. -/
theorem Whole.unsplit_after (h : Whole column before run after) : Unsplit column run after := by
  intro i value hb
  rw [← bindsAt_append_right before, ← List.append_assoc] at hb
  rcases h _ value hb with hin | hout
  · have hlast := (hin 2 (by omega)).2
    omega
  · have hfirst := hout 0 (by omega)
    unfold InRun at hfirst
    omega

/-- A sequence is searched in the same way with a run of it wrapped up, if the run splits no
binding. -/
theorem find?_wrapped (hrun : run ≠ []) (h : Whole column before run after) (w : Wrapping) :
    find? column (before ++ w.token run :: after) = find? column (before ++ run ++ after) := by
  have hflat : find? column (before ++ run ++ after) =
      (find? column before).or ((find? column run).or (find? column after)) := by
    rw [List.append_assoc, find?_append (h.unsplit_before hrun), find?_append h.unsplit_after]
  rw [find?_around (w.not_counts_token run), w.findWithin?_token, hflat]

/-- **Parentheses change no constant.**  In any searched sequence of a filter, a run of tokens that
splits no binding of a column may be wrapped up: then the token that holds the run stands in its
place, and the constant of the column is the same. -/
theorem constant?_parenthesised {f : Filter} {path : List Nat}
    (hs : Searched f.tokens path (before ++ run ++ after)) (hrun : run ≠ [])
    (h : Whole column before run after) (w : Wrapping) :
    let wrapped := before ++ w.token run :: after
    let g : Filter := ⟨replaceAt wrapped path f.tokens⟩
    Searched g.tokens path wrapped ∧ g.constant? column = f.constant? column := by
  intro wrapped g
  exact ⟨searched_replaceAt wrapped hs, find?_replaceAt hs (find?_wrapped hrun h w)⟩

end Run

/-- A condition on a name and a status, in the arguments of a function. -/
def nested : Filter :=
  ⟨[.word "not",
    .node [("func", .word "coalesce"),
      ("args", .group [.field "name", .op .eq, .val (.text "X"), .op .and, .field "status", .op .eq,
        .val (.text "A"), .op .or, .field "status", .op .eq, .val (.text "B")])]]⟩

/-- A run may split a binding of the name; with the run wrapped up in a node, the status is still
bound to the same constant. -/
theorem constant?_parenthesised_nested :
    let before : List Token := [.field "name"]
    let run : List Token :=
      [.op .eq, .val (.text "X"), .op .and, .field "status", .op .eq, .val (.text "A")]
    let after : List Token := [.op .or, .field "status", .op .eq, .val (.text "B")]
    Searched nested.tokens [1, 1] (before ++ run ++ after) ∧ Whole "status" before run after ∧
      Filter.constant? ⟨[.word "not",
        .node [("func", .word "coalesce"),
          ("args", .group (before ++ .node [("xpr", .group run)] :: after))]]⟩ "status" =
        some (.text "A") := by
  intro before run after
  have hs : Searched nested.tokens [1, 1] (before ++ run ++ after) := .entry .top rfl rfl
  have hwhole : Whole "status" before run after := by
    intro i value hb
    obtain ⟨segments, href⟩ := hb.ref
    have hi : i < 11 := (List.getElem?_eq_some_iff.1 href).1
    -- the status stands in two places: in the run and behind it
    have hplace : i = 4 ∨ i = 8 := by
      interval_cases i <;> simp [before, run, after, Token.field] at href <;> omega
    rcases hplace with rfl | rfl
    · left
      intro k hk
      simp only [InRun, before, run, List.length_cons, List.length_nil]
      omega
    · right
      intro k hk
      simp only [InRun, before, run, List.length_cons, List.length_nil]
      omega
  refine ⟨hs, hwhole, ?_⟩
  exact (constant?_parenthesised hs (by simp [run]) hwhole (.entry "xpr")).2

end Filter

end Picklist
