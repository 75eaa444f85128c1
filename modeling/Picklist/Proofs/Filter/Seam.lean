/-
# Two sequences in a row

A sequence in two parts is searched part by part, unless a binding crosses the seam between the
parts: one that begins in the first part and is not over before the second.

* `Unsplit` : no binding crosses a seam;
* `find?_append` : then the first part is searched, and after it the second;
* `Counts` : a token that can be part of a binding; any other token keeps bindings apart;
* `find?_around` : a sequence is searched before such a token, inside the token, then behind it.
-/
import Picklist.Proofs.Filter.Address

namespace Picklist

namespace Filter

variable {column : String} {value : Scalar} {as bs : List Token} {t : Token} {i : Nat}

/-! ## Seams -/

/-- A binding that is over before a seam is one of the first part. -/
theorem bindsAt_append_left (hi : i + 2 < as.length) :
    BindsAt column (as ++ bs) i value ↔ BindsAt column as i value := by
  have hbefore : ∀ j, j ≤ i + 2 → (as ++ bs)[j]? = as[j]? := by
    intro j hj
    exact List.getElem?_append_left (by omega)
  constructor
  · rintro ⟨href, hop, hval⟩
    rw [hbefore _ (by omega)] at href hop hval
    exact ⟨href, hop, hval⟩
  · rintro ⟨href, hop, hval⟩
    rw [← hbefore _ (by omega)] at href hop hval
    exact ⟨href, hop, hval⟩

/-- A binding that begins behind a seam is one of the second part. -/
theorem bindsAt_append_right (as : List Token) :
    BindsAt column (as ++ bs) (as.length + i) value ↔ BindsAt column bs i value := by
  have hbehind : ∀ j, (as ++ bs)[as.length + j]? = bs[j]? := by
    intro j
    rw [List.getElem?_append_right (by omega), Nat.add_sub_cancel_left]
  constructor
  · rintro ⟨href, hop, hval⟩
    rw [hbehind] at href
    rw [Nat.add_assoc, hbehind] at hop hval
    exact ⟨href, hop, hval⟩
  · rintro ⟨href, hop, hval⟩
    rw [← hbehind] at href hop hval
    exact ⟨href, hop, hval⟩

/-- No binding of a column crosses the seam between two parts: each is over before the seam, or
begins behind it. -/
def Unsplit (column : String) (as bs : List Token) : Prop :=
  ∀ i value, BindsAt column (as ++ bs) i value → i + 2 < as.length ∨ as.length ≤ i

/-- Two parts are searched one after the other if no binding crosses the seam between them. -/
theorem find?_append (h : Unsplit column as bs) :
    find? column (as ++ bs) = (find? column as).or (find? column bs) := by
  induction as with
  | nil => rw [List.nil_append, find?, Option.none_or]
  | cons t rest ih =>
      have hrest : Unsplit column rest bs := by
        intro i value hb
        have hseam := h (i + 1) value (bindsAt_cons_succ.2 hb)
        rw [List.length_cons] at hseam
        omega
      have hfront : bindingAt? column (t :: (rest ++ bs)) = bindingAt? column (t :: rest) := by
        apply Option.ext
        intro v
        rw [bindingAt?_eq_some_iff, bindingAt?_eq_some_iff, ← List.cons_append]
        constructor
        · intro hb
          rcases h 0 v hb with hover | hlate
          · exact (bindsAt_append_left hover).1 hb
          · cases hlate
        · intro hb
          have hover : 0 + 2 < (t :: rest).length := (List.getElem?_eq_some_iff.1 hb.val).1
          exact (bindsAt_append_left hover).2 hb
      rw [List.cons_append, find?_cons, find?_cons, hfront, ih hrest, Option.or_assoc,
        Option.or_assoc]

/-! ## Tokens that count -/

/-- A token that can be part of a binding of a column: a reference to the column, the equals sign, or
a value. -/
inductive Counts (column : String) : Token → Prop where
  | ref (segments : List Segment) : Counts column (.ref (.name column :: segments))
  | op : Counts column (.op .eq)
  | val (value : Scalar) : Counts column (.val value)

theorem not_counts_op {o : Operator} (ho : o ≠ .eq) : ¬Counts column (.op o) := by
  rintro ⟨⟩
  exact ho rfl

theorem not_counts_group (tokens : List Token) : ¬Counts column (.group tokens) := by
  rintro ⟨⟩

theorem not_counts_node (entries : List (String × Token)) : ¬Counts column (.node entries) := by
  rintro ⟨⟩

/-- No binding crosses the seam in front of a token that does not count. -/
theorem unsplit_of_not_counts (ht : ¬Counts column t) : Unsplit column as (t :: bs) := by
  intro i value hb
  have hseam : (as ++ t :: bs)[as.length]? = some t := by simp
  -- the token at the seam is neither the second token of a binding nor the third
  have hop : i + 1 ≠ as.length := by
    intro h
    have heq := hb.op
    rw [h, hseam] at heq
    cases heq
    exact ht .op
  have hval : i + 2 ≠ as.length := by
    intro h
    have heq := hb.val
    rw [h, hseam] at heq
    cases heq
    exact ht (.val value)
  omega

/-- Nothing is bound by three tokens of which the first one does not count. -/
theorem bindingAt?_of_not_counts (ht : ¬Counts column t) :
    bindingAt? column (t :: bs) = none := by
  apply Option.eq_none_iff_forall_ne_some.2
  intro v hv
  obtain ⟨segments, href⟩ := (bindingAt?_eq_some_iff.1 hv).ref
  cases href
  exact ht (.ref segments)

/-- A sequence is searched before a token that does not count, inside the token, then behind it. -/
theorem find?_around (ht : ¬Counts column t) (as bs : List Token) :
    find? column (as ++ t :: bs) =
      (find? column as).or ((findWithin? column t).or (find? column bs)) := by
  rw [find?_append (unsplit_of_not_counts ht), find?_cons, bindingAt?_of_not_counts ht,
    Option.none_or]

end Filter

end Picklist
