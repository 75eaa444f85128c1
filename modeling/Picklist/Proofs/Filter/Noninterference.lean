/-
# What a constant does not depend on

The constant of a column depends on the references to the column, the equals signs and the values.
It depends neither on the other operators and the scalars that stand bare, nor on what other
references lead to, nor on the keys of nodes: all of these may change at once, anywhere in a filter.

* `Agree` : tokens that differ in nothing but these;
* `Agree.eq_iff` : of tokens that count for the column, both are the same or none is one;
* `bindingAt?_of_agree` : so sequences that agree bind the same in front;
* `constant?_of_agree` : and filters that agree have the same constant.
-/
import Mathlib.Data.List.Forall2
import Picklist.Proofs.Filter.Seam

namespace Picklist

namespace Filter

/-! ## Tokens that agree -/

/-- A token that means nothing to the search: an operator other than the equals sign, or a scalar
that stands bare. -/
inductive Idle : Token → Prop where
  | op {o : Operator} (h : o ≠ .eq) : Idle (.op o)
  | bare (value : Scalar) : Idle (.bare value)

/-- Tokens of the same shape that are the same for a column.  At any depth, idle tokens may differ,
references that lead elsewhere may lead to different places, and entries may have different keys. -/
inductive Agree (column : String) : Token → Token → Prop where
  | same (t : Token) : Agree column t t
  | idle {t u : Token} (ht : Idle t) (hu : Idle u) : Agree column t u
  | ref {p q : List Segment} (hp : Token.head? p ≠ some column)
      (hq : Token.head? q ≠ some column) : Agree column (.ref p) (.ref q)
  | group {ts us : List Token} (h : List.Forall₂ (Agree column) ts us) :
      Agree column (.group ts) (.group us)
  | node {es fs : List (String × Token)}
      (h : List.Forall₂ (fun e f => Agree column e.2 f.2) es fs) :
      Agree column (.node es) (.node fs)

section

variable {column : String} {t u : Token} {ts us : List Token}

/-- Of two tokens that agree, both are the same token that counts, or none is. -/
theorem Agree.eq_iff (h : Agree column t u) {a : Token} (ha : Counts column a) :
    t = a ↔ u = a := by
  have hidle : ∀ {b}, Idle b → b ≠ a := by
    rintro b hb rfl
    cases hb with
    | op ho => exact not_counts_op ho ha
    | bare => cases ha
  have helsewhere : ∀ {p}, Token.head? p ≠ some column → .ref p ≠ a := by
    rintro p hp rfl
    cases ha
    exact hp rfl
  cases h with
  | same => exact Iff.rfl
  | idle ht hu => exact iff_of_false (hidle ht) (hidle hu)
  | ref hp hq => exact iff_of_false (helsewhere hp) (helsewhere hq)
  | group => cases ha <;> simp
  | node => cases ha <;> simp

/-- Sequences that agree have the tokens that count in the same places. -/
theorem getElem?_iff_of_agree (h : List.Forall₂ (Agree column) ts us) {a : Token}
    (ha : Counts column a) (i : Nat) : ts[i]? = some a ↔ us[i]? = some a := by
  induction h generalizing i with
  | nil => simp
  | cons hhead _ ih =>
      cases i with
      | zero =>
          rw [List.getElem?_cons_zero, List.getElem?_cons_zero, Option.some.injEq,
            Option.some.injEq]
          exact hhead.eq_iff ha
      | succ i => exact ih i

/-- Sequences that agree bind the same in front. -/
theorem bindingAt?_of_agree (h : List.Forall₂ (Agree column) ts us) :
    bindingAt? column ts = bindingAt? column us := by
  have href : ∀ segments, ts[0]? = some (.ref (.name column :: segments)) ↔
      us[0]? = some (.ref (.name column :: segments)) :=
    fun segments => getElem?_iff_of_agree h (.ref segments) 0
  have hop : ts[1]? = some (.op .eq) ↔ us[1]? = some (.op .eq) :=
    getElem?_iff_of_agree h .op 1
  have hval : ∀ v, ts[2]? = some (.val v) ↔ us[2]? = some (.val v) :=
    fun v => getElem?_iff_of_agree h (.val v) 2
  apply Option.ext
  intro v
  rw [bindingAt?_eq_some_iff, bindingAt?_eq_some_iff]
  constructor
  · rintro ⟨⟨segments, h₀⟩, h₁, h₂⟩
    exact ⟨⟨segments, (href segments).1 h₀⟩, hop.1 h₁, (hval v).1 h₂⟩
  · rintro ⟨⟨segments, h₀⟩, h₁, h₂⟩
    exact ⟨⟨segments, (href segments).2 h₀⟩, hop.2 h₁, (hval v).2 h₂⟩

end

/-! ## The search of filters that agree -/

mutual

/-- The search finds the same in sequences that agree. -/
theorem find?_of_agree {column : String} :
    ∀ {ts us : List Token}, List.Forall₂ (Agree column) ts us → find? column ts = find? column us
  | [], _, h => by
      cases h
      rfl
  | t :: rest, _, h => by
      have hfront := bindingAt?_of_agree h
      cases h with
      | cons hhead htail =>
          rw [find?_cons, find?_cons, hfront, findWithin?_of_agree hhead, find?_of_agree htail]

/-- The search finds the same inside tokens that agree. -/
theorem findWithin?_of_agree {column : String} :
    ∀ {t u : Token}, Agree column t u → findWithin? column t = findWithin? column u
  | _, _, h => by
      cases h with
      | same => rfl
      | idle ht hu => cases ht <;> cases hu <;> rfl
      | ref => rfl
      | group h => exact find?_of_agree h
      | node h => exact findAmong?_of_agree h

/-- The search finds the same in entries that agree, whatever their keys. -/
theorem findAmong?_of_agree {column : String} :
    ∀ {es fs : List (String × Token)}, List.Forall₂ (fun e f => Agree column e.2 f.2) es fs →
      findAmong? column es = findAmong? column fs
  | [], _, h => by
      cases h
      rfl
  | (key, t) :: rest, _, h => by
      cases h with
      | cons hhead htail =>
          rw [findAmong?_cons, findAmong?_cons, findGroup?_of_agree hhead,
            findAmong?_of_agree htail]

/-- The search finds the same in values of entries that agree. -/
theorem findGroup?_of_agree {column : String} :
    ∀ {t u : Token}, Agree column t u → findGroup? column t = findGroup? column u
  | _, _, h => by
      cases h with
      | same => rfl
      | idle ht hu => cases ht <;> cases hu <;> rfl
      | ref => rfl
      | group h => exact find?_of_agree h
      | node => rfl

end

/-- **What a constant does not depend on.**  Two filters have the same constant for a column if they
agree: if they differ, at any depth, only in operators other than the equals sign and bare scalars
that stand for each other, in references that lead elsewhere than to the column, and in the keys of
nodes. -/
theorem constant?_of_agree {column : String} {f g : Filter}
    (h : List.Forall₂ (Agree column) f.tokens g.tokens) :
    f.constant? column = g.constant? column :=
  find?_of_agree h

/-- A condition on a status, in the arguments of a function and behind it. -/
def coalesced : Filter :=
  ⟨[.node [("func", .word "coalesce"),
      ("args", .group [.field "name", .op .and, .field "status", .op .eq, .val (.text "A")])],
    .op .or, .bare .null, .field "status", .op .eq, .val (.text "B")]⟩

/-- The same condition with other connectives, another reference in front and other keys. -/
def negated : Filter :=
  ⟨[.node [("xpr", .word "not"),
      ("list", .group [.ref [.other .null, .name "status"], .bare (.bool true), .field "status",
        .op .eq, .val (.text "A")])],
    .word "<>", .op .and, .field "status", .op .eq, .val (.text "B")]⟩

/-- Both conditions agree for the status, and give it the constant that stands inside the node. -/
theorem constant?_of_agree_negated :
    List.Forall₂ (Agree "status") coalesced.tokens negated.tokens ∧
      negated.constant? "status" = some (.text "A") := by
  have harguments : List.Forall₂ (Agree "status")
      [.field "name", .op .and, .field "status", .op .eq, .val (.text "A")]
      [.ref [.other .null, .name "status"], .bare (.bool true), .field "status", .op .eq,
        .val (.text "A")] := by
    refine .cons (.ref ?_ ?_) (.cons (.idle (.op ?_) (.bare _)) ?_)
    · decide
    · decide
    · decide
    · exact .cons (.same _) (.cons (.same _) (.cons (.same _) .nil))
  have hnode : Agree "status"
      (.node [("func", .word "coalesce"), ("args", .group _)])
      (.node [("xpr", .word "not"), ("list", .group _)]) :=
    .node (.cons (.idle (.op (by decide)) (.op (by decide))) (.cons (.group harguments) .nil))
  have hagree : List.Forall₂ (Agree "status") coalesced.tokens negated.tokens := by
    refine .cons hnode (.cons (.idle (.op ?_) (.op ?_)) (.cons (.idle (.bare _) (.op ?_)) ?_))
    · decide
    · decide
    · decide
    · exact .cons (.same _) (.cons (.same _) (.cons (.same _) .nil))
  exact ⟨hagree, (constant?_of_agree hagree).symm⟩

end Filter

end Picklist
