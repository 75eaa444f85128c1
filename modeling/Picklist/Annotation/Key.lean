/-
# Recognised annotation keys

The annotations that enrichment reads or writes, in the order in which they are saved.
Every other key is carried along unread.
-/

namespace Picklist

open Std

/-- A recognised annotation key. -/
inductive AnnotationKey where
  | autoexpose
  | autoexposed
  | coreComputed
  | enumValueHelp
  | enumValueHelpFixedValues
  | enumValueHelpProcessed
  | persistenceSkip
  | readonly
  | title
  | valueList
  | valueListWithFixedValues
  deriving DecidableEq, Repr

namespace AnnotationKey

/-- All keys in order. -/
def all : List AnnotationKey :=
  [.autoexpose, .autoexposed, .coreComputed, .enumValueHelp, .enumValueHelpFixedValues,
    .enumValueHelpProcessed, .persistenceSkip, .readonly, .title, .valueList,
    .valueListWithFixedValues]

/-- The key as it is written. -/
def text : AnnotationKey → String
  | .autoexpose => "@cds.autoexpose"
  | .autoexposed => "@cds.autoexposed"
  | .coreComputed => "@Core.Computed"
  | .enumValueHelp => "@enumValueHelp"
  | .enumValueHelpFixedValues => "@enumValueHelpFixedValues"
  | .enumValueHelpProcessed => "@enumValueHelp.processed"
  | .persistenceSkip => "@cds.persistence.skip"
  | .readonly => "@readonly"
  | .title => "@title"
  | .valueList => "@Common.ValueList"
  | .valueListWithFixedValues => "@Common.ValueListWithFixedValues"

/-- The recognised key that a text is. -/
def ofText? (s : String) : Option AnnotationKey := all.find? fun k => k.text = s

/-! ## Order -/

/-- The place of a key in the order. -/
def rank (k : AnnotationKey) : Nat := all.idxOf k

theorem rank_injective {a b : AnnotationKey} (h : a.rank = b.rank) : a = b := by
  revert h
  cases a <;> cases b <;> decide

/-- Keys are ordered by rank. -/
instance : Ord AnnotationKey := ⟨compareOn rank⟩

instance : TransOrd AnnotationKey := inferInstanceAs (TransCmp (compareOn rank))

instance : LawfulEqOrd AnnotationKey where
  eq_of_compare {a b} h :=
    rank_injective (LawfulEqCmp.eq_of_compare (show compare a.rank b.rank = .eq from h))
  compare_self {a} := show compare a.rank a.rank = .eq from ReflCmp.compare_self

/-! ## Keys and their texts -/

theorem mem_all (k : AnnotationKey) : k ∈ all := by
  cases k <;> simp [all]

/-- A recognised text is the text of its key. -/
theorem text_of_ofText? {s : String} {k : AnnotationKey} (h : ofText? s = some k) :
    k.text = s := by
  simpa using List.find?_some h

theorem text_injective {a b : AnnotationKey} (h : a.text = b.text) : a = b := by
  cases a <;> cases b <;> simp_all [text]

/-- The text of a key is recognised as that key. -/
@[simp] theorem ofText?_text (k : AnnotationKey) : ofText? k.text = some k := by
  cases h : ofText? k.text with
  | none =>
    have hk := List.find?_eq_none.1 h k (mem_all k)
    simp at hk
  | some k' => rw [text_injective (text_of_ofText? h)]

end AnnotationKey

end Picklist
