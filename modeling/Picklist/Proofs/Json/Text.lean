/-
# Written values

Different values have different texts.  The texts of values form a prefix code: where two texts
agree up to what follows a value, the values are equal and the same text follows.

* `Token.pieces?_escape` : a quoted string is read back;
* `Json.Kind` : what the first character of a text tells of the value;
* `Json.layout_append` : the texts of values are a prefix code;
* `Json.pretty_injective` : different values have different texts.
-/
import Picklist.Json.Token
import Picklist.Json.Writer
import Picklist.Proofs.Number.Text

namespace Picklist

namespace Json

open Numeral (Stops)

/-! ## Quoted text -/

/-- The piece that stands for a written character: those below the blank that have no letter of
their own are given by number. -/
def piece (c : Char) : Token.Piece :=
  if c = '\n' ∨ c = '\r' ∨ c = '\t' ∨ c.toNat = 8 ∨ c.toNat = 12 ∨ 32 ≤ c.toNat then .char c
  else .unit c.toNat

/-- One digit behind three zeros. -/
theorem hex_low : ∀ n < 16, Hex.digits n = [n.digitChar] ∧
    Hex.number? ['0', '0', '0', n.digitChar] = some n := by
  decide

/-- Two digits behind two zeros, for the numbers below the blank. -/
theorem hex_high : ∀ n < 16, Hex.digits (16 + n) = ['1', n.digitChar] ∧
    Hex.number? ['0', '0', '1', n.digitChar] = some (16 + n) := by
  decide

/-- **A written character is read as its piece.** -/
theorem pieces?_escape (done : List Token.Piece) (c : Char) (r : List Char) :
    Token.pieces? done (escape c ++ r) = Token.pieces? (piece c :: done) r := by
  unfold escape
  split_ifs with hquote hback hn hr ht h8 h12 hlow hhigh
  · subst hquote; simp [Token.pieces?, Token.shortEscape?, piece]
  · subst hback; simp [Token.pieces?, Token.shortEscape?, piece]
  · subst hn; simp [Token.pieces?, Token.shortEscape?, piece]
  · subst hr; simp [Token.pieces?, Token.shortEscape?, piece]
  · subst ht; simp [Token.pieces?, Token.shortEscape?, piece]
  · obtain rfl : c = Char.ofNat 8 := by rw [← h8, Char.ofNat_toNat]
    simp [Token.pieces?, Token.shortEscape?, piece]
  · obtain rfl : c = Char.ofNat 12 := by rw [← h12, Char.ofNat_toNat]
    simp [Token.pieces?, Token.shortEscape?, piece]
  · obtain ⟨hdigits, hnumber⟩ := hex_low c.toNat hlow
    have hpiece : piece c = .unit c.toNat :=
      if_neg (by simp only [hn, hr, ht, h8, h12, false_or]; omega)
    simp [Token.pieces?, hdigits, hnumber, hpiece]
  · obtain ⟨hdigits, hnumber⟩ := hex_high (c.toNat - 16) (by omega)
    rw [Nat.add_sub_cancel' (by omega)] at hdigits hnumber
    have hpiece : piece c = .unit c.toNat :=
      if_neg (by simp only [hn, hr, ht, h8, h12, false_or]; omega)
    simp [Token.pieces?, hdigits, hnumber, hpiece]
  · have hpiece : piece c = .char c := if_pos (by omega)
    rw [hpiece, List.singleton_append, Token.pieces?.eq_def]
    split <;> simp_all

/-- The pieces of a written string are those of its characters. -/
theorem pieces?_quoted (done : List Token.Piece) (cs r : List Char) :
    Token.pieces? done (cs.flatMap escape ++ '"' :: r) =
      some (done.reverse ++ cs.map piece, r) := by
  induction cs generalizing done with
  | nil => simp [Token.pieces?]
  | cons c cs ih =>
      rw [List.flatMap_cons, List.append_assoc, pieces?_escape, ih]
      simp

/-- A unit below the surrogates is a character. -/
theorem join?_unit {n : ℕ} (hn : n < 0xD800) (ps : List Token.Piece) :
    Token.join? (.unit n :: ps) = (Token.join? ps).map (Char.ofNat n :: ·) := by
  have hlead : Token.isLead n = false := by simp [Token.isLead]; omega
  have htrail : Token.isTrail n = false := by simp [Token.isTrail]; omega
  rw [Token.join?.eq_def]
  simp only [hlead, htrail, Bool.false_eq_true, if_false]

/-- The pieces of a written string make up the string. -/
theorem join?_pieces (cs : List Char) : Token.join? (cs.map piece) = some cs := by
  induction cs with
  | nil => rfl
  | cons c cs ih =>
      rw [List.map_cons, piece]
      split_ifs with hown
      · rw [Token.join?, ih, Option.map_some]
      · rw [join?_unit (by omega), ih, Option.map_some, Char.ofNat_toNat]

/-- Quoted strings are a prefix code. -/
theorem quote_append {s t : String} {r r' : List Char}
    (h : (quote s).toList ++ r = (quote t).toList ++ r') : s = t ∧ r = r' := by
  simp only [quote, String.toList_ofList, List.cons_append, List.append_assoc,
    List.nil_append, List.cons.injEq, true_and] at h
  have hboth := (pieces?_quoted [] s.toList r).symm.trans
    ((congrArg (Token.pieces? []) h).trans (pieces?_quoted [] t.toList r'))
  simp only [List.reverse_nil, List.nil_append, Option.some.injEq, Prod.mk.injEq] at hboth
  have hjoined := (join?_pieces s.toList).symm.trans
    ((congrArg Token.join? hboth.1).trans (join?_pieces t.toList))
  exact ⟨String.toList_injective (Option.some.inj hjoined), hboth.2⟩

/-! ## Proper values -/

mutual

/-- Every number in the value is proper. -/
def Proper : Json → Prop
  | .num n => n.Proper
  | .arr items => ProperItems items
  | .obj members => ProperMembers members
  | _ => True

/-- Every number in any of the items is proper. -/
def ProperItems : List Json → Prop
  | [] => True
  | x :: xs => x.Proper ∧ ProperItems xs

/-- Every number in any of the member values is proper. -/
def ProperMembers : List (String × Json) → Prop
  | [] => True
  | (_, value) :: rest => value.Proper ∧ ProperMembers rest

end

mutual

/-- Whether every number is proper can be decided. -/
def decidableProper : (j : Json) → Decidable j.Proper
  | .num n => inferInstanceAs (Decidable n.Proper)
  | .arr items => decidableProperItems items
  | .obj members => decidableProperMembers members
  | .null | .bool _ | .str _ => isTrue trivial

/-- The same for items. -/
def decidableProperItems : (items : List Json) → Decidable (ProperItems items)
  | [] => isTrue trivial
  | x :: xs =>
    have := decidableProper x
    have := decidableProperItems xs
    inferInstanceAs (Decidable (x.Proper ∧ ProperItems xs))

/-- The same for members. -/
def decidableProperMembers : (members : List (String × Json)) →
    Decidable (ProperMembers members)
  | [] => isTrue trivial
  | (_, value) :: rest =>
    have := decidableProper value
    have := decidableProperMembers rest
    inferInstanceAs (Decidable (value.Proper ∧ ProperMembers rest))

end

instance : DecidablePred Proper := decidableProper

/-! ## The first character -/

/-- The kinds of values. -/
inductive Kind where
  | null
  | bool
  | num
  | str
  | arr
  | obj

/-- The kind of a value. -/
def kind : Json → Kind
  | .null => .null
  | .bool _ => .bool
  | .num _ => .num
  | .str _ => .str
  | .arr _ => .arr
  | .obj _ => .obj

/-- The kind of the value whose text begins with a character. -/
def Kind.ofChar (c : Char) : Kind :=
  if c = 'n' then .null
  else if c = 't' ∨ c = 'f' then .bool
  else if c = '"' then .str
  else if c = '[' then .arr
  else if c = '{' then .obj
  else .num

/-- A numeral begins with a digit or the minus sign. -/
theorem ofChar_numeral {c : Char} {cs r : List Char} {n : Numeral}
    (h : Numeral.read? (c :: cs) = some (n, r)) : Kind.ofChar c = .num := by
  have hfirst : c = '-' ∨ c.isDigit = true := by
    by_contra hnot
    obtain ⟨hminus, hdigit⟩ := not_or.1 hnot
    simp [Numeral.read?, Numeral.sign, Numeral.whole?, Numeral.digits?, hminus, hdigit] at h
  obtain rfl | hdigit := hfirst
  · rfl
  · have hne : ∀ d : Char, d.isDigit = false → c ≠ d := fun d hd hcd => by
      rw [← hcd, hdigit] at hd
      cases hd
    simp [Kind.ofChar, hne]

/-- The first character of a text tells the kind of the value. -/
theorem exists_layout_eq_cons (level : ℕ) {j : Json} (hj : j.Proper) :
    ∃ c cs, (layout level j).toList = c :: cs ∧ Kind.ofChar c = j.kind := by
  cases j with
  | null => exact ⟨'n', ['u', 'l', 'l'], by rw [layout]; decide, rfl⟩
  | bool b =>
      rw [layout]
      cases b with
      | false => exact ⟨'f', ['a', 'l', 's', 'e'], by decide, rfl⟩
      | true => exact ⟨'t', ['r', 'u', 'e'], by decide, rfl⟩
  | num n =>
      obtain ⟨numeral, -, hread⟩ := Number.exists_numeral hj
      have hread := hread [] Numeral.stops_nil
      rw [List.append_nil] at hread
      rw [layout]
      cases htext : n.text.toList with
      | nil => rw [htext] at hread; cases hread
      | cons c cs => rw [htext] at hread; exact ⟨c, cs, rfl, ofChar_numeral hread⟩
  | str s =>
      rw [layout, quote, String.toList_ofList]
      exact ⟨_, _, rfl, rfl⟩
  | arr items => cases items <;> simp [layout, Kind.ofChar, kind]
  | obj members => cases members <;> simp [layout, Kind.ofChar, kind]

/-- Values with the same text, up to what follows, are of one kind. -/
theorem kind_eq {level : ℕ} {j k : Json} (hj : j.Proper) (hk : k.Proper) {r r' : List Char}
    (h : (layout level j).toList ++ r = (layout level k).toList ++ r') : j.kind = k.kind := by
  obtain ⟨c, cs, hc, hkind⟩ := exists_layout_eq_cons level hj
  obtain ⟨c', cs', hc', hkind'⟩ := exists_layout_eq_cons level hk
  rw [hc, hc', List.cons_append, List.cons_append, List.cons.injEq] at h
  rw [← hkind, ← hkind', h.1]

/-! ## Items and members in their lines -/

/-- The items with a comma before each, as they stand behind another item. -/
def commaItems (level : ℕ) : List Json → List Char
  | [] => []
  | x :: xs => ',' :: (layoutItems level (x :: xs)).toList

/-- The members with a comma before each, as they stand behind another member. -/
def commaMembers (level : ℕ) : List (String × Json) → List Char
  | [] => []
  | m :: ms => ',' :: (layoutMembers level (m :: ms)).toList

/-- An item stands on a line of its own, before the others. -/
theorem toList_layoutItems (level : ℕ) (x : Json) (xs : List Json) :
    (layoutItems level (x :: xs)).toList =
      '\n' :: (List.replicate (2 * level) ' ' ++ (layout level x).toList ++
        commaItems level xs) := by
  cases xs <;> simp [layoutItems, commaItems, newline]

/-- A member stands on a line of its own, before the others. -/
theorem toList_layoutMembers (level : ℕ) (name : String) (x : Json)
    (ms : List (String × Json)) :
    (layoutMembers level ((name, x) :: ms)).toList =
      '\n' :: (List.replicate (2 * level) ' ' ++ (quote name).toList ++ [':', ' '] ++
        (layout level x).toList ++ commaMembers level ms) := by
  cases ms <;> simp [layoutMembers, commaMembers, newline]

/-- The end of an array stands on a line of its own. -/
theorem layout_arr_append (level : ℕ) (x : Json) (xs : List Json) (r : List Char) :
    (layout level (.arr (x :: xs))).toList ++ r =
      '[' :: ((layoutItems (level + 1) (x :: xs)).toList ++
        '\n' :: (List.replicate (2 * level) ' ' ++ ']' :: r)) := by
  simp [layout, newline]

/-- The end of an object stands on a line of its own. -/
theorem layout_obj_append (level : ℕ) (m : String × Json) (ms : List (String × Json))
    (r : List Char) :
    (layout level (.obj (m :: ms))).toList ++ r =
      '{' :: ((layoutMembers (level + 1) (m :: ms)).toList ++
        '\n' :: (List.replicate (2 * level) ' ' ++ '}' :: r)) := by
  simp [layout, newline]

/-- What follows an item stops a numeral. -/
theorem stops_commaItems (level : ℕ) (items : List Json) (r : List Char) :
    Stops (commaItems level items ++ '\n' :: r) := by
  cases items with
  | nil => exact Numeral.stops_cons (by decide) r
  | cons x xs => exact Numeral.stops_cons (by decide) _

/-- What follows a member stops a numeral. -/
theorem stops_commaMembers (level : ℕ) (members : List (String × Json)) (r : List Char) :
    Stops (commaMembers level members ++ '\n' :: r) := by
  cases members with
  | nil => exact Numeral.stops_cons (by decide) r
  | cons m ms => exact Numeral.stops_cons (by decide) _

/-! ## The prefix code -/

/-- The texts of truth values are a prefix code. -/
theorem boolText_append {a b : Bool} {r r' : List Char}
    (h : (boolText a).toList ++ r = (boolText b).toList ++ r') : a = b ∧ r = r' := by
  cases a <;> cases b
  · exact ⟨rfl, List.append_cancel_left h⟩
  · cases h
  · cases h
  · exact ⟨rfl, List.append_cancel_left h⟩

mutual

/-- **The texts of values are a prefix code.** -/
theorem layout_append (level : ℕ) {r r' : List Char} (hr : Stops r) (hr' : Stops r') :
    ∀ j k : Json, j.Proper → k.Proper →
      (layout level j).toList ++ r = (layout level k).toList ++ r' → j = k ∧ r = r'
  | .null, k => fun hj hk h => by
      -- the first character tells the kind, so in each case the other value is of the same kind
      cases k with
      | null => exact ⟨rfl, List.append_cancel_left h⟩
      | _ => cases kind_eq hj hk h
  | .bool a, k => fun hj hk h => by
      cases k with
      | bool b =>
          rw [layout, layout] at h
          obtain ⟨rfl, rfl⟩ := boolText_append h
          exact ⟨rfl, rfl⟩
      | _ => cases kind_eq hj hk h
  | .num a, k => fun hj hk h => by
      cases k with
      | num b =>
          rw [layout, layout] at h
          obtain ⟨rfl, rfl⟩ := Number.eq_of_text_append hj hk hr hr' h
          exact ⟨rfl, rfl⟩
      | _ => cases kind_eq hj hk h
  | .str s, k => fun hj hk h => by
      cases k with
      | str t =>
          rw [layout, layout] at h
          obtain ⟨rfl, rfl⟩ := quote_append h
          exact ⟨rfl, rfl⟩
      | _ => cases kind_eq hj hk h
  | .arr xs, k => fun hj hk h => by
      cases k with
      | arr ys =>
          -- an empty array ends at once, while the first item of any other one begins a line
          match xs, ys with
          | [], [] => exact ⟨rfl, List.append_cancel_left h⟩
          | [], y :: ys =>
              rw [layout_arr_append, toList_layoutItems, layout] at h
              cases h
          | x :: xs, [] =>
              rw [layout_arr_append, toList_layoutItems, layout] at h
              cases h
          | x :: xs, y :: ys =>
              rw [layout_arr_append, layout_arr_append] at h
              obtain ⟨heq, hrest⟩ := commaItems_append (level + 1) (x :: xs) (y :: ys) hj hk
                (congrArg (List.cons ',') (List.cons.inj h).2)
              exact ⟨congrArg Json.arr heq, (List.cons.inj (List.append_cancel_left hrest)).2⟩
      | _ => cases kind_eq hj hk h
  | .obj ms, k => fun hj hk h => by
      cases k with
      | obj ns =>
          match ms, ns with
          | [], [] => exact ⟨rfl, List.append_cancel_left h⟩
          | [], (name, y) :: ns =>
              rw [layout_obj_append, toList_layoutMembers, layout] at h
              cases h
          | (name, x) :: ms, [] =>
              rw [layout_obj_append, toList_layoutMembers, layout] at h
              cases h
          | m :: ms, n :: ns =>
              rw [layout_obj_append, layout_obj_append] at h
              obtain ⟨heq, hrest⟩ := commaMembers_append (level + 1) (m :: ms) (n :: ns) hj hk
                (congrArg (List.cons ',') (List.cons.inj h).2)
              exact ⟨congrArg Json.obj heq, (List.cons.inj (List.append_cancel_left hrest)).2⟩
      | _ => cases kind_eq hj hk h

/-- Items before the end of an array are a prefix code. -/
theorem commaItems_append (level : ℕ) {r r' : List Char} :
    ∀ xs ys : List Json, ProperItems xs → ProperItems ys →
      commaItems level xs ++ '\n' :: r = commaItems level ys ++ '\n' :: r' → xs = ys ∧ r = r'
  | [], [] => fun _ _ h => ⟨rfl, (List.cons.inj h).2⟩
  | [], _ :: _ => fun _ _ h => nomatch h
  | _ :: _, [] => fun _ _ h => nomatch h
  | x :: xs, y :: ys => fun hxs hys h => by
      rw [commaItems, commaItems, toList_layoutItems, toList_layoutItems] at h
      simp only [List.cons_append, List.append_assoc, List.cons.injEq, true_and,
        List.append_cancel_left_eq] at h
      obtain ⟨rfl, hrest⟩ := layout_append level (stops_commaItems level xs r)
        (stops_commaItems level ys r') x y hxs.1 hys.1 h
      obtain ⟨rfl, rfl⟩ := commaItems_append level xs ys hxs.2 hys.2 hrest
      exact ⟨rfl, rfl⟩

/-- Members before the end of an object are a prefix code. -/
theorem commaMembers_append (level : ℕ) {r r' : List Char} :
    ∀ ms ns : List (String × Json), ProperMembers ms → ProperMembers ns →
      commaMembers level ms ++ '\n' :: r = commaMembers level ns ++ '\n' :: r' →
        ms = ns ∧ r = r'
  | [], [] => fun _ _ h => ⟨rfl, (List.cons.inj h).2⟩
  | [], _ :: _ => fun _ _ h => nomatch h
  | _ :: _, [] => fun _ _ h => nomatch h
  | (name, x) :: ms, (name', y) :: ns => fun hms hns h => by
      rw [commaMembers, commaMembers, toList_layoutMembers, toList_layoutMembers] at h
      simp only [List.cons_append, List.nil_append, List.append_assoc, List.cons.injEq, true_and,
        List.append_cancel_left_eq] at h
      obtain ⟨rfl, hvalue⟩ := quote_append h
      simp only [List.cons.injEq, true_and] at hvalue
      obtain ⟨rfl, hrest⟩ := layout_append level (stops_commaMembers level ms r)
        (stops_commaMembers level ns r') x y hms.1 hns.1 hvalue
      obtain ⟨rfl, rfl⟩ := commaMembers_append level ms ns hms.2 hns.2 hrest
      exact ⟨rfl, rfl⟩

end

/-- **Different values have different texts.** -/
theorem pretty_injective {j k : Json} (hj : j.Proper) (hk : k.Proper)
    (h : j.pretty = k.pretty) : j = k :=
  (layout_append 0 Numeral.stops_nil Numeral.stops_nil j k hj hk
    (congrArg (fun s => s.toList ++ []) h)).1

end Json

end Picklist
