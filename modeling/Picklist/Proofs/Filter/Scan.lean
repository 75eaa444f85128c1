/-
# Scanning the JSON of a filter

Reading a JSON value as a filter sorts its items into kinds of tokens, and the search for a
constant looks at tokens.  The same constant is found by a scan of the JSON value itself, which
knows no tokens.

* `Filter.scan?` : the scan;
* `Filter.ofJson_obj` : which objects become which tokens;
* `Filter.bindingAt?_ofItems` : three items bind a column exactly when their tokens do;
* `Filter.constant?_ofJson?` : reading and searching gives what the scan gives.
-/
import Picklist.Proofs.Filter.Address

namespace Picklist

namespace Filter

/-! ## The scan -/

/-- The path of a reference: the `ref` of an object, if it is an array. -/
def path? (members : List (String × Json)) : Option (List Json) :=
  match members.lookup "ref" with
  | some (.arr path) => some path
  | _ => none

/-- Whether an item refers to a column: it is an object whose path begins with the name of the
column. -/
def refersTo (column : String) : Json → Bool
  | .obj members =>
    match path? members with
    | some (.str name :: _) => name = column
    | _ => false
  | _ => false

/-- The constant of an object without a path: its `val`, if that is a scalar, `null` included. -/
def constantOf? (members : List (String × Json)) : Option Scalar :=
  match path? members, members.lookup "val" with
  | none, some .null => some .null
  | none, some (.bool b) => some (.bool b)
  | none, some (.num n) => some (.num n)
  | none, some (.str s) => some (.text s)
  | _, _ => none

/-- The constant that the first three items bind to a column: a reference to the column, the text
`=` and an object with a constant. -/
def boundInFront? (column : String) : List Json → Option Scalar
  | x :: .str "=" :: .obj members :: _ => if refersTo column x then constantOf? members else none
  | _ => none

mutual

/-- The constant of a column in a row of items, from left to right: what three items bind, or what
the first of them holds. -/
def scanItems? (column : String) : List Json → Option Scalar
  | [] => none
  | x :: rest =>
    (boundInFront? column (x :: rest)).or ((scanItem? column x).or (scanItems? column rest))

/-- The constant of a column inside an item: in an array, or in the arrays among the members of
an object that has neither a path nor a constant. -/
def scanItem? (column : String) : Json → Option Scalar
  | .arr items => scanItems? column items
  | .obj members =>
    match path? members, constantOf? members with
    | none, none => scanMembers? column members
    | _, _ => none
  | _ => none

/-- The constant of a column in the arrays among members, in their order. -/
def scanMembers? (column : String) : List (String × Json) → Option Scalar
  | [] => none
  | (_, value) :: rest => (scan? column value).or (scanMembers? column rest)

/-- The constant of a column in a value; only an array is scanned. -/
def scan? (column : String) : Json → Option Scalar
  | .arr items => scanItems? column items
  | _ => none

end

/-! ## Which items become which tokens -/

theorem path?_eq_some_iff {members : List (String × Json)} {path : List Json} :
    path? members = some path ↔ members.lookup "ref" = some (.arr path) := by
  unfold path?
  split
  case h_1 items href => simp [href]
  case h_2 hno => simpa using hno path

/-- The constants of the scan are the scalars that a `val` is read as. -/
theorem constantOf?_of_no_path {members : List (String × Json)} (h : path? members = none) :
    constantOf? members = (members.lookup "val").bind Scalar.ofJson? := by
  rw [constantOf?, h]
  cases members.lookup "val" with
  | none => rfl
  | some value => cases value <;> rfl

/-- An object is read as a reference if it has a path, otherwise as a value if it has a constant,
and otherwise as a node. -/
theorem ofJson_obj (members : List (String × Json)) :
    Token.ofJson (.obj members) =
      match path? members, constantOf? members with
      | some path, _ => .ref (path.map Segment.ofJson)
      | none, some v => .val v
      | none, none => .node (Token.ofMembers members) := by
  cases hpath : path? members with
  | some path => rw [Token.ofJson, path?_eq_some_iff.1 hpath]
  | none =>
      rw [Token.ofJson, constantOf?_of_no_path hpath]
      split
      · rename_i path href
        rw [path?, href] at hpath
        cases hpath
      · cases (members.lookup "val").bind Scalar.ofJson? <;> rfl

/-- An item becomes a reference to a column when it refers to the column. -/
theorem refersTo_iff {column : String} {x : Json} :
    refersTo column x = true ↔
      ∃ segments, Token.ofJson x = .ref (.name column :: segments) := by
  cases x with
  | obj members =>
      rw [ofJson_obj, refersTo]
      cases path? members with
      | none => cases constantOf? members <;> simp
      | some path =>
          rcases path with _ | ⟨first, rest⟩
          · simp
          · cases first <;> simp [Segment.ofJson]
  | str w => simp [refersTo, Token.ofJson, Token.word]
  | _ => simp [refersTo, Token.ofJson]

/-- Only the text `=` becomes an equals sign. -/
theorem ofJson_eq_op_iff {x : Json} : Token.ofJson x = .op .eq ↔ x = .str "=" := by
  cases x with
  | str w =>
      rw [Token.ofJson, Token.word, Token.op.injEq, Json.str.injEq]
      refine ⟨fun h => ?_, fun h => by rw [h]; rfl⟩
      rw [← Operator.text_ofWord w, h]
      rfl
  | obj members =>
      rw [ofJson_obj]
      cases path? members with
      | some path => simp
      | none => cases constantOf? members <;> simp
  | _ => simp [Token.ofJson]

/-- Only an object with a constant becomes a value, and the value is the constant. -/
theorem ofJson_eq_val_iff {x : Json} {v : Scalar} :
    Token.ofJson x = .val v ↔ ∃ members, x = .obj members ∧ constantOf? members = some v := by
  cases x with
  | obj members =>
      rw [ofJson_obj]
      cases hpath : path? members with
      | some path => simp [constantOf?, hpath]
      | none => cases hconstant : constantOf? members <;> simp [hconstant]
  | str w => simp [Token.ofJson, Token.word]
  | _ => simp [Token.ofJson]

/-- The tokens of items stand in the places of the items. -/
theorem getElem?_ofItems (items : List Json) (i : Nat) :
    (Token.ofItems items)[i]? = items[i]?.map Token.ofJson := by
  induction items generalizing i with
  | nil => simp [Token.ofItems]
  | cons x rest ih =>
      cases i with
      | zero => rfl
      | succ i => simpa [Token.ofItems] using ih i

/-- Three items bind a column to a value when they are a reference to the column, the text `=` and
an object with that constant. -/
theorem boundInFront?_eq_some_iff {column : String} {items : List Json} {v : Scalar} :
    boundInFront? column items = some v ↔
      ∃ x members rest, items = x :: .str "=" :: .obj members :: rest ∧
        refersTo column x = true ∧ constantOf? members = some v := by
  unfold boundInFront?
  split
  · rename_i x members rest
    split
    · rename_i hx
      constructor
      · exact fun h => ⟨x, members, rest, rfl, hx, h⟩
      · rintro ⟨_, _, _, heq, -, h⟩
        cases heq
        exact h
    · rename_i hx
      refine ⟨fun h => (by cases h), ?_⟩
      rintro ⟨_, _, _, heq, hx', -⟩
      cases heq
      exact absurd hx' hx
  · rename_i hno
    refine ⟨fun h => (by cases h), ?_⟩
    rintro ⟨x, members, rest, heq, -, -⟩
    exact absurd heq (hno x members rest)

/-- Three items bind a column exactly when their tokens do. -/
theorem bindingAt?_ofItems (column : String) (items : List Json) :
    bindingAt? column (Token.ofItems items) = boundInFront? column items := by
  apply Option.ext
  intro v
  rw [bindingAt?_eq_some_iff, boundInFront?_eq_some_iff]
  constructor
  · rintro ⟨⟨segments, href⟩, hop, hval⟩
    rw [getElem?_ofItems, Option.map_eq_some_iff] at href hop hval
    obtain ⟨x, hx, href⟩ := href
    obtain ⟨y, hy, hop⟩ := hop
    obtain ⟨z, hz, hval⟩ := hval
    obtain rfl := ofJson_eq_op_iff.1 hop
    obtain ⟨members, rfl, hconstant⟩ := ofJson_eq_val_iff.1 hval
    match items, hx, hy, hz with
    | _ :: _ :: _ :: rest, rfl, rfl, rfl =>
        exact ⟨x, members, rest, rfl, refersTo_iff.2 ⟨segments, href⟩, hconstant⟩
  · rintro ⟨x, members, rest, rfl, hx, hconstant⟩
    obtain ⟨segments, href⟩ := refersTo_iff.1 hx
    refine ⟨⟨segments, congrArg some href⟩, rfl, ?_⟩
    exact congrArg some (ofJson_eq_val_iff.2 ⟨members, rfl, hconstant⟩)

/-! ## Reading and searching -/

mutual

/-- The search of the tokens of items finds what the scan of the items finds. -/
theorem find?_ofItems (column : String) :
    ∀ items, find? column (Token.ofItems items) = scanItems? column items
  | [] => rfl
  | x :: rest => by
      have hfront := bindingAt?_ofItems column (x :: rest)
      rw [Token.ofItems] at hfront ⊢
      rw [find?_cons, hfront, findWithin?_ofJson column x, find?_ofItems column rest, scanItems?]

/-- The search inside the token of an item finds what the scan inside the item finds. -/
theorem findWithin?_ofJson (column : String) :
    ∀ x, findWithin? column (Token.ofJson x) = scanItem? column x
  | .arr items => find?_ofItems column items
  | .obj members => by
      have hentries := findAmong?_ofMembers column members
      rw [ofJson_obj, scanItem?]
      cases path? members with
      | some path => rfl
      | none =>
          cases constantOf? members with
          | some v => rfl
          | none => exact hentries
  | .null => rfl
  | .bool _ => rfl
  | .num _ => rfl
  | .str _ => rfl

/-- The search of the entries of a node finds what the scan of the members finds. -/
theorem findAmong?_ofMembers (column : String) :
    ∀ members, findAmong? column (Token.ofMembers members) = scanMembers? column members
  | [] => rfl
  | (name, value) :: rest => by
      rw [Token.ofMembers, findAmong?_cons, findGroup?_ofJson column value,
        findAmong?_ofMembers column rest, scanMembers?]

/-- The search of the token of a value finds what the scan of the value finds, since only arrays
become groups. -/
theorem findGroup?_ofJson (column : String) :
    ∀ x, findGroup? column (Token.ofJson x) = scan? column x
  | .arr items => find?_ofItems column items
  | .obj members => by
      rw [ofJson_obj]
      cases path? members with
      | some path => rfl
      | none => cases constantOf? members <;> rfl
  | .null => rfl
  | .bool _ => rfl
  | .num _ => rfl
  | .str _ => rfl

end

/-- **Reading and searching is scanning.**  The constant that is found in the filter which a JSON
value is, if it is one, is the constant that the scan of the value finds. -/
theorem constant?_ofJson? (column : String) (j : Json) :
    ((ofJson? j).bind fun f => f.constant? column) = scan? column j := by
  cases j with
  | arr items => exact find?_ofItems column items
  | _ => rfl

/-- A filter whose only binding stands in an array that is the `val` of an object.  What comes
before binds nothing, since a reference is never a constant, even with a `val`. -/
def hidden : Json :=
  .arr [.obj [("ref", .arr [.str "status"])], .str "=",
    .obj [("ref", .arr []), ("val", .bool false)], .str "and",
    .obj [("val", .arr [.obj [("ref", .arr [.str "status"])], .str "=",
      .obj [("ref", .null), ("val", .null)]])]]

/-- The search finds the `null` of that binding, and so does the scan. -/
theorem constant?_ofJson?_hidden :
    ((ofJson? hidden).bind fun f => f.constant? "status") = some .null ∧
      scan? "status" hidden = some .null := by
  have hscan : scan? "status" hidden = some .null := by rfl
  exact ⟨(constant?_ofJson? "status" hidden).trans hscan, hscan⟩

end Filter

end Picklist
