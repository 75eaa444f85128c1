/-
# Bindings and their addresses

A filter is searched at its top level, inside its groups, and inside the groups that stand
directly in an entry of a node; `Searched` says so, and gives each of these sequences the
path of indices that leads to it.  A binding of a column has the address of its reference.

* `find?_firstOf` : the search gives the value of the binding with the least address;
* `bound?_iff_least_address` : so the constant of a column is the value at the least address
  where the column is bound, and there is none exactly when the column is bound nowhere.
-/
import Picklist.Filter.Binding

namespace Picklist

namespace Filter

/-! ## Searched sequences -/

/-- The sequences that are searched in a sequence, each with the path of indices that leads
to it: the sequence itself, the content of every group of a searched sequence, and that of
every group that is the value of an entry of a node of a searched sequence. -/
inductive Searched (top : List Token) : List Nat → List Token → Prop where
  | top : Searched top [] top
  | group {path : List Nat} {tokens : List Token} {i : Nat} {inner : List Token}
      (h : Searched top path tokens) (hi : tokens[i]? = some (.group inner)) :
      Searched top (path ++ [i]) inner
  | entry {path : List Nat} {tokens : List Token} {i : Nat}
      {entries : List (String × Token)} {j : Nat} {key : String} {inner : List Token}
      (h : Searched top path tokens) (hi : tokens[i]? = some (.node entries))
      (hj : entries[j]? = some (key, .group inner)) :
      Searched top (path ++ [i, j]) inner

/-- Three tokens of a sequence bind a column to a value: a reference whose first segment is
the name of the column, an equals sign, and the value. -/
structure BindsAt (column : String) (tokens : List Token) (i : Nat) (value : Scalar) :
    Prop where
  ref : ∃ segments, tokens[i]? = some (.ref (.name column :: segments))
  op : tokens[i + 1]? = some (.op .eq)
  val : tokens[i + 2]? = some (.val value)

/-- A column is bound at an address of a sequence: at a position of a searched sequence. -/
def Binds (column : String) (top : List Token) (address : List Nat) (value : Scalar) :
    Prop :=
  ∃ path tokens i, Searched top path tokens ∧ BindsAt column tokens i value ∧
    address = path ++ [i]

/-- A column is bound at an address inside a token. -/
inductive BindsWithin (column : String) : Token → List Nat → Scalar → Prop where
  | group {inner : List Token} {address : List Nat} {value : Scalar}
      (h : Binds column inner address value) : BindsWithin column (.group inner) address value
  | node {entries : List (String × Token)} {j : Nat} {key : String} {inner : List Token}
      {address : List Nat} {value : Scalar} (hj : entries[j]? = some (key, .group inner))
      (h : Binds column inner address value) :
      BindsWithin column (.node entries) (j :: address) value

section

variable {column : String} {top tokens inner rest : List Token} {path address : List Nat}
  {t : Token} {i : Nat} {value : Scalar}

/-- A searched sequence of the content of a group is one of the whole. -/
theorem Searched.inGroup (hi : top[i]? = some (.group inner))
    (h : Searched inner path tokens) : Searched top (i :: path) tokens := by
  induction h with
  | top => exact Searched.group .top hi
  | group _ hj ih => exact Searched.group ih hj
  | entry _ hj hk ih => exact Searched.entry ih hj hk

/-- A searched sequence of the content of a group in an entry is one of the whole. -/
theorem Searched.inEntry {entries : List (String × Token)} {j : Nat} {key : String}
    (hi : top[i]? = some (.node entries)) (hj : entries[j]? = some (key, .group inner))
    (h : Searched inner path tokens) : Searched top (i :: j :: path) tokens := by
  induction h with
  | top => exact Searched.entry .top hi hj
  | group _ hk ih => exact Searched.group ih hk
  | entry _ hk hl ih => exact Searched.entry ih hk hl

/-- The first step to a searched sequence: there is none, or it leads into a group or into an
entry of a node. -/
theorem Searched.first (h : Searched top path tokens) :
    (path = [] ∧ tokens = top) ∨
      (∃ i inner p, top[i]? = some (.group inner) ∧ Searched inner p tokens ∧ path = i :: p) ∨
      ∃ i entries j key inner p, top[i]? = some (.node entries) ∧
        entries[j]? = some (key, .group inner) ∧ Searched inner p tokens ∧
        path = i :: j :: p := by
  induction h with
  | top => exact .inl ⟨rfl, rfl⟩
  | group _ hk ih =>
      rcases ih with ⟨rfl, rfl⟩ | ⟨i, g, p, hi, hs, rfl⟩ | ⟨i, es, j, key, g, p, hi, hj, hs, rfl⟩
      · exact .inr (.inl ⟨_, _, [], hk, .top, rfl⟩)
      · exact .inr (.inl ⟨i, g, _, hi, hs.group hk, rfl⟩)
      · exact .inr (.inr ⟨i, es, j, key, g, _, hi, hj, hs.group hk, rfl⟩)
  | entry _ hk hl ih =>
      rcases ih with ⟨rfl, rfl⟩ | ⟨i, g, p, hi, hs, rfl⟩ | ⟨i, es, j, key, g, p, hi, hj, hs, rfl⟩
      · exact .inr (.inr ⟨_, _, _, _, _, [], hk, hl, .top, rfl⟩)
      · exact .inr (.inl ⟨i, g, _, hi, hs.entry hk hl, rfl⟩)
      · exact .inr (.inr ⟨i, es, j, key, g, _, hi, hj, hs.entry hk hl, rfl⟩)

/-- Induction along the path to a searched sequence, from the last step back to the first. -/
@[elab_as_elim]
theorem Searched.induction_first
    {motive : (top : List Token) → (path : List Nat) → Searched top path tokens → Prop}
    (here : motive tokens [] .top)
    (group : ∀ {top inner : List Token} {i : Nat} {p : List Nat}
      (hi : top[i]? = some (.group inner)) (hs : Searched inner p tokens),
        motive inner p hs → motive top (i :: p) (hs.inGroup hi))
    (entry : ∀ {top inner : List Token} {i j : Nat} {key : String}
      {entries : List (String × Token)} {p : List Nat} (hi : top[i]? = some (.node entries))
      (hj : entries[j]? = some (key, .group inner)) (hs : Searched inner p tokens),
        motive inner p hs → motive top (i :: j :: p) (hs.inEntry hi hj))
    {top : List Token} {path : List Nat} (h : Searched top path tokens) : motive top path h := by
  rcases h.first with ⟨rfl, rfl⟩ | ⟨i, inner, p, hi, hs, rfl⟩ |
    ⟨i, entries, j, key, inner, p, hi, hj, hs, rfl⟩
  · exact here
  · exact group hi hs (Searched.induction_first here group entry hs)
  · exact entry hi hj hs (Searched.induction_first here group entry hs)
termination_by path.length

/-- A path leads to one sequence only. -/
theorem Searched.unique {path : List Nat} {top tokens tokens' : List Token}
    (h : Searched top path tokens) (h' : Searched top path tokens') : tokens = tokens' := by
  induction h using Searched.induction_first with
  | here =>
      rcases h'.first with ⟨-, rfl⟩ | ⟨_, _, _, _, _, hp⟩ | ⟨_, _, _, _, _, _, _, _, _, hp⟩
      · rfl
      · cases hp
      · cases hp
  | group hi _ ih =>
      rcases h'.first with ⟨hp, -⟩ | ⟨_, _, _, hi', hs', hp⟩ | ⟨_, _, _, _, _, _, hi', _, _, hp⟩
      · cases hp
      · cases hp
        rw [hi] at hi'
        cases hi'
        exact ih hs'
      · cases hp
        rw [hi] at hi'
        cases hi'
  | entry hi hj _ ih =>
      rcases h'.first with ⟨hp, -⟩ | ⟨_, _, _, hi', _, hp⟩ | ⟨_, _, _, _, _, _, hi', hj', hs', hp⟩
      · cases hp
      · cases hp
        rw [hi] at hi'
        cases hi'
      · cases hp
        rw [hi] at hi'
        cases hi'
        rw [hj] at hj'
        cases hj'
        exact ih hs'

/-- An address binds one value only. -/
theorem Binds.unique {value' : Scalar} (h : Binds column top address value)
    (h' : Binds column top address value') : value = value' := by
  obtain ⟨path, tokens, i, hs, hb, rfl⟩ := h
  obtain ⟨path', tokens', i', hs', hb', heq⟩ := h'
  obtain ⟨rfl, hi⟩ := List.append_inj' heq rfl
  cases hi
  cases hs.unique hs'
  have hval := hb.val.symm.trans hb'.val
  cases hval
  rfl

/-- A column is bound at a position of the sequence itself or inside one of its tokens. -/
theorem binds_iff :
    Binds column top address value ↔
      (∃ i, BindsAt column top i value ∧ address = [i]) ∨
        ∃ i t b, top[i]? = some t ∧ BindsWithin column t b value ∧ address = i :: b := by
  constructor
  · rintro ⟨path, tokens, k, hs, hb, rfl⟩
    rcases hs.first with ⟨rfl, rfl⟩ | ⟨i, g, p, hi, hg, rfl⟩ |
      ⟨i, es, j, key, g, p, hi, hj, hg, rfl⟩
    · exact .inl ⟨k, hb, rfl⟩
    · exact .inr ⟨i, _, _, hi, .group ⟨p, tokens, k, hg, hb, rfl⟩, rfl⟩
    · exact .inr ⟨i, _, _, hi, .node hj ⟨p, tokens, k, hg, hb, rfl⟩, rfl⟩
  · rintro (⟨i, hb, rfl⟩ | ⟨i, t, b, hi, hw, rfl⟩)
    · exact ⟨[], top, i, .top, hb, rfl⟩
    · cases hw with
      | group h =>
          obtain ⟨path, tokens, k, hs, hb, rfl⟩ := h
          exact ⟨i :: path, tokens, k, hs.inGroup hi, hb, rfl⟩
      | node hj h =>
          obtain ⟨path, tokens, k, hs, hb, rfl⟩ := h
          exact ⟨i :: _ :: path, tokens, k, hs.inEntry hi hj, hb, rfl⟩

end

/-! ## The order of addresses -/

/-- The lexicographic order of addresses: an address comes no later than itself, and before
every other one that is lexicographically greater. -/
def NoLater (a b : List Nat) : Prop := a = b ∨ List.Lex (· < ·) a b

theorem NoLater.cons {a b : List Nat} (i : Nat) (h : NoLater a b) :
    NoLater (i :: a) (i :: b) := by
  rcases h with rfl | h
  · exact .inl rfl
  · exact .inr (.cons h)

theorem NoLater.nil (a : List Nat) : NoLater [] a := by
  cases a with
  | nil => exact .inl rfl
  | cons i a => exact .inr .nil

theorem NoLater.antisymm {a b : List Nat} (hab : NoLater a b) (hba : NoLater b a) : a = b := by
  rcases hab with rfl | hab
  · rfl
  · rcases hba with rfl | hba
    · rfl
    · exact absurd (List.lt_trans hab hba) (List.lt_irrefl a)

/-! ## Addresses in a longer sequence -/

/-- The address in a sequence with one more token in front. -/
def shifted : List Nat → List Nat
  | [] => []
  | i :: rest => (i + 1) :: rest

theorem NoLater.shifted {a b : List Nat} (h : NoLater a b) :
    NoLater (shifted a) (shifted b) := by
  rcases h with rfl | h
  · exact .inl rfl
  · cases h with
    | nil => exact .inr .nil
    | cons h => exact .inr (.cons h)
    | rel h => exact .inr (.rel (Nat.succ_lt_succ h))

/-- Addresses in the first token come before those behind it. -/
theorem noLater_zero_cons_shifted {a b : List Nat} (hb : b ≠ []) :
    NoLater (0 :: a) (shifted b) := by
  cases b with
  | nil => exact absurd rfl hb
  | cons i b => exact .inr (.rel (Nat.succ_pos i))

section

variable {column key : String} {tokens rest : List Token} {address : List Nat} {t : Token}
  {i : Nat} {value : Scalar}

/-- What binds behind the first token binds one position further on. -/
theorem bindsAt_cons_succ :
    BindsAt column (t :: rest) (i + 1) value ↔ BindsAt column rest i value :=
  ⟨fun h => ⟨h.ref, h.op, h.val⟩, fun h => ⟨h.ref, h.op, h.val⟩⟩

/-- The check at the front of a sequence finds what binds there. -/
theorem bindingAt?_eq_some_iff :
    bindingAt? column tokens = some value ↔ BindsAt column tokens 0 value := by
  constructor
  · intro h
    unfold bindingAt? at h
    split at h
    · rename_i path v rest
      split at h
      · rename_i hhead
        cases h
        cases path with
        | nil => cases hhead
        | cons segment segments =>
            cases segment with
            | name s =>
                cases hhead
                exact ⟨⟨segments, rfl⟩, rfl, rfl⟩
            | other j => cases hhead
      · cases h
    · cases h
  · rintro ⟨⟨segments, href⟩, hop, hval⟩
    match tokens, href, hop, hval with
    | _ :: _ :: _ :: _, rfl, rfl, rfl => simp [bindingAt?, Token.head?]

theorem not_binds_nil : ¬Binds column [] address value := by
  rw [binds_iff]
  rintro (⟨i, hb, -⟩ | ⟨i, t, b, hi, -⟩)
  · obtain ⟨segments, href⟩ := hb.ref
    simp at href
  · simp at hi

/-- A column is bound at the front of a sequence, inside its first token, or behind it. -/
theorem binds_cons_iff :
    Binds column (t :: rest) address value ↔
      (address = [0] ∧ BindsAt column (t :: rest) 0 value) ∨
        (∃ b, address = 0 :: b ∧ BindsWithin column t b value) ∨
          ∃ b, address = shifted b ∧ Binds column rest b value := by
  simp only [binds_iff]
  -- the index of the first step decides: the first token, or one behind it
  constructor
  · rintro (⟨i, hb, rfl⟩ | ⟨i, u, b, hi, hw, rfl⟩)
    · cases i with
      | zero => exact .inl ⟨rfl, hb⟩
      | succ i => exact .inr (.inr ⟨[i], rfl, .inl ⟨i, bindsAt_cons_succ.1 hb, rfl⟩⟩)
    · cases i with
      | zero =>
          cases hi
          exact .inr (.inl ⟨b, rfl, hw⟩)
      | succ i => exact .inr (.inr ⟨i :: b, rfl, .inr ⟨i, u, b, hi, hw, rfl⟩⟩)
  · rintro (⟨rfl, hb⟩ | ⟨b, rfl, hw⟩ | ⟨b, rfl, ⟨i, hb, rfl⟩ | ⟨i, u, b, hi, hw, rfl⟩⟩)
    · exact .inl ⟨0, hb, rfl⟩
    · exact .inr ⟨0, t, b, rfl, hw, rfl⟩
    · exact .inl ⟨i + 1, bindsAt_cons_succ.2 hb, rfl⟩
    · exact .inr ⟨i + 1, u, b, hi, hw, rfl⟩

/-- A column is bound in the group of the first entry of a node, or in a later entry. -/
theorem bindsWithin_node_cons_iff {entries : List (String × Token)} :
    BindsWithin column (.node ((key, t) :: entries)) address value ↔
      (∃ b, address = 0 :: b ∧ ∃ inner, t = .group inner ∧ Binds column inner b value) ∨
        ∃ b, address = shifted b ∧ BindsWithin column (.node entries) b value := by
  constructor
  · intro h
    cases h with
    | @node _ j _ inner b _ hj h =>
        cases j with
        | zero =>
            cases hj
            exact .inl ⟨b, rfl, inner, rfl, h⟩
        | succ j => exact .inr ⟨j :: b, rfl, .node hj h⟩
  · rintro (⟨b, rfl, inner, rfl, h⟩ | ⟨b, rfl, h⟩)
    · exact .node (j := 0) rfl h
    · cases h with
      | @node _ j _ inner b _ hj h => exact .node (j := j + 1) hj h

end

/-! ## The first binding -/

/-- What was found is the value at the least address, or nothing when there is none. -/
def FirstOf (binds : List Nat → Scalar → Prop) : Option Scalar → Prop
  | some value => ∃ a, binds a value ∧ ∀ b w, binds b w → NoLater a b
  | none => ∀ a value, ¬binds a value

namespace FirstOf

variable {P Q : List Nat → Scalar → Prop} {x y : Option Scalar}

/-- The first of two collections is that of the one whose addresses come first. -/
theorem or (hx : FirstOf P x) (hy : FirstOf Q y)
    (h : ∀ a v b w, P a v → Q b w → NoLater a b) :
    FirstOf (fun a v => P a v ∨ Q a v) (x.or y) := by
  cases x with
  | some v =>
      obtain ⟨a, ha, hleast⟩ := hx
      refine ⟨a, .inl ha, ?_⟩
      rintro b w (hb | hb)
      · exact hleast b w hb
      · exact h a v b w ha hb
  | none =>
      cases y with
      | some v =>
          obtain ⟨a, ha, hleast⟩ := hy
          refine ⟨a, .inr ha, ?_⟩
          rintro b w (hb | hb)
          · exact absurd hb (hx b w)
          · exact hleast b w hb
      | none => exact fun a v hav => hav.elim (hx a v) (hy a v)

/-- Moving all addresses in a way that keeps their order keeps the first. -/
theorem map {f : List Nat → List Nat} (hf : ∀ {a b}, NoLater a b → NoLater (f a) (f b))
    (hx : FirstOf P x) : FirstOf (fun a v => ∃ b, a = f b ∧ P b v) x := by
  cases x with
  | some v =>
      obtain ⟨a, ha, hleast⟩ := hx
      refine ⟨f a, ⟨a, rfl, ha⟩, ?_⟩
      rintro b w ⟨c, rfl, hc⟩
      exact hf (hleast c w hc)
  | none =>
      rintro a v ⟨b, rfl, hb⟩
      exact hx b v hb

/-- What was found is the value at the least address, when no address binds two values. -/
theorem eq_some_iff (hx : FirstOf P x) (hunique : ∀ {a v w}, P a v → P a w → v = w)
    (v : Scalar) : x = some v ↔ ∃ a, P a v ∧ ∀ b w, P b w → NoLater a b := by
  constructor
  · rintro rfl
    exact hx
  · rintro ⟨a, ha, hleast⟩
    cases x with
    | none => exact absurd ha (hx a v)
    | some w =>
        obtain ⟨b, hb, hleast'⟩ := hx
        cases NoLater.antisymm (hleast b w hb) (hleast' a v ha)
        rw [hunique hb ha]

/-- Only the bindings matter. -/
theorem congr (hx : FirstOf P x) (h : ∀ a v, Q a v ↔ P a v) : FirstOf Q x := by
  have hPQ : Q = P := funext fun a => funext fun v => propext (h a v)
  rw [hPQ]
  exact hx

end FirstOf

/-! ## The search -/

/-- No address of a binding is empty. -/
theorem Binds.ne_nil {column : String} {tokens : List Token} {address : List Nat}
    {value : Scalar} (h : Binds column tokens address value) : address ≠ [] := by
  obtain ⟨path, _, i, -, -, rfl⟩ := h
  simp

theorem BindsWithin.ne_nil_of_node {column : String} {entries : List (String × Token)}
    {address : List Nat} {value : Scalar}
    (h : BindsWithin column (.node entries) address value) : address ≠ [] := by
  cases h
  simp

/-- The binding at the front of a sequence is the first of those at its address. -/
theorem bindingAt?_firstOf (column : String) (tokens : List Token) :
    FirstOf (fun a v => a = [0] ∧ BindsAt column tokens 0 v) (bindingAt? column tokens) := by
  cases h : bindingAt? column tokens with
  | some v =>
      refine ⟨[0], ⟨rfl, bindingAt?_eq_some_iff.1 h⟩, ?_⟩
      rintro b w ⟨rfl, -⟩
      exact .inl rfl
  | none =>
      rintro a v ⟨-, hb⟩
      rw [bindingAt?_eq_some_iff.2 hb] at h
      cases h

/-- The search of a sequence looks at its front, then into its first token, then behind
it. -/
theorem find?_cons (column : String) (t : Token) (rest : List Token) :
    find? column (t :: rest) =
      (bindingAt? column (t :: rest)).or ((findWithin? column t).or (find? column rest)) := by
  rw [find?]
  cases bindingAt? column (t :: rest) with
  | some v => rfl
  | none => cases findWithin? column t <;> rfl

/-- The search of a node looks into its first entry, then into the others. -/
theorem findAmong?_cons (column key : String) (t : Token) (rest : List (String × Token)) :
    findAmong? column ((key, t) :: rest) =
      (findGroup? column t).or (findAmong? column rest) := by
  rw [findAmong?]
  cases findGroup? column t <;> rfl

mutual

/-- The search of a sequence finds its first binding. -/
theorem find?_firstOf (column : String) :
    ∀ tokens, FirstOf (Binds column tokens) (find? column tokens)
  | [] => fun a v h => not_binds_nil h
  | t :: rest => by
      rw [find?_cons]
      refine FirstOf.congr (.or (bindingAt?_firstOf column (t :: rest))
        (.or ((findWithin?_firstOf column t).map (.cons 0))
          ((find?_firstOf column rest).map .shifted) ?_) ?_) fun a v => binds_cons_iff
      · rintro _ _ _ _ ⟨a, rfl, -⟩ ⟨b, rfl, hb⟩
        exact noLater_zero_cons_shifted hb.ne_nil
      · rintro _ _ _ _ ⟨rfl, -⟩ (⟨b, rfl, hb⟩ | ⟨b, rfl, hb⟩)
        · exact .cons 0 (.nil b)
        · exact noLater_zero_cons_shifted hb.ne_nil

/-- The search inside a token finds the first binding there. -/
theorem findWithin?_firstOf (column : String) :
    ∀ t, FirstOf (BindsWithin column t) (findWithin? column t)
  | .group tokens => by
      refine FirstOf.congr (find?_firstOf column tokens) fun a v => ⟨?_, .group⟩
      rintro ⟨h⟩
      exact h
  | .node entries => findAmong?_firstOf column entries
  | .ref _ => fun a v h => by cases h
  | .val _ => fun a v h => by cases h
  | .op _ => fun a v h => by cases h
  | .bare _ => fun a v h => by cases h

/-- The search of the entries of a node finds the first binding there. -/
theorem findAmong?_firstOf (column : String) :
    ∀ entries, FirstOf (BindsWithin column (.node entries)) <| findAmong? column entries
  | [] => fun a v h => by
      cases h with
      | node hj _ => simp at hj
  | (key, t) :: rest => by
      rw [findAmong?_cons]
      refine FirstOf.congr (.or ((findGroup?_firstOf column t).map (.cons 0))
        ((findAmong?_firstOf column rest).map .shifted) ?_) fun a v =>
          bindsWithin_node_cons_iff
      rintro _ _ _ _ ⟨a, rfl, -⟩ ⟨b, rfl, hb⟩
      exact noLater_zero_cons_shifted hb.ne_nil_of_node

/-- The search of a value of an entry finds the first binding there, if it is a group. -/
theorem findGroup?_firstOf (column : String) :
    ∀ t, FirstOf (fun a v => ∃ inner, t = .group inner ∧ Binds column inner a v)
      (findGroup? column t)
  | .group tokens => by
      refine FirstOf.congr (find?_firstOf column tokens) fun a v => ⟨?_, fun h => ⟨_, rfl, h⟩⟩
      rintro ⟨inner, h, hb⟩
      cases h
      exact hb
  | .node _ => fun a v h => by obtain ⟨_, h, -⟩ := h; cases h
  | .ref _ => fun a v h => by obtain ⟨_, h, -⟩ := h; cases h
  | .val _ => fun a v h => by obtain ⟨_, h, -⟩ := h; cases h
  | .op _ => fun a v h => by obtain ⟨_, h, -⟩ := h; cases h
  | .bare _ => fun a v h => by obtain ⟨_, h, -⟩ := h; cases h

end

/-- **The first binding wins.**  The constant of a column is the value at the least address
where the column is bound, and there is none exactly when there is no filter or the column
is bound nowhere in it. -/
theorem bound?_iff_least_address (filter : Option Filter) (column : String) :
    (∀ value, filter.bind (fun f => f.constant? column) = some value ↔
      ∃ f, filter = some f ∧ ∃ a, Binds column f.tokens a value ∧
        ∀ b w, Binds column f.tokens b w → NoLater a b) ∧
      (filter.bind (fun f => f.constant? column) = none ↔
        ∀ f, filter = some f → ∀ a value, ¬Binds column f.tokens a value) := by
  cases filter with
  | none => simp
  | some f =>
      have h := find?_firstOf column f.tokens
      simp only [Option.bind_some, Option.some.injEq, exists_eq_left', forall_eq']
      rw [constant?]
      cases hfound : find? column f.tokens with
      | some v =>
          rw [hfound] at h
          obtain ⟨a, ha, hleast⟩ := h
          refine ⟨fun value => ⟨?_, ?_⟩, ?_⟩
          · rintro ⟨⟩
            exact ⟨a, ha, hleast⟩
          · rintro ⟨b, hb, hleast'⟩
            -- both addresses are least, so they are one, and it binds one value
            cases NoLater.antisymm (hleast b value hb) (hleast' a v ha)
            rw [ha.unique hb]
          · exact iff_of_false (by simp) fun hnone => hnone a v ha
      | none =>
          rw [hfound] at h
          refine ⟨fun value => ⟨?_, ?_⟩, ?_⟩
          · rintro ⟨⟩
          · rintro ⟨b, hb, -⟩
            exact absurd hb (h b value)
          · exact iff_of_true rfl h

end Filter

end Picklist
