/-
# TOML documents

The tables of a document and how its statements fill them.

* `Toml.assign?` sets a key; keys with dots make the tables on their way, but never reach
  into a table that a header or braces have defined.
* `Toml.openTable?` and `Toml.openItem?` define a table by a header.  A table that only
  stood above another one may still be defined, any other table may not.
-/

namespace Picklist

/-- How a table came about: by a header or braces, as one above a defined table, or by a
key with dots. -/
inductive TableForm where
  | defined
  | implied
  | dotted
  deriving DecidableEq, Repr

/-- A value of a document; numbers and dates are not told apart.  The items of an array of
tables come from headers. -/
inductive Toml where
  | text (value : String)
  | bool (value : Bool)
  | other
  | array (items : List Toml) (ofTables : Bool)
  | table (entries : List (String × Toml)) (form : TableForm)
  deriving Inhabited, Repr

namespace Toml

/-- The entries of a table. -/
abbrev Entries := List (String × Toml)

/-- Replaces the value of a key that is present. -/
def replace (key : String) (value : Toml) (entries : Entries) : Entries :=
  entries.map fun (k, v) => if k = key then (k, value) else (k, v)

/-- Sets the value of a new key, reached through the tables of a path. -/
def assign? (key : String) (value : Toml) : List String → Entries → Option Entries
  | [], entries =>
    match entries.lookup key with
    | some _ => none
    | none => some (entries ++ [(key, value)])
  | step :: path, entries =>
    match entries.lookup step with
    | none => do
      let inner ← assign? key value path []
      some (entries ++ [(step, .table inner .dotted)])
    | some (.table inner form) =>
      if form = .defined || (path.isEmpty && form = .implied) then none
      else do
        let inner ← assign? key value path inner
        some (replace step (.table inner form) entries)
    | some _ => none

/-- Changes the table at the end of a path, making the tables that are missing.  In an
array of tables the path goes on in the last one. -/
def within? (change : Entries → Option Entries) : List String → Entries → Option Entries
  | [], entries => change entries
  | step :: path, entries =>
    match entries.lookup step with
    | none => do
      let inner ← within? change path []
      some (entries ++ [(step, .table inner .implied)])
    | some (.table inner form) => do
      let inner ← within? change path inner
      some (replace step (.table inner form) entries)
    | some (.array items true) =>
      match items.getLast? with
      | some (.table inner form) => do
        let inner ← within? change path inner
        some (replace step (.array (items.dropLast ++ [.table inner form]) true) entries)
      | _ => none
    | some _ => none

/-- Defines a table by its header. -/
def openTable? (path : List String) (key : String) : Entries → Option Entries :=
  within? (fun entries =>
    match entries.lookup key with
    | none => some (entries ++ [(key, .table [] .defined)])
    | some (.table inner .implied) => some (replace key (.table inner .defined) entries)
    | some _ => none) path

/-- Adds a table to an array of tables by its header. -/
def openItem? (path : List String) (key : String) : Entries → Option Entries :=
  within? (fun entries =>
    match entries.lookup key with
    | none => some (entries ++ [(key, .array [.table [] .defined] true)])
    | some (.array items true) =>
      some (replace key (.array (items ++ [.table [] .defined]) true) entries)
    | some _ => none) path

/-! ## Statements -/

/-- A line of a document: a header, or a key with its value. -/
inductive Statement where
  | header (path : List String) (key : String) (item : Bool)
  | assign (path : List String) (key : String) (value : Toml)
  deriving Repr

/-- Carries out statements, the keys of which belong to the table at `current`. -/
def execute? (current : List String) (root : Entries) : List Statement → Option Entries
  | [] => some root
  | .header path key item :: rest => do
    let root ← if item then openItem? path key root else openTable? path key root
    execute? (path ++ [key]) root rest
  | .assign path key value :: rest => do
    let root ← within? (assign? key value path) current root
    execute? current root rest

end Toml

end Picklist
