/-
# Reading settings

Settings come from a TOML document with two sections.  Each section is a table, or an
array of its values in order; what is absent has its default, and nothing unknown may be
present.

* `Settings.read` reads and checks a document, `Settings.readPath` the one in a file.
* `Settings.names_of_read` says what checked settings promise: the entity name is a single
  segment, and neither it nor the metadata key is empty.
-/
import Picklist.QualifiedName
import Picklist.Settings.Basic
import Picklist.Toml.Reader

namespace Picklist

/-! ## Errors -/

/-- Why names in settings cannot be used in a schema. -/
inductive Settings.Flaw where
  | emptyEntity
  | dottedEntity (name : String)
  | emptyMetaKey
  deriving DecidableEq, Repr

/-- The flaw in words. -/
def Settings.Flaw.message : Settings.Flaw → String
  | .emptyEntity => "value_list.entity is empty"
  | .dottedEntity name => "value_list.entity '" ++ name ++ "' must not contain '.'"
  | .emptyMetaKey => "enrich.meta_key is empty"

/-- Why there are no settings: their file cannot be read, they are not understood, or they
are not usable. -/
inductive SettingsError where
  | unreadable (path reason : String)
  | unparsable
  | invalid (reason : String)
  deriving DecidableEq, Repr

/-- The error in words. -/
def SettingsError.message : SettingsError → String
  | .unreadable path reason => "failed to read config file '" ++ path ++ "': " ++ reason
  | .unparsable => "failed to parse config"
  | .invalid reason => "invalid config: " ++ reason

namespace Settings

/-! ## Sections -/

/-- The values of a section by name; the values of an array are named in order, and
surplus ones are passed over. -/
def section? (names : List String) : Option Toml → Option Toml.Entries
  | none => some []
  | some (.table entries _) =>
    if entries.all fun (name, _) => names.contains name then some entries else none
  | some (.array items _) => some (names.zip items)
  | some _ => none

/-- The text of a name, or its default. -/
def text? (name default : String) (entries : Toml.Entries) : Option String :=
  match entries.lookup name with
  | none => some default
  | some (.text s) => some s
  | some _ => none

/-- The truth value of a name, or its default. -/
def flag? (name : String) (default : Bool) (entries : Toml.Entries) : Option Bool :=
  match entries.lookup name with
  | none => some default
  | some (.bool b) => some b
  | some _ => none

/-- The settings of a document. -/
def ofToml? (root : Toml.Entries) : Option Settings := do
  let standard : Settings := {}
  let root ← section? ["value_list", "enrich"] (some (.table root .defined))
  let list ← section? ["entity", "title", "doc"] (root.lookup "value_list")
  let enrich ← section? ["mark_processed", "meta_key"] (root.lookup "enrich")
  return {
    entity := ← text? "entity" standard.entity list
    title := ← text? "title" standard.title list
    doc := ← text? "doc" standard.doc list
    markProcessed := ← flag? "mark_processed" standard.markProcessed enrich
    metaKey := ← text? "meta_key" standard.metaKey enrich }

/-! ## Checks -/

/-- What is wrong with the names, if anything. -/
def flaw? (s : Settings) : Option Flaw :=
  if s.entity = "" then some .emptyEntity
  else if ¬QualifiedName.isSingle s.entity then some (.dottedEntity s.entity)
  else if s.metaKey = "" then some .emptyMetaKey
  else none

/-- Reads and checks the settings in a text. -/
def read (text : String) : Except SettingsError Settings :=
  match (Toml.read? text).bind ofToml? with
  | none => .error .unparsable
  | some s =>
    match s.flaw? with
    | some flaw => .error (.invalid flaw.message)
    | none => .ok s

/-- Reads and checks the settings in the file at a path.  Files are the host's: `textAt`
gives the text of one, or the host's words for why there is none. -/
def readPath (textAt : String → Except String String) (path : String) :
    Except SettingsError Settings :=
  match textAt path with
  | .error reason => .error (.unreadable path reason)
  | .ok text => read text

theorem flaw?_eq_none_iff {s : Settings} :
    s.flaw? = none ↔
      s.entity ≠ "" ∧ QualifiedName.isSingle s.entity = true ∧ s.metaKey ≠ "" := by
  unfold flaw?
  split
  case isTrue h => simp [h]
  case isFalse => split <;> simp_all

theorem read_eq_ok_iff {text : String} {s : Settings} :
    read text = .ok s ↔ (Toml.read? text).bind ofToml? = some s ∧ s.flaw? = none := by
  unfold read
  cases (Toml.read? text).bind ofToml? with
  | none => simp
  | some t =>
    cases ht : t.flaw? with
    | none =>
      simp only [ht, Except.ok.injEq, Option.some.injEq]
      exact ⟨fun h => ⟨h, h ▸ ht⟩, And.left⟩
    | some flaw =>
      simp only [ht, Option.some.injEq, reduceCtorEq, false_iff, not_and]
      rintro rfl
      simp [ht]

/-- Settings that were read have usable names. -/
theorem names_of_read {text : String} {s : Settings} (h : read text = .ok s) :
    s.entity ≠ "" ∧ QualifiedName.isSingle s.entity = true ∧ s.metaKey ≠ "" :=
  flaw?_eq_none_iff.mp (read_eq_ok_iff.mp h).2

end Settings

end Picklist
