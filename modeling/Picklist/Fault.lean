/-
# Faults

The one kind of error that hosts see.  A fault says what went wrong, in which part, and
why, in words.

* `Fault.ofSettings` and `Fault.ofSchema` file the errors of the parts.
* `Fault.toJson` and `Fault.read` write and read faults.
-/
import Picklist.Decoder
import Picklist.Json.Writer
import Picklist.Settings.Reader

namespace Picklist

/-! ## Errors of schemas -/

/-- Why a schema cannot be read or written. -/
inductive SchemaError where
  | decode (problem : Problem)
  | encode (problem : Problem)
  deriving Repr

/-- The error in words. -/
def SchemaError.message : SchemaError → String
  | .decode p => "failed to decode schema: " ++ p.message?.getD "malformed document"
  | .encode p => "failed to encode schema: " ++ p.message?.getD "malformed document"

/-! ## Kinds of faults -/

/-- What can go wrong with settings. -/
inductive SettingsFault where
  | io
  | parse
  | invalid
  deriving DecidableEq, Repr

/-- What can go wrong with schemas. -/
inductive SchemaFault where
  | decode
  | encode
  deriving DecidableEq, Repr

/-- What went wrong. -/
inductive FaultKind where
  | settings (fault : SettingsFault)
  | schema (fault : SchemaFault)
  deriving DecidableEq, Repr

/-- Where it went wrong. -/
inductive FaultOrigin where
  | settings
  | schema
  deriving DecidableEq, Repr

namespace SettingsFault

/-- All kinds. -/
def all : List SettingsFault := [.io, .parse, .invalid]

/-- The name of a kind. -/
def text : SettingsFault → String
  | .io => "Io"
  | .parse => "Parse"
  | .invalid => "Invalid"

end SettingsFault

namespace SchemaFault

/-- All kinds. -/
def all : List SchemaFault := [.decode, .encode]

/-- The name of a kind. -/
def text : SchemaFault → String
  | .decode => "Decode"
  | .encode => "Encode"

end SchemaFault

namespace FaultOrigin

/-- All origins. -/
def all : List FaultOrigin := [.settings, .schema]

/-- The name of an origin. -/
def text : FaultOrigin → String
  | .settings => "Config"
  | .schema => "Schema"

/-- The names of all origins. -/
def names : List String := all.map text

end FaultOrigin

namespace FaultKind

/-- The origin that faults of a kind belong to. -/
def origin : FaultKind → FaultOrigin
  | .settings _ => .settings
  | .schema _ => .schema

/-- The name of the kind within its origin. -/
def detail : FaultKind → String
  | .settings f => f.text
  | .schema f => f.text

/-- All kinds. -/
def all : List FaultKind := SettingsFault.all.map .settings ++ SchemaFault.all.map .schema

/-- The kind in one word. -/
def text (k : FaultKind) : String := k.origin.text ++ "." ++ k.detail

/-- The kind that a word is. -/
def ofText? (w : String) : Option FaultKind := all.find? fun k => k.text = w

end FaultKind

/-! ## Faults -/

/-- An error as hosts see it. -/
structure Fault where
  kind : FaultKind
  origin : FaultOrigin
  message : String
  deriving DecidableEq, Repr

namespace Fault

/-- The fault for an error of settings. -/
def ofSettings (e : SettingsError) : Fault :=
  let kind : SettingsFault :=
    match e with
    | .unreadable _ _ => .io
    | .unparsable => .parse
    | .invalid _ => .invalid
  ⟨.settings kind, .settings, e.message⟩

/-- The fault for an error of a schema. -/
def ofSchema (e : SchemaError) : Fault :=
  let kind : SchemaFault :=
    match e with
    | .decode _ => .decode
    | .encode _ => .encode
  ⟨.schema kind, .schema, e.message⟩

/-- The fault as JSON. -/
def toJson (f : Fault) : Json :=
  .obj [("kind", .obj [(f.kind.origin.text, .str f.kind.detail)]),
    ("origin", .str f.origin.text), ("message", .str f.message)]

/-! ## Reading faults -/

/-- Reads a name of a list of values, which has no content. -/
def readName {α : Type} (medium : Medium) (text : α → String) (all : List α) :
    Decoder α :=
  Document.asVariant medium (all.map text) fun word content => do
    match content with
    | some d => d.asNothing
    | none => pure ()
    match all.find? fun a => text a = word with
    | some a => pure a
    | none => .error (.unknownVariant word (all.map text))

/-- Reads the kind of a fault: the name of its origin, with the name within it. -/
def readKind (medium : Medium) : Decoder FaultKind :=
  Document.asVariant medium FaultOrigin.names fun word content =>
    match content with
    | none => .error (.wrongType .bareVariant "newtype variant")
    | some d =>
      if word = FaultOrigin.settings.text then
        (readName medium SettingsFault.text SettingsFault.all d).map .settings
      else (readName medium SchemaFault.text SchemaFault.all d).map .schema

/-- Reads the origin of a fault. -/
def readOrigin (medium : Medium) : Decoder FaultOrigin :=
  readName medium FaultOrigin.text FaultOrigin.all

/-- What is known of a fault while its members are read. -/
structure Draft where
  kind : Option FaultKind
  origin : Option FaultOrigin
  message : Option String

/-- Reads one member of a fault; unknown members are passed over. -/
def step (medium : Medium) (s : Draft) (name : String) (d : Document) :
    Except Problem Draft :=
  match name with
  | "kind" => do return { s with kind := ← once name s.kind (readKind medium) d }
  | "origin" => do return { s with origin := ← once name s.origin (readOrigin medium) d }
  | "message" => do return { s with message := ← once name s.message Document.asText d }
  | _ => do
    d.skip
    return s

/-- Reads a fault: an object, or a sequence of its three parts. -/
def read (medium : Medium) : Decoder Fault
  | .arr items closed => do
    let expected := "struct Error with 3 elements"
    let (kind, items) ← Document.nextItem (readKind medium) expected 0 closed items
    let (origin, items) ← Document.nextItem (readOrigin medium) expected 1 closed items
    let (message, items) ← Document.nextItem Document.asText expected 2 closed items
    Document.endItems medium 3 closed items
    return ⟨kind, origin, message⟩
  | d => do
    let s ← d.foldMembers "struct Error" (step medium) ⟨none, none, none⟩
    let kind ← required "kind" s.kind
    let origin ← required "origin" s.origin
    let message ← required "message" s.message
    return ⟨kind, origin, message⟩

end Fault

end Picklist
