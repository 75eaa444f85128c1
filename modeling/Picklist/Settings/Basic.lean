/-
# Settings

What a host may set: names and texts of the shared value list, and how enrichment leaves
its marks.
-/

namespace Picklist

/-- The settings, each with its default. -/
structure Settings where
  /-- The name of the value-list entity, also the last segment of its projections. -/
  entity : String := "EnumValueHelpView"
  /-- The title of the value column. -/
  title : String := "Value"
  /-- The documentation of the value-list entity. -/
  doc : String :=
    "Generic view that exposes enum values for any field annotated with @enumValueHelp"
  /-- Whether eligible entities are marked as processed. -/
  markProcessed : Bool := true
  /-- The metadata key that records a finished enrichment. -/
  metaKey : String := "enum.value.help.enhanced"
  deriving DecidableEq, Repr, Inhabited

end Picklist
