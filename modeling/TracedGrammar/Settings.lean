import TracedGrammar.Json
import TracedGrammar.Program

/-!
# Settings

The options of an engine and of the schema report.
-/

namespace TracedGrammar

/-- The options of the schema report: the name of the field that holds a record's rule, whether
records list their offsets, and the width that longer lines are cut to. -/
structure SchemaStyle where
  tagField : String := "type"
  includeOffsets : Bool := true
  maxWidth : Option Nat := none
deriving DecidableEq, Inhabited

/-- The options of an engine: the rule to start from, which is the first one if not set, the limit
on nested calls, and the options of the schema report. -/
structure Settings where
  startRule : Option String := none
  maxDepth : Nat := defaultMaxDepth
  schema : SchemaStyle := {}
deriving DecidableEq, Inhabited

/-- The options of the schema report as JSON. -/
def SchemaStyle.toJson (style : SchemaStyle) : Json :=
  .obj [("tag_field", .str style.tagField), ("include_offsets", .bool style.includeOffsets),
    ("max_width", .ofNat? style.maxWidth)]

/-- The options of an engine as JSON. -/
def Settings.toJson (settings : Settings) : Json :=
  .obj [("start_rule", .ofText? settings.startRule), ("max_depth", .nat settings.maxDepth),
    ("schema", settings.schema.toJson)]

end TracedGrammar
