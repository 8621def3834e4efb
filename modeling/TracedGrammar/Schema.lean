import TracedGrammar.Grammar
import TracedGrammar.Json

/-!
# Schemas

The types of the values that the rules of a grammar yield, read off the syntax tree. A sequence rule
yields a record with a field for each named part; a union rule yields what one of its cases yields.
-/

namespace TracedGrammar

/-- The type of a captured value. -/
inductive FieldType where
  | text
  /-- The value of a rule. -/
  | reference (rule : String)
  | list (item : FieldType)
  | optional (inner : FieldType)
  /-- A byte offset. -/
  | offset
deriving DecidableEq, Inhabited

/-- A field of a record type. -/
structure Field where
  name : String
  type : FieldType
deriving DecidableEq, Inhabited

/-- The type that a rule yields. -/
inductive TypeDecl where
  | record (rule : String) (fields : List Field)
  | union (rule : String) (cases : List String)
deriving DecidableEq, Inhabited

namespace FieldType

/-- The type as JSON. -/
def toJson : FieldType → Json
  | text => .obj [("kind", .str "text")]
  | reference rule => .obj [("kind", .str "ref"), ("of", .str rule)]
  | list item => .obj [("kind", .str "list"), ("of", item.toJson)]
  | optional inner => .obj [("kind", .str "optional"), ("of", inner.toJson)]
  | offset => .obj [("kind", .str "offset")]

end FieldType

namespace TypeDecl

/-- The rule that a declaration is about. -/
def rule : TypeDecl → String
  | record rule _ => rule
  | union rule _ => rule

/-- The field names of a record, in order of capture. -/
def fieldNames : TypeDecl → List String
  | record _ fields => fields.map (·.name)
  | union _ _ => []

/-- The declaration as JSON. -/
def toJson : TypeDecl → Json
  | record rule fields =>
      .obj [("kind", .str "record"), ("rule", .str rule),
        ("fields", .arr (fields.map fun field =>
          .obj [("name", .str field.name), ("ty", field.type.toJson)]))]
  | union rule cases =>
      .obj [("kind", .str "union"), ("rule", .str rule), ("cases", .arr (cases.map .str))]

end TypeDecl

/-- The type under a suffix. -/
def Suffix.wrapType (base : FieldType) : Option Suffix → FieldType
  | none => base
  | some oneOrMore | some zeroOrMore => .list base
  | some optional => .optional base

/-- The type of the value of an atom. -/
def Atom.describe : Atom → FieldType
  | reference target => .reference target.name
  | charClass .. | literal .. => .text

/-- The field of a named part. -/
def Part.describe? (part : Part) : Option Field :=
  part.field.map fun field =>
    ⟨field.name,
      if part.stringify then .text else Suffix.wrapType part.atom.describe part.suffix⟩

/-- The fields after one more capture: a field of that name keeps its place and gets the new
type. -/
def Field.insert (added : Field) : List Field → List Field
  | [] => [added]
  | field :: fields =>
      if field.name = added.name then { field with type := added.type } :: fields
      else field :: added.insert fields

/-- The type that a rule yields. -/
def Rule.describe : Rule → TypeDecl
  | sequence name parts _ =>
      .record name.name
        ((parts.filterMap Part.describe?).foldl (fun fields added => added.insert fields) [])
  | union name cases _ => .union name.name (cases.map (·.name))

/-- The types that the rules of a grammar yield, in order. -/
def Grammar.describe (grammar : Grammar) : List TypeDecl :=
  grammar.rules.map Rule.describe

end TracedGrammar
