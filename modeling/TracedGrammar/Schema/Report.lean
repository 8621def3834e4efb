import TracedGrammar.Schema
import TracedGrammar.Settings
import TracedGrammar.Text.Capital
import TracedGrammar.Text.Quoted
import TracedGrammar.Value.Text

/-!
# Schema reports

The types of a grammar as interface and type declarations, one member a line. The members of an
interface are the keys that the record's JSON has: a field named like the tag field replaces it, and
the offsets replace fields named like theirs.
-/

namespace TracedGrammar

/-- The written form of a type. -/
def FieldType.display : FieldType → String
  | text => "string"
  | offset => "number"
  | reference rule => Text.capitalize rule
  | list (optional inner) => "(" ++ (optional inner).display ++ ")[]"
  | list item => item.display ++ "[]"
  | optional inner => inner.display ++ " | null"

namespace SchemaReport

/-- The line of a member of an interface. -/
def memberLine (name type : String) : String :=
  "    " ++ name ++ ": " ++ type ++ ";"

/-- The lines of the members of a record. -/
def memberLines (style : SchemaStyle) (rule : String) (fields : List Field) : List String :=
  let tag :=
    if fields.any (·.name == style.tagField) then []
    else [memberLine style.tagField (Text.quote rule)]
  let shown :=
    if style.includeOffsets then fields.filter (!Record.isSpanKey ·.name) else fields
  let offsets :=
    if style.includeOffsets then
      [memberLine Record.startKey FieldType.offset.display,
        memberLine Record.stopKey FieldType.offset.display]
    else []
  tag ++ shown.map (fun field => memberLine field.name field.type.display) ++ offsets

/-- The lines of a declaration. -/
def declLines (style : SchemaStyle) : TypeDecl → List String
  | .record rule fields =>
      ["export interface " ++ Text.capitalize rule ++ " \x7b"] ++ memberLines style rule fields
        ++ ["\x7d"]
  | .union rule cases =>
      ["export type " ++ Text.capitalize rule ++ " = "
        ++ " | ".intercalate (cases.map Text.capitalize) ++ ";"]

/-- The lines of a report, with a blank line between declarations. -/
def lines (style : SchemaStyle) : List TypeDecl → List String
  | [] => []
  | first :: rest => declLines style first ++ rest.flatMap fun decl => "" :: declLines style decl

/-- A line cut to a width. A cut line ends with three dots, which count to the width as far as it
has room for them. -/
def cut (maxWidth : Option Nat) (line : String) : String :=
  match maxWidth with
  | some width =>
      if width < line.length then String.ofList (line.toList.take (width - 3)) ++ "..." else line
  | none => line

/-- The report of a list of declarations. -/
def render (style : SchemaStyle) (decls : List TypeDecl) : String :=
  String.join ((lines style decls).map fun line => cut style.maxWidth line ++ "\n")

end SchemaReport

end TracedGrammar
