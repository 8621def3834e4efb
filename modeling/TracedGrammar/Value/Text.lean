import TracedGrammar.Json.Text
import TracedGrammar.Text.Quoted
import TracedGrammar.Value

/-!
# Written values

A value as JSON and as a line of text. In JSON a record is one object: its tag
first, then the fields, then the span's bounds. No key is written twice: a field named like the tag
key replaces the tag, and the span's bounds replace fields named like theirs.
-/

namespace TracedGrammar.Record

/-- The key of a record's tag. -/
def tagKey : String := "type"

/-- The key of the first offset of a record's span. -/
def startKey : String := "$from"

/-- The key of the offset after a record's span. -/
def stopKey : String := "$to"

/-- Whether a name is one of the keys that a span writes. -/
def isSpanKey (name : String) : Bool :=
  name == startKey || name == stopKey

/-- The members of a record's object. -/
def members (record : Record Json) : List (String × Json) :=
  let tag := match record.tag with
    | some tag => if record.has tagKey then [] else [(tagKey, Json.str tag)]
    | none => []
  match record.span with
  | some span =>
      tag ++ record.fields.filter (!isSpanKey ·.1)
        ++ [(startKey, .nat span.start), (stopKey, .nat span.stop)]
  | none => tag ++ record.fields

/-- A record of displayed fields as one text. -/
def display (record : Record String) : String :=
  let fields := record.fields.map fun (name, value) => " " ++ name ++ ": " ++ value
  (match record.tag with
    | some tag => tag ++ " "
    | none => "")
    ++ "\x7b" ++ ",".intercalate fields ++ (if record.fields.isEmpty then "" else " ") ++ "\x7d"

end TracedGrammar.Record

namespace TracedGrammar.Value

mutual

/-- The value as JSON. -/
def toJson : Value → Json
  | .absent => .null
  | .text content => .str content
  | .list items => .arr (itemsToJson items)
  | .record ⟨tag, span, fields⟩ => .obj (Record.members ⟨tag, span, fieldsToJson fields⟩)

/-- The items of a list as JSON. -/
def itemsToJson : List Value → List Json
  | [] => []
  | item :: items => item.toJson :: itemsToJson items

/-- The fields of a record as JSON. -/
def fieldsToJson : List (String × Value) → List (String × Json)
  | [] => []
  | (name, value) :: fields => (name, value.toJson) :: fieldsToJson fields

end

mutual

/-- The value as text for a reader: records show their tag, and spans are left out. -/
def display : Value → String
  | .absent => "null"
  | .text content => Text.quote content
  | .list items => "[" ++ ", ".intercalate (displayItems items) ++ "]"
  | .record ⟨tag, span, fields⟩ => Record.display ⟨tag, span, displayFields fields⟩

/-- The displayed items of a list. -/
def displayItems : List Value → List String
  | [] => []
  | item :: items => item.display :: displayItems items

/-- The displayed fields of a record. -/
def displayFields : List (String × Value) → List (String × String)
  | [] => []
  | (name, value) :: fields => (name, value.display) :: displayFields fields

end

end TracedGrammar.Value
