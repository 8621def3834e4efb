import TracedGrammar.Diagnostic
import TracedGrammar.Grammar
import TracedGrammar.Text.Quoted
import TracedGrammar.Value

/-!
# Grammars from matched values

A grammar document is read by matching it with the grammar of grammar documents. The value of that
match becomes a syntax tree here. Each node takes the span of the record it comes from, but a
name's span covers the name only, without the blanks after it.
-/

namespace TracedGrammar

/-- What a value lacks to be a grammar. -/
inductive ShapeFault where
  | notRecord (tags : List String) (found : Value)
  | noField (record : Record Value) (name : String)
  | notList (found : Value)
  | notText (found : Value)
  | unknownSuffix (symbol : String)
  | notOneChar (text : String)

namespace ShapeFault

/-- A value as messages describe it: a tagged record by its tag, anything else by its kind. -/
def describe : Value → String
  | .record { tag := some tag, .. } => s!"record '{tag}'"
  | value => value.kindName.toLower

/-- The wording of a fault. -/
def message : ShapeFault → String
  | notRecord tags found =>
      "malformed grammar value: expected " ++ " or ".intercalate tags ++ ", found "
        ++ describe found
  | noField record name =>
      let owner := record.tag.getD "record"
      s!"malformed grammar value: {owner} has no field '{name}'"
  | notList found => "malformed grammar value: expected a list, found " ++ describe found
  | notText found => "malformed grammar value: expected text, found " ++ describe found
  | unknownSuffix symbol => s!"unknown repetition suffix '{symbol}'"
  | notOneChar text => "expected a single character, found " ++ Text.quote text

/-- The report of a fault. -/
def diagnostic (fault : ShapeFault) : Diagnostic :=
  { kind := .internal, message := fault.message }

end ShapeFault

namespace Value

/-- The content of a record with one of the given tags. -/
def expectRecord (tags : List String) (value : Value) : Except ShapeFault (Record Value) :=
  match value with
  | .record content =>
      match content.tag with
      | some tag => if tags.contains tag then .ok content else .error (.notRecord tags value)
      | none => .error (.notRecord tags value)
  | _ => .error (.notRecord tags value)

/-- The items of a list. -/
def expectList : Value → Except ShapeFault (List Value)
  | .list items => .ok items
  | value => .error (.notList value)

/-- The content of a text. -/
def expectText : Value → Except ShapeFault String
  | .text content => .ok content
  | value => .error (.notText value)

end Value

namespace Record

/-- The value of a field that has to be there. -/
def expectField (record : Record Value) (name : String) : Except ShapeFault Value :=
  match record.get? name with
  | some value => .ok value
  | none => .error (.noField record name)

/-- The span of a record, and the empty span at the start for a record without one. -/
def spanOrZero (record : Record Value) : Span :=
  record.span.getD ⟨0, 0⟩

end Record

/-- The name that a value of rule `ident` stands for. -/
def Ident.ofValue (value : Value) : Except ShapeFault Ident := do
  let record ← value.expectRecord ["ident"]
  let name ← (← record.expectField "name").expectText
  let start := record.spanOrZero.start
  return ⟨name, ⟨start, start + name.utf8ByteSize⟩⟩

/-- The rules that match a character after a backslash. -/
def escapedCharRules : List String :=
  ["classCharEscape", "string1CharEscape", "string2CharEscape"]

/-- The rules that match a character of a class or a literal. -/
def charRules : List String :=
  ["classCharSimple", "classCharEscape", "string1CharSimple", "string1CharEscape",
    "string2CharSimple", "string2CharEscape"]

/-- The character that a value of a character rule stands for. -/
def SourceChar.ofValue (value : Value) : Except ShapeFault SourceChar := do
  let record ← value.expectRecord charRules
  let text ← (← record.expectField "char").expectText
  match text.toList with
  | [char] =>
      return ⟨char, (record.tag.map escapedCharRules.contains).getD false, record.spanOrZero⟩
  | _ => throw (.notOneChar text)

/-- The class member that a value stands for. -/
def ClassMember.ofValue (value : Value) : Except ShapeFault ClassMember := do
  let record ← value.expectRecord ["range", "single"]
  if record.tag = some "range" then
    let low ← SourceChar.ofValue (← record.expectField "from")
    let high ← SourceChar.ofValue (← record.expectField "to")
    return .range low high record.spanOrZero
  else return .single (← SourceChar.ofValue (← record.expectField "char"))

/-- The atom that a value stands for. -/
def Atom.ofValue (value : Value) : Except ShapeFault Atom := do
  let record ← value.expectRecord ["ref", "klass", "string1", "string2"]
  if record.tag = some "ref" then
    return .reference (← Ident.ofValue (← record.expectField "name"))
  else if record.tag = some "klass" then
    let members ← (← (← record.expectField "parts").expectList).mapM ClassMember.ofValue
    let inverted ← record.expectField "inverted"
    return .charClass (!inverted.isAbsent) members record.spanOrZero
  else
    let quote := if record.tag = some "string1" then Quote.single else .double
    let chars ← (← (← record.expectField "chars").expectList).mapM SourceChar.ofValue
    return .literal quote chars record.spanOrZero

/-- The suffix that a symbol stands for. -/
def Suffix.ofSymbol (symbol : String) : Except ShapeFault Suffix :=
  if symbol = "+" then .ok .oneOrMore
  else if symbol = "*" then .ok .zeroOrMore
  else if symbol = "?" then .ok .optional
  else .error (.unknownSuffix symbol)

/-- The field name that an optional value stands for. -/
def Part.fieldOfValue : Value → Except ShapeFault (Option Ident)
  | .absent => return none
  | value => do
      let record ← value.expectRecord ["field"]
      return some (← Ident.ofValue (← record.expectField "name"))

/-- The suffix that an optional value stands for. -/
def Part.suffixOfValue : Value → Except ShapeFault (Option Suffix)
  | .absent => return none
  | value => do
      let record ← value.expectRecord ["suffix"]
      return some (← Suffix.ofSymbol (← (← record.expectField "suffix").expectText))

/-- The part that a value stands for. -/
def Part.ofValue (value : Value) : Except ShapeFault Part := do
  let record ← value.expectRecord ["part"]
  let field ← Part.fieldOfValue (← record.expectField "field")
  let suffix ← Part.suffixOfValue (← record.expectField "suffix")
  let stringify ← record.expectField "stringify"
  let atom ← Atom.ofValue (← record.expectField "term")
  return { field, stringify := !stringify.isAbsent, atom, suffix, span := record.spanOrZero }

/-- The name of the rule that a case of a union stands for. -/
def Rule.caseOfValue (value : Value) : Except ShapeFault Ident := do
  let record ← value.expectRecord ["kase"]
  Ident.ofValue (← record.expectField "kase")

/-- The rule that a value stands for. -/
def Rule.ofValue (value : Value) : Except ShapeFault Rule := do
  let record ← value.expectRecord ["union", "sequence"]
  let name ← Ident.ofValue (← record.expectField "name")
  if record.tag = some "union" then
    let cases ← (← (← record.expectField "cases").expectList).mapM Rule.caseOfValue
    return .union name cases record.spanOrZero
  else
    let parts ← (← (← record.expectField "parts").expectList).mapM Part.ofValue
    return .sequence name parts record.spanOrZero

/-- The grammar that the value of a matched document stands for. -/
def Grammar.ofValue (value : Value) : Except ShapeFault Grammar := do
  let record ← value.expectRecord ["grammar"]
  let rules ← (← (← record.expectField "rules").expectList).mapM Rule.ofValue
  return ⟨rules, record.spanOrZero⟩

end TracedGrammar
