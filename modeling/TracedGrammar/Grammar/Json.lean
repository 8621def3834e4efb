import TracedGrammar.Grammar
import TracedGrammar.Json.Shape

/-!
# Grammars as JSON

The syntax tree as a JSON value, and the tree read back from one. Variants carry their tag under
`kind`. Where a field or a suffix is missing, it counts as null.
-/

namespace TracedGrammar

namespace Span

/-- The span as JSON. -/
def toJson (span : Span) : Json :=
  .obj [("start", .nat span.start), ("end", .nat span.stop)]

/-- The span that a JSON value stands for. -/
def ofJson? (json : Json) : Option Span := do
  let [start, stop] ← json.columns? ["start", "end"] | none
  return ⟨← (← start).asOffset?, ← (← stop).asOffset?⟩

end Span

namespace Ident

/-- The name as JSON. -/
def toJson (ident : Ident) : Json :=
  .obj [("name", .str ident.name), ("span", ident.span.toJson)]

/-- The name that a JSON value stands for. -/
def ofJson? (json : Json) : Option Ident := do
  let [name, span] ← json.columns? ["name", "span"] | none
  return ⟨← (← name).asText?, ← Span.ofJson? (← span)⟩

end Ident

namespace SourceChar

/-- The members of a character's object. -/
def members (char : SourceChar) : List (String × Json) :=
  [("ch", .str (String.singleton char.char)), ("escaped", .bool char.escaped),
    ("span", char.span.toJson)]

/-- The character as JSON. -/
def toJson (char : SourceChar) : Json :=
  .obj char.members

/-- The character that a JSON value stands for. -/
def ofJson? (json : Json) : Option SourceChar := do
  let [char, escaped, span] ← json.columns? ["ch", "escaped", "span"] | none
  return ⟨← (← char).asChar?, ← (← escaped).asBool?, ← Span.ofJson? (← span)⟩

end SourceChar

namespace ClassMember

/-- The class member as JSON. -/
def toJson : ClassMember → Json
  | range low high span =>
      .obj [("kind", .str "Range"), ("from", low.toJson), ("to", high.toJson),
        ("span", span.toJson)]
  | single char => .obj (("kind", .str "Single") :: char.members)

/-- The class member that a JSON value stands for. -/
def ofJson? (json : Json) : Option ClassMember := do
  let (tag, body) ← json.variant? "kind"
  match ← tag.tagByNameOrPosition? ["Range", "Single"] with
  | 0 =>
      let [low, high, span] ← body.columns? ["from", "to", "span"] | none
      return range (← SourceChar.ofJson? (← low)) (← SourceChar.ofJson? (← high))
        (← Span.ofJson? (← span))
  | _ => (SourceChar.ofJson? body).map single

end ClassMember

namespace Quote

/-- The quotes as JSON. -/
def toJson : Quote → Json
  | single => .str "Single"
  | double => .str "Double"

/-- The quotes that a JSON value stands for. -/
def ofJson? (json : Json) : Option Quote :=
  (json.choice? ["Single", "Double"]).bind fun position => [single, double][position]?

end Quote

namespace Suffix

/-- The suffix as JSON. -/
def toJson : Suffix → Json
  | oneOrMore => .str "OneOrMore"
  | zeroOrMore => .str "ZeroOrMore"
  | optional => .str "Optional"

/-- The suffix that a JSON value stands for. -/
def ofJson? (json : Json) : Option Suffix :=
  (json.choice? ["OneOrMore", "ZeroOrMore", "Optional"]).bind fun position =>
    [oneOrMore, zeroOrMore, optional][position]?

end Suffix

namespace Atom

/-- The atom as JSON. -/
def toJson : Atom → Json
  | reference target =>
      .obj [("kind", .str "Ref"), ("name", .str target.name), ("span", target.span.toJson)]
  | charClass inverted members span =>
      .obj [("kind", .str "Class"), ("inverted", .bool inverted),
        ("parts", .arr (members.map ClassMember.toJson)), ("span", span.toJson)]
  | literal quote chars span =>
      .obj [("kind", .str "Literal"), ("quote", quote.toJson),
        ("chars", .arr (chars.map SourceChar.toJson)), ("span", span.toJson)]

/-- The atom that a JSON value stands for. -/
def ofJson? (json : Json) : Option Atom := do
  let (tag, body) ← json.variant? "kind"
  match ← tag.tagByNameOrPosition? ["Ref", "Class", "Literal"] with
  | 0 => (Ident.ofJson? body).map reference
  | 1 =>
      let [inverted, members, span] ← body.columns? ["inverted", "parts", "span"] | none
      return charClass (← (← inverted).asBool?)
        (← (← (← members).asList?).mapM ClassMember.ofJson?) (← Span.ofJson? (← span))
  | _ =>
      let [quote, chars, span] ← body.columns? ["quote", "chars", "span"] | none
      return literal (← Quote.ofJson? (← quote))
        (← (← (← chars).asList?).mapM SourceChar.ofJson?) (← Span.ofJson? (← span))

end Atom

namespace Part

/-- The part as JSON. -/
def toJson (part : Part) : Json :=
  .obj [("field", (part.field.map Ident.toJson).getD .null), ("stringify", .bool part.stringify),
    ("term", part.atom.toJson), ("suffix", (part.suffix.map Suffix.toJson).getD .null),
    ("span", part.span.toJson)]

/-- The part that a JSON value stands for. -/
def ofJson? (json : Json) : Option Part := do
  let [field, stringify, atom, suffix, span] ←
    json.columns? ["field", "stringify", "term", "suffix", "span"] | none
  return {
    field := ← Json.optional? Ident.ofJson? field
    stringify := ← (← stringify).asBool?
    atom := ← Atom.ofJson? (← atom)
    suffix := ← Json.optional? Suffix.ofJson? suffix
    span := ← Span.ofJson? (← span) }

end Part

namespace Rule

/-- The rule as JSON. -/
def toJson : Rule → Json
  | sequence name parts span =>
      .obj [("kind", .str "Sequence"), ("name", name.toJson),
        ("parts", .arr (parts.map Part.toJson)), ("span", span.toJson)]
  | union name cases span =>
      .obj [("kind", .str "Union"), ("name", name.toJson),
        ("cases", .arr (cases.map Ident.toJson)), ("span", span.toJson)]

/-- The rule that a JSON value stands for. -/
def ofJson? (json : Json) : Option Rule := do
  let (tag, body) ← json.variant? "kind"
  match ← tag.tagByName? ["Sequence", "Union"] with
  | 0 =>
      let [name, parts, span] ← body.columns? ["name", "parts", "span"] | none
      return sequence (← Ident.ofJson? (← name))
        (← (← (← parts).asList?).mapM Part.ofJson?) (← Span.ofJson? (← span))
  | _ =>
      let [name, cases, span] ← body.columns? ["name", "cases", "span"] | none
      return union (← Ident.ofJson? (← name))
        (← (← (← cases).asList?).mapM Ident.ofJson?) (← Span.ofJson? (← span))

end Rule

namespace Grammar

/-- The grammar as JSON. -/
def toJson (grammar : Grammar) : Json :=
  .obj [("rules", .arr (grammar.rules.map Rule.toJson)), ("span", grammar.span.toJson)]

/-- The grammar that a JSON value stands for. -/
def ofJson? (json : Json) : Option Grammar := do
  let [rules, span] ← json.columns? ["rules", "span"] | none
  return ⟨← (← (← rules).asList?).mapM Rule.ofJson?, ← Span.ofJson? (← span)⟩

end Grammar

end TracedGrammar
