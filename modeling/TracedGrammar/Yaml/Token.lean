import TracedGrammar.Yaml.Tag

/-!
# Tokens of YAML

The tokens of a stream. Outside flow collections, indentation opens and closes collections: a
deeper entry or key opens one, and a line that is indented less closes it. A key is known to be one
only at the colon after it, so places where a key could have begun are remembered, one for each
open flow collection, until the colon comes or the line ends.
-/

namespace TracedGrammar.Yaml

/-- How a scalar is written: without quotes, as a block that keeps its lines, or otherwise. -/
inductive ScalarStyle where
  | plain
  | literal
  | other
deriving DecidableEq

/-- A token. -/
inductive Token where
  | directive (directive : Directive)
  | documentStart
  | documentEnd
  | blockSequenceStart
  | blockMappingStart
  | blockEnd
  | flowSequenceStart
  | flowSequenceEnd
  | flowMappingStart
  | flowMappingEnd
  | blockEntry
  | flowEntry
  | key
  | value
  | anchor (name : String)
  | alias (name : String)
  | tag (tag : Tag)
  | scalar (text : String) (style : ScalarStyle)
deriving DecidableEq

/-- A place where a key may have begun: the number of tokens before it, and whether nothing but a
key can stand there. -/
structure KeyPlace where
  tokens : Nat
  line : Nat
  column : Nat
  position : Nat
  required : Bool

/-- The state of reading tokens. -/
structure Scan where
  rest : List Placed
  tokens : Array Token := #[]
  /-- Whether a key may begin here. -/
  keyAllowed : Bool := true
  /-- The column of the innermost collection that indentation has opened. -/
  indent : Int := -1
  /-- The columns of the collections around it. -/
  outer : List Int := []
  /-- The places where keys may have begun, the innermost collection first. -/
  keys : List (Option KeyPlace) := [none]

namespace Scan

/-- Whether a flow collection is open. -/
def inFlow (scan : Scan) : Bool :=
  1 < scan.keys.length

/-- The state with one more token. -/
def add (scan : Scan) (token : Token) : Scan :=
  { scan with tokens := scan.tokens.push token }

/-- The state with a token put in front of a number of others. -/
def addAt (scan : Scan) (before : Nat) (token : Token) : Scan :=
  { scan with tokens := scan.tokens.insertIdxIfInBounds before token }

/-- Closes the collections that are indented more than a column. -/
def closeTo (column : Int) (tokens : Array Token) (indent : Int) :
    List Int → Array Token × Int × List Int
  | [] => (tokens, indent, [])
  | around :: outer =>
      if column < indent then closeTo column (tokens.push .blockEnd) around outer
      else (tokens, indent, around :: outer)

/-- Closes the collections that a line of the given indentation is not part of. -/
def unroll (scan : Scan) (column : Int) : Scan :=
  if scan.inFlow then scan
  else
    let (tokens, indent, outer) := closeTo column scan.tokens scan.indent scan.outer
    { scan with tokens, indent, outer }

/-- Opens a collection at a column in front of a number of tokens, unless it is open already. -/
def roll (scan : Scan) (column : Nat) (before : Nat) (token : Token) : Scan :=
  if scan.inFlow then scan
  else if scan.indent < column then
    { scan.addAt before token with indent := column, outer := scan.indent :: scan.outer }
  else scan

/-- Forgets the place of a key, which must not be one where only a key can stand. -/
def dropKey? (scan : Scan) : Option Scan :=
  match scan.keys with
  | some key :: keys => if key.required then none else some { scan with keys := none :: keys }
  | _ => some scan

/-- Remembers that a key may begin here. -/
def saveKey? (scan : Scan) (next : Placed) : Option Scan :=
  if scan.keyAllowed then do
    let scan ← scan.dropKey?
    let place : KeyPlace :=
      { tokens := scan.tokens.size
        line := next.line
        column := next.column
        position := next.position
        required := !scan.inFlow && scan.indent == next.column }
    return { scan with keys := some place :: scan.keys.drop 1 }
  else some scan

/-- Forgets the places of keys that are too far back by now: a key and its colon stand on one line,
at most 1024 characters apart. -/
def dropStaleKeys? (next : Placed) : List (Option KeyPlace) → Option (List (Option KeyPlace))
  | [] => some []
  | none :: keys => (dropStaleKeys? next keys).map (none :: ·)
  | some key :: keys => do
      let keys ← dropStaleKeys? next keys
      if key.line < next.line || key.position + 1024 < next.position then
        if key.required then none else return none :: keys
      else return some key :: keys

/-- Whether a byte order mark at the start of a line comes next. Anywhere else it is a character
like others. -/
def isOrderMark (next : Placed) : Bool :=
  next.column == 0 && next.char.toNat == 0xfeff

/-- Skips blanks, comments, line breaks and byte order marks before a token. Tabs do not count as
blanks where a key may begin. -/
def skip (flow comment keyAllowed : Bool) : List Placed → List Placed × Bool
  | [] => ([], keyAllowed)
  | next :: rest =>
      if isOrderMark next then skip flow comment keyAllowed rest
      else if isBreak next.char then skip flow false (keyAllowed || !flow) rest
      else if comment || next.char == ' ' || (next.char == '\t' && (flow || !keyAllowed)) then
        skip flow comment keyAllowed rest
      else if next.char == '#' then skip flow true keyAllowed rest
      else (next :: rest, keyAllowed)

/-- The name of an anchor or alias, and what follows. -/
def anchorName? (chars : List Placed) : Option (String × List Placed) :=
  let (name, rest) := nameAhead chars
  let ends := atBlank rest || ((peek? rest).map fun char =>
    "?:,]\x7d%@".contains char || char.toNat == 0x60).getD false
  if name.isEmpty || !ends then none else some (name, rest)

/-- Opens a flow collection. -/
def openFlow? (scan : Scan) (next : Placed) (rest : List Placed) (token : Token) :
    Option Scan := do
  let scan ← scan.saveKey? next
  return { scan.add token with keys := none :: scan.keys, keyAllowed := true, rest }

/-- Closes a flow collection. -/
def closeFlow? (scan : Scan) (rest : List Placed) (token : Token) : Option Scan := do
  let scan ← scan.dropKey?
  return { scan.add token with
    keys := if scan.inFlow then scan.keys.drop 1 else scan.keys
    keyAllowed := false
    rest }

/-- Starts or ends a document. -/
def documentMark? (scan : Scan) (next : Placed) (rest : List Placed) : Option Scan := do
  let scan ← (scan.unroll (-1)).dropKey?
  return { scan.add (if next.char == '-' then .documentStart else .documentEnd) with
    keyAllowed := false
    rest := rest.drop 2 }

/-- An entry of a block sequence. -/
def blockEntry? (scan : Scan) (next : Placed) (rest : List Placed) : Option Scan := do
  if !scan.inFlow && !scan.keyAllowed then none
  let scan ← (scan.roll next.column scan.tokens.size .blockSequenceStart).dropKey?
  return { scan.add .blockEntry with keyAllowed := true, rest }

/-- A key with its sign in front. -/
def explicitKey? (scan : Scan) (next : Placed) (rest : List Placed) : Option Scan := do
  if !scan.inFlow && !scan.keyAllowed then none
  let scan ← (scan.roll next.column scan.tokens.size .blockMappingStart).dropKey?
  return { scan.add .key with keyAllowed := !scan.inFlow, rest }

/-- A colon: what began at the remembered place turns out to be the key. -/
def value? (scan : Scan) (next : Placed) (rest : List Placed) : Option Scan :=
  match scan.keys with
  | some key :: keys =>
      let scan := (scan.addAt key.tokens .key).roll key.column key.tokens .blockMappingStart
      some { scan.add .value with keys := none :: keys, keyAllowed := false, rest }
  | _ =>
      if !scan.inFlow && !scan.keyAllowed then none
      else
        let scan := scan.roll next.column scan.tokens.size .blockMappingStart
        some { scan.add .value with keyAllowed := !scan.inFlow, rest }

/-- An anchor or an alias. -/
def anchor? (scan : Scan) (next : Placed) (rest : List Placed) : Option Scan := do
  let scan ← scan.saveKey? next
  let (name, rest) ← anchorName? rest
  return { scan.add (if next.char == '&' then .anchor name else .alias name) with
    keyAllowed := false
    rest }

/-- Whether a plain scalar may start here. -/
def startsPlain (flow : Bool) (char : Char) (rest : List Placed) : Bool :=
  if char == '-' then !(((peek? rest).map isBlank).getD false)
  else if char == '?' || char == ':' then !flow && !atBlank rest
  else !isBlank char && !",[]\x7b\x7d#&*!|>'\"%@".contains char && char.toNat != 0x60

/-- Reads the next token, behind what is skipped before it. -/
def fetch? (scan : Scan) : Option Scan := do
  let (rest, keyAllowed) := skip scan.inFlow false scan.keyAllowed scan.rest
  match rest with
  | [] =>
      let scan ← { scan with rest, keyAllowed }.unroll (-1) |>.dropKey?
      return scan
  | next :: rest =>
      let keys ← dropStaleKeys? next scan.keys
      let scan := { scan with rest := next :: rest, keyAllowed, keys }.unroll next.column
      let flow := scan.inFlow
      let char := next.char
      if next.column = 0 && char == '%' then
        let scan ← (scan.unroll (-1)).dropKey?
        let (directive, rest) ← directive? rest
        return { scan.add (.directive directive) with keyAllowed := false, rest }
      else if atDocumentMark (next :: rest) then scan.documentMark? next rest
      else if char == '[' then scan.openFlow? next rest .flowSequenceStart
      else if char == '\x7b' then scan.openFlow? next rest .flowMappingStart
      else if char == ']' then scan.closeFlow? rest .flowSequenceEnd
      else if char == '\x7d' then scan.closeFlow? rest .flowMappingEnd
      else if char == ',' then
        let scan ← scan.dropKey?
        return { scan.add .flowEntry with keyAllowed := true, rest }
      else if char == '-' && atBlank rest then scan.blockEntry? next rest
      else if char == '?' && (flow || atBlank rest) then scan.explicitKey? next rest
      else if char == ':' && (flow || atBlank rest) then scan.value? next rest
      else if char == '&' || char == '*' then scan.anchor? next rest
      else if char == '!' then
        let scan ← scan.saveKey? next
        let (tag, rest) ← tag? flow rest
        return { scan.add (.tag tag) with keyAllowed := false, rest }
      else if (char == '|' || char == '>') && !flow then
        let scan ← scan.dropKey?
        let (text, rest) ← block? (char == '>') scan.indent rest
        let style := if char == '|' then ScalarStyle.literal else .other
        return { scan.add (.scalar text style) with keyAllowed := true, rest }
      else if char == '\'' || char == '"' then
        let scan ← scan.saveKey? next
        let (text, rest) ← quoted? (char == '\'') .text [] {} rest
        return { scan.add (.scalar text .other) with keyAllowed := false, rest }
      else if startsPlain flow char rest then
        let scan ← scan.saveKey? next
        let (shown, broken, rest) ← plain? flow (scan.indent + 1) [] {} (next :: rest)
        let text := String.ofList shown.reverse
        return { scan.add (.scalar text .plain) with keyAllowed := broken, rest }
      else none

/-- Reads tokens until nothing is left. Each takes a character, so as much fuel as there are
characters is enough. -/
def all? : (fuel : Nat) → Scan → Option (Array Token)
  | 0, _ => none
  | fuel + 1, scan => do
      let scan ← scan.fetch?
      if scan.rest.isEmpty then
        let scan ← scan.fetch?
        return scan.tokens
      else all? fuel scan

end Scan

/-- The tokens of a stream. -/
def tokens? (text : String) : Option (List Token) := do
  let chars ← place? text
  return (← Scan.all? (chars.length + 1) { rest := chars }).toList

end TracedGrammar.Yaml
