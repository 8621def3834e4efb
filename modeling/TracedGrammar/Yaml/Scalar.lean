import TracedGrammar.Json.Text

/-!
# Scalars of YAML

The characters of a YAML stream with their places, and the ways to write a scalar: plain, in single
or double quotes, and as a block of lines. Line breaks inside plain and quoted scalars are folded: a
single one becomes a space, and of several the first is dropped.
-/

namespace TracedGrammar.Yaml

/-- A character with its line and its column, and its number in the stream. -/
structure Placed where
  char : Char
  line : Nat
  column : Nat
  position : Nat

/-- Whether a character breaks a line. Returns have been made line feeds before. -/
def isBreak (char : Char) : Bool :=
  char == '\n' || char.toNat == 0x2028 || char.toNat == 0x2029

/-- Whether a character is a blank within a line. -/
def isBlank (char : Char) : Bool :=
  char == ' ' || char == '\t'

/-- Whether a character may occur in a stream. A byte order mark may, and takes up a column. -/
def isAllowed (char : Char) : Bool :=
  let code := char.toNat
  code == 0x9 || code == 0xa || code == 0xd || (0x20 ≤ code && code ≤ 0x7e) || code == 0x85
    || (0xa0 ≤ code && code ≤ 0xfffd) || 0x10000 ≤ code

/-- The characters with every kind of return made a line feed. -/
def joinReturns : List Char → List Char
  | [] => []
  | '\r' :: '\n' :: rest => '\n' :: joinReturns rest
  | char :: rest => (if char = '\r' || char.toNat = 0x85 then '\n' else char) :: joinReturns rest

/-- The characters with their places, from a given place on. -/
def placeFrom (line column position : Nat) : List Char → List Placed
  | [] => []
  | char :: rest =>
      ⟨char, line, column, position⟩ ::
        if isBreak char then placeFrom (line + 1) 0 (position + 1) rest
        else placeFrom line (column + 1) (position + 1) rest

/-- The characters of a stream, if all are allowed. -/
def place? (text : String) : Option (List Placed) :=
  if text.toList.all isAllowed then some (placeFrom 0 0 0 (joinReturns text.toList)) else none

/-- The next character without its place. -/
def peek? : List Placed → Option Char
  | [] => none
  | next :: _ => some next.char

/-- Whether a blank, a line break or the end comes next. -/
def atBlank (chars : List Placed) : Bool :=
  match peek? chars with
  | none => true
  | some char => isBlank char || isBreak char

/-- Whether a line break or the end comes next. -/
def atBreak (chars : List Placed) : Bool :=
  match peek? chars with
  | none => true
  | some char => isBreak char

/-- Whether the mark of a document's start or end comes next. -/
def atDocumentMark : List Placed → Bool
  | first :: second :: third :: rest =>
      first.column == 0 && (first.char == '-' || first.char == '.')
        && second.char == first.char && third.char == first.char && atBlank rest
  | _ => false

/-- Whether a character ends a plain scalar inside a flow collection. -/
def isFlowMark (char : Char) : Bool :=
  char == ',' || char == '[' || char == ']' || char == '\x7b' || char == '\x7d'

/-- The blanks and line breaks between two words of a scalar, in reverse. `broken` holds once the
line has ended; `first` is the break it ended with, unless that was escaped. -/
structure Gap where
  blanks : List Char := []
  broken : Bool := false
  first : Option Char := none
  further : List Char := []

namespace Gap

/-- The gap with one more line break. -/
def addBreak (gap : Gap) (char : Char) : Gap :=
  if gap.broken then { gap with further := char :: gap.further }
  else { broken := true, first := some char }

/-- The gap with one more blank. Blanks at the start of a line do not count. -/
def addBlank (gap : Gap) (char : Char) : Gap :=
  if gap.broken then gap else { gap with blanks := char :: gap.blanks }

/-- What a gap stands for, in reverse. -/
def folded (gap : Gap) : List Char :=
  if gap.broken then
    match gap.first with
    | some '\n' => if gap.further.isEmpty then [' '] else gap.further
    | some char => gap.further ++ [char]
    | none => gap.further
  else gap.blanks

/-- Whether the gap holds anything. -/
def isOpen (gap : Gap) : Bool :=
  gap.broken || !gap.blanks.isEmpty

end Gap

/-- The rest of a plain scalar: its text in reverse, whether it ended after a line break, and what
follows. Inside a flow collection the marks of the collection end it, elsewhere a line that is
indented less than `indent`. -/
def plain? (flow : Bool) (indent : Int) (shown : List Char) (gap : Gap) :
    List Placed → Option (List Char × Bool × List Placed)
  | [] => some (shown, gap.broken, [])
  | next :: rest =>
      let done := some (shown, gap.broken, next :: rest)
      let char := next.char
      if isBreak char then plain? flow indent shown (gap.addBreak char) rest
      else if isBlank char then
        if gap.broken && char == '\t' && (next.column : Int) < indent then none
        else plain? flow indent shown (gap.addBlank char) rest
      else if gap.broken && !flow && (next.column : Int) < indent then done
      else if gap.isOpen && (char == '#' || atDocumentMark (next :: rest)) then done
      else if flow && char == ':' && ((peek? rest).map fun after =>
          isFlowMark after || after == '?').getD false then none
      else if (char == ':' && atBlank rest) || (flow && isFlowMark char) then done
      else plain? flow indent (char :: (gap.folded ++ shown)) {} rest

/-- The character of an escape with a single letter. -/
def escaped? (letter : Char) : Option Char :=
  match letter with
  | '0' => some (Char.ofNat 0x0)
  | 'a' => some (Char.ofNat 0x7)
  | 'b' => some (Char.ofNat 0x8)
  | 't' | '\t' => some '\t'
  | 'n' => some '\n'
  | 'v' => some (Char.ofNat 0xb)
  | 'f' => some (Char.ofNat 0xc)
  | 'r' => some '\r'
  | 'e' => some (Char.ofNat 0x1b)
  | ' ' => some ' '
  | '"' => some '"'
  | '/' => some '/'
  | '\\' => some '\\'
  | 'N' => some (Char.ofNat 0x85)
  | '_' => some (Char.ofNat 0xa0)
  | 'L' => some (Char.ofNat 0x2028)
  | 'P' => some (Char.ofNat 0x2029)
  | _ => none

/-- The number of digits of an escape that gives a code point. -/
def codeDigits? (letter : Char) : Option Nat :=
  match letter with
  | 'x' => some 2
  | 'u' => some 4
  | 'U' => some 8
  | _ => none

/-- The character of a code point. -/
def ofCode? (code : Nat) : Option Char :=
  if (0xd800 ≤ code && code ≤ 0xdfff) || 0x10ffff < code then none else some (Char.ofNat code)

/-- Where the reading of a quoted scalar stands: between characters, after a backslash, or inside a
code with a number of digits still to come. -/
inductive QuoteMode where
  | text
  | escape
  | code (digits value : Nat)
  /-- After a single quote that either ends the scalar or is doubled. -/
  | quote

/-- The rest of a quoted scalar, and what follows its closing quote. -/
def quoted? (single : Bool) (mode : QuoteMode) (shown : List Char) (gap : Gap) :
    List Placed → Option (String × List Placed)
  | [] =>
      match mode with
      | .quote => some (String.ofList shown.reverse, [])
      | _ => none
  | next :: rest =>
      let char := next.char
      match mode with
      | .quote =>
          if char == '\'' then quoted? single .text ('\'' :: shown) {} rest
          else some (String.ofList shown.reverse, next :: rest)
      | .escape =>
          if isBreak char then quoted? single .text shown { broken := true } rest
          else
            match escaped? char, codeDigits? char with
            | some meant, _ => quoted? single .text (meant :: shown) {} rest
            | none, some digits => quoted? single (.code digits 0) shown {} rest
            | none, none => none
      | .code digits value =>
          match Json.hexValue? char with
          | none => none
          | some digit =>
              let value := value * 16 + digit
              if digits ≤ 1 then
                match ofCode? value with
                | some meant => quoted? single .text (meant :: shown) {} rest
                | none => none
              else quoted? single (.code (digits - 1) value) shown {} rest
      | .text =>
          if atDocumentMark (next :: rest) then none
          else if isBreak char then quoted? single .text shown (gap.addBreak char) rest
          else if isBlank char then quoted? single .text shown (gap.addBlank char) rest
          else if single && char == '\'' then
            quoted? single .quote (gap.folded ++ shown) {} rest
          else if !single && char == '"' then
            some (String.ofList (gap.folded ++ shown).reverse, rest)
          else if !single && char == '\\' then
            quoted? single .escape (gap.folded ++ shown) {} rest
          else quoted? single .text (char :: (gap.folded ++ shown)) {} rest

/-- What to do with the line breaks at the end of a block scalar. -/
inductive Chomping where
  | strip
  | clip
  | keep
deriving DecidableEq

/-- The chomping mark that comes next. -/
def chomping : List Placed → Chomping × List Placed
  | next :: rest =>
      if next.char == '+' then (.keep, rest)
      else if next.char == '-' then (.strip, rest)
      else (.clip, next :: rest)
  | [] => (.clip, [])

/-- The indentation mark that comes next, a digit other than zero; zero if there is none. -/
def indentMark? : List Placed → Option (Nat × List Placed)
  | next :: rest =>
      if next.char == '0' then none
      else if next.char.isDigit then some (next.char.toNat - 0x30, rest)
      else some (0, next :: rest)
  | [] => some (0, [])

/-- The marks after the sign of a block scalar, in either order. -/
def blockMarks? (chars : List Placed) : Option (Chomping × Nat × List Placed) := do
  match chomping chars with
  | (.clip, rest) =>
      let (indent, rest) ← indentMark? rest
      if indent = 0 then return (.clip, 0, rest)
      else
        let (chomp, rest) := chomping rest
        return (chomp, indent, rest)
  | (chomp, rest) =>
      let (indent, rest) ← indentMark? rest
      return (chomp, indent, rest)

/-- What follows the line that a block scalar's sign stands on, if only blanks and a comment are
left on it. -/
def endOfHeader? (comment : Bool) : List Placed → Option (List Placed)
  | [] => some []
  | next :: rest =>
      if isBreak next.char then some rest
      else if comment then endOfHeader? true rest
      else if isBlank next.char then endOfHeader? false rest
      else if next.char == '#' then endOfHeader? true rest
      else none

/-- Skips the indentation and the empty lines before a line of a block scalar. Yields the widest
indentation, the line breaks skipped in reverse, and what follows. Without a given indentation all
leading spaces count as such. -/
def blockGap? (indent : Option Nat) (widest : Nat) (breaks : List Char) :
    List Placed → Option (Nat × List Char × List Placed)
  | [] => some (widest, breaks, [])
  | next :: rest =>
      let widest := max widest next.column
      let inside := (indent.map fun indent => decide (next.column < indent)).getD true
      if inside && next.char == ' ' then
        blockGap? indent (max widest (next.column + 1)) breaks rest
      else if inside && next.char == '\t' then none
      else if isBreak next.char then blockGap? indent widest (next.char :: breaks) rest
      else some (widest, breaks, next :: rest)

/-- What the break before a line of a block scalar stands for, in reverse: folding makes a space of
a single break between two lines that do not start with a blank. -/
def blockJoin (folded : Bool) (lead breaks : List Char) (blankBefore blankAfter : Bool) :
    List Char :=
  if folded && lead == ['\n'] && !blankBefore && !blankAfter then
    if breaks.isEmpty then [' '] else breaks
  else breaks ++ lead

/-- The rest of a line and the break that ends it, in reverse each, and what follows. -/
def restOfLine (line : List Char) : List Placed → List Char × List Char × List Placed
  | [] => (line, [], [])
  | next :: rest =>
      if isBreak next.char then (line, [next.char], rest)
      else restOfLine (next.char :: line) rest

/-- The lines of a block scalar of a given indentation in reverse, and what follows them. `lead` is
the break before the next line and `breaks` the empty lines after it. -/
def blockLines? (folded : Bool) (chomp : Chomping) (indent : Nat) :
    (fuel : Nat) → (shown lead breaks : List Char) → (blankBefore : Bool) → List Placed →
      Option (List Char × List Placed)
  | 0, _, _, _, _, _ => none
  | fuel + 1, shown, lead, breaks, blankBefore, chars =>
      let finish :=
        match chomp with
        | .strip => some (shown, chars)
        | .clip => some (lead ++ shown, chars)
        | .keep => some (breaks ++ lead ++ shown, chars)
      match chars with
      | [] => finish
      | next :: _ =>
          if next.column = indent then
            let blankAfter := isBlank next.char
            let shown := blockJoin folded lead breaks blankBefore blankAfter ++ shown
            let (line, lead, rest) := restOfLine [] chars
            match blockGap? (some indent) 0 [] rest with
            | none => none
            | some (_, breaks, rest) =>
                blockLines? folded chomp indent fuel (line ++ shown) lead breaks blankAfter rest
          else finish

/-- A block scalar from behind its sign on, inside a collection of the given indentation, and what
follows it. -/
def block? (folded : Bool) (outer : Int) (chars : List Placed) :
    Option (String × List Placed) := do
  let (chomp, mark, rest) ← blockMarks? chars
  let rest ← endOfHeader? false rest
  let given := if mark = 0 then none else some ((max outer 0).toNat + mark)
  let (widest, breaks, rest) ← blockGap? given 0 [] rest
  let indent := given.getD (max widest (max (outer + 1).toNat 1))
  let (shown, rest) ← blockLines? folded chomp indent (rest.length + 1) [] [] breaks false rest
  return (String.ofList shown.reverse, rest)

end TracedGrammar.Yaml
