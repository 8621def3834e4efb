import TracedGrammar.Grammar

/-!
# Written grammars

A grammar in normal form: one rule a line, one blank before each part or case, and every character
of a class or literal as it was written.
-/

namespace TracedGrammar

/-- A character as it is written. -/
def SourceChar.written (char : SourceChar) : List Char :=
  if char.escaped then ['\\', char.char] else [char.char]

/-- A class member as it is written. -/
def ClassMember.written : ClassMember → List Char
  | range low high _ => low.written ++ '-' :: high.written
  | single char => char.written

/-- The quote character. -/
def Quote.char : Quote → Char
  | single => '\''
  | double => '"'

/-- The character of a suffix. -/
def Suffix.char : Suffix → Char
  | oneOrMore => '+'
  | zeroOrMore => '*'
  | optional => '?'

/-- A name as it is written. -/
def Ident.written (ident : Ident) : List Char :=
  ident.name.toList

/-- An atom as it is written. -/
def Atom.written : Atom → List Char
  | reference target => target.written
  | charClass inverted members _ =>
      '[' :: (if inverted then ['^'] else []) ++ members.flatMap ClassMember.written ++ [']']
  | literal quote chars _ => quote.char :: chars.flatMap SourceChar.written ++ [quote.char]

/-- A part as it is written. -/
def Part.written (part : Part) : List Char :=
  (match part.field with
    | some field => field.written ++ [':']
    | none => [])
    ++ (if part.stringify then ['$'] else []) ++ part.atom.written
    ++ (part.suffix.map Suffix.char).toList

/-- A rule as it is written. -/
def Rule.written : Rule → List Char
  | sequence name parts _ =>
      name.written ++ [' ', '='] ++ parts.flatMap (fun part => ' ' :: part.written) ++ [';']
  | union name cases _ =>
      name.written ++ [' ', ':'] ++ cases.flatMap (fun target => ' ' :: target.written) ++ [';']

/-- A grammar as it is written. -/
def Grammar.written (grammar : Grammar) : List Char :=
  grammar.rules.flatMap fun rule => rule.written ++ ['\n']

/-- A part in normal form. -/
def Part.display (part : Part) : String :=
  String.ofList part.written

/-- A rule in normal form. -/
def Rule.display (rule : Rule) : String :=
  String.ofList rule.written

/-- A grammar in normal form. -/
def Grammar.display (grammar : Grammar) : String :=
  String.ofList grammar.written

end TracedGrammar
