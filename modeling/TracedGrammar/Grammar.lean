import TracedGrammar.Text.Span

/-!
# Grammar documents

The syntax tree of a grammar document, with the place of every node in the text. A document is a
list of rules. A sequence rule has a shape of its own, given by its parts; a union rule stands for
one of several other rules.
-/

namespace TracedGrammar

/-- A name and its place. -/
structure Ident where
  name : String
  span : Span
deriving DecidableEq, Inhabited

/-- A character as it is written in a class or a literal: as itself, or after a backslash. -/
structure SourceChar where
  char : Char
  escaped : Bool
  span : Span
deriving DecidableEq, Inhabited

namespace SourceChar

/-- The character meant: line ends and tabs have letters for escapes, every other escaped character
means itself. -/
def value (written : SourceChar) : Char :=
  if written.escaped then
    if written.char = 'r' then '\r'
    else if written.char = 'n' then '\n'
    else if written.char = 't' then '\t'
    else written.char
  else written.char

end SourceChar

/-- A member of a class in brackets. -/
inductive ClassMember where
  | range (low high : SourceChar) (span : Span)
  | single (char : SourceChar)
deriving DecidableEq, Inhabited

/-- The quotes around a literal. -/
inductive Quote where
  | single
  | double
deriving DecidableEq, Inhabited

/-- How often a part may match. -/
inductive Suffix where
  | oneOrMore
  | zeroOrMore
  | optional
deriving DecidableEq, Inhabited

/-- The core of a part: a reference to a rule, a class or a literal. -/
inductive Atom where
  | reference (target : Ident)
  | charClass (inverted : Bool) (members : List ClassMember) (span : Span)
  | literal (quote : Quote) (chars : List SourceChar) (span : Span)
deriving DecidableEq, Inhabited

/-- An element of a sequence, with its field name, the mark that asks for its text, and its
suffix. -/
structure Part where
  field : Option Ident
  stringify : Bool
  atom : Atom
  suffix : Option Suffix
  span : Span
deriving DecidableEq, Inhabited

/-- A rule of a grammar. -/
inductive Rule where
  | sequence (name : Ident) (parts : List Part) (span : Span)
  | union (name : Ident) (cases : List Ident) (span : Span)
deriving DecidableEq, Inhabited

/-- A grammar document. -/
structure Grammar where
  rules : List Rule
  span : Span
deriving DecidableEq, Inhabited

namespace Atom

/-- The place of an atom. -/
def span : Atom → Span
  | reference target => target.span
  | charClass _ _ span => span
  | literal _ _ span => span

/-- The rule that an atom refers to. -/
def target? : Atom → Option Ident
  | reference target => some target
  | charClass .. | literal .. => none

end Atom

/-- The text that the characters of a literal mean. -/
def literalValue (chars : List SourceChar) : String :=
  String.ofList (chars.map SourceChar.value)

namespace Rule

/-- The name of a rule and its place. -/
def name : Rule → Ident
  | sequence name _ _ => name
  | union name _ _ => name

/-- The place of a rule. -/
def span : Rule → Span
  | sequence _ _ span => span
  | union _ _ span => span

/-- The rules that a rule refers to, in the order of the text. -/
def references : Rule → List Ident
  | sequence _ parts _ => parts.filterMap (·.atom.target?)
  | union _ cases _ => cases

end Rule

namespace Grammar

/-- The names of the rules in order. -/
def ruleNames (grammar : Grammar) : List String :=
  grammar.rules.map (·.name.name)

/-- The first rule of that name. -/
def rule? (grammar : Grammar) (name : String) : Option Rule :=
  grammar.rules.find? (·.name.name == name)

/-- The references to rules that the grammar does not declare, in the order of the text. -/
def unresolved (grammar : Grammar) : List Ident :=
  (grammar.rules.flatMap Rule.references).filter fun target =>
    !grammar.ruleNames.contains target.name

end Grammar

end TracedGrammar
