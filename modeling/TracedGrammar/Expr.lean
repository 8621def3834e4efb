import TracedGrammar.CharClass
import TracedGrammar.Text.Span

/-!
# Parsing expressions

The operations a grammar is made of. Sequences grow from `empty` by appending parts, named or not;
choices grow from `never` by further alternatives. Rules are called by name, so an expression can be
written down before the rules it mentions.

The same expression is run directly (`Expr.run`) and step by step (`Machine.advance`).
-/

namespace TracedGrammar

/-- A parsing expression. -/
inductive Expr where
  /-- Matches a text exactly. -/
  | literal (text : String)
  /-- Matches one character of a class. -/
  | charClass (set : CharClass)
  /-- Yields the text that the body consumed in place of its value. -/
  | stringify (body : Expr)
  /-- Matches nothing where the body does not match. -/
  | optional (body : Expr)
  /-- Matches the body as often as possible. -/
  | repeated (atLeastOne : Bool) (body : Expr)
  /-- Matches what the rule of that name matches. -/
  | call (rule : String)
  /-- The sequence without parts. -/
  | empty
  /-- A sequence with one more part, whose value is kept as a field if it is named. -/
  | append (before : Expr) (field : Option String) (part : Expr)
  /-- The choice without alternatives. -/
  | never
  /-- A choice with one more alternative, tried if the ones before fail. -/
  | orElse (before : Expr) (alternative : Expr)
  /-- The body of a rule whose record gets the rule's name and the span it matched. -/
  | tagged (rule : String) (body : Expr)
  /-- The body of a rule that yields the value of its body. -/
  | untagged (rule : String) (body : Expr)
  /-- The body, with the range of the grammar text it stands for. -/
  | located (span : Span) (body : Expr)
deriving DecidableEq, Inhabited

namespace Expr

/-- Matches the body as often as possible, or not at all. -/
def zeroOrMore (body : Expr) : Expr :=
  repeated false body

/-- Matches the body as often as possible, once at least. -/
def oneOrMore (body : Expr) : Expr :=
  repeated true body

/-- The sequence of the given parts. -/
def sequence (parts : List (Option String × Expr)) : Expr :=
  parts.foldl (fun before part => append before part.1 part.2) empty

/-- The choice between the given alternatives. -/
def choice (alternatives : List Expr) : Expr :=
  alternatives.foldl orElse never

/-- The parts of a sequence in order; any other expression is the only part of its own. -/
def parts : Expr → List (Option String × Expr)
  | empty => []
  | append before field part => before.parts ++ [(field, part)]
  | expr => [(none, expr)]

/-- The alternatives of a choice in order; any other expression is the only one of its own. -/
def alternatives : Expr → List Expr
  | never => []
  | orElse before alternative => before.alternatives ++ [alternative]
  | expr => [expr]

theorem parts_sequence (parts : List (Option String × Expr)) : (sequence parts).parts = parts := by
  suffices ∀ before : Expr, (parts.foldl (fun before part => append before part.1 part.2)
      before).parts = before.parts ++ parts by simpa [sequence, Expr.parts] using this empty
  intro before
  induction parts generalizing before with
  | nil => simp
  | cons part parts ih => simp [ih, Expr.parts]

end Expr

end TracedGrammar
