import TracedGrammar.Grammar
import TracedGrammar.Program
import TracedGrammar.Text.Quoted

/-!
# Compiling grammars

A grammar becomes a program: a part's atom is wrapped by its suffix, then by the mark that asks for
its text, and last by its place in the text. References carry the place of the name instead.

Two things only keep a grammar from being compiled: a rule name that is declared twice, and a range
whose bounds are the wrong way round. Undeclared rules do not; `Grammar.checkReferences` looks for
them.
-/

namespace TracedGrammar

/-- What keeps a grammar from being compiled. -/
inductive CompileFault where
  | duplicateRule (first second : Ident)
  | invertedRange (low high : Char) (span : Span)
deriving DecidableEq

/-- The report of what keeps a grammar from being compiled. -/
def CompileFault.diagnostic : CompileFault → Diagnostic
  | duplicateRule first second =>
      { kind := .grammar
        message := s!"duplicate rule '{second.name}'"
        span := some second.span
        help := some "every rule name must be declared once"
        related := [⟨first.span, "first declared here"⟩] }
  | invertedRange low high span =>
      { kind := .grammar
        message := "inverted character range '" ++ String.ofList (Text.escapeAscii low) ++ "-"
          ++ String.ofList (Text.escapeAscii high) ++ "'"
        span := some span
        help := some "write the lower bound of a range first" }

/-- The class item that a class member means. -/
def ClassMember.compile : ClassMember → Except CompileFault ClassItem
  | single char => .ok (.single char.value)
  | range low high span =>
      if high.value < low.value then .error (.invertedRange low.value high.value span)
      else .ok (.range low.value high.value)

/-- The class that the members in brackets mean. -/
def CharClass.ofMembers (inverted : Bool) (members : List ClassMember) :
    Except CompileFault CharClass := do
  return { isNegated := inverted, items := ← members.mapM ClassMember.compile }

/-- The expression that an atom means. -/
def Atom.compile : Atom → Except CompileFault Expr
  | reference target => .ok (.located target.span (.call target.name))
  | charClass inverted members _ => (CharClass.ofMembers inverted members).map .charClass
  | literal _ chars _ => .ok (.literal (literalValue chars))

/-- An expression under a suffix. -/
def Suffix.wrap (expr : Expr) : Option Suffix → Expr
  | none => expr
  | some oneOrMore => .oneOrMore expr
  | some zeroOrMore => .zeroOrMore expr
  | some optional => .optional expr

/-- The expression of a part whose atom means the given one. -/
def Part.wrap (part : Part) (core : Expr) : Expr :=
  let repeated := Suffix.wrap core part.suffix
  let marked := if part.stringify then .stringify repeated else repeated
  match part.atom with
  | .reference _ => marked
  | .charClass .. | .literal .. => .located part.span marked

/-- The expression that a part means. -/
def Part.compile (part : Part) : Except CompileFault Expr :=
  part.atom.compile.map part.wrap

/-- The named expression that a part adds to a sequence. -/
def Part.compileNamed (part : Part) : Except CompileFault (Option String × Expr) :=
  part.compile.map fun expr => (part.field.map (·.name), expr)

/-- The expression that a rule means. -/
def Rule.compile : Rule → Except CompileFault Expr
  | sequence name parts _ => do
      return .tagged name.name (.sequence (← parts.mapM Part.compileNamed))
  | union name cases _ =>
      let calls := cases.map fun target => Expr.located target.span (.call target.name)
      .ok (.untagged name.name (.choice calls))

namespace Grammar

/-- The first name of a list that occurred before, with its first occurrence. -/
def findDuplicate? (earlier : List Ident) : List Ident → Option (Ident × Ident)
  | [] => none
  | ident :: idents =>
      match earlier.find? (·.name == ident.name) with
      | some first => some (first, ident)
      | none => findDuplicate? (earlier ++ [ident]) idents

/-- The named expressions that the rules mean. -/
def compileRules (grammar : Grammar) : Except CompileFault (List (String × Expr)) :=
  match findDuplicate? [] (grammar.rules.map Rule.name) with
  | some (first, second) => .error (.duplicateRule first second)
  | none => grammar.rules.mapM fun rule => rule.compile.map fun expr => (rule.name.name, expr)

/-- The program that a grammar means, under a limit on nested calls. -/
def compile (grammar : Grammar) (maxDepth : Nat) : Except CompileFault Program :=
  grammar.compileRules.map fun rules =>
    { rules := ⟨rules.map fun (name, expr) => (name, some expr)⟩, maxDepth }

/-- The report of the first reference to a rule that the grammar does not declare, if there is
one. -/
def checkReferences (grammar : Grammar) : Except Diagnostic Unit :=
  match grammar.unresolved with
  | [] => .ok ()
  | first :: _ =>
      .error { kind := .unresolvedRule, message := first.name, span := some first.span }

end Grammar

end TracedGrammar
