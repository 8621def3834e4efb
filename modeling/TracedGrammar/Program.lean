import TracedGrammar.Run

/-!
# Programs

A program is a registry of rules with a limit on nested calls. `Program.run` matches a rule at the
start of a text, and `Program.parse` demands in addition that nothing of the text is left.
-/

namespace TracedGrammar

/-- The limit on nested calls where none is asked for. -/
def defaultMaxDepth : Nat := 512

/-- Rules that can be run, and the limit on nested calls. -/
structure Program where
  rules : Registry Expr
  maxDepth : Nat := defaultMaxDepth

/-- A text that a rule did not match in full: where the cursor stopped, and whether the rule matched
up to there. -/
structure Rejection where
  rule : String
  text : String
  offset : Nat
  matched : Bool

/-- The name that diagnostics give to the text being parsed. -/
def inputSource (text : String) : Source :=
  ⟨"input", text⟩

/-- The report of a rejection. -/
def Rejection.diagnostic (rejection : Rejection) : Diagnostic :=
  let { rule, text, offset, matched } := rejection
  if matched then
    { kind := .parse
      message := s!"rule '{rule}' stopped before the end of input"
      span := some (.point offset)
      help := some s!"{offset} of {text.utf8ByteSize} bytes were consumed"
      source := some (inputSource text) }
  else
    { kind := .parse
      message := s!"input does not match rule '{rule}'"
      span := some (.point offset)
      source := some (inputSource text) }

namespace Program

/-- The program of a list of named expressions. -/
def ofList (rules : List (String × Expr)) (maxDepth : Nat) : Except Registry.Misuse Program :=
  (Registry.ofList rules).map fun registry => ⟨registry, maxDepth⟩

/-- The rule names in order. -/
def names (program : Program) : List String :=
  program.rules.names

/-- The rule declared first. -/
def firstRule? (program : Program) : Option String :=
  program.names.head?

/-- Matches an expression in a context. -/
def reply (program : Program) (expr : Expr) : Matcher :=
  expr.run program.rules program.maxDepth

/-- Matches a rule at the start of a text; yields the outcome and the offset where the cursor
stopped. The rule is entered by a call, so it counts toward the nesting limit. -/
def run (program : Program) (start text : String) : Except Fault (Outcome × Nat) :=
  match program.rules.resolve? start with
  | none => .error (.unknownStart start)
  | some _ =>
      match program.reply (.call start) (.start text) with
      | .ok outcome context => .ok (outcome, context.offset)
      | .error fault _ => .error fault

/-- The value of a rule that matches a whole text. -/
def parse (program : Program) (start text : String) : Except Diagnostic Value :=
  match program.run start text with
  | .error fault => .error (fault.diagnostic.withSource (inputSource text))
  | .ok (.matched value, offset) =>
      if offset = text.utf8ByteSize then .ok value
      else .error (Rejection.diagnostic ⟨start, text, offset, true⟩)
  | .ok (.failed _, offset) => .error (Rejection.diagnostic ⟨start, text, offset, false⟩)

end Program

end TracedGrammar
