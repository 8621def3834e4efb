import TracedGrammar.Grammar.Compile
import TracedGrammar.Grammar.Reader
import TracedGrammar.Schema.Report
import TracedGrammar.Trace.Session

/-!
# Engines

An engine is a grammar that was read once and is ready to be run: to parse a text, to trace a match,
and to report the types of the values it yields.
-/

namespace TracedGrammar

/-- A grammar ready to be run, with the document it came from and the settings it runs under. -/
structure Engine where
  source : Source
  grammar : Grammar
  settings : Settings
  startRule : String
  program : Program

namespace Engine

/-- What keeps a grammar from becoming an engine. -/
inductive LoadFault where
  | noRules
  | compile (fault : CompileFault)
  | unknownStart (rule : String) (declared : List String)

/-- The report of what keeps a grammar from becoming an engine. Faults of the grammar itself have
the document as their source. -/
def LoadFault.diagnostic (source : Source) : LoadFault → Diagnostic
  | noRules =>
      { kind := .grammar, message := "grammar declares no rules", source := some source }
  | compile fault => fault.diagnostic.withSource source
  | unknownStart rule declared =>
      (Fault.unknownStart rule).diagnostic.withHelp
        ("declared rules: " ++ ", ".intercalate declared)

/-- The rule that settings start from: the one they name if it is declared, else the first. -/
def chooseStart (settings : Settings) (grammar : Grammar) (first : Rule) :
    Except LoadFault String :=
  match settings.startRule with
  | none => .ok first.name.name
  | some rule =>
      if grammar.ruleNames.contains rule then .ok rule
      else .error (.unknownStart rule grammar.ruleNames)

/-- The engine of a grammar. -/
def ofGrammar (source : Source) (settings : Settings) (grammar : Grammar) :
    Except LoadFault Engine :=
  match grammar.rules with
  | [] => .error .noRules
  | first :: _ => do
      let program ← (grammar.compile settings.maxDepth).mapError .compile
      let startRule ← chooseStart settings grammar first
      return { source, grammar, settings, startRule, program }

/-- The engine of a document known by a name. -/
def ofText (name text : String) (settings : Settings) : Except Diagnostic Engine := do
  let grammar ← Grammar.readNamed name text
  (ofGrammar ⟨name, text⟩ settings grammar).mapError (LoadFault.diagnostic ⟨name, text⟩)

/-- The value of a text that the start rule matches in full. -/
def parse (engine : Engine) (text : String) : Except Diagnostic Value :=
  engine.program.parse engine.startRule text

/-- A session that matches the start rule with a text. -/
def session (engine : Engine) (text : String) : Except Fault Session :=
  engine.program.session engine.startRule text

/-- The events and the verdict of matching the start rule with a text. -/
def trace (engine : Engine) (text : String) : Except Diagnostic Trace :=
  engine.program.trace engine.startRule text

/-- The types of the values that the rules yield. -/
def schema (engine : Engine) : List TypeDecl :=
  engine.grammar.describe

/-- The schema report under the engine's settings. -/
def schemaReport (engine : Engine) : String :=
  SchemaReport.render engine.settings.schema engine.schema

end Engine

end TracedGrammar
