import TracedGrammar.CommandLine.Invocation
import TracedGrammar.Engine
import TracedGrammar.Grammar.Json
import TracedGrammar.Grammar.Text
import TracedGrammar.Trace.NodeTree

/-!
# Responses

What the program prints for a command line, and how it ends. The texts it works on are fetched
through a `Library`, so responses do not depend on where these are kept.
-/

namespace TracedGrammar.CommandLine

/-- A place to fetch texts from. There is none where nothing can be read, or no text. -/
structure Library (m : Type → Type) where
  file (path : String) : m (Option String)
  standardInput : m (Option String)

/-- How a run of the program ends. -/
inductive Ending where
  | done
  | failed (diagnostic : Diagnostic)
  | misused

/-- The exit status that tells how a run ended. -/
def Ending.status : Ending → UInt32
  | done => 0
  | failed _ => 1
  | misused => 2

/-- What a run of the program prints, and how it ends. -/
structure Response where
  output : String
  ending : Ending := .done

/-- The line that tells the version. -/
def versionLine : String := "pegtrace 0.1.0\n"

/-- The summary of the command line. -/
def usage : String :=
  "Usage: pegtrace [-v] [--config FILE] COMMAND\n\n" ++
  "Commands:\n" ++
  "  parse GRAMMAR [INPUT | -e TEXT] [-r RULE] [--json]           print the value of a text\n" ++
  "  trace GRAMMAR [INPUT | -e TEXT] [-r RULE] [--json] [--tree]  print the steps of a match\n" ++
  "  ast GRAMMAR [--json]                                         print the grammar\n" ++
  "  schema GRAMMAR [--tag-field NAME] [--no-offsets] [--max-width N] [--json]\n" ++
  "                                                               print the types of values\n" ++
  "  check GRAMMAR                                                check for undeclared rules\n" ++
  "  meta                                                         print the grammar of grammars\n"

/-- The response to words that hold no invocation. -/
def Stop.response : Stop → Response
  | misuse => { output := "", ending := .misused }
  | version => { output := versionLine }
  | help => { output := usage }

/-- JSON on lines of its own. -/
def prettyLines (json : Json) : String :=
  json.pretty ++ "\n"

/-- A number with blanks in front that make it at least six characters wide. -/
def aligned (index : Nat) : String :=
  let digits := index.repr
  "".pushn ' ' (6 - digits.length) ++ digits

/-- The line of an event: numbered, or as JSON. -/
def eventLine (json : Bool) (event : Event) (index : Nat) : String :=
  (if json then event.toJson.compact else aligned index ++ "  " ++ event.display) ++ "\n"

/-- The line of a verdict. -/
def verdictLine (json : Bool) (verdict : Verdict) : String :=
  (if json then verdict.toJson.compact
    else match verdict with
      | .accepted consumed => s!"accepted: {consumed} bytes consumed"
      | .rejected offset true => s!"rejected at offset {offset}: stopped before the end"
      | .rejected offset false => s!"rejected at offset {offset}: no match")
    ++ "\n"

/-- The response that shows a session, by its events or by the tree they build. Events that come
before a fault are shown, while the tree is shown of a session with a verdict only. -/
def traceResponse (json tree : Bool) (session : Session) : Response :=
  let (events, last) := session.collect
  let shown :=
    if tree then ""
    else String.join (events.zipIdx.map fun (event, index) => eventLine json event index)
  match last with
  | .error diagnostic => { output := shown, ending := .failed diagnostic }
  | .ok last =>
      let drawing := if tree then ((NodeTree.replay events).render?.getD "") ++ "\n" else ""
      { output := shown ++ drawing ++ ((last.verdict.map (verdictLine json)).getD "")
        ending := match last.outcome? with
          | some (.error diagnostic) => .failed diagnostic
          | _ => .done }

/-- The response that tells whether all references of a grammar are declared. -/
def checkResponse (engine : Engine) : Response :=
  match engine.grammar.unresolved with
  | [] =>
      let count := engine.grammar.rules.length
      { output := s!"ok: {count} rules, every reference resolves\n" }
  | first :: rest =>
      let undeclared := first :: rest
      let count := undeclared.length
      { output := String.join (undeclared.map fun reference =>
          "undeclared rule '" ++ reference.name ++ "' at " ++ reference.span.display ++ "\n")
        ending := .failed
          { kind := .unresolvedRule
            message := first.name
            span := some first.span
            help := some s!"{count} reference(s) to undeclared rules"
            source := some engine.source } }

variable {m : Type → Type} [Monad m]

namespace Library

/-- The report of a text that cannot be read. -/
def unreadable (what : String) : Diagnostic :=
  { kind := .io, message := "cannot read " ++ what }

/-- The text of a file. -/
def read (library : Library m) (path : String) : ExceptT Diagnostic m String := do
  match ← library.file path with
  | some text => return text
  | none => throw (unreadable path)

/-- The text to match. -/
def readSubject (library : Library m) : Subject → ExceptT Diagnostic m String
  | .inline text => return text
  | .file path => library.read path
  | .standardInput => do
      match ← library.standardInput with
      | some text => return text
      | none => throw (unreadable "standard input")

/-- The settings kept in a file, or the default ones. -/
def readSettings (library : Library m) : Option String → ExceptT Diagnostic m Settings
  | none => return {}
  | some path => do
      let text ← library.read path
      MonadExcept.ofExcept ((Settings.ofYaml text).mapError SettingsFault.diagnostic)

/-- The engine of a grammar kept in a file. -/
def readEngine (library : Library m) (path : String) (settings : Settings) :
    ExceptT Diagnostic m Engine := do
  let text ← library.read path
  MonadExcept.ofExcept (Engine.ofText path text settings)

end Library

/-- The settings with another rule to start from, if one is given. -/
def startingFrom (settings : Settings) (rule : Option String) : Settings :=
  { settings with startRule := rule.or settings.startRule }

/-- The response to a command under settings. The text to match is fetched before the grammar. -/
def Command.respond (library : Library m) (settings : Settings) :
    Command → ExceptT Diagnostic m Response
  | .parse grammar subject rule json => do
      let text ← library.readSubject subject
      let engine ← library.readEngine grammar (startingFrom settings rule)
      let value ← MonadExcept.ofExcept (engine.parse text)
      return { output := if json then prettyLines value.toJson else value.display ++ "\n" }
  | .trace grammar subject rule json tree => do
      let text ← library.readSubject subject
      let engine ← library.readEngine grammar (startingFrom settings rule)
      let session ← MonadExcept.ofExcept ((engine.session text).mapError Fault.diagnostic)
      return traceResponse json tree session
  | .ast path json => do
      let text ← library.read path
      let grammar ← MonadExcept.ofExcept (Grammar.readNamed path text)
      return { output := if json then prettyLines grammar.toJson else grammar.display }
  | .schema grammar adjust json => do
      let engine ← library.readEngine grammar { settings with schema := adjust settings.schema }
      return { output :=
        if json then prettyLines (.arr (engine.schema.map TypeDecl.toJson))
        else engine.schemaReport }
  | .check grammar => do
      let engine ← library.readEngine grammar settings
      return checkResponse engine
  | .metaGrammar => return { output := Meta.text }

/-- The response to an invocation. The settings are fetched first. -/
def Invocation.respond (library : Library m) (invocation : Invocation) : m Response := do
  let response : ExceptT Diagnostic m Response := do
    let settings ← library.readSettings invocation.config
    invocation.command.respond library settings
  match ← response.run with
  | .ok response => return response
  | .error diagnostic => return { output := "", ending := .failed diagnostic }

/-- The response to the words of a command line. -/
def respond (library : Library m) (words : List String) : m Response :=
  match Invocation.ofWords words with
  | .ok invocation => invocation.respond library
  | .error stop => return stop.response

end TracedGrammar.CommandLine
