import TracedGrammar.Text.Span

/-!
# Diagnostics

What is reported when something goes wrong: the area it belongs to, a message, and where available
the place in a source text, advice, and further places with labels. Each area of the library has
its own type of causes and one function that words them as a diagnostic.
-/

namespace TracedGrammar

/-- A text with the name it is known by. -/
structure Source where
  name : String
  text : String
deriving DecidableEq

/-- A further place in the source, with what it has to do with the problem. -/
structure Label where
  span : Span
  text : String
deriving DecidableEq

namespace Diagnostic

/-- The area a problem belongs to. -/
inductive Kind where
  | parse
  | unresolvedRule
  | grammar
  | config
  | io
  | internal
deriving DecidableEq

namespace Kind

/-- The name of the area. -/
def name : Kind → String
  | parse => "Parse"
  | unresolvedRule => "UnresolvedRule"
  | grammar => "Grammar"
  | config => "Config"
  | io => "Io"
  | internal => "Internal"

/-- The code of the area, for lookup in documentation. -/
def code : Kind → String
  | parse => "pegtrace::parse"
  | unresolvedRule => "pegtrace::unresolved_rule"
  | grammar => "pegtrace::grammar"
  | config => "pegtrace::config"
  | io => "pegtrace::io"
  | internal => "pegtrace::internal"

end Kind

end Diagnostic

/-- A report of one problem. -/
structure Diagnostic where
  kind : Diagnostic.Kind
  message : String
  span : Option Span := none
  help : Option String := none
  source : Option Source := none
  related : List Label := []
deriving DecidableEq

namespace Diagnostic

/-- The diagnostic with a source attached, unless it has one. -/
def withSource (diagnostic : Diagnostic) (source : Source) : Diagnostic :=
  { diagnostic with source := diagnostic.source.or source }

/-- The diagnostic with its source replaced. -/
def replaceSource (diagnostic : Diagnostic) (source : Source) : Diagnostic :=
  { diagnostic with source := some source }

/-- The diagnostic with its advice replaced. -/
def withHelp (diagnostic : Diagnostic) (help : String) : Diagnostic :=
  { diagnostic with help := some help }

/-- The message with its area in front. -/
def display (diagnostic : Diagnostic) : String :=
  match diagnostic.kind with
  | .parse => "Parse error: " ++ diagnostic.message
  | .unresolvedRule => "Unresolved rule '" ++ diagnostic.message ++ "'"
  | .grammar => "Grammar error: " ++ diagnostic.message
  | .config => "Configuration error: " ++ diagnostic.message
  | .io => "I/O error: " ++ diagnostic.message
  | .internal => "Internal error: " ++ diagnostic.message

/-- The labels to draw into the source, the primary place with the message first. Without a source
there is nothing to draw into. -/
def labels (diagnostic : Diagnostic) : List Label :=
  match diagnostic.source with
  | none => []
  | some _ =>
      (diagnostic.span.map fun span => Label.mk span diagnostic.message).toList
        ++ diagnostic.related

end Diagnostic

end TracedGrammar
