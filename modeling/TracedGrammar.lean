import TracedGrammar.CharClass
import TracedGrammar.CommandLine.Invocation
import TracedGrammar.CommandLine.Response
import TracedGrammar.Context
import TracedGrammar.Diagnostic
import TracedGrammar.Engine
import TracedGrammar.Expr
import TracedGrammar.Grammar
import TracedGrammar.Grammar.Compile
import TracedGrammar.Grammar.Json
import TracedGrammar.Grammar.Meta
import TracedGrammar.Grammar.OfValue
import TracedGrammar.Grammar.Reader
import TracedGrammar.Grammar.Text
import TracedGrammar.Json
import TracedGrammar.Json.Shape
import TracedGrammar.Json.Text
import TracedGrammar.Main
import TracedGrammar.Program
import TracedGrammar.Registry
import TracedGrammar.Run
import TracedGrammar.Schema
import TracedGrammar.Schema.Report
import TracedGrammar.Settings
import TracedGrammar.Settings.Yaml
import TracedGrammar.Text.Blank
import TracedGrammar.Text.Capital
import TracedGrammar.Text.Cursor
import TracedGrammar.Text.Invisible
import TracedGrammar.Text.Quoted
import TracedGrammar.Text.Span
import TracedGrammar.Trace.Event
import TracedGrammar.Trace.Machine
import TracedGrammar.Trace.NodeTree
import TracedGrammar.Trace.Session
import TracedGrammar.Trace.WatchedTree
import TracedGrammar.Trace.Work
import TracedGrammar.Value
import TracedGrammar.Value.Text
import TracedGrammar.Yaml.Node
import TracedGrammar.Yaml.Scalar
import TracedGrammar.Yaml.Tag
import TracedGrammar.Yaml.Token
import TracedGrammar.Proofs.Text.Cursor
import TracedGrammar.Proofs.Trace.Derivation
import TracedGrammar.Proofs.Trace.Matching
import TracedGrammar.Proofs.Trace.Simulation
import TracedGrammar.Proofs.Trace.History
import TracedGrammar.Proofs.Trace.Agreement
import TracedGrammar.Proofs.Json.Unquote
import TracedGrammar.Proofs.Trace.Consumed
import TracedGrammar.Proofs.Display.Decode
import TracedGrammar.Proofs.Display.Growth
import TracedGrammar.Proofs.Display.Faithful
import TracedGrammar.Proofs.Grammar.Compiled
import TracedGrammar.Proofs.Grammar.Meaning
import TracedGrammar.Proofs.Grammar.Adequacy
import TracedGrammar.Proofs.Display.Projection
import TracedGrammar.Proofs.Schema.Soundness
import TracedGrammar.Proofs.Trace.Rollback
import TracedGrammar.Proofs.Document.Following
import TracedGrammar.Proofs.Document.Syntax
import TracedGrammar.Proofs.Document.Reader
import TracedGrammar.Proofs.Document.RoundTrip
import TracedGrammar.Proofs.Trace.Places
import TracedGrammar.Proofs.Document.SelfHosting
import TracedGrammar.Proofs.Trace.Termination
import TracedGrammar.Proofs.Trace.Boundaries
import TracedGrammar.Proofs.Trace.Brackets
import TracedGrammar.Proofs.Value.Positions
import TracedGrammar.Proofs.Trace.Extents
import TracedGrammar.Proofs.Display.Forest
import TracedGrammar.Proofs.Display.Ascending
import TracedGrammar.Proofs.Display.Handles
import TracedGrammar.Proofs.Display.Edits
import TracedGrammar.Proofs.Trace.OpenRules
import TracedGrammar.Proofs.Document.Outcome
import TracedGrammar.Proofs.Document.Spans
import TracedGrammar.Proofs.Document.Classes
import TracedGrammar.Proofs.Trace.SameRules
import TracedGrammar.Proofs.Trace.NestingLimit
import TracedGrammar.Proofs.Grammar.References
import TracedGrammar.Proofs.Trace.PlaceOwners
import TracedGrammar.Proofs.Grammar.Assembly
import TracedGrammar.Proofs.Value.Spelling
import TracedGrammar.Proofs.Value.Nesting
import TracedGrammar.Proofs.Value.Keys
import TracedGrammar.Proofs.Schema.Members
import TracedGrammar.Proofs.Grammar.RuleOrder
import TracedGrammar.Proofs.Matching.Relocation
import TracedGrammar.Proofs.Grammar.Failures
import TracedGrammar.Proofs.Grammar.Interpretation
import TracedGrammar.Proofs.Grammar.CompileFaults
import TracedGrammar.Proofs.Document.Truncation
import TracedGrammar.Proofs.Document.Mismatch
import TracedGrammar.Proofs.Registry.Bookkeeping
import TracedGrammar.Proofs.Trace.Endings
import TracedGrammar.Proofs.Display.Locality
import TracedGrammar.Proofs.Display.Traversal
import TracedGrammar.Proofs.Schema.Width
import TracedGrammar.Proofs.Schema.TypeNames
import TracedGrammar.Proofs.Json.Omission
import TracedGrammar.Proofs.Grammar.JsonRoundTrip
import TracedGrammar.Proofs.Trace.Log
import TracedGrammar.Proofs.Trace.OpenCalls
