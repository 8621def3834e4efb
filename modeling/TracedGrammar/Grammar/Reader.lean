import TracedGrammar.Grammar.Meta
import TracedGrammar.Grammar.OfValue
import TracedGrammar.Text.Blank

/-!
# Reading grammar documents

A document is matched with the grammar of grammar documents, and the value becomes the syntax tree.
Any program can take the place of that grammar, for instance one compiled from `Meta.text`.
Mismatches are reported with the document as their source.
-/

namespace TracedGrammar.Grammar

/-- Reads a document with the given grammar of grammar documents. A blank document has no rules. -/
def readWith (reader : Program) (name text : String) : Except Diagnostic Grammar :=
  if Text.isBlank text then .ok ⟨[], ⟨0, text.utf8ByteSize⟩⟩
  else
    match reader.parse Meta.startRule text with
    | .error diagnostic => .error (diagnostic.replaceSource ⟨name, text⟩)
    | .ok value => (Grammar.ofValue value).mapError ShapeFault.diagnostic

/-- Reads a document known by a name. -/
def readNamed (name text : String) : Except Diagnostic Grammar :=
  readWith Meta.program name text

/-- Reads a document without a name of its own. -/
def read (text : String) : Except Diagnostic Grammar :=
  readNamed "grammar" text

end TracedGrammar.Grammar
