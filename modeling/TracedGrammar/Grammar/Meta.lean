import TracedGrammar.Program

/-!
# The grammar of grammar documents

`Meta.text` is the grammar that grammar documents are written in, as a document of its own.
`Meta.program` is the same grammar built from expressions by hand, which is how the first document
gets read before any can be compiled.
-/

namespace TracedGrammar.Meta

/-- The rule that matches a whole document. -/
def startRule : String := "grammar"

/-- The grammar of grammar documents as a document. -/
def text : String :=
  "grammar = _ rules:rule+;\n" ++
  "rule : union sequence;\n" ++
  "union = name:ident \":\" _ cases:kase+ \";\" _;\n" ++
  "kase = kase:ident;\n" ++
  "sequence = name:ident \"=\" _ parts:part+ \";\" _;\n" ++
  "part = field:field? stringify:\"$\"? term:term suffix:suffix?;\n" ++
  "field = name:ident \":\" _;\n" ++
  "suffix = suffix:[+*?] _;\n" ++
  "term : ref klass string1 string2;\n" ++
  "ref = name:ident;\n" ++
  "klass = \"[\" inverted:inverted? parts:classPart* \"]\" _;\n" ++
  "inverted = \"^\";\n" ++
  "classPart : range single;\n" ++
  "range = from:classChar \"-\" to:classChar;\n" ++
  "single = char:classChar;\n" ++
  "classChar : classCharEscape classCharSimple;\n" ++
  "classCharSimple = char:[^\\\\\\[\\]];\n" ++
  "classCharEscape = \"\\\\\" char:[\\\\\\[\\]rnt^-];\n" ++
  "string1 = \"'\" chars:string1Char* \"'\" _;\n" ++
  "string1Char : string1CharEscape string1CharSimple;\n" ++
  "string1CharSimple = char:[^'\\\\\\r\\n\\t];\n" ++
  "string1CharEscape = \"\\\\\" char:['\\\\rnt];\n" ++
  "string2 = '\"' chars:string2Char* '\"' _;\n" ++
  "string2Char : string2CharEscape string2CharSimple;\n" ++
  "string2CharSimple = char:[^\"\\\\\\r\\n\\t];\n" ++
  "string2CharEscape = \"\\\\\" char:[\"\\\\rnt];\n" ++
  "ident = name:$identName _;\n" ++
  "identName = [a-zA-Z_] [a-zA-Z0-9_]*;\n" ++
  "_ = [ \\t\\r\\n]*;\n"

/-- A sequence rule of the given parts. -/
def sequence (name : String) (parts : List (Option String × Expr)) : String × Expr :=
  (name, .tagged name (.sequence parts))

/-- A union rule of the given cases. -/
def union (name : String) (cases : List String) : String × Expr :=
  (name, .untagged name (.choice (cases.map .call)))

/-- A literal's rule, with a quote around the characters of another rule. -/
def quoted (name quote charRule : String) : String × Expr :=
  sequence name
    [(none, .literal quote), (some "chars", .zeroOrMore (.call charRule)), (none, .literal quote),
      (none, .call "_")]

/-- The rule of a character that is written as itself, if it is none of the given ones. -/
def simpleChar (name excluded : String) : String × Expr :=
  sequence name [(some "char", .charClass (CharClass.empty.addChars excluded).negate)]

/-- The rule of a character after a backslash, one of the given ones. -/
def escapedChar (name allowed : String) : String × Expr :=
  sequence name
    [(none, .literal "\\"), (some "char", .charClass (CharClass.empty.addChars allowed))]

/-- The characters that a name starts with. -/
def nameStart : CharClass :=
  ((CharClass.empty.addRange 'a' 'z').addRange 'A' 'Z').addChars "_"

/-- The characters of a name after the first. -/
def nameRest : CharClass :=
  (((CharClass.empty.addRange 'a' 'z').addRange 'A' 'Z').addRange '0' '9').addChars "_"

/-- The rules of the grammar of grammar documents. -/
def rules : List (String × Expr) :=
  [sequence "grammar" [(none, .call "_"), (some "rules", .oneOrMore (.call "rule"))],
    union "rule" ["union", "sequence"],
    sequence "union"
      [(some "name", .call "ident"), (none, .literal ":"), (none, .call "_"),
        (some "cases", .oneOrMore (.call "kase")), (none, .literal ";"), (none, .call "_")],
    sequence "kase" [(some "kase", .call "ident")],
    sequence "sequence"
      [(some "name", .call "ident"), (none, .literal "="), (none, .call "_"),
        (some "parts", .oneOrMore (.call "part")), (none, .literal ";"), (none, .call "_")],
    sequence "part"
      [(some "field", .optional (.call "field")), (some "stringify", .optional (.literal "$")),
        (some "term", .call "term"), (some "suffix", .optional (.call "suffix"))],
    sequence "field" [(some "name", .call "ident"), (none, .literal ":"), (none, .call "_")],
    sequence "suffix"
      [(some "suffix", .charClass (CharClass.empty.addChars "+*?")), (none, .call "_")],
    union "term" ["ref", "klass", "string1", "string2"],
    sequence "ref" [(some "name", .call "ident")],
    sequence "klass"
      [(none, .literal "["), (some "inverted", .optional (.call "inverted")),
        (some "parts", .zeroOrMore (.call "classPart")), (none, .literal "]"),
        (none, .call "_")],
    sequence "inverted" [(none, .literal "^")],
    union "classPart" ["range", "single"],
    sequence "range"
      [(some "from", .call "classChar"), (none, .literal "-"), (some "to", .call "classChar")],
    sequence "single" [(some "char", .call "classChar")],
    union "classChar" ["classCharEscape", "classCharSimple"],
    simpleChar "classCharSimple" "\\[]",
    escapedChar "classCharEscape" "\\[]rnt^-",
    quoted "string1" "'" "string1Char",
    union "string1Char" ["string1CharEscape", "string1CharSimple"],
    simpleChar "string1CharSimple" "'\\\r\n\t",
    escapedChar "string1CharEscape" "'\\rnt",
    quoted "string2" "\"" "string2Char",
    union "string2Char" ["string2CharEscape", "string2CharSimple"],
    simpleChar "string2CharSimple" "\"\\\r\n\t",
    escapedChar "string2CharEscape" "\"\\rnt",
    sequence "ident" [(some "name", .stringify (.call "identName")), (none, .call "_")],
    sequence "identName"
      [(none, .charClass nameStart), (none, .zeroOrMore (.charClass nameRest))],
    sequence "_" [(none, .zeroOrMore (.charClass (CharClass.empty.addChars " \t\r\n")))]]

/-- The grammar of grammar documents, ready to run. -/
def program : Program :=
  { rules := ⟨rules.map fun (name, expr) => (name, some expr)⟩ }

end TracedGrammar.Meta
