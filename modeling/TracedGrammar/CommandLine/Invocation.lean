import TracedGrammar.Settings.Yaml

/-!
# Invocations

What the words of a command line ask for. A word is a long switch, a cluster of short switches, the
separator behind which nothing is a switch, or a plain word: the verb first, then its operands.
Words take effect from left to right, so the first one that is refused, or that asks for the version
or for help, decides.
-/

namespace TracedGrammar.CommandLine

/-- What the program can be asked to do. -/
inductive Verb where
  | parse
  | trace
  | ast
  | schema
  | check
  | metaGrammar
deriving DecidableEq

/-- The verb that a word names. -/
def Verb.ofName? : String → Option Verb
  | "parse" => some parse
  | "trace" => some trace
  | "ast" => some ast
  | "schema" => some schema
  | "check" => some check
  | "meta" => some metaGrammar
  | _ => none

/-- How many operands a verb takes at most. -/
def Verb.operands : Verb → Nat
  | parse | trace => 2
  | ast | schema | check => 1
  | metaGrammar => 0

/-- Whether the words behind the word `help` ask for help on one thing: on a verb, on help itself,
or on the whole program if there are none. -/
def isTopic : List String → Bool
  | [] => true
  | [word] => word == "help" || (Verb.ofName? word).isSome
  | _ => false

/-- What a switch is about. -/
inductive Switch where
  | verbose
  | config
  | version
  | help
  | text
  | rule
  | json
  | tree
  | tagField
  | noOffsets
  | maxWidth
deriving DecidableEq

namespace Switch

/-- The name of a switch behind two dashes. -/
def name : Switch → String
  | verbose => "verbose"
  | config => "config"
  | version => "version"
  | help => "help"
  | text => "text"
  | rule => "rule"
  | json => "json"
  | tree => "tree"
  | tagField => "tag-field"
  | noOffsets => "no-offsets"
  | maxWidth => "max-width"

/-- The letter of a switch behind one dash. -/
def letter? : Switch → Option Char
  | verbose => some 'v'
  | version => some 'V'
  | help => some 'h'
  | text => some 'e'
  | rule => some 'r'
  | _ => none

/-- Whether a switch takes a value. -/
def takesValue : Switch → Bool
  | config | text | rule | tagField | maxWidth => true
  | _ => false

/-- The switches that may be given before the verb, or after a verb. -/
def allowed : Option Verb → List Switch
  | none => [verbose, config, help, version]
  | some .parse => [verbose, config, help, text, rule, json]
  | some .trace => [verbose, config, help, text, rule, json, tree]
  | some .ast => [verbose, config, help, json]
  | some .schema => [verbose, config, help, tagField, noOffsets, maxWidth, json]
  | some .check | some .metaGrammar => [verbose, config, help]

end Switch

/-- A natural of 64 bits in decimal; a plus sign may stand in front. -/
def natural? (text : String) : Option Nat :=
  let chars := match text.toList with
    | '+' :: rest => rest
    | chars => chars
  (Yaml.digits? 10 chars).filter (· < UInt64.size)

/-- Whether a switch can take a value. Paths have at least one character. -/
def Switch.admits : Switch → String → Bool
  | config, value => !value.isEmpty
  | maxWidth, value => (natural? value).isSome
  | _, _ => true

/-- The form of a word. A single dash is a plain word. -/
inductive Word where
  | separator
  | long (name : String) (value : Option String)
  | cluster (letters : List Char)
  | plain

/-- The form that a word has. -/
def Word.ofText (text : String) : Word :=
  match text.toList with
  | ['-', '-'] => separator
  | '-' :: '-' :: chars =>
      match chars.dropWhile (· != '=') with
      | _ :: value =>
          long (String.ofList (chars.takeWhile (· != '='))) (some (String.ofList value))
      | [] => long (String.ofList chars) none
  | '-' :: letter :: letters => cluster (letter :: letters)
  | _ => plain

/-- What a word, or a switch with the word after it, contributes. -/
inductive Item where
  | verb (verb : Verb)
  | given (switch : Switch) (value : String)
  | operand (text : String)
  | refused

/-- What a cluster of letters contributes, and the switch at its end that still lacks its value. A
value may follow its letter, with or without an equals sign in between. -/
def Item.ofCluster (allowed : List Switch) : List Char → List Item × Option Switch
  | [] => ([], none)
  | letter :: letters =>
      match allowed.find? (·.letter? == some letter) with
      | none => ([refused], none)
      | some switch =>
          if switch.takesValue then
            match letters with
            | [] => ([], some switch)
            | '=' :: value => ([given switch (String.ofList value)], none)
            | value => ([given switch (String.ofList value)], none)
          else
            let (items, lacking) := ofCluster allowed letters
            (given switch "" :: items, lacking)

/-- What the words after a verb, or before any, contribute in order. A switch that lacks its value
takes the next word as its value, which has to be a plain one. -/
def Item.ofWords (verb? : Option Verb) (lacking : Option Switch) : List String → List Item
  | [] => if lacking.isSome then [refused] else []
  | word :: words =>
      match lacking, Word.ofText word with
      | some switch, .plain => given switch word :: ofWords verb? none words
      | some _, _ => [refused]
      | none, .separator =>
          words.map fun word => if verb?.isSome then operand word else refused
      | none, .plain =>
          match verb?, Verb.ofName? word with
          | some _, _ => operand word :: ofWords verb? none words
          | none, some found => verb found :: ofWords (some found) none words
          | none, none => [if word == "help" && isTopic words then given .help "" else refused]
      | none, .long name value =>
          match (Switch.allowed verb?).find? (·.name == name), value with
          | none, _ => [refused]
          | some switch, some value =>
              if switch.takesValue then given switch value :: ofWords verb? none words
              else [refused]
          | some switch, none =>
              if switch.takesValue then ofWords verb? (some switch) words
              else given switch "" :: ofWords verb? none words
      | none, .cluster letters =>
          let (items, lacking) := ofCluster (Switch.allowed verb?) letters
          items ++ ofWords verb? lacking words

/-- Where the text to match comes from. -/
inductive Subject where
  | inline (text : String)
  | file (path : String)
  | standardInput

/-- A verb with what it needs. -/
inductive Command where
  | parse (grammar : String) (subject : Subject) (rule : Option String) (json : Bool)
  | trace (grammar : String) (subject : Subject) (rule : Option String) (json tree : Bool)
  | ast (grammar : String) (json : Bool)
  | schema (grammar : String) (adjust : SchemaStyle → SchemaStyle) (json : Bool)
  | check (grammar : String)
  | metaGrammar

/-- A command, and the path of the settings it runs under. -/
structure Invocation where
  config : Option String
  command : Command

/-- Why the words of a command line hold no invocation. -/
inductive Stop where
  | misuse
  | version
  | help

/-- What has been read of a command line: the verb, the switches before it and after it, and its
operands. The latest switch comes first. -/
structure Draft where
  verb : Option Verb := none
  before : List (Switch × String) := []
  given : List (Switch × String) := []
  operands : List String := []

namespace Draft

/-- The draft with one more item. Only `verbose` can be repeated, but the switches before the verb
do not count against the ones after it. -/
def add (draft : Draft) : Item → Except Stop Draft
  | .verb verb => .ok { draft with verb := some verb, before := draft.given, given := [] }
  | .operand path =>
      let most := (draft.verb.map Verb.operands).getD 0
      if path.isEmpty || most ≤ draft.operands.length then .error .misuse
      else .ok { draft with operands := draft.operands ++ [path] }
  | .given .version _ => .error .version
  | .given .help _ => .error .help
  | .given switch value =>
      if switch.admits value && (switch == .verbose || (draft.given.lookup switch).isNone) then
        .ok { draft with given := (switch, value) :: draft.given }
      else .error .misuse
  | .refused => .error .misuse

/-- The value of a switch; the one after the verb takes precedence. -/
def value? (draft : Draft) (switch : Switch) : Option String :=
  (draft.given.lookup switch).or (draft.before.lookup switch)

/-- Whether a switch is given. -/
def has (draft : Draft) (switch : Switch) : Bool :=
  (draft.value? switch).isSome

/-- Where the text to match comes from. It is either given inline or read, not both. -/
def subject? (draft : Draft) : List String → Option Subject
  | [] => some (((draft.value? .text).map .inline).getD .standardInput)
  | [path] => if draft.has .text then none else some (.file path)
  | _ => none

/-- The options of the schema report with the ones given in their place. -/
def adjustStyle (draft : Draft) (style : SchemaStyle) : SchemaStyle :=
  { tagField := (draft.value? .tagField).getD style.tagField
    includeOffsets := style.includeOffsets && !draft.has .noOffsets
    maxWidth := ((draft.value? .maxWidth).bind natural?).or style.maxWidth }

/-- The command of a draft that is complete. -/
def command? (draft : Draft) : Option Command :=
  match draft.verb, draft.operands with
  | some .parse, grammar :: paths =>
      (draft.subject? paths).map fun subject =>
        .parse grammar subject (draft.value? .rule) (draft.has .json)
  | some .trace, grammar :: paths =>
      (draft.subject? paths).map fun subject =>
        .trace grammar subject (draft.value? .rule) (draft.has .json) (draft.has .tree)
  | some .ast, [grammar] => some (.ast grammar (draft.has .json))
  | some .schema, [grammar] => some (.schema grammar draft.adjustStyle (draft.has .json))
  | some .check, [grammar] => some (.check grammar)
  | some .metaGrammar, [] => some .metaGrammar
  | _, _ => none

end Draft

/-- The invocation that words stand for. -/
def Invocation.ofWords (words : List String) : Except Stop Invocation := do
  let draft ← (Item.ofWords none none words).foldlM Draft.add {}
  match draft.command? with
  | some command => return { config := draft.value? .config, command }
  | none => throw .misuse

end TracedGrammar.CommandLine
